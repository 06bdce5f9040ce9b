import StoreSync.ByteCount
import StoreSync.Collection
import StoreSync.Command
import StoreSync.CommandLine.Exit
import StoreSync.CommandLine.Invocation
import StoreSync.CommandLine.Words
import StoreSync.Connection
import StoreSync.Console
import StoreSync.Crew
import StoreSync.Diff
import StoreSync.Document.Basic
import StoreSync.Document.Reader
import StoreSync.Eligibility
import StoreSync.Entry
import StoreSync.Exchange
import StoreSync.Execution
import StoreSync.Fault
import StoreSync.Files.Change
import StoreSync.Files.Resolve
import StoreSync.Files.Tree
import StoreSync.Files.Walk
import StoreSync.Freshness
import StoreSync.Glob.Basic
import StoreSync.Glob.Decision
import StoreSync.Glob.FixedPart
import StoreSync.Glob.Reader
import StoreSync.Handoff
import StoreSync.Ledger
import StoreSync.Listing
import StoreSync.LocalListing
import StoreSync.Location.Basic
import StoreSync.Main
import StoreSync.Moment
import StoreSync.Notice
import StoreSync.Number.Binary64
import StoreSync.Number.Power
import StoreSync.Number.Rounding
import StoreSync.ObjectStore.Basic
import StoreSync.Pipeline
import StoreSync.Placement
import StoreSync.Plan
import StoreSync.Proofs.Actions
import StoreSync.Proofs.BrokenRuns
import StoreSync.Proofs.BulkDeletions
import StoreSync.Proofs.CancelledListings
import StoreSync.Proofs.CleanExits
import StoreSync.Proofs.Collections
import StoreSync.Proofs.CommandEffects
import StoreSync.Proofs.CompleteListings
import StoreSync.Proofs.Confinement
import StoreSync.Proofs.Convergence
import StoreSync.Proofs.CoveredKeys
import StoreSync.Proofs.CrewAccounts
import StoreSync.Proofs.CrewCancellation
import StoreSync.Proofs.Crews
import StoreSync.Proofs.DeletedCounts
import StoreSync.Proofs.DistinctDestinations
import StoreSync.Proofs.EligibleEntries
import StoreSync.Proofs.Exchanges
import StoreSync.Proofs.Exclusion
import StoreSync.Proofs.FailedListings
import StoreSync.Proofs.FileTimes
import StoreSync.Proofs.FollowedPaths
import StoreSync.Proofs.KeyPaths
import StoreSync.Proofs.Landings
import StoreSync.Proofs.LexicalPaths
import StoreSync.Proofs.ListedFiles
import StoreSync.Proofs.ListedObjects
import StoreSync.Proofs.MatchedFiles
import StoreSync.Proofs.Overlaps
import StoreSync.Proofs.Partition
import StoreSync.Proofs.PipelineProgress
import StoreSync.Proofs.Pipelines
import StoreSync.Proofs.PlanAccounts
import StoreSync.Proofs.PlanCommands
import StoreSync.Proofs.ReachedFiles
import StoreSync.Proofs.PrintedLocations
import StoreSync.Proofs.RemoteDelivery
import StoreSync.Proofs.RemovalCounts
import StoreSync.Proofs.RemovalCoverage
import StoreSync.Proofs.Reruns
import StoreSync.Proofs.Resolution
import StoreSync.Proofs.Respellings
import StoreSync.Proofs.Retention
import StoreSync.Proofs.RunOutcomes
import StoreSync.Proofs.Runs
import StoreSync.Proofs.Sessions
import StoreSync.Proofs.SingleObjects
import StoreSync.Proofs.SourceNames
import StoreSync.Proofs.StoreContents
import StoreSync.Proofs.Transfers
import StoreSync.Proofs.TreeGrowth
import StoreSync.Proofs.TrialRuns
import StoreSync.Proofs.UnbrokenListings
import StoreSync.Proofs.WalkedFiles
import StoreSync.Proofs.WrappedFaults
import StoreSync.RemoteListing
import StoreSync.Scalar
import StoreSync.Settings
import StoreSync.StorageClass
import StoreSync.Sync.Options
import StoreSync.Sync.Report
import StoreSync.Sync.Run
import StoreSync.Text.Blank
import StoreSync.Text.CellWidth
import StoreSync.Text.Digit
import StoreSync.Text.Integer
import StoreSync.Text.Printable
import StoreSync.Text.Quoted
import StoreSync.Text.Ranges
import StoreSync.Text.Slash
import StoreSync.Text.Upper
import StoreSync.Transfer
import StoreSync.World
