import StoreSync.CommandLine.Words
import StoreSync.Connection
import StoreSync.Sync.Options
import StoreSync.Text.Integer

/-!
What a command line asks for. Settings from the environment stand in for switches that are not
given.
-/
namespace StoreSync.CommandLine

structure Invocation where
  json : Bool
  quiet : Bool
  verbose : Bool
  source : String
  destination : String
  options : Sync.Options
  connection : Connection
  deriving DecidableEq

def globalSwitches : List Switch :=
  [⟨"quiet", some 'q', false⟩, ⟨"json", none, false⟩, ⟨"verbose", some 'v', false⟩,
    ⟨"dry-run", none, false⟩, ⟨"workers", some 'w', true⟩, ⟨"endpoint-url", none, true⟩,
    ⟨"no-verify-ssl", none, false⟩]

def syncSwitches : List Switch :=
  [⟨"delete", none, false⟩, ⟨"size-only", none, false⟩, ⟨"exclude", none, true⟩,
    ⟨"sse", none, true⟩, ⟨"sse-kms-key-id", none, true⟩, ⟨"storage-class", none, true⟩,
    ⟨"raw", none, false⟩, ⟨"source-region", none, true⟩, ⟨"destination-region", none, true⟩,
    ⟨"no-follow-symlinks", none, false⟩]

/-- The number of workers on the command line; a number that cannot be read is a mistake. -/
def workersOf (global : Reading) : Option (Option Int) :=
  match global.value? "workers" with
  | none => some none
  | some text => (Text.Integer.read? text).map some

/-- Zero workers stand for the default. -/
def effectiveWorkers (given : Option Int) (s : Settings) : Int :=
  match given with
  | none => s.workers
  | some n => if n = 0 then s.workers else n

def leastPool : Int := 10

def connectionOf (global : Reading) (s : Settings) (workers : Int) : Connection where
  endpoint := ((global.value? "endpoint-url").filter (· ≠ "")).or s.endpoint
  region := s.region
  skipVerification := global.has "no-verify-ssl" || s.skipVerification
  maxRetries := s.maxRetries
  poolSize := max workers leastPool

def optionsOf (global sync : Reading) (workers : Int) : Sync.Options where
  delete := sync.has "delete"
  sizeOnly := sync.has "size-only"
  exclude := sync.values "exclude"
  sse := sync.value? "sse"
  sseKmsKeyId := sync.value? "sse-kms-key-id"
  storageClass := sync.value? "storage-class"
  raw := sync.has "raw"
  sourceRegion := sync.value? "source-region"
  destinationRegion := sync.value? "destination-region"
  followLinks := !sync.has "no-follow-symlinks"
  workers := workers
  trial := global.has "dry-run"

def Invocation.ofWords? (env : Environment) (words : List String) : Option Invocation := do
  let global ← read globalSwitches false words
  let given ← workersOf global
  match global.operands with
  | "sync" :: rest =>
      let sync ← read syncSwitches true rest
      match sync.operands with
      | [source, destination] =>
          let settings := Settings.ofEnvironment env
          let workers := effectiveWorkers given settings
          pure ⟨global.has "json", global.has "quiet", global.has "verbose", source, destination,
            optionsOf global sync workers, connectionOf global settings workers⟩
      | _ => none
  | _ => none

end StoreSync.CommandLine
