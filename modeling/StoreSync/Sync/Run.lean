import StoreSync.Eligibility
import StoreSync.Ledger
import StoreSync.LocalListing
import StoreSync.RemoteListing
import StoreSync.Sync.Options
import StoreSync.Sync.Report
import StoreSync.Transfer

/-!
A run: both sides are listed, the eligible entries compared, and the commands of the plan run
one after the other, as one worker runs them. A fault in the listings or a shortage of file
descriptors ends the run; the faults of single commands are collected.
-/
namespace StoreSync.Sync

open Transfer

inductive Mismatch where
  | pattern (destination : String)
  | identical
  deriving DecidableEq

def Mismatch.message : Mismatch → String
  | pattern destination => "target " ++ destination ++ " can not contain glob characters"
  | identical => "source and destination cannot be the same"

def mismatch? (source destination : Location) : Option Mismatch :=
  if destination.isWildcard then some (.pattern destination.text)
  else if source.same destination then some .identical
  else none

structure Ends where
  source : Location
  destination : Location
  deriving DecidableEq

def invalid (i : InvalidLocation) : Fault := .plain .location i.message

def ends (source destination : String) (raw : Bool) : Except Fault Ends :=
  match Location.parse source raw with
  | .error i => .error (invalid i)
  | .ok s =>
      match Location.parse destination raw with
      | .error i => .error (invalid i)
      | .ok d =>
          match mismatch? s d with
          | some m => .error (.plain .validation m.message)
          | none => .ok ⟨s, d⟩

def listingLocation (destination : Location) : Location :=
  let path := destination.path
  ⟨destination.scheme, destination.bucket,
    if destination.isRemote && path ≠ "" && !Text.Slash.endsInSlash path.toList then path ++ "/"
    else path, true, none⟩

def listSide (side : Side) (l : Location) (followLinks : Bool) (watch : Watch) :
    StateM World Listing :=
  match side with
  | .files => do
      let w ← get
      pure (LocalListing.list w.files l followLinks watch)
  | .client n => RemoteListing.list n l watch

/-- Whether the source stands for several objects. A local source that cannot be looked at does
not. -/
def sourceIsBatch (t : Files.Tree) (source : Location) : Except Fault Bool :=
  if source.isWildcard || source.isRemote then .ok (Placement.isBatch source none)
  else
    match LocalListing.status t source with
    | .ok e => .ok (Placement.isBatch source (some e))
    | .error f =>
        match f with
        | .notFound _ => .ok (Placement.isBatch source none)
        | _ => if f.isSystem then .ok (Placement.isBatch source none) else .error f

/-- What the execution of a plan leaves. `halted` says that the run was cancelled when the last
command began, so that it was the last one to be taken up. -/
structure Progress where
  world : World
  stats : Execution.Stats
  ledger : Ledger
  notices : List Notice
  halted : Bool

def Progress.start (w : World) : Progress := ⟨w, .zero, .empty, [], false⟩

def Progress.setHalted (p : Progress) (halted : Bool) : Progress := { p with halted }

def Progress.report (p : Progress) (command : String) (f : Fault) : Progress :=
  { p with ledger := p.ledger.record f, notices := p.notices ++ p.ledger.notices command f }

def performOn (source destination : Side) (c : Call) (w : World) : Except Fault Int × World :=
  (perform source destination c).run.run w

def step (source destination : Side) (trial : Bool) (command : String) (p : Progress)
    (c : Command) : Progress :=
  let r := Execution.run trial (performOn source destination) p.world p.stats c
  let q : Progress := ⟨r.state, r.stats, p.ledger, p.notices ++ r.notices, p.halted⟩
  match r.fault with
  | some f => q.report command f
  | none => q

/-- Runs commands until one of them cancels the run. The next command is taken up while one is
running, so that one more command follows that one. -/
def execute (source destination : Side) (trial : Bool) (command : String) :
    Progress → List Command → Progress
  | p, [] => p
  | p, c :: rest =>
      if p.halted then p
      else execute source destination trial command
        ((step source destination trial command p c).setHalted p.ledger.cancelled) rest

/-- What a run comes to: a report, or the fault that ended it, with what was told on the way. -/
structure Outcome where
  result : Except Fault Report
  notices : List Notice
  journal : List String

def Outcome.ofFault (f : Fault) (notices : List Notice) : Outcome := ⟨.error f, notices, []⟩

structure Listings where
  source : Listing
  destination : Listing
  notices : List Notice

def Listings.fault? (l : Listings) : Option Fault := l.source.fault.or l.destination.fault

/-- Lists both sides. The destination is listed without following links. -/
def list (e : Ends) (source destination : Side) (o : Options) (command : String) :
    StateM World Listings := do
  let s ← listSide source e.source o.followLinks Watch.never
  let d ← listSide destination (listingLocation e.destination) false Watch.never
  pure ⟨s, d, Eligibility.notices command o.exclude s.entries ++ [.listed]⟩

def Listings.diff (l : Listings) (exclude : List String) : Diff :=
  Diff.ofListings (Eligibility.select exclude l.source.entries)
    (Eligibility.select exclude l.destination.entries)

def planner (e : Ends) (batch : Bool) (o : Options) : Planner :=
  ⟨e.destination, o.strategy, batch, o.delete, o.copyFlags, "sync"⟩

def tooFewWorkers : Fault := .plain .value "workers must be at least 1"

def carryOut (e : Ends) (source destination : Side) (batch : Bool) (o : Options)
    (command : String) (d : Diff) (w : World) : Progress × Plan.Outcome :=
  let plan := Plan.ofDiff (planner e batch o) d
  let p := execute source destination o.trial command (.start w) (Plan.commands plan.steps)
  (match plan.fault with
    | some f => p.report command f
    | none => p, plan)

def reportOf (o : Options) (d : Diff) (p : Progress) (plan : Plan.Outcome) : Report :=
  ⟨d.onlySource.length, d.onlyDestination.length, d.common.length,
    Plan.Summary.ofSteps plan.steps, p.stats, p.ledger.kept, o.trial⟩

def finish (e : Ends) (source destination : Side) (batch : Bool) (o : Options)
    (command : String) (quiet : Bool) (l : Listings) : StateM World Outcome := do
  let d := l.diff o.exclude
  let (p, plan) := carryOut e source destination batch o command d (← get)
  set p.world
  let notices := l.notices ++ p.notices
  match p.ledger.fatal with
  | some f => pure (.ofFault (.exhaustedBy f) notices)
  | none =>
      let r := reportOf o d p plan
      pure ⟨.ok r, notices ++ (if quiet then [] else r.summary),
        Plan.journal "sync" plan.steps ++ (plan.fault.map Plan.faultLine).toList⟩

def openSides (e : Ends) (o : Options) (c : Connection) : Action (Side × Side) := do
  let s ← connect e.source (c.withRegion o.sourceRegion)
  let d ← connect e.destination (c.withRegion o.destinationRegion)
  pure (s, d)

def runBetween (e : Ends) (o : Options) (c : Connection) (command : String) (quiet : Bool) :
    StateM World Outcome := do
  match ← (openSides e o c).run with
  | .error f => pure (.ofFault f [])
  | .ok (source, destination) =>
      let w ← get
      match sourceIsBatch w.files e.source with
      | .error f => pure (.ofFault f [])
      | .ok batch =>
          let l ← list e source destination o command
          match l.fault? with
          | some f => pure (.ofFault f l.notices)
          | none =>
              if o.workers < 1 then pure (.ofFault tooFewWorkers l.notices)
              else finish e source destination batch o command quiet l

def commandText (source destination : String) : String := s!"sync {source} {destination}"

/-- Makes the destination match the source. -/
def run (source destination : String) (o : Options) (c : Connection) (command : String)
    (quiet : Bool) : StateM World Outcome :=
  match ends source destination o.raw with
  | .error f => pure (.ofFault f [])
  | .ok e => runBetween e o c command quiet

end StoreSync.Sync
