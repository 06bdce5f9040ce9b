import StoreSync.Command
import StoreSync.Fault
import StoreSync.Notice

/-!
Running commands. A command becomes one call to a storage client; a trial run prints it instead.
A command that fails is counted and reported and does not stop the ones after it.
-/
namespace StoreSync

abbrev Extra := List (String × Scalar)

/-- A call to a storage client. Downloads go to the client of the source, all other calls to the
client of the destination. -/
inductive Call where
  | upload (source destination : Location) (extra : Extra)
  | download (source destination : Location)
  | copyRemote (source destination : Location) (extra : Extra)
  | copyLocal (source destination : Location)
  | remove (locations : List Location)

namespace Execution

def extraNames : List (String × String) :=
  [("sse", "ServerSideEncryption"), ("sse-kms-key-id", "SSEKMSKeyId"),
    ("storage-class", "StorageClass")]

def extraOf (flags : Flags) : Extra :=
  extraNames.filterMap fun p => (flags.given? p.1).map fun v => (p.2, v)

inductive Operation where
  | copy
  | remove
  deriving DecidableEq

def operation? (c : Command) : Option Operation :=
  if c.op = Command.copyOp then some .copy
  else if c.op = Command.removeOp then some .remove
  else none

def unknownOperation (op : String) : Fault := .plain .value ("unknown operation: " ++ op)

def missingOperand : Fault := .plain .index "list index out of range"

def copyCall (c : Command) : Except Fault Call :=
  match c.source?, c.destination? with
  | some s, some d =>
      .ok (match s.isRemote, d.isRemote with
        | true, true => .copyRemote s d (extraOf c.flags)
        | false, true => .upload s d (extraOf c.flags)
        | true, false => .download s d
        | false, false => .copyLocal s d)
  | _, _ => .error missingOperand

structure Stats where
  copied : Int
  deleted : Int
  failed : Int
  deriving DecidableEq

def Stats.zero : Stats := ⟨0, 0, 0⟩

def Stats.addCopy (s : Stats) : Stats := { s with copied := s.copied + 1 }

def Stats.addRemoved (s : Stats) (count : Int) : Stats := { s with deleted := s.deleted + count }

def Stats.addFailure (s : Stats) : Stats := { s with failed := s.failed + 1 }

/-- What came of one command. `state` is that of the party that answers calls. -/
structure Result (σ : Type) where
  state : σ
  stats : Stats
  notices : List Notice
  fault : Option Fault

variable {σ : Type}

/-- A command that cannot be run or whose call fails. Interruptions are not counted. -/
def failWith (state : σ) (stats : Stats) (c : Command) (f : Fault) : Result σ :=
  if f.isInterruption then ⟨state, stats, [], none⟩
  else ⟨state, stats.addFailure, [], some (.execution c.text f)⟩

def trialLine (c : Command) : Notice := .info ("DRYRUN " ++ c.text)

def call (c : Command) : Operation → Except Fault Call
  | .copy => copyCall c
  | .remove => .ok (.remove c.locations)

def countDone (stats : Stats) : Operation → Int → Stats
  | .copy, _ => stats.addCopy
  | .remove, count => stats.addRemoved count

/-- Runs one command. `perform` answers a call with a count, which matters for removals only. -/
def run (trial : Bool) (perform : Call → σ → Except Fault Int × σ) (state : σ) (stats : Stats)
    (c : Command) : Result σ :=
  match operation? c with
  | none => failWith state stats c (unknownOperation c.op)
  | some op =>
      if trial then ⟨state, countDone stats op c.locations.length, [trialLine c], none⟩
      else
        match call c op with
        | .error f => failWith state stats c f
        | .ok request =>
            match perform request state with
            | (.ok count, next) => ⟨next, countDone stats op count, [], none⟩
            | (.error f, next) => failWith next stats c f

end Execution

end StoreSync
