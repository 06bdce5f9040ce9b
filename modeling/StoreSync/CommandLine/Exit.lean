import StoreSync.CommandLine.Invocation
import StoreSync.Console
import StoreSync.Sync.Run

/-!
How a command ends: with 0 when nothing went wrong, 1 on faults, 2 on a mistaken command line,
and 3 when the process ran out of file descriptors.
-/
namespace StoreSync.CommandLine

/-- `escaped` is a fault that the command does not handle. `journal` is kept for verbose runs. -/
structure Exit where
  code : Nat
  out : String
  err : String
  escaped : Option Fault
  journal : List String

namespace Exit

def mistaken : Exit := ⟨2, "", "", none, []⟩

end Exit

inductive Ending where
  | reported (n : Notice)
  | exhausted
  | silent
  | escaped (f : Fault)

def brokenPipe : Int := 32

def endingOf (command : String) (f : Fault) : Ending :=
  match f with
  | .exhausted => .exhausted
  | .exhaustedBy _ => .exhausted
  | f =>
      if f.isOwn then .reported (.commandError command f.message)
      else if f.isInterruption then .reported (.warning "Sync cancelled by user")
      else if Fault.hasErrno brokenPipe f then .silent
      else .escaped f

namespace Ending

def code : Ending → Nat
  | exhausted => 3
  | _ => 1

def notices : Ending → List Notice
  | reported n => [n]
  | _ => []

def fault? : Ending → Option Fault
  | escaped f => some f
  | _ => none

end Ending

def Invocation.console (i : Invocation) (signs : List Char → List Char) : Console :=
  ⟨i.json, i.quiet, true, signs⟩

def exitWith (c : Console) (code : Nat) (notices : List Notice) (escaped : Option Fault)
    (journal : List String) : Exit :=
  ⟨code, c.outText notices, c.errText notices, escaped, journal⟩

/-- The end of a run that was asked for, on a console that has no codes unless `signs` are given. -/
def exitOf (i : Invocation) (command : String) (o : Sync.Outcome)
    (signs : List Char → List Char := id) : Exit :=
  let console := i.console signs
  let journal := if i.verbose then o.journal else []
  match o.result with
  | .ok r =>
      exitWith console (if r.combined?.isSome then 1 else 0)
        (o.notices ++ if i.json then [.document r.document] else []) none journal
  | .error f =>
      let e := endingOf command f
      exitWith console e.code (o.notices ++ e.notices) e.fault? journal

def runWords (env : Environment) (words : List String)
    (signs : List Char → List Char := id) : StateM World Exit :=
  match Invocation.ofWords? env words with
  | none => pure .mistaken
  | some i => do
      let command := Sync.commandText i.source i.destination
      let o ← Sync.run i.source i.destination i.options i.connection command i.quiet
      pure (exitOf i command o signs)

end StoreSync.CommandLine
