import StoreSync.Command
import StoreSync.Diff
import StoreSync.Freshness
import StoreSync.Placement

/-!
Plans: the steps that bring a destination in line with a source. First the objects of the source
alone in order, then the pairs, then one removal of all that the destination alone has. Every
entry of the difference gives one step: a command, a note that the pair is in sync, or a note
that no command could be formed.
-/
namespace StoreSync

structure Planner where
  destination : Location
  strategy : Strategy
  batch : Bool
  delete : Bool
  copyFlags : Flags
  name : String

namespace Plan

inductive Step where
  | emit (command : Command)
  | skip (pair : Entry × Entry) (reason : InSync)
  | drop (locations : List Location) (reason : Malformed)

structure Outcome where
  steps : List Step
  fault : Option Fault

structure Summary where
  copies : Int
  deletes : Int
  inSync : Int
  dropped : Int
  deriving DecidableEq

namespace Summary

def zero : Summary := ⟨0, 0, 0, 0⟩

def add (s : Summary) : Step → Summary
  | .emit c =>
      if c.op = Command.removeOp then { s with deletes := s.deletes + c.locations.length }
      else { s with copies := s.copies + 1 }
  | .skip _ _ => { s with inSync := s.inSync + 1 }
  | .drop _ _ => { s with dropped := s.dropped + 1 }

def ofSteps (steps : List Step) : Summary := steps.foldl add zero

end Summary

/-- The sources are expanded already and are taken literally by every command. -/
def baseFlags : Flags := [("raw", .flag true)]

def copyFlags (p : Planner) : Flags := baseFlags.insertAll p.copyFlags

/-- A command, or a note that the named locations form none. -/
def attempt (op : String) (flags : Flags) (operands named : List Location) : Step :=
  match Command.make op flags operands with
  | .ok c => .emit c
  | .error m => .drop named m

def copyNew (p : Planner) (source : Location) : Step :=
  attempt Command.copyOp (copyFlags p)
    [source, Placement.target source p.destination p.batch] [source]

def copyPair (p : Planner) (pair : Entry × Entry) : Except Fault Step :=
  let ends := [pair.1.location, pair.2.location]
  match Freshness.reason? p.strategy pair.1 pair.2 with
  | .error f => .error f
  | .ok (some reason) => .ok (.skip pair reason)
  | .ok none => .ok (attempt Command.copyOp (copyFlags p) ends ends)

/-- The steps for the pairs before the first one that cannot be compared. -/
def copyPairs (p : Planner) : List (Entry × Entry) → Outcome
  | [] => ⟨[], none⟩
  | pair :: rest =>
      match copyPair p pair with
      | .error f => ⟨[], some f⟩
      | .ok s =>
          let o := copyPairs p rest
          ⟨s :: o.steps, o.fault⟩

def removal (p : Planner) (locations : List Location) : List Step :=
  if p.delete && !locations.isEmpty then
    [attempt Command.removeOp baseFlags locations locations]
  else []

def ofDiff (p : Planner) (d : Diff) : Outcome :=
  let pairs := copyPairs p d.common
  let tail := if pairs.fault.isNone then removal p d.onlyDestination else []
  ⟨d.onlySource.map (copyNew p) ++ pairs.steps ++ tail, pairs.fault⟩

def Step.command? : Step → Option Command
  | .emit c => some c
  | _ => none

def commands (steps : List Step) : List Command := steps.filterMap Step.command?

/-- What a planner does whose first command is refused: the steps up to and including it. -/
def untilRefused : List Step → List Step
  | [] => []
  | .emit c :: _ => [.emit c]
  | s :: rest => s :: untilRefused rest

def journalLine (name : String) (locations : List Location) (reason : String) : String :=
  "\"" ++ String.intercalate " " [name, String.intercalate " " (locations.map Command.quoteLocation)]
    ++ "\": " ++ reason

def Step.journal? (name : String) : Step → Option String
  | .emit _ => none
  | .skip pair reason =>
      some (journalLine name [pair.1.location, pair.2.location] reason.message)
  | .drop locations reason => some (journalLine name locations reason.message)

def journal (name : String) (steps : List Step) : List String :=
  steps.filterMap (Step.journal? name)

def refusedLine : String := "Plan stream cancelled, stopping planner"

def faultLine (f : Fault) : String := "Planner failed: " ++ f.message

end Plan

end StoreSync
