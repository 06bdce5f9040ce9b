import StoreSync.Location.Basic
import StoreSync.Scalar

/-!
Commands: a copy from one location to another, or the removal of one or more locations.
-/
namespace StoreSync

structure Command where
  op : String
  locations : List Location
  flags : Flags
  deriving DecidableEq

inductive Malformed where
  | copyOperands (count : Nat)
  | sameOperands (location : String)
  | nothingToRemove
  | unknownOperation (op : String)
  | wildcard (location : String)
  deriving DecidableEq

def Malformed.message : Malformed → String
  | copyOperands n => s!"cp expects 2 arguments, got {n}"
  | sameOperands l => "source and destination are the same: " ++ l
  | nothingToRemove => "rm expects at least one argument"
  | unknownOperation op => "unknown operation: " ++ op
  | wildcard l => "unexpected wildcard in plan: " ++ l

namespace Command

def copyOp : String := "cp"

def removeOp : String := "rm"

def quoteLocation (l : Location) : String := "\"" ++ l.text ++ "\""

def flagText (flag : String × Scalar) : Option String :=
  flag.2.shown?.map fun v => "--" ++ flag.1 ++ "=" ++ v

def text (c : Command) : String :=
  String.intercalate " "
    (c.op :: c.flags.filterMap flagText ++ c.locations.map quoteLocation)

def source? (c : Command) : Option Location := c.locations.head?

def destination? (c : Command) : Option Location := c.locations.getLast?

/-- What is wrong with operands, the special characters in them aside. -/
def operandFault? (op : String) (locations : List Location) : Option Malformed :=
  if op = copyOp then
    match locations with
    | [s, d] => if s.same d then some (.sameOperands s.text) else none
    | ls => some (.copyOperands ls.length)
  else if op = removeOp then
    if locations.isEmpty then some .nothingToRemove else none
  else some (.unknownOperation op)

/-- A command over checked operands; none of them is a pattern. -/
def make (op : String) (flags : Flags) (locations : List Location) : Except Malformed Command :=
  match operandFault? op locations with
  | some m => .error m
  | none =>
      match locations.find? Location.isWildcard with
      | some l => .error (.wildcard l.text)
      | none => .ok ⟨op, locations, flags⟩

end Command

end StoreSync
