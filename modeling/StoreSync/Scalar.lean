/-!
Values of command flags: texts, numbers, switches, or nothing.
-/
namespace StoreSync

inductive Scalar where
  | text (s : String)
  | int (n : Int)
  | flag (b : Bool)
  | absent
  deriving DecidableEq

namespace Scalar

/-- Whether a value counts as given: the empty text, zero, the switch that is off and the absent
value do not. -/
def isGiven : Scalar → Bool
  | text s => s ≠ ""
  | int n => n ≠ 0
  | flag b => b
  | absent => false

/-- How a value stands behind a flag; a switch that is off and an absent value leave no trace. -/
def shown? : Scalar → Option String
  | text s => some s
  | int n => some (toString n)
  | flag true => some "true"
  | flag false => none
  | absent => none

end Scalar

abbrev Flags := List (String × Scalar)

namespace Flags

def find? (flags : Flags) (name : String) : Option Scalar := flags.lookup name

/-- Gives a value to a name. A name that is present keeps its place. -/
def insert : Flags → String → Scalar → Flags
  | [], name, value => [(name, value)]
  | (n, v) :: rest, name, value =>
      if n = name then (n, value) :: rest else (n, v) :: insert rest name value

def insertAll (flags : Flags) (more : List (String × Scalar)) : Flags :=
  more.foldl (fun fs p => insert fs p.1 p.2) flags

def ofPairs (pairs : List (String × Scalar)) : Flags := insertAll [] pairs

def given? (flags : Flags) (name : String) : Option Scalar :=
  (flags.find? name).filter Scalar.isGiven

end Flags

end StoreSync
