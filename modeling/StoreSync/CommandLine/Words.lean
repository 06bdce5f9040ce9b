/-!
Words of a command line: switches and operands. A switch with a long name takes its value after
an equals sign or from the next word; short names may share one word, and what follows one that
takes a value is its value. Two hyphens alone end the switches.
-/
namespace StoreSync.CommandLine

structure Switch where
  name : String
  letter : Option Char
  takesValue : Bool
  deriving DecidableEq

structure Reading where
  given : List (String × Option String)
  operands : List String
  deriving DecidableEq

namespace Reading

def empty : Reading := ⟨[], []⟩

def give (r : Reading) (more : List (String × Option String)) : Reading :=
  { r with given := r.given ++ more }

def addOperands (r : Reading) (more : List String) : Reading :=
  { r with operands := r.operands ++ more }

def has (r : Reading) (name : String) : Bool := r.given.any (·.1 = name)

def values (r : Reading) (name : String) : List String :=
  r.given.filterMap fun p => if p.1 = name then p.2 else none

def value? (r : Reading) (name : String) : Option String := (r.values name).getLast?

end Reading

/-- What one word gives: switches with their values, and the switch whose value is the next
word. -/
structure WordReading where
  given : List (String × Option String)
  pending : Option String

def readLetters (switches : List Switch) : List Char → Option WordReading
  | [] => some ⟨[], none⟩
  | c :: cs =>
      match switches.find? (·.letter = some c) with
      | none => none
      | some s =>
          if s.takesValue then
            if cs.isEmpty then some ⟨[], some s.name⟩
            else some ⟨[(s.name, some (String.ofList cs))], none⟩
          else
            (readLetters switches cs).map fun w => { w with given := (s.name, none) :: w.given }

def readLong (switches : List Switch) (cs : List Char) : Option WordReading :=
  let name := String.ofList (cs.takeWhile (· ≠ '='))
  match switches.find? (·.name = name), cs.dropWhile (· ≠ '=') with
  | none, _ => none
  | some s, [] => some (if s.takesValue then ⟨[], some s.name⟩ else ⟨[(s.name, none)], none⟩)
  | some s, _ :: value =>
      if s.takesValue then some ⟨[(s.name, some (String.ofList value))], none⟩ else none

def readSwitch (switches : List Switch) (word : List Char) : Option WordReading :=
  match word with
  | '-' :: '-' :: cs => readLong switches cs
  | '-' :: cs => readLetters switches cs
  | _ => none

def isSwitch (word : String) : Bool :=
  match word.toList with
  | '-' :: _ :: _ => true
  | _ => false

/-- Reads the words that follow. `pending` is the switch whose value comes first. Unless operands
may stand between switches, the first operand ends the switches. -/
def readFrom (switches : List Switch) (mixed : Bool) :
    Option String → Reading → List String → Option Reading
  | some _, _, [] => none
  | none, r, [] => some r
  | some name, r, w :: rest => readFrom switches mixed none (r.give [(name, some w)]) rest
  | none, r, w :: rest =>
      if w = "--" then some (r.addOperands rest)
      else if isSwitch w then
        match readSwitch switches w.toList with
        | none => none
        | some word => readFrom switches mixed word.pending (r.give word.given) rest
      else if mixed then readFrom switches mixed none (r.addOperands [w]) rest
      else some (r.addOperands (w :: rest))

def read (switches : List Switch) (mixed : Bool) (words : List String) : Option Reading :=
  readFrom switches mixed none .empty words

end StoreSync.CommandLine
