import StoreSync.Text.Blank
import StoreSync.Text.Digit

/-!
Whole numbers as people type them: blanks around the number, an optional sign, digits of any
script, and single underscores between digits.
-/
namespace StoreSync.Text.Integer

def maxDigits : Nat := 4300

/-- The digits of a number, most significant first. An underscore stands only between two digits. -/
def digits? : List Char → Option (List Nat)
  | [] => none
  | [c] => (Digit.value? c).map fun d => [d]
  | c :: '_' :: rest => do
      let d ← Digit.value? c
      let ds ← digits? rest
      pure (d :: ds)
  | c :: rest => do
      let d ← Digit.value? c
      let ds ← digits? rest
      pure (d :: ds)

def ofDigits (ds : List Nat) : Nat := ds.foldl (fun n d => 10 * n + d) 0

def magnitude? (cs : List Char) : Option Nat := do
  let ds ← digits? cs
  if ds.length ≤ maxDigits then pure (ofDigits ds) else none

def read? (text : String) : Option Int :=
  match Blank.trim text.toList with
  | '-' :: rest => (magnitude? rest).map fun n => -(n : Int)
  | '+' :: rest => (magnitude? rest).map fun n => (n : Int)
  | cs => (magnitude? cs).map fun n => (n : Int)

end StoreSync.Text.Integer
