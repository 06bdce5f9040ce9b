import StoreSync.Document.Basic

/-!
Reading documents: whole numbers, texts with escapes, lists and fields. Of fields with one name
the last value counts, at the place of the first.
-/
namespace StoreSync.Document

def isSpace (c : Char) : Bool := c = ' ' || c = '\t' || c = '\n' || c = '\r'

def skipSpace (cs : List Char) : List Char := cs.dropWhile isSpace

def hexValue? (c : Char) : Option Nat :=
  if c.isDigit then some (c.toNat - '0'.toNat)
  else if 'a' ≤ c ∧ c ≤ 'f' then some (c.toNat - 'a'.toNat + 10)
  else if 'A' ≤ c ∧ c ≤ 'F' then some (c.toNat - 'A'.toNat + 10)
  else none

def hexUnit? (a b c d : Char) : Option Nat := do
  pure (((16 * (← hexValue? a) + (← hexValue? b)) * 16 + (← hexValue? c)) * 16 + (← hexValue? d))

def unescape (c : Char) : Char :=
  match c with
  | 'n' => '\n'
  | 'r' => '\r'
  | 't' => '\t'
  | 'b' => '\x08'
  | 'f' => '\x0c'
  | _ => c

def readUnits : List Char → Option (List Nat × List Char)
  | [] => none
  | '"' :: rest => some ([], rest)
  | '\\' :: 'u' :: a :: b :: c :: d :: rest => do
      let unit ← hexUnit? a b c d
      let (units, tail) ← readUnits rest
      pure (unit :: units, tail)
  | '\\' :: c :: rest => do
      let (units, tail) ← readUnits rest
      pure ((unescape c).toNat :: units, tail)
  | c :: rest => do
      let (units, tail) ← readUnits rest
      pure (c.toNat :: units, tail)

def isHigh (n : Nat) : Bool := 0xd800 ≤ n && n < 0xdc00

def isLow (n : Nat) : Bool := 0xdc00 ≤ n && n < 0xe000

def joinPairs : List Nat → List Char
  | [] => []
  | [n] => [Char.ofNat n]
  | h :: l :: rest =>
      if isHigh h && isLow l then
        Char.ofNat (0x10000 + (h - 0xd800) * 0x400 + (l - 0xdc00)) :: joinPairs rest
      else Char.ofNat h :: joinPairs (l :: rest)

def readText (cs : List Char) : Option (String × List Char) := do
  let (units, rest) ← readUnits cs
  pure (String.ofList (joinPairs units), rest)

def digitsValue (cs : List Char) : Nat :=
  cs.foldl (fun n c => 10 * n + (c.toNat - '0'.toNat)) 0

def readNumber (cs : List Char) : Option (Document × List Char) :=
  let (negative, rest) : Bool × List Char := match cs with
    | '-' :: rest => (true, rest)
    | _ => (false, cs)
  match rest.takeWhile Char.isDigit with
  | [] => none
  | ds =>
      let n : Int := digitsValue ds
      some (int (if negative then -n else n), rest.dropWhile Char.isDigit)

def afterWord (word cs : List Char) (d : Document) : Option (Document × List Char) :=
  if word.isPrefixOf cs then some (d, cs.drop word.length) else none

def setField : List (String × Document) → String → Document → List (String × Document)
  | [], name, d => [(name, d)]
  | (n, e) :: rest, name, d =>
      if n = name then (n, d) :: rest else (n, e) :: setField rest name d

mutual

/-- Reads a value. `fuel` bounds the number of steps. -/
def readValue : Nat → List Char → Option (Document × List Char)
  | 0, _ => none
  | fuel + 1, cs =>
      match skipSpace cs with
      | '"' :: rest => (readText rest).map fun p => (text p.1, p.2)
      | '[' :: rest =>
          match skipSpace rest with
          | ']' :: tail => some (list [], tail)
          | tail => (readItems fuel tail).map fun p => (list p.1, p.2)
      | '\x7b' :: rest =>
          match skipSpace rest with
          | '\x7d' :: tail => some (fields [], tail)
          | tail => (readFields fuel [] tail).map fun p => (fields p.1, p.2)
      | 't' :: rest => afterWord "rue".toList rest (bool true)
      | 'f' :: rest => afterWord "alse".toList rest (bool false)
      | 'n' :: rest => afterWord "ull".toList rest null
      | rest => readNumber rest

def readItems : Nat → List Char → Option (List Document × List Char)
  | 0, _ => none
  | fuel + 1, cs => do
      let (d, rest) ← readValue fuel cs
      match skipSpace rest with
      | ',' :: tail => do
          let (ds, last) ← readItems fuel tail
          pure (d :: ds, last)
      | ']' :: tail => pure ([d], tail)
      | _ => none

def readFields : Nat → List (String × Document) → List Char →
    Option (List (String × Document) × List Char)
  | 0, _, _ => none
  | fuel + 1, done, cs =>
      match skipSpace cs with
      | '"' :: rest => do
          let (name, afterName) ← readText rest
          match skipSpace afterName with
          | ':' :: tail => do
              let (d, afterValue) ← readValue fuel tail
              match skipSpace afterValue with
              | ',' :: more => readFields fuel (setField done name d) more
              | '\x7d' :: last => pure (setField done name d, last)
              | _ => none
          | _ => none
      | _ => none

end

def read? (s : String) : Option Document := do
  let (d, rest) ← readValue (2 * s.length + 2) s.toList
  if (skipSpace rest).isEmpty then pure d else none

def field? (d : Document) (name : String) : Option Document :=
  match d with
  | fields items => items.lookup name
  | _ => none

def items (d : Document) : List Document :=
  match d with
  | list ds => ds
  | _ => []

end StoreSync.Document
