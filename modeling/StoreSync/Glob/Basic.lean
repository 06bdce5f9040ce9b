/-!
Wildcard patterns. A star stands for any text, separators included; the other tokens stand for
one character. `Matches` says what a pattern stands for, `holds` decides it.
-/
namespace StoreSync.Glob

def isSpecial (c : Char) : Bool := c = '*' || c = '?' || c = '['

def hasSpecial (cs : List Char) : Bool := cs.any isSpecial

structure CharSet where
  negated : Bool
  members : List Char
  spans : List (Char × Char)
  deriving DecidableEq

def CharSet.holds (s : CharSet) (c : Char) : Bool :=
  (s.members.contains c || s.spans.any fun r => r.1 ≤ c && c ≤ r.2) != s.negated

inductive Token where
  | star
  | any
  | char (c : Char)
  | oneOf (s : CharSet)
  deriving DecidableEq

abbrev Pattern := List Token

/-- The tokens other than the star accept one character. -/
def Token.accepts : Token → Char → Bool
  | .star, _ => false
  | .any, _ => true
  | .char d, c => d = c
  | .oneOf s, c => s.holds c

inductive Matches : Pattern → List Char → Prop
  | nil : Matches [] []
  | star (u : List Char) {p : Pattern} {v : List Char} (h : Matches p v) :
      Matches (.star :: p) (u ++ v)
  | one {t : Token} {c : Char} {p : Pattern} {v : List Char} (ht : t.accepts c = true)
      (h : Matches p v) : Matches (t :: p) (c :: v)

/-! A pattern is decided for all tails of a text at once, from the end of the pattern: a row
holds one answer for each tail, the longest first. -/

/-- Only the empty tail matches the empty pattern. -/
def emptyRow : List Char → List Bool
  | [] => [true]
  | _ :: cs => false :: emptyRow cs

/-- A tail matches with a star in front if it or some shorter tail matches. -/
def starRow : List Bool → List Bool
  | [] => []
  | b :: bs =>
      let rest := starRow bs
      (b || rest.headD false) :: rest

/-- A tail matches with a one-character token in front if the token accepts its first character
and the next tail matches. -/
def oneRow (t : Token) : List Char → List Bool → List Bool
  | [], _ => [false]
  | c :: cs, row => (t.accepts c && row.tail.headD false) :: oneRow t cs row.tail

def rowFor (cs : List Char) : Pattern → List Bool
  | [] => emptyRow cs
  | .star :: p => starRow (rowFor cs p)
  | t :: p => oneRow t cs (rowFor cs p)

def holds (p : Pattern) (cs : List Char) : Bool := (rowFor cs p).headD false

end StoreSync.Glob
