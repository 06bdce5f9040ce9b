import StoreSync.Glob.Basic

/-!
Reading patterns from text. In brackets stands a set of characters, with a leading exclamation
mark its complement; a closing bracket that comes first belongs to the set, and a bracket that
is never closed stands for itself. There is no escape character.
-/
namespace StoreSync.Glob

def classBody? (cs : List Char) : Option (List Char × List Char) :=
  let bang := match cs with
    | '!' :: _ => ['!']
    | _ => []
  let afterBang := cs.drop bang.length
  let bracket := match afterBang with
    | ']' :: _ => [']']
    | _ => []
  let tail := afterBang.drop bracket.length
  match tail.dropWhile (· ≠ ']') with
  | [] => none
  | _ :: rest => some (bang ++ bracket ++ tail.takeWhile (· ≠ ']'), rest)

/-- Cuts a set at the hyphens that join the ends of an interval. The first `skip` characters of a
piece hold no such hyphen, and a hyphen at the very end stands for itself. -/
def pieces (skip : Nat) (piece : List Char) : List Char → List (List Char)
  | [] => [piece.reverse]
  | c :: cs =>
      if skip = 0 ∧ c = '-' then
        if cs.isEmpty then [(c :: piece).reverse] else piece.reverse :: pieces 2 [] cs
      else pieces (skip - 1) (c :: piece) cs

def dropReversed : List (List Char) → List (List Char)
  | [] => []
  | a :: rest =>
      match dropReversed rest with
      | [] => [a]
      | b :: bs =>
          match a.getLast?, b.head? with
          | some x, some y => if y < x then (a.dropLast ++ b.tail) :: bs else a :: b :: bs
          | _, _ => a :: b :: bs

def spansOf : List (List Char) → List (Char × Char)
  | a :: b :: rest =>
      match a.getLast?, b.head? with
      | some x, some y => (x, y) :: spansOf (b :: rest)
      | _, _ => spansOf (b :: rest)
  | _ => []

/-- The set that stands in brackets. An empty set accepts nothing and its complement all. A hyphen
that comes right after the mark of the complement stands for itself. -/
def charSet (body : List Char) : CharSet :=
  match dropReversed (pieces (if body.head? = some '!' then 2 else 1) [] body) with
  | ['!'] :: p :: ps => ⟨true, '-' :: (p :: ps).flatten, spansOf (p :: ps)⟩
  | ('!' :: first) :: rest => ⟨true, (first :: rest).flatten, spansOf (first :: rest)⟩
  | cut => ⟨false, cut.flatten, spansOf cut⟩

/-- Reads a pattern after `skip` characters that are used up already. -/
def readFrom : Nat → List Char → Pattern
  | _, [] => []
  | n + 1, _ :: cs => readFrom n cs
  | 0, c :: cs =>
      if c = '*' then .star :: readFrom 0 cs
      else if c = '?' then .any :: readFrom 0 cs
      else if c = '[' then
        match classBody? cs with
        | none => .char '[' :: readFrom 0 cs
        | some (body, _) => .oneOf (charSet body) :: readFrom (body.length + 1) cs
      else .char c :: readFrom 0 cs

def read (text : String) : Pattern := readFrom 0 text.toList

def matchesText (pattern text : String) : Bool := holds (read pattern) text.toList

def matchesAny (patterns : List String) (text : String) : Bool :=
  patterns.any fun p => matchesText p text

end StoreSync.Glob
