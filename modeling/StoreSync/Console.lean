import StoreSync.Notice
import StoreSync.Text.CellWidth

/-!
How notices appear on the two channels of a console. Warnings and errors go to the error channel.
Information and success go to the normal one, unless the console is quiet or prints documents.
A message other than plain information passes through a markup language, in which a bracket that
might open a tag is protected by a backslash; what such a bracket opens is kept as it stands. In
each part of a text the console puts signs in place of codes such as `:warning:`, by a table of its
own.
-/
namespace StoreSync

/-- `progress` says that the end of the listings leaves a line. -/
structure Console where
  json : Bool
  quiet : Bool
  progress : Bool
  /-- Puts signs in place of the codes in a text. -/
  signs : List Char → List Char

namespace Console

def opensTag (c : Char) : Bool :=
  ('a' ≤ c && c ≤ 'z') || c = '#' || c = '/' || c = '@'

/-- The length of a tag that the text starts with, with the backslashes in front of it. -/
def tagLength? (cs : List Char) : Option Nat :=
  let slashes := cs.takeWhile (· = '\\')
  match cs.drop slashes.length with
  | '[' :: c :: rest =>
      let inner := rest.takeWhile fun d => d ≠ '[' && d ≠ ']'
      if opensTag c && (rest.drop inner.length).head? = some ']' then
        some (slashes.length + inner.length + 3)
      else none
  | _ => none

def extend (c : Char) : List (List Char) → List (List Char)
  | [] => [[c]]
  | part :: parts => (c :: part) :: parts

/-- The parts of a text in which codes are looked for, when `left` more characters belong to a tag:
the tags, the backslashes in front of each, and what stands between. -/
def parts : (left : Nat) → List Char → List (List Char)
  | _, [] => [[]]
  | n + 1, c :: cs =>
      let rest := if n = 0 then [] :: parts 0 cs else parts n cs
      if c = '[' then [] :: extend c rest else extend c rest
  | 0, c :: cs =>
      match tagLength? (c :: cs) with
      | some n => [] :: extend c (parts (n - 1) cs)
      | none =>
          if c = '\\' ∧ cs.head? = some '[' then parts 0 cs else extend c (parts 0 cs)

def endsInLoneBackslash (cs : List Char) : Bool :=
  match cs.reverse with
  | '\\' :: '\\' :: _ => false
  | '\\' :: _ => true
  | _ => false

def markup (signs : List Char → List Char) (cs : List Char) : List Char :=
  let doubled := if endsInLoneBackslash cs then cs ++ ['\\'] else cs
  ((parts 0 doubled).filter (· ≠ [])).flatMap signs

/-- Characters that a terminal would obey and that are removed. -/
def isControl (c : Char) : Bool :=
  c = '\x07' || c = '\x08' || c = '\x0b' || c = '\x0c' || c = '\x0d'

def gap (column : Nat) : Nat := (8 - column % 8) % 8

/-- Makes each tab a blank, with more blanks up to a multiple of eight columns. `part` is what
stands after the last tab of the line, backwards; a part is measured with its tab as a blank. -/
def expandTabs (column : Nat) (part : List Char) : List Char → List Char
  | [] => part.reverse
  | c :: cs =>
      if c = '\n' then part.reverse ++ c :: expandTabs 0 [] cs
      else if c = '\t' then
        let shown := part.reverse ++ [' ']
        let reached := column + Text.CellWidth.columns shown
        shown ++ List.replicate (gap reached) ' ' ++ expandTabs (reached + gap reached) [] cs
      else expandTabs column (c :: part) cs

def line (cs : List Char) : String :=
  String.ofList (expandTabs 0 [] (cs.filter (!isControl ·)) ++ ['\n'])

variable (c : Console)

/-- A line that starts with a label. The blank behind the label belongs to the text. -/
def marked (label : String) (text : String) : String :=
  line (label.toList ++ markup c.signs (' ' :: text.toList))

def talks : Bool := !(c.quiet || c.json)

def out : Notice → String
  | .info text => if c.talks then line (c.signs text.toList) else ""
  | .success text => if c.talks then c.marked "✓" text else ""
  | .document d => d.render 0 ++ "\n"
  | .listed => if c.progress && c.talks then "\n" else ""
  | _ => ""

def err : Notice → String
  | .warning text => c.marked "WARNING" text
  | .error text => c.marked "ERROR" text
  | _ => ""

def outText (notices : List Notice) : String := String.join (notices.map c.out)

def errText (notices : List Notice) : String := String.join (notices.map c.err)

end Console

end StoreSync
