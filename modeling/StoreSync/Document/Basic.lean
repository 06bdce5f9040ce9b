import StoreSync.Text.Quoted

/-!
Documents: nested values with named fields in a fixed order, printed one item a line with an
indent of two.
-/
namespace StoreSync

inductive Document where
  | null
  | bool (b : Bool)
  | int (n : Int)
  | text (s : String)
  | list (items : List Document)
  | fields (items : List (String × Document))
  deriving Inhabited

namespace Document

def escapeChar (c : Char) : List Char :=
  if c = '"' then ['\\', '"']
  else if c = '\\' then ['\\', '\\']
  else if c = '\n' then ['\\', 'n']
  else if c = '\r' then ['\\', 'r']
  else if c = '\t' then ['\\', 't']
  else if c = '\x08' then ['\\', 'b']
  else if c = '\x0c' then ['\\', 'f']
  else if c.toNat < 0x20 then '\\' :: 'u' :: Text.Quoted.hex 4 c.toNat
  else [c]

def quote (s : String) : String :=
  String.ofList ('"' :: s.toList.flatMap escapeChar ++ ['"'])

def newline (depth : Nat) : String :=
  String.ofList ('\n' :: List.replicate (2 * depth) ' ')

mutual

def render (depth : Nat) : Document → String
  | null => "null"
  | bool true => "true"
  | bool false => "false"
  | int n => toString n
  | text s => quote s
  | list [] => "[]"
  | list (d :: ds) =>
      "[" ++ newline (depth + 1) ++ render (depth + 1) d ++ renderItems (depth + 1) ds ++
        newline depth ++ "]"
  | fields [] => "\x7b\x7d"
  | fields ((k, d) :: rest) =>
      "\x7b" ++ newline (depth + 1) ++ quote k ++ ": " ++ render (depth + 1) d ++
        renderFields (depth + 1) rest ++ newline depth ++ "\x7d"

def renderItems (depth : Nat) : List Document → String
  | [] => ""
  | d :: ds => "," ++ newline depth ++ render depth d ++ renderItems depth ds

def renderFields (depth : Nat) : List (String × Document) → String
  | [] => ""
  | (k, d) :: rest =>
      "," ++ newline depth ++ quote k ++ ": " ++ render depth d ++ renderFields depth rest

end

end Document

end StoreSync
