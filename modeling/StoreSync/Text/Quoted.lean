import StoreSync.Text.Printable

/-!
Quoted text inside messages. Single quotes enclose the text, or double quotes when it holds a
single quote and no double quote. The enclosing quote, the backslash and what is not printable
are escaped.
-/
namespace StoreSync.Text.Quoted

def delimiter (cs : List Char) : Char :=
  if cs.contains '\'' && !cs.contains '"' then '"' else '\''

def hex (width n : Nat) : List Char :=
  let ds := Nat.toDigits 16 n
  List.replicate (width - ds.length) '0' ++ ds

def escape (quote c : Char) : List Char :=
  if c = quote ∨ c = '\\' then ['\\', c]
  else if c = '\n' then ['\\', 'n']
  else if c = '\r' then ['\\', 'r']
  else if c = '\t' then ['\\', 't']
  else if Printable.isPrintable c then [c]
  else if c.toNat < 0x100 then '\\' :: 'x' :: hex 2 c.toNat
  else if c.toNat < 0x10000 then '\\' :: 'u' :: hex 4 c.toNat
  else '\\' :: 'U' :: hex 8 c.toNat

def quote (text : String) : String :=
  let cs := text.toList
  let q := delimiter cs
  String.ofList (q :: cs.flatMap (escape q) ++ [q])

end StoreSync.Text.Quoted
