import StoreSync.Text.Ranges

/-!
White space around numbers: the blanks and line ends of ASCII, and the spaces and separators of
every script.
-/
namespace StoreSync.Text.Blank

def table : List (Nat × Nat) := [
  (0x9, 0xd), (0x20, 0x20), (0x85, 0x85), (0xa0, 0xa0), (0x1680, 0x1680), (0x2000, 0x200a),
  (0x2028, 0x2029), (0x202f, 0x202f), (0x205f, 0x205f), (0x3000, 0x3000)]

def isBlank (c : Char) : Bool := Ranges.holds table c

def trim (cs : List Char) : List Char :=
  ((cs.dropWhile isBlank).reverse.dropWhile isBlank).reverse

end StoreSync.Text.Blank
