/-!
Upper-case forms that consist of ASCII characters. A few letters outside ASCII have one too:
the dotless i, the long s, the sharp s and the Latin ligatures.
-/
namespace StoreSync.Text.Upper

/-- The upper-case form of a character, if it is ASCII throughout. -/
def ascii? (c : Char) : Option (List Char) :=
  if c.toNat < 0x80 then some [c.toUpper]
  else match c with
    | 'ı' => some ['I']
    | 'ſ' => some ['S']
    | 'ß' => some ['S', 'S']
    | 'ﬀ' => some ['F', 'F']
    | 'ﬁ' => some ['F', 'I']
    | 'ﬂ' => some ['F', 'L']
    | 'ﬃ' => some ['F', 'F', 'I']
    | 'ﬄ' => some ['F', 'F', 'L']
    | 'ﬅ' => some ['S', 'T']
    | 'ﬆ' => some ['S', 'T']
    | _ => none

def upper? (text : String) : Option String :=
  (text.toList.mapM ascii?).map fun parts => String.ofList parts.flatten

end StoreSync.Text.Upper
