import StoreSync.Number.Binary64

/-!
Sizes for readers: bytes up to 1023, then KB, MB and GB with one decimal. The amount has 53
significant bits before it is scaled, and a half in the last place goes to the even digit.
-/
namespace StoreSync.ByteCount

open Number

def tenths (n : Nat) : String := s!"{n / 10}.{n % 10}"

/-- The amount in units of 1024 bytes, of 1024 times that, and so on. -/
def scaled (size power : Nat) : String :=
  tenths (Rounding.halfEven (10 * Binary64.nearestNat size) (twoPow (10 * power)))

/-- There is no text for amounts whose number of kilobytes is out of the floating-point range. -/
def render? (size : Int) : Option String :=
  if size < 1024 then some s!"{size} B"
  else
    let n := size.toNat
    if n < twoPow 20 then some (scaled n 1 ++ " KB")
    else if n < twoPow 30 then some (scaled n 2 ++ " MB")
    else if twoPow 1034 ≤ Binary64.nearestNat n then none
    else some (scaled n 3 ++ " GB")

end StoreSync.ByteCount
