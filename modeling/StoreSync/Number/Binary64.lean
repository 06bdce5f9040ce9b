import StoreSync.Number.Power
import StoreSync.Number.Rounding

/-!
Binary floating point with 53 significant bits, computed exactly: a finite number is a
significand times a power of two, and each operation rounds the exact result once.
-/
namespace StoreSync.Number

inductive Binary64 where
  | finite (significand exponent : Int)
  | infinite (negative : Bool)
  | nan
  deriving DecidableEq

namespace Binary64

def leastExponent : Int := -1074

def ratio (significand exponent : Int) : Int × Nat :=
  if exponent < 0 then (significand, twoPow exponent.natAbs)
  else (significand * twoPow exponent.natAbs, 1)

/-- `num / den` in units of `2 ^ exponent`, rounded. -/
def units (num den : Nat) (exponent : Int) : Nat :=
  if exponent < 0 then Rounding.halfEven (num * twoPow exponent.natAbs) den
  else Rounding.halfEven num (den * twoPow exponent.natAbs)

def reaches (num den : Nat) (exponent : Int) : Bool :=
  if exponent < 0 then den ≤ num * twoPow exponent.natAbs
  else den * twoPow exponent.natAbs ≤ num

/-- The exponent that leaves 53 significant bits of `num / den`, or the least exponent. -/
def exponentFor (num den : Nat) : Int :=
  let top : Int := (Nat.log2 num : Int) - (Nat.log2 den : Int)
  max leastExponent (if reaches num den top then top - 52 else top - 53)

def round (num : Int) (den : Nat) : Binary64 :=
  if num = 0 then .finite 0 0
  else
    let e := exponentFor num.natAbs den
    let q := units num.natAbs den e
    if reaches q 1 (1024 - e) then .infinite (num < 0)
    else .finite (if num < 0 then -(q : Int) else q) e

/-- The number nearest to `significand * 10 ^ exponent`. Exponents far out of range are decided
without computing the power. -/
def ofDecimal (significand exponent : Int) : Binary64 :=
  let size : Int := Nat.log2 significand.natAbs
  if significand = 0 ∨ size + 3 * exponent < -2400 then .finite 0 0
  else if exponent > 400 then .infinite (significand < 0)
  else if exponent < 0 then round significand (tenPow exponent.natAbs)
  else round (significand * tenPow exponent.natAbs) 1

def addRatio (a b : Int × Nat) : Binary64 :=
  round (a.1 * b.2 + b.1 * a.2) (a.2 * b.2)

def mulRatio (a b : Int × Nat) : Binary64 :=
  round (a.1 * b.1) (a.2 * b.2)

/-- The natural number with at most 53 significant bits that is nearest to `n`. -/
def nearestNat (n : Nat) : Nat :=
  let shift := Nat.log2 n - 52
  Rounding.halfEven n (twoPow shift) * twoPow shift

end Binary64

end StoreSync.Number
