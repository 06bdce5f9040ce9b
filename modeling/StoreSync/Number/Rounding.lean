/-!
Rounding of a quotient to the nearest whole number; a half goes to the even neighbour.
-/
namespace StoreSync.Number.Rounding

def halfEven (num den : Nat) : Nat :=
  let q := num / den
  let r := num % den
  if 2 * r < den ∨ (2 * r = den ∧ q % 2 = 0) then q else q + 1

/-- Rounding treats a number and its negative alike. -/
def halfEvenInt (num : Int) (den : Nat) : Int :=
  if num < 0 then -(halfEven num.natAbs den : Int) else (halfEven num.natAbs den : Int)

theorem halfEven_one (n : Nat) : halfEven n 1 = n := by
  simp [halfEven, Nat.mod_one]

theorem halfEven_mul (n d : Nat) (hd : 0 < d) : halfEven (n * d) d = n := by
  simp [halfEven, Nat.mul_div_cancel _ hd, hd]

end StoreSync.Number.Rounding
