/-!
Sets of characters given by closed intervals of code points.
-/
namespace StoreSync.Text.Ranges

def holds (table : List (Nat × Nat)) (c : Char) : Bool :=
  table.any fun r => r.1 ≤ c.toNat && c.toNat ≤ r.2

theorem holds_iff (table : List (Nat × Nat)) (c : Char) :
    holds table c = true ↔ ∃ r ∈ table, r.1 ≤ c.toNat ∧ c.toNat ≤ r.2 := by
  simp [holds]

end StoreSync.Text.Ranges
