import StoreSync.Glob.Decision
import StoreSync.Glob.Reader

/-!
The fixed part of a pattern. What stands before the first special character is read as it stands,
so every text that the pattern matches begins with it. How the rest is read, with brackets that
are never closed and sets of all kinds, does not matter.
-/
namespace StoreSync.Glob

variable {c : Char} {cs text : List Char}

/-- A character that is not special stands for itself. -/
theorem readFrom_plain (hc : isSpecial c = false) (cs : List Char) :
    readFrom 0 (c :: cs) = .char c :: readFrom 0 cs := by
  simp only [isSpecial, Bool.or_eq_false_iff, decide_eq_false_iff_not] at hc
  obtain ⟨⟨hstar, hany⟩, hset⟩ := hc
  rw [readFrom, if_neg hstar, if_neg hany, if_neg hset]

/-- The text begins with what the pattern begins with. -/
theorem takeWhile_prefix_of_matches (h : Matches (readFrom 0 cs) text) :
    cs.takeWhile (!isSpecial ·) <+: text := by
  induction cs generalizing text with
  | nil => exact List.nil_prefix
  | cons c cs ih =>
    cases hc : isSpecial c with
    | true =>
      rw [List.takeWhile_cons_of_neg (by simp [hc])]
      exact List.nil_prefix
    | false =>
      rw [readFrom_plain hc] at h
      rw [List.takeWhile_cons_of_pos (by simp [hc])]
      cases text with
      | nil => exact absurd h (not_matches_one_nil (by simp))
      | cons d rest =>
        obtain ⟨hd, hrest⟩ := (matches_one_cons_iff (by simp)).mp h
        obtain rfl : c = d := by simpa [Token.accepts] using hd
        exact List.cons_prefix_cons.mpr ⟨rfl, ih hrest⟩

end StoreSync.Glob
