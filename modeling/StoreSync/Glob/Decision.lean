import StoreSync.Glob.Basic

/-!
The row table decides the matching relation. A row is right for a pattern when each of its
answers says whether the pattern matches the tail of the text at its place; every step of the
table keeps that. Main statement: `holds_iff_matches`.
-/
namespace StoreSync.Glob

/-- The row has one answer for each tail of the text, and each answer is right. -/
def RowRight (p : Pattern) : List Char → List Bool → Prop
  | [], row => ∃ b, row = [b] ∧ (b = true ↔ Matches p [])
  | c :: cs, row => ∃ b bs, row = b :: bs ∧ (b = true ↔ Matches p (c :: cs)) ∧ RowRight p cs bs

variable {p : Pattern} {cs : List Char} {row : List Bool}

theorem headD_of_rowRight (h : RowRight p cs row) :
    row.headD false = true ↔ Matches p cs := by
  cases cs with
  | nil =>
    obtain ⟨b, rfl, hb⟩ := h
    exact hb
  | cons c cs =>
    obtain ⟨b, bs, rfl, hb, -⟩ := h
    exact hb

theorem matches_nil_iff : Matches [] cs ↔ cs = [] := by
  constructor
  · intro h
    cases h
    rfl
  · rintro rfl
    exact .nil

theorem matches_star_nil_iff : Matches (.star :: p) [] ↔ Matches p [] := by
  constructor
  · intro h
    generalize hcs : ([] : List Char) = cs at h
    cases h with
    | star u h =>
      obtain ⟨rfl, rfl⟩ := List.append_eq_nil_iff.mp hcs.symm
      exact h
    | one => simp at hcs
  · intro h
    exact .star [] h

theorem matches_star_cons_iff {c : Char} :
    Matches (.star :: p) (c :: cs) ↔ Matches p (c :: cs) ∨ Matches (.star :: p) cs := by
  constructor
  · intro h
    generalize hcs : c :: cs = ds at h
    cases h with
    | star u h =>
      cases u with
      | nil =>
        left
        simpa [hcs] using h
      | cons d u =>
        obtain ⟨-, rfl⟩ := List.cons.inj hcs
        exact .inr (.star u h)
    | one ht => simp [Token.accepts] at ht
  · rintro (h | h)
    · exact .star [] h
    · generalize hq : Token.star :: p = q at h
      cases h with
      | nil => simp at hq
      | star u h =>
        obtain ⟨-, rfl⟩ := List.cons.inj hq
        exact .star (c :: u) h
      | one ht =>
        obtain ⟨rfl, -⟩ := List.cons.inj hq
        simp [Token.accepts] at ht

theorem not_matches_one_nil {t : Token} (ht : t ≠ .star) : ¬ Matches (t :: p) [] := by
  intro h
  generalize hcs : ([] : List Char) = cs at h
  cases h with
  | star => exact ht rfl
  | one => simp at hcs

theorem matches_one_cons_iff {t : Token} (ht : t ≠ .star) {c : Char} :
    Matches (t :: p) (c :: cs) ↔ t.accepts c = true ∧ Matches p cs := by
  constructor
  · intro h
    generalize hcs : c :: cs = ds at h
    cases h with
    | star => exact absurd rfl ht
    | one hc h =>
      obtain ⟨rfl, rfl⟩ := List.cons.inj hcs
      exact ⟨hc, h⟩
  · rintro ⟨hc, h⟩
    exact .one hc h

theorem rowRight_emptyRow (cs : List Char) : RowRight [] cs (emptyRow cs) := by
  induction cs with
  | nil => exact ⟨true, rfl, by simp [matches_nil_iff]⟩
  | cons c cs ih => exact ⟨false, emptyRow cs, rfl, by simp [matches_nil_iff], ih⟩

theorem rowRight_starRow (h : RowRight p cs row) :
    RowRight (.star :: p) cs (starRow row) := by
  induction cs generalizing row with
  | nil =>
    obtain ⟨b, rfl, hb⟩ := h
    exact ⟨b, by simp [starRow], hb.trans matches_star_nil_iff.symm⟩
  | cons c cs ih =>
    obtain ⟨b, bs, rfl, hb, hbs⟩ := h
    have hrest := ih hbs
    refine ⟨_, starRow bs, rfl, ?_, hrest⟩
    rw [matches_star_cons_iff, Bool.or_eq_true, hb, headD_of_rowRight hrest]

theorem rowRight_oneRow {t : Token} (ht : t ≠ .star) (h : RowRight p cs row) :
    RowRight (t :: p) cs (oneRow t cs row) := by
  induction cs generalizing row with
  | nil => exact ⟨false, rfl, by simp [not_matches_one_nil ht]⟩
  | cons c cs ih =>
    obtain ⟨b, bs, rfl, -, hbs⟩ := h
    refine ⟨_, oneRow t cs bs, rfl, ?_, ih hbs⟩
    rw [matches_one_cons_iff ht, Bool.and_eq_true, List.tail_cons, headD_of_rowRight hbs]

theorem rowRight_rowFor (p : Pattern) (cs : List Char) : RowRight p cs (rowFor cs p) := by
  induction p with
  | nil => exact rowRight_emptyRow cs
  | cons t p ih =>
    cases t with
    | star => exact rowRight_starRow ih
    | any => exact rowRight_oneRow (by simp) ih
    | char c => exact rowRight_oneRow (by simp) ih
    | oneOf s => exact rowRight_oneRow (by simp) ih

theorem holds_iff_matches (p : Pattern) (cs : List Char) :
    holds p cs = true ↔ Matches p cs :=
  headD_of_rowRight (rowRight_rowFor p cs)

end StoreSync.Glob
