import Mathlib.Tactic.Linarith
import Mathlib.Tactic.Ring
import Mathlib.Tactic.SplitIfs
import StoreSync.Files.Tree
import StoreSync.Moment

/-!
Times of files as moments. The floating-point numbers on the way from microseconds to a moment keep
between whole seconds, so a time that lies between two seconds of the calendar has a moment, and a
time that a file system keeps lacks one only because of its year.
-/
namespace StoreSync

open Number

namespace Number

structure Between (a b : Int) (q : Int × Nat) : Prop where
  positive : 0 < q.2
  low : a * q.2 ≤ q.1
  high : q.1 ≤ b * q.2

section Rounding

variable {num den c : Nat}

theorem Rounding.halfEven_le (hden : 0 < den) (h : num ≤ c * den) :
    Rounding.halfEven num den ≤ c := by
  have hquotient : num / den ≤ c := Nat.div_le_of_le_mul (Nat.mul_comm c den ▸ h)
  unfold Rounding.halfEven
  dsimp only
  split_ifs with hdown
  · exact hquotient
  · -- The quotient cannot be `c`, for then nothing is left over that could be rounded up.
    refine Nat.lt_of_le_of_ne hquotient fun heq => hdown (.inl ?_)
    have hsplit := Nat.div_add_mod' num den
    rw [heq] at hsplit
    omega

theorem Rounding.le_halfEven (hden : 0 < den) (h : c * den ≤ num) :
    c ≤ Rounding.halfEven num den := by
  have hquotient : c ≤ num / den := (Nat.le_div_iff_mul_le hden).mpr h
  unfold Rounding.halfEven
  dsimp only
  split_ifs
  · exact hquotient
  · exact Nat.le_succ_of_le hquotient

end Rounding

namespace Binary64

variable {num den low high : Nat} {a b : Int}

/-- Below `2 ^ 52` numbers have binary places behind the point. -/
theorem exponentFor_neg (hnum : 0 < num) (h : num < den * 2 ^ 52) : exponentFor num den < 0 := by
  have hden : den ≠ 0 := by
    rintro rfl
    omega
  have htop : (Nat.log2 num : Int) - Nat.log2 den < 53 := by
    by_contra hlarge
    have hlog : Nat.log2 den + 1 + 52 ≤ Nat.log2 num := by omega
    have hpow : 2 ^ (Nat.log2 den + 1) * 2 ^ 52 ≤ num := by
      rw [← Nat.pow_add]
      exact (Nat.pow_le_pow_right (by decide) hlog).trans (Nat.log2_self_le hnum.ne')
    have hlt : den < 2 ^ (Nat.log2 den + 1) := Nat.lt_log2_self
    omega
  have hreaches : reaches num den ((Nat.log2 num : Int) - Nat.log2 den) = true →
      (Nat.log2 num : Int) - Nat.log2 den < 52 := by
    intro hreach
    by_contra hlarge
    have hnonneg : ¬ (Nat.log2 num : Int) - Nat.log2 den < 0 := by omega
    simp only [reaches, if_neg hnonneg, decide_eq_true_eq] at hreach
    have hpow : 2 ^ 52 ≤ twoPow ((Nat.log2 num : Int) - Nat.log2 den).natAbs :=
      Nat.pow_le_pow_right (by decide) (by omega)
    have hle := Nat.mul_le_mul_left den hpow
    omega
  unfold exponentFor leastExponent
  dsimp only
  split_ifs with hreach
  · have := hreaches hreach
    omega
  · omega

/-- A magnitude is rounded to a multiple of a fraction of one, which keeps it between whole
numbers. -/
theorem units_between {e : Int} (he : e < 0) (hden : 0 < den) (hlow : low * den ≤ num)
    (hhigh : num ≤ high * den) :
    low * twoPow e.natAbs ≤ units num den e ∧ units num den e ≤ high * twoPow e.natAbs := by
  rw [units, if_pos he]
  constructor
  · refine Rounding.le_halfEven hden ?_
    rw [Nat.mul_right_comm]
    exact Nat.mul_le_mul_right _ hlow
  · refine Rounding.halfEven_le hden ?_
    rw [Nat.mul_right_comm]
    exact Nat.mul_le_mul_right _ hhigh

theorem not_reaches {q : Nat} {e : Int} (he : e < 0) (h : q ≤ high * twoPow e.natAbs)
    (hhigh : high < 2 ^ 52) : reaches q 1 (1024 - e) = false := by
  have hnonneg : ¬ 1024 - e < 0 := by omega
  have hpow : twoPow 52 * twoPow e.natAbs ≤ twoPow (1024 - e).natAbs := by
    unfold twoPow
    rw [Nat.pow_eq, Nat.pow_eq, Nat.pow_eq, ← Nat.pow_add]
    exact Nat.pow_le_pow_right (by decide) (by omega)
  have hlt : high * twoPow e.natAbs < twoPow 52 * twoPow e.natAbs :=
    Nat.mul_lt_mul_of_pos_right hhigh (twoPow_pos e.natAbs)
  simp only [reaches, if_neg hnonneg, decide_eq_false_iff_not, Nat.one_mul]
  omega

/-- The bounds of a positive number, as far as they are positive, hold for what lies between
them. -/
theorem bounds_of_pos {num : Int} (hden : 0 < den) (hlow : a * den ≤ num)
    (hhigh : num ≤ b * den) (hb : b < 2 ^ 52) (hnum : 0 < num) :
    ∃ low high : Nat, low * den ≤ num.natAbs ∧ num.natAbs ≤ high * den ∧ high < 2 ^ 52 ∧
      ∀ q k : Nat, low * k ≤ q → q ≤ high * k → a * k ≤ q ∧ (q : Int) ≤ b * k := by
  have hdenInt : (0 : Int) < den := by exact_mod_cast hden
  have hb0 : 0 < b := by nlinarith
  have hhighAbs : (b.toNat : Int) = b := Int.toNat_of_nonneg hb0.le
  have hlowAbs := Int.self_le_toNat a
  refine ⟨a.toNat, b.toNat, ?_, ?_, by omega, fun q k hq hq' => ?_⟩
  · zify
    rw [abs_of_pos hnum]
    rcases le_total a 0 with ha0 | ha0
    · rw [Int.toNat_of_nonpos ha0]
      omega
    · rw [Int.toNat_of_nonneg ha0]
      exact hlow
  · zify
    rw [abs_of_pos hnum, hhighAbs]
    exact hhigh
  · zify at hq hq'
    rw [hhighAbs] at hq'
    have hk : (0 : Int) ≤ k := Int.natCast_nonneg k
    exact ⟨by nlinarith, hq'⟩

/-- The bounds of a magnitude. For a negative number they change places. -/
theorem magnitude_between {num : Int} (hden : 0 < den) (hlow : a * den ≤ num)
    (hhigh : num ≤ b * den) (ha : -2 ^ 52 < a) (hb : b < 2 ^ 52) (hnum : num ≠ 0) :
    ∃ low high : Nat, low * den ≤ num.natAbs ∧ num.natAbs ≤ high * den ∧ high < 2 ^ 52 ∧
      ∀ q k : Nat, low * k ≤ q → q ≤ high * k →
        a * k ≤ (if num < 0 then -(q : Int) else q) ∧
          (if num < 0 then -(q : Int) else q) ≤ b * k := by
  rcases lt_or_gt_of_ne hnum with hneg | hpos
  · obtain ⟨low, high, hbelow, habove, hsmall, hbounds⟩ :=
      @bounds_of_pos den (-b) (-a) (-num) hden (by linarith) (by linarith) (by omega) (by omega)
    rw [Int.natAbs_neg] at hbelow habove
    refine ⟨low, high, hbelow, habove, hsmall, fun q k hq hq' => ?_⟩
    obtain ⟨hfrom, hto⟩ := hbounds q k hq hq'
    rw [if_pos hneg]
    constructor <;> linarith
  · obtain ⟨low, high, hbelow, habove, hsmall, hbounds⟩ := bounds_of_pos hden hlow hhigh hb hpos
    refine ⟨low, high, hbelow, habove, hsmall, fun q k hq hq' => ?_⟩
    rw [if_neg hpos.not_gt]
    exact hbounds q k hq hq'

/-- Rounding keeps a quotient between whole numbers that are not too large. -/
theorem round_between {num : Int} (h : Between a b (num, den)) (ha : -2 ^ 52 < a)
    (hb : b < 2 ^ 52) :
    ∃ s e, round num den = .finite s e ∧ Between a b (ratio s e) := by
  obtain ⟨hden, hlow, hhigh⟩ := h
  dsimp only at hden hlow hhigh
  unfold round
  by_cases hzero : num = 0
  · rw [if_pos hzero]
    have hdenInt : (0 : Int) < den := by exact_mod_cast hden
    have ha0 : a ≤ 0 := by nlinarith
    have hb0 : 0 ≤ b := by nlinarith
    exact ⟨0, 0, rfl, by decide, by simpa [ratio] using ha0, by simpa [ratio] using hb0⟩
  · obtain ⟨low, high, hlow, hhigh, hsmall, hsigned⟩ :=
      magnitude_between hden hlow hhigh ha hb hzero
    have he : exponentFor num.natAbs den < 0 := by
      refine exponentFor_neg (Int.natAbs_pos.mpr hzero) (hhigh.trans_lt ?_)
      rw [Nat.mul_comm]
      exact Nat.mul_lt_mul_of_pos_left hsmall hden
    obtain ⟨hbelow, habove⟩ := units_between he hden hlow hhigh
    obtain ⟨hfrom, hto⟩ := hsigned _ _ hbelow habove
    rw [if_neg hzero]
    dsimp only
    rw [not_reaches he habove hsmall, if_neg Bool.false_ne_true]
    refine ⟨_, _, rfl, ?_⟩
    rw [ratio, if_pos he]
    exact ⟨twoPow_pos _, hfrom, hto⟩

end Binary64

end Number

namespace Moment

variable {a b : Int} {q : Int × Nat}

theorem halfEvenInt_between (h : Between a b q) (ha : -2 ^ 52 < a) (hb : b < 2 ^ 52) :
    a ≤ Rounding.halfEvenInt q.1 q.2 ∧ Rounding.halfEvenInt q.1 q.2 ≤ b := by
  obtain ⟨num, den⟩ := q
  obtain ⟨hden, hlow, hhigh⟩ := h
  dsimp only at hden hlow hhigh ⊢
  by_cases hzero : num = 0
  · have hdenInt : (0 : Int) < den := by exact_mod_cast hden
    have hround : Rounding.halfEvenInt num den = 0 := by
      simp [hzero, Rounding.halfEvenInt, Rounding.halfEven, hden]
    rw [hround]
    constructor <;> nlinarith
  · obtain ⟨low, high, hlow, hhigh, -, hsigned⟩ :=
      Binary64.magnitude_between hden hlow hhigh ha hb hzero
    have hbounds := hsigned (Rounding.halfEven num.natAbs den) 1
      (by simpa using Rounding.le_halfEven hden hlow)
      (by simpa using Rounding.halfEven_le hden hhigh)
    simpa [Rounding.halfEvenInt] using hbounds

/-- The whole part of a quotient lies between the same whole numbers. There is a rest on the side
of a bound only if the whole part does not reach the bound. -/
theorem tdiv_between (h : Between a b q) :
    let whole := Int.tdiv q.1 q.2
    let rest := q.1 - whole * q.2
    (a ≤ whole ∧ whole ≤ b) ∧ (rest < 0 → a < whole) ∧ (0 < rest → whole < b) ∧
      -(q.2 : Int) < rest ∧ rest < q.2 := by
  obtain ⟨num, den⟩ := q
  obtain ⟨hden, hlow, hhigh⟩ := h
  dsimp only at hden hlow hhigh ⊢
  have hdenInt : (0 : Int) < den := by exact_mod_cast hden
  have hrest : num - Int.tdiv num den * den = Int.tmod num den := by
    rw [Int.tmod_def, Int.mul_comm]
  have hfrom : -(den : Int) < Int.tmod num den := Int.lt_tmod_of_pos num hdenInt
  have hto : Int.tmod num den < den := Int.tmod_lt_of_pos num hdenInt
  rw [← hrest] at hfrom hto
  refine ⟨⟨?_, ?_⟩, fun hneg => ?_, fun hpos => ?_, hfrom, hto⟩ <;> nlinarith

/-- The rest in microseconds has the side of the rest. -/
theorem micros_between {rest : Int} {den : Nat} (hden : 0 < den) (hfrom : -(den : Int) < rest)
    (hto : rest < den) :
    ∃ t f, Binary64.mulRatio (rest, den) (1000000, 1) = .finite t f ∧
      let micros := Rounding.halfEvenInt (Binary64.ratio t f).1 (Binary64.ratio t f).2
      (-1000000 ≤ micros ∧ micros ≤ 1000000) ∧ (micros < 0 → rest < 0) ∧
        (0 < micros → 0 < rest) := by
  have hdenInt : (0 : Int) < den := by exact_mod_cast hden
  have hbetween : Between (if rest < 0 then -1000000 else 0) (if 0 < rest then 1000000 else 0)
      (rest * 1000000, den * 1) := by
    refine ⟨by omega, ?_, ?_⟩ <;> push_cast <;> split_ifs <;> omega
  obtain ⟨t, f, hround, hratio⟩ := Binary64.round_between hbetween
    (by split_ifs <;> decide) (by split_ifs <;> decide)
  have hmicros := halfEvenInt_between hratio (by split_ifs <;> decide) (by split_ifs <;> decide)
  refine ⟨t, f, hround, ?_⟩
  dsimp only
  generalize Rounding.halfEvenInt (Binary64.ratio t f).1 (Binary64.ratio t f).2 = micros at *
  split_ifs at hmicros <;> omega

/-- The seconds of a floating-point number lie between the same whole seconds as the number. -/
theorem ofSeconds_between {s e : Int} (h : Between a b (Binary64.ratio s e)) :
    ∃ seconds micros, a ≤ seconds ∧ seconds ≤ b ∧
      ofSeconds (.finite s e) = ofParts seconds micros := by
  obtain ⟨⟨hlow, hhigh⟩, habove, hbelow, hfrom, hto⟩ := tdiv_between h
  obtain ⟨t, f, hmul, ⟨-, hupTo⟩, hnegative, hpositive⟩ := micros_between h.positive hfrom hto
  unfold ofSeconds
  dsimp only
  rw [hmul]
  dsimp only
  split_ifs with hcarry hborrow
  · exact ⟨_, _, by omega, by have := hbelow (hpositive (by omega)); omega, rfl⟩
  · exact ⟨_, _, by have := habove (hnegative hborrow); omega, by omega, rfl⟩
  · exact ⟨_, _, hlow, hhigh, rfl⟩

theorem nanosecond_eq : nanosecond = (4835703278458517, 2 ^ 82) := by decide +kernel

/-- The part of a time below a second is a fraction of a second. -/
theorem fraction_between {nanos : Int} (hlow : 0 ≤ nanos) (hhigh : nanos ≤ 999999000) :
    ∃ s e, Binary64.mulRatio (nanos, 1) nanosecond = .finite s e ∧
      Between 0 (if nanos = 0 then 0 else 1) (Binary64.ratio s e) := by
  rw [nanosecond_eq]
  refine Binary64.round_between ⟨by simp, ?_, ?_⟩ (by decide) (by split_ifs <;> decide)
  · simpa using hlow
  · dsimp only
    split_ifs <;> omega

/-- The seconds of a file's time lie between the same whole seconds as the time. -/
theorem ofFileTime_between {micros : Int} (ha : -2 ^ 52 < a) (hb : b < 2 ^ 52)
    (hlow : a * 1000000 ≤ micros) (hhigh : micros ≤ b * 1000000) :
    ∃ seconds rest, a ≤ seconds ∧ seconds ≤ b ∧ ofFileTime micros = ofParts seconds rest := by
  have hfloor : micros.fdiv 1000000 = micros / 1000000 :=
    Int.fdiv_eq_ediv_of_nonneg micros (by decide)
  obtain ⟨s, e, hmul, hdenominator, hfraction, hsecond⟩ :=
    @fraction_between ((micros - micros / 1000000 * 1000000) * 1000) (by omega) (by omega)
  have hsum : Between a b
      ((micros / 1000000) * (Binary64.ratio s e).2 + (Binary64.ratio s e).1 * (1 : Nat),
        1 * (Binary64.ratio s e).2) := by
    generalize Binary64.ratio s e = q at *
    have hden : (0 : Int) < q.2 := by exact_mod_cast hdenominator
    refine ⟨by simpa using hdenominator, ?_, ?_⟩
    · have hfloor : a ≤ micros / 1000000 := by omega
      push_cast
      nlinarith
    · push_cast
      split_ifs at hsecond
      · have hceiling : micros / 1000000 ≤ b := by omega
        nlinarith
      · have hceiling : micros / 1000000 + 1 ≤ b := by omega
        nlinarith
  obtain ⟨t, f, hround, hratio⟩ := Binary64.round_between hsum ha hb
  unfold ofFileTime Binary64.addRatio
  dsimp only
  rw [hfloor, hmul]
  dsimp only
  rw [hround]
  exact ofSeconds_between hratio

/-- Seconds that are counted in 53 bits have a year. -/
theorem ofParts_of_bounded {seconds rest : Int} (hlow : -2 ^ 52 < seconds)
    (hhigh : seconds < 2 ^ 52) :
    ofParts seconds rest =
      if yearOfDay (Int.fdiv seconds 86400) < 1 ∨ 9999 < yearOfDay (Int.fdiv seconds 86400) then
        .error (.year (shownYear (yearOfDay (Int.fdiv seconds 86400))))
      else .ok (.zoned (seconds * 1000000 + rest)) := by
  have hpow : (twoPow 63 : Int) = 9223372036854775808 ∧ (twoPow 31 : Int) = 2147483648 :=
    ⟨rfl, rfl⟩
  have hyear : -1000000000 ≤ yearOfDay (Int.fdiv seconds 86400) ∧
      yearOfDay (Int.fdiv seconds 86400) ≤ 1000000000 := by
    rw [Int.fdiv_eq_ediv_of_nonneg _ (by decide)]
    unfold yearOfDay
    dsimp only
    rw [Int.fdiv_eq_ediv_of_nonneg _ (by decide)]
    split_ifs <;> omega
  unfold ofParts
  rw [hpow.1, hpow.2, if_neg (by omega)]
  dsimp only
  rw [if_neg (by omega)]

/-- The days from the beginning of the year 1 to the end of the year 9999. -/
theorem yearOfDay_between {day : Int} (hlow : -719162 ≤ day) (hhigh : day ≤ 2932896) :
    1 ≤ yearOfDay day ∧ yearOfDay day ≤ 9999 := by
  unfold yearOfDay
  dsimp only
  rw [Int.fdiv_eq_ediv_of_nonneg _ (by decide)]
  split_ifs <;> omega

end Moment

namespace Files.TimeRange

variable {r : TimeRange} {micros : Int}

/-- All seconds of the range lie in the years 1 to 9999, the years of the calendar. -/
structure InCalendar (r : TimeRange) : Prop where
  first : -62135596800 ≤ r.first
  last : r.last ≤ 253402300799

theorem inCalendar_bits34 : bits34.InCalendar := ⟨by decide, by decide⟩

theorem keep_between (r : TimeRange) (micros : Int) :
    r.first * 1000000 ≤ r.keep micros ∧ r.keep micros ≤ r.last * 1000000 := by
  have hordered := r.ordered
  unfold keep
  rw [Int.fdiv_eq_ediv_of_nonneg micros (by decide)]
  dsimp only
  split_ifs <;> omega

theorem seconds_of_keep (r : TimeRange) (micros : Int) :
    ∃ seconds rest, r.first ≤ seconds ∧ seconds ≤ r.last ∧
      Moment.ofFileTime (r.keep micros) = Moment.ofParts seconds rest := by
  obtain ⟨hlow, hhigh⟩ := r.keep_between micros
  exact Moment.ofFileTime_between (by simpa using r.early) (by simpa using r.late) hlow hhigh

/-- A time that is kept lacks a moment only because of its year. -/
theorem year_of_keep {f : ClockFault} (h : Moment.ofFileTime (r.keep micros) = .error f) :
    ∃ year, f = .year year := by
  obtain ⟨seconds, rest, hfirst, hlast, hparts⟩ := r.seconds_of_keep micros
  have hearly := r.early
  have hlate := r.late
  rw [hparts, Moment.ofParts_of_bounded (by omega) (by omega)] at h
  split_ifs at h
  exact ⟨_, (Except.error.inj h).symm⟩

theorem InCalendar.moment (h : r.InCalendar) (micros : Int) :
    ∃ m, Moment.ofFileTime (r.keep micros) = .ok m := by
  obtain ⟨seconds, rest, hfirst, hlast, hparts⟩ := r.seconds_of_keep micros
  have hearly := h.first
  have hlate := h.last
  have hday : seconds.fdiv 86400 = seconds / 86400 := Int.fdiv_eq_ediv_of_nonneg _ (by decide)
  obtain ⟨hone, hlast'⟩ := @Moment.yearOfDay_between (seconds.fdiv 86400) (by omega) (by omega)
  rw [hparts, Moment.ofParts_of_bounded (by omega) (by omega), if_neg (by omega)]
  exact ⟨_, rfl⟩

end Files.TimeRange

end StoreSync
