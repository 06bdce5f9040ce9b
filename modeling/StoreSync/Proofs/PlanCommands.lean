import Mathlib.Tactic.SplitIfs
import StoreSync.Plan

/-!
The commands of a plan. Those of a difference are copies, one for an object of the source alone
or for a pair, and at the end at most one removal, of all that the destination alone has. A copy
of an object of the source alone goes to its place below the destination, a copy of a pair to
the listed location.
-/
namespace StoreSync

namespace Command

/-- A command is formed when its operands are in order and none of them is a pattern. -/
theorem make_eq_ok_iff {op : String} {flags : Flags} {ls : List Location} {c : Command} :
    make op flags ls = .ok c ↔
      operandFault? op ls = none ∧ (∀ l ∈ ls, l.isWildcard = false) ∧ c = ⟨op, ls, flags⟩ := by
  unfold make
  cases hop : operandFault? op ls with
  | some m => simp
  | none =>
    cases hfind : ls.find? Location.isWildcard with
    | some l =>
      have hl : l.isWildcard = true := List.find?_some hfind
      have hmem : l ∈ ls := List.mem_of_find?_eq_some hfind
      simp only [reduceCtorEq, true_and, false_iff, not_and]
      intro h
      simp [h l hmem] at hl
    | none =>
      have hall : ∀ l ∈ ls, l.isWildcard = false := by simpa using hfind
      constructor
      · intro h
        exact ⟨rfl, hall, (Except.ok.inj h).symm⟩
      · rintro ⟨-, -, rfl⟩
        rfl

theorem make_copy_iff {s t : Location} {flags : Flags} {c : Command} :
    make copyOp flags [s, t] = .ok c ↔
      s.same t = false ∧ s.isWildcard = false ∧ t.isWildcard = false ∧
        c = ⟨copyOp, [s, t], flags⟩ := by
  rw [make_eq_ok_iff]
  cases hsame : s.same t <;> simp [operandFault?, hsame, and_assoc]

end Command

namespace Plan

open Command

variable {p : Planner} {d : Diff} {c : Command}

theorem mem_commands_iff {steps : List Step} : c ∈ commands steps ↔ Step.emit c ∈ steps := by
  simp only [commands, List.mem_filterMap]
  constructor
  · rintro ⟨s, hs, hc⟩
    cases s with
    | emit c' =>
      have h : c' = c := by simpa [Step.command?] using hc
      exact h ▸ hs
    | skip pair reason => simp [Step.command?] at hc
    | drop ls reason => simp [Step.command?] at hc
  · intro h
    exact ⟨_, h, rfl⟩

theorem command?_attempt {op : String} {flags : Flags} {ls named : List Location} :
    (attempt op flags ls named).command? = some c ↔ make op flags ls = .ok c := by
  unfold attempt
  cases make op flags ls <;> simp [Step.command?]

theorem command?_eq_some_iff {s : Step} : s.command? = some c ↔ s = .emit c := by
  cases s <;> simp [Step.command?]

/-- The copies of a difference, up to the pair that ends the planning. -/
def copies (p : Planner) (d : Diff) : List Command :=
  commands (d.onlySource.map (copyNew p) ++ (copyPairs p d.common).steps)

def removalOf (d : Diff) : Command := ⟨removeOp, d.onlyDestination, baseFlags⟩

/-- A plan comes to a removal: deletion is on, no pair ended the planning, and what the
destination alone has is something and holds no pattern. -/
structure ComesToRemoval (p : Planner) (d : Diff) : Prop where
  delete : p.delete = true
  fault : (ofDiff p d).fault = none
  nonempty : d.onlyDestination ≠ []
  literal : ∀ l ∈ d.onlyDestination, l.isWildcard = false

theorem commands_append (xs ys : List Step) :
    commands (xs ++ ys) = commands xs ++ commands ys := List.filterMap_append

theorem ofDiff_steps (p : Planner) (d : Diff) :
    commands (ofDiff p d).steps =
      copies p d ++
        if (copyPairs p d.common).fault.isNone then commands (removal p d.onlyDestination)
        else [] := by
  rw [copies, ofDiff, commands_append]
  congr 1
  split_ifs <;> rfl

/-- The command of a removal is formed unless one of the locations is a pattern. -/
theorem commands_removal (hdelete : p.delete = true) (hnil : d.onlyDestination ≠ [])
    (hliteral : ∀ l ∈ d.onlyDestination, l.isWildcard = false) :
    commands (removal p d.onlyDestination) = [removalOf d] := by
  have hop : operandFault? removeOp d.onlyDestination = none := by
    have hne : removeOp ≠ copyOp := by decide
    simp [operandFault?, hne, hnil]
  have hmake : make removeOp baseFlags d.onlyDestination = .ok (removalOf d) :=
    make_eq_ok_iff.mpr ⟨hop, hliteral, rfl⟩
  simp [removal, hdelete, hnil, attempt, hmake, commands, Step.command?]

theorem commands_of_comesToRemoval (h : ComesToRemoval p d) :
    commands (ofDiff p d).steps = copies p d ++ [removalOf d] := by
  have hfault : (copyPairs p d.common).fault = none := h.fault
  rw [ofDiff_steps, hfault, commands_removal h.delete h.nonempty h.literal]
  rfl

theorem commands_of_not_comesToRemoval (h : ¬ ComesToRemoval p d) :
    commands (ofDiff p d).steps = copies p d := by
  rw [ofDiff_steps]
  split_ifs with hfault
  · have hnone : (ofDiff p d).fault = none := Option.isNone_iff_eq_none.mp hfault
    have hempty : commands (removal p d.onlyDestination) = [] := by
      unfold removal
      split_ifs with hon
      · simp only [Bool.and_eq_true, Bool.not_eq_true', List.isEmpty_eq_false_iff] at hon
        cases hmake : make removeOp baseFlags d.onlyDestination with
        | error m => simp [attempt, hmake, commands, Step.command?]
        | ok c =>
          exact absurd ⟨hon.1, hnone, hon.2, (make_eq_ok_iff.mp hmake).2.1⟩ h
      · rfl
    rw [hempty, List.append_nil]
  · exact List.append_nil _

/-- A command of a plan is a copy, or the removal if the plan comes to one. -/
theorem mem_commands_ofDiff_iff :
    c ∈ commands (ofDiff p d).steps ↔
      c ∈ copies p d ∨ (ComesToRemoval p d ∧ c = removalOf d) := by
  by_cases h : ComesToRemoval p d
  · rw [commands_of_comesToRemoval h, List.mem_append, List.mem_singleton]
    simp [h]
  · rw [commands_of_not_comesToRemoval h]
    simp [h]

def copyPair? (p : Planner) (pair : Entry × Entry) : Option Command :=
  match copyPair p pair with
  | .ok s => s.command?
  | .error _ => none

/-- The pairs give the copies of some of them, in their order. -/
theorem commands_copyPairs_sublist (p : Planner) (pairs : List (Entry × Entry)) :
    List.Sublist (commands (copyPairs p pairs).steps) (pairs.filterMap (copyPair? p)) := by
  induction pairs with
  | nil => exact List.Sublist.refl _
  | cons pair rest ih =>
    unfold copyPairs
    cases hpair : copyPair p pair with
    | error f => exact List.nil_sublist _
    | ok s =>
      have hstep : copyPair? p pair = s.command? := by simp [copyPair?, hpair]
      dsimp only
      cases hs : s.command? with
      | none =>
        rw [List.filterMap_cons_none (hstep.trans hs), commands, List.filterMap_cons_none hs]
        exact ih
      | some c =>
        rw [List.filterMap_cons_some (hstep.trans hs), commands, List.filterMap_cons_some hs]
        exact ih.cons_cons c

/-- When no pair ends the planning, every pair is looked at. -/
theorem commands_copyPairs {pairs : List (Entry × Entry)} (h : (copyPairs p pairs).fault = none) :
    commands (copyPairs p pairs).steps = pairs.filterMap (copyPair? p) := by
  induction pairs with
  | nil => rfl
  | cons pair rest ih =>
    unfold copyPairs at h ⊢
    cases hpair : copyPair p pair with
    | error f => simp [hpair] at h
    | ok s =>
      simp only [hpair] at h ⊢
      rw [List.filterMap_cons, copyPair?, hpair, ← ih h]
      cases hs : s.command? <;> simp [commands, hs]

/-- When no pair ends the planning, every pair can be compared. -/
theorem exists_reason {pairs : List (Entry × Entry)} (h : (copyPairs p pairs).fault = none)
    {pair : Entry × Entry} (hpair : pair ∈ pairs) :
    ∃ reason, Freshness.reason? p.strategy pair.1 pair.2 = .ok reason := by
  induction pairs with
  | nil => exact absurd hpair List.not_mem_nil
  | cons first rest ih =>
    unfold copyPairs at h
    cases hfirst : copyPair p first with
    | error f => simp [hfirst] at h
    | ok s =>
      simp only [hfirst] at h
      rcases List.mem_cons.mp hpair with rfl | hpair
      · unfold copyPair at hfirst
        cases hreason : Freshness.reason? p.strategy pair.1 pair.2 with
        | error f => simp [hreason] at hfirst
        | ok reason => exact ⟨reason, rfl⟩
      · exact ih h hpair

/-- Pairs that are in sync give a note each, and no command. -/
theorem copyPairs_of_inSync {pairs : List (Entry × Entry)}
    (h : ∀ pair ∈ pairs, ∃ reason, Freshness.reason? p.strategy pair.1 pair.2 = .ok (some reason)) :
    ∃ notes : List ((Entry × Entry) × InSync), notes.map Prod.fst = pairs ∧
      copyPairs p pairs = ⟨notes.map fun n => .skip n.1 n.2, none⟩ := by
  induction pairs with
  | nil => exact ⟨[], rfl, rfl⟩
  | cons pair rest ih =>
    obtain ⟨notes, hpairs, hrest⟩ := ih fun q hq => h q (List.mem_cons_of_mem pair hq)
    obtain ⟨reason, hreason⟩ := h pair List.mem_cons_self
    refine ⟨(pair, reason) :: notes, by rw [List.map_cons, hpairs], ?_⟩
    rw [copyPairs, copyPair, hreason, hrest]
    rfl

theorem commands_skips (notes : List ((Entry × Entry) × InSync)) :
    commands (notes.map fun n => .skip n.1 n.2) = [] := by
  simp [commands, Step.command?]

theorem copies_eq (h : (ofDiff p d).fault = none) :
    copies p d =
      d.onlySource.filterMap (fun l => (copyNew p l).command?) ++
        d.common.filterMap (copyPair? p) := by
  rw [copies, commands_append, commands_copyPairs h, commands, List.filterMap_map]
  rfl

theorem copies_sublist (p : Planner) (d : Diff) :
    List.Sublist (copies p d)
      (d.onlySource.filterMap (fun l => (copyNew p l).command?) ++
        d.common.filterMap (copyPair? p)) := by
  rw [copies, commands_append, commands, List.filterMap_map]
  exact (List.Sublist.refl _).append (commands_copyPairs_sublist p d.common)

theorem copyNew_command?_iff {l : Location} :
    (copyNew p l).command? = some c ↔
      l.same (Placement.target l p.destination p.batch) = false ∧ l.isWildcard = false ∧
        c = ⟨copyOp, [l, Placement.target l p.destination p.batch], copyFlags p⟩ := by
  have hliteral : (Placement.target l p.destination p.batch).isWildcard = false := by
    simp [Placement.target, Location.setLiteral, Location.isWildcard]
  rw [copyNew, command?_attempt, make_copy_iff]
  simp [hliteral]

theorem copyPair?_iff {pair : Entry × Entry} :
    copyPair? p pair = some c ↔
      Freshness.reason? p.strategy pair.1 pair.2 = .ok none ∧
        pair.1.location.same pair.2.location = false ∧ pair.1.location.isWildcard = false ∧
          pair.2.location.isWildcard = false ∧
            c = ⟨copyOp, [pair.1.location, pair.2.location], copyFlags p⟩ := by
  unfold copyPair? copyPair
  cases hreason : Freshness.reason? p.strategy pair.1 pair.2 with
  | error f => simp
  | ok reason =>
    cases reason with
    | some r => simp [Step.command?]
    | none => simp [command?_attempt, make_copy_iff]

/-- A copy of a plan is that of an object of the source alone, or that of a pair. -/
theorem mem_copies (h : c ∈ copies p d) :
    (∃ l ∈ d.onlySource, (copyNew p l).command? = some c) ∨
      ∃ pair ∈ d.common, copyPair? p pair = some c := by
  rcases List.mem_append.mp ((copies_sublist p d).subset h) with hnew | hpair
  · exact .inl (List.mem_filterMap.mp hnew)
  · exact .inr (List.mem_filterMap.mp hpair)

theorem mem_copies_of_copyNew {l : Location} (hl : l ∈ d.onlySource)
    (hc : (copyNew p l).command? = some c) : c ∈ copies p d := by
  have hemit := command?_eq_some_iff.mp hc
  rw [copies, mem_commands_iff, ← hemit]
  exact List.mem_append_left _ (List.mem_map_of_mem hl)

theorem mem_copies_of_copyPair {pair : Entry × Entry} (hplan : (ofDiff p d).fault = none)
    (hpair : pair ∈ d.common) (hc : copyPair? p pair = some c) : c ∈ copies p d := by
  rw [copies_eq hplan]
  exact List.mem_append_right _ (List.mem_filterMap.mpr ⟨pair, hpair, hc⟩)

theorem op_of_mem_copies (h : c ∈ copies p d) : c.op = copyOp := by
  rcases mem_copies h with ⟨l, -, hc⟩ | ⟨pair, -, hc⟩
  · rw [(copyNew_command?_iff.mp hc).2.2]
  · rw [(copyPair?_iff.mp hc).2.2.2.2]

def Removes (p : Planner) (d : Diff) (l : Location) : Prop :=
  ∃ c ∈ commands (ofDiff p d).steps, c.op = removeOp ∧ l ∈ c.locations

/-- A plan removes what the destination alone has, if it comes to a removal at all. -/
theorem removes_iff {l : Location} :
    Removes p d l ↔ ComesToRemoval p d ∧ l ∈ d.onlyDestination := by
  unfold Removes
  simp only [mem_commands_ofDiff_iff]
  constructor
  · rintro ⟨c, hc | ⟨h, rfl⟩, hop, hl⟩
    · have hne : Command.copyOp ≠ Command.removeOp := by decide
      exact absurd (op_of_mem_copies hc ▸ hop) hne
    · exact ⟨h, hl⟩
  · rintro ⟨h, hl⟩
    exact ⟨removalOf d, .inr ⟨h, rfl⟩, rfl, hl⟩

end Plan

end StoreSync
