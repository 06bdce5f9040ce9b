import Mathlib.Logic.Function.Iterate
import StoreSync.Proofs.CleanExits
import StoreSync.Proofs.Pipelines

/-!
The accounts of a planner. Whoever takes the commands of a plan one after the other may look at
the counts at any time, so the counts have to fit the commands given so far after each step. When
the planner comes to its end without a fault, its commands are those that the difference asks for,
and every entry was counted once.
-/
namespace StoreSync.Plan

open Command

variable {p : Planner} {d : Diff}

/-! ### The plan, step by step -/

/-- A planner in the middle of its plan: what is left of the difference, the counts so far and
the commands given so far. -/
structure Iteration where
  rest : Diff
  summary : Summary
  given : List Command

namespace Iteration

def start (d : Diff) : Iteration := ⟨d, .zero, []⟩

/-- One step further. A planner that failed or came to its end stays where it is. -/
def advance (p : Planner) (i : Iteration) : Iteration :=
  match next p i.rest with
  | .made s rest => ⟨rest, i.summary.add s, i.given ++ s.command?.toList⟩
  | .failed _ => i
  | .ended => i

def after (p : Planner) (d : Diff) (n : Nat) : Iteration := (advance p)^[n] (start d)

/-- The steps in front of what is left have led to the counts and to the commands given. -/
def Follows (p : Planner) (d : Diff) (i : Iteration) : Prop :=
  ∃ steps, ofDiff p d = ⟨steps ++ (ofDiff p i.rest).steps, (ofDiff p i.rest).fault⟩ ∧
    i.summary = Summary.ofSteps steps ∧ i.given = commands steps

theorem follows_start (p : Planner) (d : Diff) : Follows p d (start d) := ⟨[], rfl, rfl, rfl⟩

theorem Follows.advance {i : Iteration} (h : Follows p d i) : Follows p d (i.advance p) := by
  unfold Iteration.advance
  cases hnext : next p i.rest with
  | failed f => exact h
  | ended => exact h
  | made s rest =>
    obtain ⟨steps, hplan, hsummary, hgiven⟩ := h
    obtain ⟨hrest, -⟩ := ofDiff_of_made hnext
    refine ⟨steps ++ [s], ?_, ?_, ?_⟩
    · rw [hplan, hrest]
      simp
    · rw [Summary.ofSteps_append_singleton, ← hsummary]
    · rw [commands_append_singleton, ← hgiven]

theorem follows_after (p : Planner) (d : Diff) (n : Nat) : Follows p d (after p d n) := by
  induction n with
  | zero => exact follows_start p d
  | succ n ih =>
    rw [after, Function.iterate_succ_apply']
    exact ih.advance

def Stands (p : Planner) (i : Iteration) : Prop := ∀ s rest, next p i.rest ≠ .made s rest

theorem advance_of_stands {i : Iteration} (h : i.Stands p) : i.advance p = i := by
  unfold advance
  cases hnext : next p i.rest with
  | failed f => rfl
  | ended => rfl
  | made s rest => exact absurd hnext (h s rest)

/-- Each step works off an entry, or the removal. -/
theorem stands_or_remaining_le (p : Planner) (d : Diff) (n : Nat) :
    (after p d n).Stands p ∨ remaining (after p d n).rest + n ≤ remaining d := by
  induction n with
  | zero => exact .inr (Nat.le_refl _)
  | succ n ih =>
    have hstep : after p d (n + 1) = (after p d n).advance p := Function.iterate_succ_apply' ..
    rw [hstep]
    rcases ih with stands | left
    · rw [advance_of_stands stands]
      exact .inl stands
    · unfold advance
      cases hnext : next p (after p d n).rest with
      | failed f => exact .inl (by simp [Stands, hnext])
      | ended => exact .inl (by simp [Stands, hnext])
      | made s rest =>
        obtain ⟨-, fewer⟩ := ofDiff_of_made hnext
        refine .inr ?_
        dsimp only
        omega

theorem stands_after {n : Nat} (h : remaining d ≤ n) : (after p d n).Stands p := by
  rcases stands_or_remaining_le p d n with stands | left
  · exact stands
  · intro s rest hnext
    obtain ⟨-, fewer⟩ := ofDiff_of_made hnext
    omega

/-- A planner that stands came to its end unless a pair could not be compared. -/
theorem Follows.ended_iff {i : Iteration} (h : Follows p d i) (stands : i.Stands p) :
    next p i.rest = .ended ↔ (ofDiff p d).fault = none := by
  obtain ⟨steps, hplan, -, -⟩ := h
  rw [hplan]
  cases hnext : next p i.rest with
  | made s rest => exact absurd hnext (stands s rest)
  | failed f => simp [ofDiff_of_failed hnext]
  | ended => simp [ofDiff_of_ended hnext]

/-- A planner at its end has made all steps of the plan. -/
theorem Follows.of_ended {i : Iteration} (h : Follows p d i) (ended : next p i.rest = .ended) :
    (ofDiff p d).fault = none ∧ i.summary = Summary.ofSteps (ofDiff p d).steps ∧
      i.given = commands (ofDiff p d).steps := by
  obtain ⟨steps, hplan, hsummary, hgiven⟩ := h
  rw [ofDiff_of_ended ended, List.append_nil] at hplan
  rw [hplan]
  exact ⟨rfl, hsummary, hgiven⟩

theorem Follows.mem_plan {i : Iteration} {c : Command} (h : Follows p d i) (hc : c ∈ i.given) :
    c ∈ commands (ofDiff p d).steps := by
  obtain ⟨steps, hplan, -, hgiven⟩ := h
  rw [hplan, commands_append, ← hgiven]
  exact List.mem_append_left _ hc

end Iteration

/-! ### The commands of a whole plan -/

section Shape

variable {s t : Location} {named : List Location} {pair : Entry × Entry}

/-- The copy between two locations, unless they are the same or one of them is a pattern. -/
def copyBetween? (p : Planner) (s t : Location) : Option Command :=
  if s.same t || s.isWildcard || t.isWildcard then none
  else some ⟨copyOp, [s, t], copyFlags p⟩

def outdated (p : Planner) (pair : Entry × Entry) : Bool :=
  match Freshness.reason? p.strategy pair.1 pair.2 with
  | .ok none => true
  | _ => false

def Removing (p : Planner) (d : Diff) : Prop :=
  p.delete = true ∧ d.onlyDestination ≠ [] ∧ ∀ l ∈ d.onlyDestination, l.isWildcard = false

instance : Decidable (Removing p d) := by
  unfold Removing
  infer_instance

theorem copyBetween?_eq_some_iff {c : Command} :
    copyBetween? p s t = some c ↔
      s.same t = false ∧ s.isWildcard = false ∧ t.isWildcard = false ∧
        c = ⟨copyOp, [s, t], copyFlags p⟩ := by
  unfold copyBetween?
  cases s.same t <;> cases s.isWildcard <;> cases t.isWildcard <;> simp [@eq_comm _ c]

theorem command?_attempt_copy :
    (attempt copyOp (copyFlags p) [s, t] named).command? = copyBetween? p s t := by
  ext c
  rw [command?_attempt, make_copy_iff, copyBetween?_eq_some_iff]

theorem copyPair?_eq :
    copyPair? p pair =
      if outdated p pair then copyBetween? p pair.1.location pair.2.location else none := by
  unfold copyPair? copyPair outdated
  cases Freshness.reason? p.strategy pair.1 pair.2 with
  | error f => rfl
  | ok reason =>
    cases reason with
    | some r => rfl
    | none => exact command?_attempt_copy

/-- The commands of a plan without a fault: the copies of what the source alone has, those of the
outdated pairs, and the removal. -/
theorem commands_ofDiff (h : (ofDiff p d).fault = none) :
    commands (ofDiff p d).steps =
      d.onlySource.filterMap
          (fun l => copyBetween? p l (Placement.target l p.destination p.batch)) ++
        (d.common.filter (outdated p)).filterMap
          (fun pair => copyBetween? p pair.1.location pair.2.location) ++
        if Removing p d then [removalOf d] else [] := by
  have hcopies : copies p d = d.onlySource.filterMap
      (fun l => copyBetween? p l (Placement.target l p.destination p.batch)) ++
        (d.common.filter (outdated p)).filterMap
          (fun pair => copyBetween? p pair.1.location pair.2.location) := by
    rw [copies_eq h, List.filterMap_filter]
    simp only [copyNew, command?_attempt_copy, copyPair?_eq]
  have hremoves : ComesToRemoval p d ↔ Removing p d :=
    ⟨fun r => ⟨r.delete, r.nonempty, r.literal⟩, fun r => ⟨r.1, h, r.2.1, r.2.2⟩⟩
  rw [← hcopies]
  by_cases hr : Removing p d
  · rw [commands_of_comesToRemoval (hremoves.mpr hr), if_pos hr]
  · rw [commands_of_not_comesToRemoval (mt hremoves.mp hr), if_neg hr, List.append_nil]

/-- A command of a plan is a copy of two different locations that are no patterns, or a
removal. -/
theorem op_of_mem_commands {c : Command} (h : c ∈ commands (ofDiff p d).steps) :
    (c.op = copyOp ∧ ∃ s t, c.locations = [s, t] ∧ s.same t = false ∧
        s.isWildcard = false ∧ t.isWildcard = false) ∨ c.op = removeOp := by
  rcases mem_commands_ofDiff_iff.mp h with hcopy | ⟨-, rfl⟩
  · rcases mem_copies hcopy with ⟨l, -, hc⟩ | ⟨pair, -, hc⟩
    · rw [copyNew, command?_attempt_copy, copyBetween?_eq_some_iff] at hc
      obtain ⟨hsame, hs, ht, rfl⟩ := hc
      exact .inl ⟨rfl, _, _, rfl, hsame, hs, ht⟩
    · obtain ⟨-, hsame, hs, ht, rfl⟩ := copyPair?_iff.mp hc
      exact .inl ⟨rfl, _, _, rfl, hsame, hs, ht⟩
  · exact .inr rfl

end Shape

/-! ### The counts of a whole plan -/

section Counting

def Step.isDrop : Step → Bool
  | .drop _ _ => true
  | _ => false

/-- Whether a step stands for an entry of the difference. A removal stands for none of them, a
note that there is none counts like an entry. -/
def Step.isEntry (s : Step) : Bool := s.command?.all (·.op ≠ removeOp)

theorem counts_ofSteps (steps : List Step) :
    (Summary.ofSteps steps).dropped = steps.countP Step.isDrop ∧
      (Summary.ofSteps steps).copies + (Summary.ofSteps steps).inSync +
        (Summary.ofSteps steps).dropped = steps.countP Step.isEntry := by
  suffices h : ∀ s : Summary,
      (steps.foldl Summary.add s).dropped = s.dropped + steps.countP Step.isDrop ∧
        (steps.foldl Summary.add s).copies + (steps.foldl Summary.add s).inSync +
          (steps.foldl Summary.add s).dropped =
            s.copies + s.inSync + s.dropped + steps.countP Step.isEntry by
    simpa [Summary.ofSteps, Summary.zero] using h .zero
  induction steps with
  | nil => simp
  | cons step rest ih =>
    intro s
    obtain ⟨hdropped, hentries⟩ := ih (s.add step)
    rw [List.foldl_cons, hentries, hdropped, List.countP_cons, List.countP_cons]
    cases step with
    | emit c =>
      by_cases hop : c.op = removeOp <;>
        simp [Summary.add, Step.isDrop, Step.isEntry, Step.command?, hop]
      omega
    | skip pair reason =>
      simp [Summary.add, Step.isDrop, Step.isEntry, Step.command?]
      omega
    | drop ls reason =>
      simp [Summary.add, Step.isDrop, Step.isEntry, Step.command?]
      omega

variable {s t : Location} {named : List Location}

theorem isDrop_attempt_copy :
    (attempt copyOp (copyFlags p) [s, t] named).isDrop = (copyBetween? p s t).isNone := by
  have hcommand : (attempt copyOp (copyFlags p) [s, t] named).command? = copyBetween? p s t :=
    command?_attempt_copy
  rw [← hcommand]
  unfold attempt
  cases make copyOp (copyFlags p) [s, t] <;> rfl

theorem isEntry_attempt_copy {flags : Flags} {ls : List Location} :
    (attempt copyOp flags ls named).isEntry = true := by
  unfold attempt
  cases hmake : make copyOp flags ls with
  | error m => rfl
  | ok c =>
    obtain ⟨-, -, rfl⟩ := make_eq_ok_iff.mp hmake
    rfl

/-- What can be asked of the step of each pair can be counted over the pairs. -/
theorem countP_copyPairs {pairs : List (Entry × Entry)} (h : (copyPairs p pairs).fault = none)
    {q : Step → Bool} {r : Entry × Entry → Bool}
    (hq : ∀ pair step, copyPair p pair = .ok step → q step = r pair) :
    (copyPairs p pairs).steps.countP q = pairs.countP r := by
  induction pairs with
  | nil => rfl
  | cons pair rest ih =>
    unfold copyPairs at h ⊢
    cases hpair : copyPair p pair with
    | error f => simp [hpair] at h
    | ok s =>
      simp only [hpair] at h ⊢
      rw [List.countP_cons, List.countP_cons, ih h, hq pair s hpair]

theorem isEntry_of_copyPair {pair : Entry × Entry} {step : Step}
    (h : copyPair p pair = .ok step) : step.isEntry = true := by
  unfold copyPair at h
  cases hreason : Freshness.reason? p.strategy pair.1 pair.2 with
  | error f => simp [hreason] at h
  | ok reason =>
    rw [hreason] at h
    cases reason with
    | some r =>
      obtain rfl := Except.ok.inj h
      rfl
    | none =>
      obtain rfl := Except.ok.inj h
      exact isEntry_attempt_copy

theorem isDrop_of_copyPair {pair : Entry × Entry} {step : Step}
    (h : copyPair p pair = .ok step) :
    step.isDrop =
      (outdated p pair && (copyBetween? p pair.1.location pair.2.location).isNone) := by
  unfold copyPair at h
  unfold outdated
  cases hreason : Freshness.reason? p.strategy pair.1 pair.2 with
  | error f => simp [hreason] at h
  | ok reason =>
    rw [hreason] at h
    cases reason with
    | some r =>
      obtain rfl := Except.ok.inj h
      rfl
    | none =>
      obtain rfl := Except.ok.inj h
      exact isDrop_attempt_copy

def dropsRemoval (p : Planner) (d : Diff) : Bool :=
  p.delete && d.onlyDestination.any Location.isWildcard

theorem count_removal (p : Planner) (d : Diff) :
    (removal p d.onlyDestination).countP Step.isDrop = (dropsRemoval p d).toNat ∧
      (removal p d.onlyDestination).countP Step.isEntry = (dropsRemoval p d).toNat := by
  rcases hremoval : removal p d.onlyDestination with _ | ⟨s, tail⟩
  · have hquiet : p.delete = false ∨ d.onlyDestination = [] := by
      unfold removal at hremoval
      cases hdelete : p.delete <;> simp_all
    rcases hquiet with hoff | hnone
    · simp [dropsRemoval, hoff]
    · simp [dropsRemoval, hnone]
  · obtain ⟨rfl, hne, hdelete, rfl⟩ := removal_cons_iff.mp hremoval
    unfold attempt
    cases hmake : make removeOp baseFlags d.onlyDestination with
    | ok c =>
      obtain ⟨-, hliteral, rfl⟩ := make_eq_ok_iff.mp hmake
      have hany : d.onlyDestination.any Location.isWildcard = false := by simpa using hliteral
      simp [dropsRemoval, hany, Step.isDrop, Step.isEntry, Step.command?]
    | error m =>
      have hany : d.onlyDestination.any Location.isWildcard = true := by
        by_contra hfalse
        have hliteral : ∀ l ∈ d.onlyDestination, l.isWildcard = false := by simpa using hfalse
        have hop : operandFault? removeOp d.onlyDestination = none := by
          have hother : removeOp ≠ copyOp := by decide
          simp [operandFault?, hother, hne]
        simp [make_eq_ok_iff.mpr ⟨hop, hliteral, rfl⟩] at hmake
      simp [dropsRemoval, hdelete, hany, Step.isDrop, Step.isEntry, Step.command?]

/-- In a plan without a fault every entry stands for one step. -/
theorem countP_isEntry_ofDiff (h : (ofDiff p d).fault = none) :
    (ofDiff p d).steps.countP Step.isEntry =
      d.onlySource.length + d.common.length + (dropsRemoval p d).toNat := by
  have hfault : (copyPairs p d.common).fault = none := h
  have hpairs : (copyPairs p d.common).steps.countP Step.isEntry = d.common.length := by
    rw [countP_copyPairs h fun _ _ => isEntry_of_copyPair]
    simp
  have hnew : (d.onlySource.map (copyNew p)).countP Step.isEntry = d.onlySource.length := by
    rw [List.countP_map, List.countP_eq_length]
    exact fun l _ => isEntry_attempt_copy
  have hremoval := (count_removal p d).2
  simp only [ofDiff, hfault, Option.isNone_none, if_true, List.countP_append, hnew, hpairs,
    hremoval]

/-- What a plan without a fault drops are the copies that cannot be formed, and the removal. -/
theorem countP_isDrop_ofDiff (h : (ofDiff p d).fault = none) :
    (ofDiff p d).steps.countP Step.isDrop =
      d.onlySource.countP
          (fun l => (copyBetween? p l (Placement.target l p.destination p.batch)).isNone) +
        d.common.countP (fun pair =>
          outdated p pair && (copyBetween? p pair.1.location pair.2.location).isNone) +
        (dropsRemoval p d).toNat := by
  have hfault : (copyPairs p d.common).fault = none := h
  have hnew : (d.onlySource.map (copyNew p)).countP Step.isDrop = d.onlySource.countP
      (fun l => (copyBetween? p l (Placement.target l p.destination p.batch)).isNone) := by
    rw [List.countP_map]
    exact List.countP_congr fun l _ => by simp [copyNew, isDrop_attempt_copy]
  have hremoval := (count_removal p d).1
  simp only [ofDiff, hfault, Option.isNone_none, if_true, List.countP_append, hnew, hremoval,
    countP_copyPairs h fun _ _ => isDrop_of_copyPair]

end Counting

/-! ### The accounts at every point -/

section Accounts

structure Literal (d : Diff) : Prop where
  source : ∀ l ∈ d.onlySource, l.isWildcard = false
  destination : ∀ l ∈ d.onlyDestination, l.isWildcard = false
  common : ∀ pair ∈ d.common,
    pair.1.location.isWildcard = false ∧ pair.2.location.isWildcard = false

theorem isNone_copyBetween? {s t : Location} (hs : s.isWildcard = false)
    (ht : t.isWildcard = false) : (copyBetween? p s t).isNone = s.same t := by
  unfold copyBetween?
  cases hsame : s.same t <;> simp [hs, ht]

theorem isWildcard_target (s t : Location) (batch : Bool) :
    (Placement.target s t batch).isWildcard = false := by
  simp [Placement.target, Location.setLiteral, Location.isWildcard]

/-- Without patterns only the copies of a location to itself are dropped. -/
theorem countP_isDrop_of_literal (literal : Literal d) (h : (ofDiff p d).fault = none) :
    (ofDiff p d).steps.countP Step.isDrop =
      d.onlySource.countP (fun l => l.same (Placement.target l p.destination p.batch)) +
        d.common.countP
          (fun pair => outdated p pair && pair.1.location.same pair.2.location) := by
  have hremoval : dropsRemoval p d = false := by
    have hany : d.onlyDestination.any Location.isWildcard = false := by
      simpa using literal.destination
    simp [dropsRemoval, hany]
  rw [countP_isDrop_ofDiff h, hremoval, Bool.toNat_false, Nat.add_zero]
  congr 1
  · refine List.countP_congr fun l hl => ?_
    rw [isNone_copyBetween? (literal.source l hl) (isWildcard_target l _ _)]
  · refine List.countP_congr fun pair hpair => ?_
    rw [isNone_copyBetween? (literal.common pair hpair).1 (literal.common pair hpair).2]

theorem removeCount_eq (cs : List Command) :
    Sync.removeCount cs = ((cs.filter (·.op = removeOp)).map (·.locations.length)).sum := by
  unfold Sync.removeCount
  induction cs with
  | nil => rfl
  | cons c rest ih => by_cases hop : c.op = removeOp <;> simp [hop, ih]

/-- The fault of a plan is that of the first pair that cannot be compared. -/
theorem fault_ofDiff_eq_none_iff :
    (ofDiff p d).fault = none ↔
      ∀ pair ∈ d.common, ∃ reason, Freshness.reason? p.strategy pair.1 pair.2 = .ok reason := by
  refine ⟨fun h pair hpair => exists_reason h hpair, fun h => ?_⟩
  suffices hpairs : (copyPairs p d.common).fault = none from hpairs
  revert h
  induction d.common with
  | nil => exact fun _ => rfl
  | cons pair rest ih =>
    intro h
    obtain ⟨reason, hreason⟩ := h pair List.mem_cons_self
    have hrest := ih fun q hq => h q (List.mem_cons_of_mem pair hq)
    unfold copyPairs copyPair
    cases reason <;> simp [hreason, hrest]

/-- After any number of steps the counts of a planner fit the commands that it has given: the
copies are counted one by one and the removals with their operands, and a copy leads from one
location to another, neither of them a pattern. A planner that came to its end has given the
commands that the difference asks for, in order. Each entry of the difference was counted once, a
removal that cannot be formed besides; without patterns only copies of a location to itself were
dropped. The end comes with at most one step for each entry if all pairs can be compared. -/
theorem plan_accounts (p : Planner) (d : Diff) (n : Nat) :
    let i := Iteration.after p d n
    i.summary.copies = i.given.countP (·.op = copyOp) ∧
    i.summary.deletes =
      (((i.given.filter (·.op = removeOp)).map (·.locations.length)).sum : Nat) ∧
    (∀ c ∈ i.given, (c.op = copyOp ∧ ∃ s t, c.locations = [s, t] ∧ s.same t = false ∧
      s.isWildcard = false ∧ t.isWildcard = false) ∨ c.op = removeOp) ∧
    (next p i.rest = .ended →
      i.given =
        d.onlySource.filterMap
            (fun l => copyBetween? p l (Placement.target l p.destination p.batch)) ++
          (d.common.filter (outdated p)).filterMap
            (fun pair => copyBetween? p pair.1.location pair.2.location) ++
          (if Removing p d then [removalOf d] else []) ∧
      (d.onlySource.length + d.common.length + (dropsRemoval p d).toNat : Int) =
        i.summary.copies + i.summary.inSync + i.summary.dropped ∧
      (Literal d → i.summary.dropped =
        d.onlySource.countP (fun l => l.same (Placement.target l p.destination p.batch)) +
          d.common.countP
            (fun pair => outdated p pair && pair.1.location.same pair.2.location))) ∧
    (remaining d ≤ n → (next p i.rest = .ended ↔
      ∀ pair ∈ d.common, ∃ reason, Freshness.reason? p.strategy pair.1 pair.2 = .ok reason)) := by
  intro i
  have follows : Iteration.Follows p d i := Iteration.follows_after p d n
  have kinds {c : Command} (hc : c ∈ i.given) := op_of_mem_commands (follows.mem_plan hc)
  have counts : i.summary.copies = Sync.copyCount i.given ∧
      i.summary.deletes = Sync.removeCount i.given := by
    obtain ⟨steps, -, hsummary, hgiven⟩ := follows
    rw [hsummary, hgiven]
    exact Sync.counts_summary steps
  refine ⟨?_, ?_, fun c hc => kinds hc, fun ended => ?_, fun far => ?_⟩
  · have hne : copyOp ≠ removeOp := by decide
    rw [counts.1, Sync.copyCount]
    refine congrArg Nat.cast (List.countP_congr fun c hc => ?_)
    rcases kinds hc with ⟨hop, -⟩ | hop <;> simp [hop, hne, hne.symm]
  · rw [counts.2, removeCount_eq]
  · obtain ⟨hfault, hsummary, hgiven⟩ := follows.of_ended ended
    obtain ⟨hdropped, hentries⟩ := counts_ofSteps (ofDiff p d).steps
    rw [countP_isEntry_ofDiff hfault] at hentries
    refine ⟨hgiven.trans (commands_ofDiff hfault), ?_, fun literal => ?_⟩
    · rw [hsummary, hentries]
      push_cast
      rfl
    · rw [hsummary, hdropped, countP_isDrop_of_literal literal hfault]
      push_cast
      rfl
  · rw [follows.ended_iff (Iteration.stands_after far), fault_ofDiff_eq_none_iff]

def mixed : Diff :=
  ⟨[⟨"s3", "b", "x", true, some "x"⟩, (Diff.fileAt "a" 1).location],
    [⟨"s3", "b", "*", false, none⟩],
    [(Diff.fileAt "c" 1, Diff.fileAt "c" 1)]⟩

/-- One copy is made, one file is in sync, and one copy and the removal are dropped. -/
theorem plan_accounts_mixed :
    next deleting (Iteration.after deleting mixed 4).rest = .ended ∧
      (Iteration.after deleting mixed 4).given = [Pipeline.copyOf "a"] ∧
      (Iteration.after deleting mixed 4).summary = ⟨1, 0, 1, 2⟩ ∧
      (mixed.onlySource.length + mixed.common.length + (dropsRemoval deleting mixed).toNat : Int) =
        (Iteration.after deleting mixed 4).summary.copies +
          (Iteration.after deleting mixed 4).summary.inSync +
            (Iteration.after deleting mixed 4).summary.dropped := by
  have ended : next deleting (Iteration.after deleting mixed 4).rest = .ended := rfl
  obtain ⟨-, -, -, whole, -⟩ := plan_accounts deleting mixed 4
  exact ⟨ended, rfl, rfl, (whole ended).2.1⟩

end Accounts

end StoreSync.Plan
