import Mathlib.Algebra.Ring.Nat
import StoreSync.CommandLine.Exit
import StoreSync.Proofs.PlanCommands
import StoreSync.Proofs.RemovalCounts
import StoreSync.Proofs.Runs

/-!
What an exit with 0 says about the commands of a run. The parties that answer the calls may raise
any fault at any command (`Performer`). `trail` tells which commands met one; the counts and the
ledger of a run that ends with a report are sums over it. The ledger leaves out cancellations, and
an interruption does not even get there, so a clean exit speaks of all other faults only.
-/
namespace StoreSync.Sync

open Execution Transfer

abbrev Performer := Call → World → Except Fault Int × World

/-- A removal that succeeds counts each location that it names. -/
def Performer.Counts (perform : Performer) : Prop :=
  ∀ ls w n, (perform (.remove ls) w).1 = .ok n → n = ls.length

theorem counts_performOn (source destination : Side) :
    Performer.Counts (performOn source destination) := by
  intro ls w n h
  have hgives : (remove destination ls).Gives w n (performOn source destination (.remove ls) w).2 :=
    Prod.ext h rfl
  exact count_of_remove hgives

/-! ### Runs whose calls anybody answers -/

section Performing

variable (perform : Performer)

def stepBy (trial : Bool) (command : String) (p : Progress) (c : Command) : Progress :=
  let r := Execution.run trial perform p.world p.stats c
  let q : Progress := ⟨r.state, r.stats, p.ledger, p.notices ++ r.notices, p.halted⟩
  match r.fault with
  | some f => q.report command f
  | none => q

def executeBy (trial : Bool) (command : String) : Progress → List Command → Progress
  | p, [] => p
  | p, c :: rest =>
      if p.halted then p
      else executeBy trial command
        ((stepBy perform trial command p c).setHalted p.ledger.cancelled) rest

def carryOutBy (e : Ends) (batch : Bool) (o : Options) (command : String) (d : Diff)
    (w : World) : Progress × Plan.Outcome :=
  let plan := Plan.ofDiff (planner e batch o) d
  let p := executeBy perform o.trial command (.start w) (Plan.commands plan.steps)
  (match plan.fault with
    | some f => p.report command f
    | none => p, plan)

def finishBy (e : Ends) (batch : Bool) (o : Options) (command : String) (quiet : Bool)
    (l : Listings) : StateM World Outcome := do
  let d := l.diff o.exclude
  let (p, plan) := carryOutBy perform e batch o command d (← get)
  set p.world
  let notices := l.notices ++ p.notices
  match p.ledger.fatal with
  | some f => pure (.ofFault (.exhaustedBy f) notices)
  | none =>
      let r := reportOf o d p plan
      pure ⟨.ok r, notices ++ (if quiet then [] else r.summary),
        Plan.journal "sync" plan.steps ++ (plan.fault.map Plan.faultLine).toList⟩

end Performing

theorem execute_eq_executeBy (source destination : Side) (trial : Bool) (command : String)
    (p : Progress) (cs : List Command) :
    execute source destination trial command p cs =
      executeBy (performOn source destination) trial command p cs := by
  induction cs generalizing p with
  | nil => rfl
  | cons c rest ih =>
    unfold execute executeBy
    rw [ih]
    rfl

/-- The calls of a run are answered on its two sides. -/
theorem finish_eq_finishBy (e : Ends) (source destination : Side) (batch : Bool) (o : Options)
    (command : String) (quiet : Bool) (l : Listings) :
    finish e source destination batch o command quiet l =
      finishBy (performOn source destination) e batch o command quiet l := by
  unfold finish carryOut
  simp only [execute_eq_executeBy]
  rfl

/-! ### The faults of the commands -/

section Trying

variable {perform : Performer} {w w' : World} {c : Command} {cs : List Command} {f : Fault}
  {p : Progress} {command : String}

def attempt (perform : Performer) (w : World) (c : Command) : Except Fault Int × World :=
  match operation? c with
  | none => (.error (unknownOperation c.op), w)
  | some op =>
      match call c op with
      | .error f => (.error f, w)
      | .ok request => perform request w

/-- The commands in order, each with the fault that it meets. -/
def trail (perform : Performer) : World → List Command → List (Command × Option Fault)
  | _, [] => []
  | w, c :: rest =>
      match attempt perform w c with
      | (.ok _, next) => (c, none) :: trail perform next rest
      | (.error f, next) => (c, some f) :: trail perform next rest

def settle (s : Stats) : Command × Option Fault → Stats
  | (c, none) => if c.op = Command.removeOp then s.addRemoved c.locations.length else s.addCopy
  | (_, some f) => if f.isInterruption then s else s.addFailure

def enter (l : Ledger) : Command × Option Fault → Ledger
  | (_, none) => l
  | (c, some f) => if f.isInterruption then l else l.record (.execution c.text f)

theorem map_fst_trail (w : World) : (trail perform w cs).map Prod.fst = cs := by
  induction cs generalizing w with
  | nil => rfl
  | cons c rest ih =>
    rw [trail]
    rcases attempt perform w c with ⟨f | n, next⟩ <;> simp [ih]

theorem op_of_copy (h : operation? c = some .copy) : c.op ≠ Command.removeOp := by
  intro hop
  have hne : Command.removeOp ≠ Command.copyOp := by decide
  simp [operation?, hop, hne] at h

theorem op_of_remove (h : operation? c = some .remove) : c.op = Command.removeOp := by
  unfold operation? at h
  split_ifs at h with hcopy hremove
  · cases h
  · exact hremove

/-- A command that is done counts with the locations that it names. -/
theorem countDone_eq_settle {op : Operation} (h : operation? c = some op) (s : Stats) :
    countDone s op c.locations.length = settle s (c, none) := by
  cases op with
  | copy => simp [countDone, settle, op_of_copy h]
  | remove => simp [countDone, settle, op_of_remove h]

/-- A command that succeeds is counted, a removal with all of its locations. -/
theorem stepBy_of_ok (command : String) {n : Int}
    (h : attempt perform p.world c = (.ok n, w')) :
    (stepBy perform false command p c).world = w' ∧
      (perform.Counts → (stepBy perform false command p c).stats = settle p.stats (c, none)) ∧
        (stepBy perform false command p c).ledger = p.ledger := by
  unfold attempt at h
  cases hop : operation? c with
  | none => simp [hop] at h
  | some op =>
    cases hcall : call c op with
    | error f => simp [hop, hcall] at h
    | ok request =>
      simp only [hop, hcall] at h
      have hrun : Execution.run false perform p.world p.stats c =
          ⟨w', countDone p.stats op n, [], none⟩ := by
        simp [Execution.run, hop, hcall, h]
      have hsettle (hcounts : perform.Counts) :
          countDone p.stats op n = settle p.stats (c, none) := by
        rw [← countDone_eq_settle hop]
        cases op with
        | copy => rfl
        | remove =>
          obtain rfl : request = .remove c.locations := (Except.ok.inj hcall).symm
          obtain rfl := hcounts c.locations p.world n (by rw [h])
          rfl
      unfold stepBy
      rw [hrun]
      exact ⟨rfl, hsettle, rfl⟩

/-- A command that meets a fault is counted and reported, unless it was interrupted. -/
theorem stepBy_of_error (command : String) (h : attempt perform p.world c = (.error f, w')) :
    (stepBy perform false command p c).world = w' ∧
      (stepBy perform false command p c).stats = settle p.stats (c, some f) ∧
        (stepBy perform false command p c).ledger = enter p.ledger (c, some f) := by
  have hrun : Execution.run false perform p.world p.stats c = failWith w' p.stats c f := by
    unfold attempt at h
    cases hop : operation? c with
    | none =>
      simp only [hop, Prod.mk.injEq, Except.error.injEq] at h
      obtain ⟨rfl, rfl⟩ := h
      simp [Execution.run, hop]
    | some op =>
      cases hcall : call c op with
      | error f' =>
        simp only [hop, hcall, Prod.mk.injEq, Except.error.injEq] at h
        obtain ⟨rfl, rfl⟩ := h
        simp [Execution.run, hop, hcall]
      | ok request =>
        simp only [hop, hcall] at h
        simp [Execution.run, hop, hcall, h]
  unfold stepBy
  rw [hrun]
  cases hint : f.isInterruption <;> simp [failWith, settle, enter, hint, Progress.report]

theorem record_of_live {l : Ledger} (h : (l.record f).fatal = none) :
    l.fatal = none ∧ ((l.record f).kept = [] ↔ l.kept = [] ∧ f.isCancellation = true) := by
  unfold Ledger.record Ledger.judge at h ⊢
  cases hfatal : l.fatal with
  | some g => simp [hfatal] at h
  | none =>
    cases hshort : f.isDescriptorShortage with
    | true => simp [hfatal, hshort] at h
    | false => cases hcancel : f.isCancellation <;> simp

theorem cancelled_of_live {l : Ledger} (h : l.fatal = none) : l.cancelled = false := by
  rw [Ledger.cancelled, h]
  rfl

theorem executeBy_cons {trial : Bool} (hgoes : p.halted = false) :
    executeBy perform trial command p (c :: cs) =
      executeBy perform trial command
        ((stepBy perform trial command p c).setHalted p.ledger.cancelled) cs := by
  rw [executeBy, hgoes, if_neg Bool.false_ne_true]

/-- A shortage stays in the ledger, so that none was there before a live ledger. -/
theorem live_of_executeBy {trial : Bool}
    (h : (executeBy perform trial command p cs).ledger.fatal = none) : p.ledger.fatal = none := by
  induction cs generalizing p with
  | nil => exact h
  | cons c rest ih =>
    unfold executeBy at h
    split_ifs at h
    · exact h
    · have hstep := ih h
      unfold Progress.setHalted stepBy at hstep
      dsimp only at hstep
      split at hstep
      · exact (record_of_live hstep).1
      · exact hstep

/-- A run that no shortage has cancelled has tried every command. -/
theorem executeBy_of_live (hcounts : perform.Counts) (hgoes : p.halted = false)
    (h : (executeBy perform false command p cs).ledger.fatal = none) :
    (executeBy perform false command p cs).stats = (trail perform p.world cs).foldl settle p.stats ∧
      (executeBy perform false command p cs).ledger =
        (trail perform p.world cs).foldl enter p.ledger := by
  induction cs generalizing p with
  | nil => exact ⟨rfl, rfl⟩
  | cons c rest ih =>
    have hlive := live_of_executeBy h
    rw [executeBy_cons hgoes] at h ⊢
    obtain ⟨hstats, hledger⟩ := ih (cancelled_of_live hlive) h
    change _ = (trail perform (stepBy perform false command p c).world rest).foldl settle
      (stepBy perform false command p c).stats at hstats
    change _ = (trail perform (stepBy perform false command p c).world rest).foldl enter
      (stepBy perform false command p c).ledger at hledger
    rcases htry : attempt perform p.world c with ⟨f | n, next⟩
    · obtain ⟨hworld, hstep, hentered⟩ := stepBy_of_error command htry
      rw [hworld, hstep] at hstats
      rw [hworld, hentered] at hledger
      rw [trail, htry]
      exact ⟨hstats, hledger⟩
    · obtain ⟨hworld, hstep, hkept⟩ := stepBy_of_ok command htry
      rw [hworld, hstep hcounts] at hstats
      rw [hworld, hkept] at hledger
      rw [trail, htry]
      exact ⟨hstats, hledger⟩

end Trying

/-! ### The ledger of a clean run -/

section Keeping

variable {l : Ledger} {f : Fault} {x : Command × Option Fault} {xs : List (Command × Option Fault)}

/-- Faults that a run does not count against its exit. -/
def Passes (f : Fault) : Prop := f.isCancellation = true ∨ f.isInterruption = true

theorem enter_of_live (h : (enter l x).fatal = none) :
    l.fatal = none ∧ ((enter l x).kept = [] ↔ l.kept = [] ∧ ∀ f ∈ x.2, Passes f) := by
  rcases x with ⟨c, _ | f⟩
  · exact ⟨h, by simp [enter]⟩
  · cases hint : f.isInterruption with
    | true =>
      simp only [enter, hint, if_true] at h ⊢
      exact ⟨h, by simp [Passes, hint]⟩
    | false =>
      simp only [enter, hint, Bool.false_eq_true, if_false] at h ⊢
      obtain ⟨hfatal, hkept⟩ := record_of_live h
      refine ⟨hfatal, hkept.trans ?_⟩
      simp [Passes, hint, Fault.isCancellation_execution]

theorem isCancellation_of_isInterruption (h : f.isInterruption = true) :
    f.isCancellation = false := by
  unfold Fault.isInterruption at h
  split at h
  · rfl
  · cases h

/-- Of faults that pass, those that count as failures are the cancellations. -/
theorem countP_failures (h : ∀ x ∈ xs, ∀ f ∈ x.2, Passes f) :
    xs.countP (·.2.any fun f => !f.isInterruption) = xs.countP (·.2.any Fault.isCancellation) := by
  refine List.countP_congr fun x hx => ?_
  rcases x with ⟨c, _ | f⟩
  · simp
  · cases hint : f.isInterruption with
    | true => simp [hint, isCancellation_of_isInterruption hint]
    | false =>
      have hcancel := (h _ hx f rfl).resolve_right (by simp [hint])
      simp [hint, hcancel]

/-- What the ledger keeps of a run are the faults that do not pass. -/
theorem entered_of_live (h : (xs.foldl enter l).fatal = none) :
    l.fatal = none ∧
      ((xs.foldl enter l).kept = [] ↔ l.kept = [] ∧ ∀ x ∈ xs, ∀ f ∈ x.2, Passes f) := by
  induction xs generalizing l with
  | nil => exact ⟨h, by simp⟩
  | cons x rest ih =>
    obtain ⟨hfatal, hkept⟩ := ih h
    obtain ⟨hfirst, hentered⟩ := enter_of_live hfatal
    refine ⟨hfirst, ?_⟩
    rw [List.foldl_cons, hkept, hentered, List.forall_mem_cons, and_assoc]

end Keeping

/-! ### The counts -/

section Counting

def copyCount (cs : List Command) : Nat := cs.countP (·.op ≠ Command.removeOp)

def removeCount (cs : List Command) : Nat :=
  (cs.map fun c => if c.op = Command.removeOp then c.locations.length else 0).sum

def completed (xs : List (Command × Option Fault)) : List Command :=
  (xs.filter (·.2.isNone)).map Prod.fst

theorem counts_settle (xs : List (Command × Option Fault)) (s : Stats) :
    (xs.foldl settle s).copied = s.copied + copyCount (completed xs) ∧
      (xs.foldl settle s).deleted = s.deleted + removeCount (completed xs) ∧
      (xs.foldl settle s).failed =
        s.failed + xs.countP (·.2.any fun f => !f.isInterruption) := by
  induction xs generalizing s with
  | nil => simp [completed, copyCount, removeCount]
  | cons x rest ih =>
    obtain ⟨hcopied, hdeleted, hfailed⟩ := ih (settle s x)
    rw [List.foldl_cons, hcopied, hdeleted, hfailed]
    rcases x with ⟨c, _ | f⟩
    · by_cases hop : c.op = Command.removeOp <;>
        simp [settle, completed, copyCount, removeCount, hop, Stats.addRemoved, Stats.addCopy] <;>
        omega
    · cases hint : f.isInterruption <;>
        simp [settle, completed, copyCount, removeCount, hint, Stats.addFailure]
      omega

theorem counts_summary (steps : List Plan.Step) :
    (Plan.Summary.ofSteps steps).copies = copyCount (Plan.commands steps) ∧
      (Plan.Summary.ofSteps steps).deletes = removeCount (Plan.commands steps) := by
  suffices h : ∀ s : Plan.Summary,
      (steps.foldl Plan.Summary.add s).copies = s.copies + copyCount (Plan.commands steps) ∧
        (steps.foldl Plan.Summary.add s).deletes =
          s.deletes + removeCount (Plan.commands steps) by
    simpa [Plan.Summary.ofSteps, Plan.Summary.zero] using h .zero
  induction steps with
  | nil => simp [Plan.commands, copyCount, removeCount]
  | cons step rest ih =>
    intro s
    obtain ⟨hcopies, hdeletes⟩ := ih (s.add step)
    rw [List.foldl_cons, hcopies, hdeletes]
    cases step with
    | emit c =>
      by_cases hop : c.op = Command.removeOp <;>
        simp [Plan.Summary.add, Plan.commands, Plan.Step.command?, copyCount, removeCount, hop] <;>
        omega
    | skip pair reason => exact ⟨rfl, rfl⟩
    | drop ls reason => exact ⟨rfl, rfl⟩

/-- Every command weighs in one of the counts, so the counts tell whether one is missing. -/
theorem counts_completed (xs : List (Command × Option Fault))
    (h : ∀ x ∈ xs, x.1.op = Command.removeOp → x.1.locations ≠ []) :
    copyCount (completed xs) ≤ copyCount (xs.map Prod.fst) ∧
      removeCount (completed xs) ≤ removeCount (xs.map Prod.fst) ∧
        (copyCount (completed xs) = copyCount (xs.map Prod.fst) ∧
            removeCount (completed xs) = removeCount (xs.map Prod.fst) ↔
          ∀ x ∈ xs, x.2 = none) := by
  induction xs with
  | nil => simp [completed]
  | cons x rest ih =>
    obtain ⟨hcopies, hremovals, hall⟩ := ih fun y hy => h y (List.mem_cons_of_mem x hy)
    have hx := h x List.mem_cons_self
    rw [List.forall_mem_cons, ← hall]
    rcases x with ⟨c, _ | f⟩
    · by_cases hop : c.op = Command.removeOp <;>
        simp [completed, copyCount, removeCount, hop] at hcopies hremovals ⊢ <;> omega
    · by_cases hop : c.op = Command.removeOp
      · have hpos : 0 < c.locations.length := List.length_pos_iff.mpr (hx hop)
        simp [completed, copyCount, removeCount, hop] at hcopies hremovals ⊢
        omega
      · simp [completed, copyCount, removeCount, hop] at hcopies hremovals ⊢
        omega

end Counting

/-! ### Reports and exits -/

section Reporting

variable {perform : Performer} {e : Ends} {batch quiet : Bool} {o : Options} {command : String}
  {l : Listings} {w : World} {r : Report}

/-- Planning can only fail on times that do not compare. -/
theorem eq_timesDisagree_of_copyPairs {p : Planner} {pairs : List (Entry × Entry)} {f : Fault}
    (h : (Plan.copyPairs p pairs).fault = some f) : f = Freshness.timesDisagree := by
  induction pairs with
  | nil => cases h
  | cons pair rest ih =>
    unfold Plan.copyPairs at h
    cases hpair : Plan.copyPair p pair with
    | ok s => exact ih (by simpa [hpair] using h)
    | error f' =>
      obtain rfl : f' = f := by simpa [hpair] using h
      unfold Plan.copyPair Freshness.reason? Freshness.notOlder at hpair
      grind

theorem isCancellation_of_planFault {p : Planner} {pairs : List (Entry × Entry)} {f : Fault}
    (h : (Plan.copyPairs p pairs).fault = some f) : f.isCancellation = false := by
  rw [eq_timesDisagree_of_copyPairs h]
  rfl

def tried (perform : Performer) (e : Ends) (batch : Bool) (o : Options) (l : Listings)
    (w : World) : List (Command × Option Fault) :=
  trail perform w (Plan.commands (Plan.ofDiff (planner e batch o) (l.diff o.exclude)).steps)

theorem commands_tried :
    (tried perform e batch o l w).map Prod.fst =
      Plan.commands (Plan.ofDiff (planner e batch o) (l.diff o.exclude)).steps := map_fst_trail w

theorem nonempty_of_tried :
    ∀ x ∈ tried perform e batch o l w, x.1.op = Command.removeOp → x.1.locations ≠ [] := by
  intro x hx hop
  have hmem : x.1 ∈ Plan.commands (Plan.ofDiff (planner e batch o) (l.diff o.exclude)).steps := by
    rw [← commands_tried]
    exact List.mem_map_of_mem hx
  rcases Plan.mem_commands_ofDiff_iff.mp hmem with hcopy | ⟨hcomes, hremoval⟩
  · have hne : Command.copyOp ≠ Command.removeOp := by decide
    exact absurd (Plan.op_of_mem_copies hcopy ▸ hop) hne
  · rw [hremoval]
    exact hcomes.nonempty

/-- The counts are those of the plan exactly when no command met a fault. -/
theorem all_done_iff :
    (((tried perform e batch o l w).foldl settle .zero).failed = 0 ∧
      ((tried perform e batch o l w).foldl settle .zero).copied =
        (Plan.Summary.ofSteps (Plan.ofDiff (planner e batch o) (l.diff o.exclude)).steps).copies ∧
      ((tried perform e batch o l w).foldl settle .zero).deleted =
        (Plan.Summary.ofSteps (Plan.ofDiff (planner e batch o) (l.diff o.exclude)).steps).deletes) ↔
      ∀ x ∈ tried perform e batch o l w, x.2 = none := by
  obtain ⟨hcopied, hdeleted, hfailed⟩ := counts_settle (tried perform e batch o l w) .zero
  obtain ⟨hcopies, hdeletes⟩ := counts_summary
    (Plan.ofDiff (planner e batch o) (l.diff o.exclude)).steps
  obtain ⟨-, -, hall⟩ := counts_completed (tried perform e batch o l w) nonempty_of_tried
  rw [commands_tried] at hall
  rw [hcopied, hdeleted, hfailed, hcopies, hdeletes, ← hall]
  simp only [Stats.zero, Int.zero_add, Int.natCast_inj, and_iff_right_iff_imp]
  intro hdone
  have hzero : (tried perform e batch o l w).countP
      (·.2.any fun f => !f.isInterruption) = 0 :=
    List.countP_eq_zero.mpr fun x hx => by simp [hall.mp hdone x hx]
  rw [hzero]
  rfl

/-- The result of a run, by whether a shortage cancelled it. -/
theorem result_finishBy :
    ((finishBy perform e batch o command quiet l).run w).1.result =
      let (p, plan) := carryOutBy perform e batch o command (l.diff o.exclude) w
      match p.ledger.fatal with
      | some f => .error (.exhaustedBy f)
      | none => .ok (reportOf o (l.diff o.exclude) p plan) := by
  unfold finishBy
  simp only [Action.run_state_bind]
  have hget : (get : StateM World World).run w = (w, w) := rfl
  simp only [hget]
  rcases carryOutBy perform e batch o command (l.diff o.exclude) w with ⟨p, plan⟩
  cases p.ledger.fatal <;> rfl

/-- A report counts what the tried commands add up to, and keeps no fault exactly when planning
raised none and those of the commands all pass. -/
theorem report_of_finishBy (hcounts : perform.Counts) (htrial : o.trial = false)
    (h : ((finishBy perform e batch o command quiet l).run w).1.result = .ok r) :
    r.stats = (tried perform e batch o l w).foldl settle .zero ∧
      r.plan = Plan.Summary.ofSteps (Plan.ofDiff (planner e batch o) (l.diff o.exclude)).steps ∧
        (r.faults = [] ↔
          (Plan.ofDiff (planner e batch o) (l.diff o.exclude)).fault = none ∧
            ∀ x ∈ tried perform e batch o l w, ∀ f ∈ x.2, Passes f) := by
  rw [result_finishBy, carryOutBy, htrial] at h
  dsimp only at h
  set plan := Plan.ofDiff (planner e batch o) (l.diff o.exclude)
  set p := executeBy perform false command (.start w) (Plan.commands plan.steps)
  have hlive (hfatal : p.ledger.fatal = none) :
      p.stats = (tried perform e batch o l w).foldl settle .zero ∧
        p.ledger = (tried perform e batch o l w).foldl enter .empty :=
    executeBy_of_live hcounts rfl hfatal
  cases hfault : plan.fault with
  | none =>
    simp only [hfault] at h
    cases hfatal : p.ledger.fatal with
    | some f => simp [hfatal] at h
    | none =>
      obtain ⟨hstats, hledger⟩ := hlive hfatal
      obtain rfl : r = _ := by simpa [hfatal] using h.symm
      refine ⟨hstats, rfl, ?_⟩
      have hkept := (entered_of_live (hledger ▸ hfatal)).2
      rw [← hledger] at hkept
      exact ⟨fun hnil => ⟨rfl, (hkept.mp hnil).2⟩, fun hpass => hkept.mpr ⟨rfl, hpass.2⟩⟩
  | some f =>
    simp only [hfault] at h
    cases hfatal : (p.report command f).ledger.fatal with
    | some f' => simp [hfatal] at h
    | none =>
      obtain ⟨hbefore, hkept⟩ := record_of_live (l := p.ledger) hfatal
      obtain ⟨hstats, -⟩ := hlive hbefore
      obtain rfl : r = _ := by simpa [hfatal] using h.symm
      refine ⟨hstats, rfl, ?_⟩
      have hcancel : f.isCancellation = false := isCancellation_of_planFault hfault
      constructor
      · intro hnil
        simpa [hcancel] using (hkept.mp hnil).2
      · rintro ⟨hnone, -⟩
        cases hnone

theorem code_eq_zero_iff (i : CommandLine.Invocation) (command : String) {out : Outcome}
    (h : out.result = .ok r) :
    (CommandLine.exitOf i command out).code = 0 ↔ r.faults = [] := by
  rw [CommandLine.exitOf, h]
  cases hr : r.faults <;> simp [CommandLine.exitWith, Report.combined?, Fault.combine?, hr]

/-- Only a run that comes to the end makes a report. -/
theorem reaches_of_report {c : Connection}
    (h : ((runBetween e o c command quiet).run w).1.result = .ok r) :
    ∃ g, Reaches e o c command w g ∧
      (runBetween e o c command quiet).run w =
        (finishBy (performOn g.source g.destination) e g.batch o command quiet
          g.listings).run g.world := by
  rcases hopen : (openSides e o c).run.run w with ⟨f | sides, w₁⟩
  · unfold runBetween at h
    rw [Action.run_state_bind, hopen] at h
    cases h
  · rw [runBetween_of_gives hopen] at h
    cases hbatch : sourceIsBatch w₁.files e.source with
    | error f =>
      rw [hbatch] at h
      cases h
    | ok batch =>
      let listed := (list e sides.1 sides.2 o command).run w₁
      let g : Stage := ⟨sides.1, sides.2, batch, listed.1, listed.2⟩
      have hreach : Reaches e o c command w g := ⟨w₁, hopen, hbatch, rfl⟩
      refine ⟨g, hreach, ?_⟩
      rw [← runBetween_of_gives hopen, runBetween_of_reaches hreach] at h
      rw [runBetween_of_reaches hreach, ← finish_eq_finishBy]
      cases hfault : g.listings.fault? with
      | some f =>
        rw [hfault] at h
        cases h
      | none =>
        rw [hfault] at h
        dsimp only at h ⊢
        split_ifs at h ⊢
        · cases h
        · rfl

/-- A run that makes a report exits with 0 exactly when planning raised nothing and every fault
that a command met was a cancellation or an interruption, whatever the listings reported. It has
then failed as many commands as were cancelled; and at any exit nothing failed and everything
planned was done exactly when no command met a fault. -/
theorem clean_exit_iff (e : Ends) (o : Options) (command : String) (quiet : Bool)
    (i : CommandLine.Invocation) :
    (∀ c w r, ((runBetween e o c command quiet).run w).1.result = .ok r →
      ∃ g, Reaches e o c command w g ∧ Performer.Counts (performOn g.source g.destination) ∧
        (runBetween e o c command quiet).run w =
          (finishBy (performOn g.source g.destination) e g.batch o command quiet
            g.listings).run g.world) ∧
    ∀ (perform : Performer) (batch : Bool) (l : Listings) (w : World) (r : Report),
      perform.Counts → o.trial = false →
      ((finishBy perform e batch o command quiet l).run w).1.result = .ok r →
        let code := (CommandLine.exitOf i command
          ((finishBy perform e batch o command quiet l).run w).1).code
        let faults := tried perform e batch o l w
        (code = 0 ↔
          (Plan.ofDiff (planner e batch o) (l.diff o.exclude)).fault = none ∧
            ∀ x ∈ faults, ∀ f ∈ x.2, f.isCancellation = true ∨ f.isInterruption = true) ∧
        (code = 0 → r.stats.failed = faults.countP (·.2.any Fault.isCancellation)) ∧
        (r.stats.failed = 0 ∧ r.stats.copied = r.plan.copies ∧
            r.stats.deleted = r.plan.deletes ↔
          ∀ x ∈ faults, x.2 = none) := by
  refine ⟨fun c w r h => ?_, fun perform batch l w r hcounts htrial h => ?_⟩
  · obtain ⟨g, hreach, hrun⟩ := reaches_of_report h
    exact ⟨g, hreach, counts_performOn _ _, hrun⟩
  · obtain ⟨hstats, hplan, hfaults⟩ := report_of_finishBy hcounts htrial h
    obtain ⟨-, -, hfailed⟩ := counts_settle (tried perform e batch o l w) .zero
    have hcode := code_eq_zero_iff i command h
    refine ⟨hcode.trans hfaults, fun hzero => ?_, ?_⟩
    · have hpass := (hfaults.mp (hcode.mp hzero)).2
      rw [hstats, hfailed, countP_failures hpass]
      exact Int.zero_add _
    · rw [hstats, hplan]
      exact all_done_iff

end Reporting

/-- A bucket with one object and an empty one; whoever copies meets a cancellation. -/
def stoppedWorld : World :=
  ⟨.ofNodes [] [], ⟨[("a", [objectAt "x"]), ("b", [])],
    [⟨.copy, none, none, .fault (.plain .cancelled "stopped"), none⟩], 1000, 0, .plain⟩, []⟩

def stoppedStage : Stage :=
  let opened := ((openSides acrossBuckets .standard .standard).run.run stoppedWorld).2
  let listed := (list acrossBuckets (.client 0) (.client 1) .standard "sync").run opened
  ⟨.client 0, .client 1, true, listed.1, listed.2⟩

theorem diff_stopped : stoppedStage.listings.diff Options.standard.exclude =
    ⟨[(entryAt "a" "x").location], [], []⟩ := by
  have hdiff : stoppedStage.listings.diff Options.standard.exclude =
      Diff.ofListings [entryAt "a" "x"] [] := rfl
  rw [hdiff]
  simp [Diff.ofListings, Diff.sort, Diff.merge]

theorem tried_stopped :
    tried (performOn (.client 0) (.client 1)) acrossBuckets true .standard stoppedStage.listings
      stoppedStage.world =
    [(⟨Command.copyOp, [(entryAt "a" "x").location, ⟨"s3", "b", "x", true, none⟩],
      Plan.copyFlags (planner acrossBuckets true .standard)⟩,
        some (.plain .cancelled "stopped"))] := by
  rw [tried, diff_stopped]
  rfl

theorem report_stopped :
    ((finishBy (performOn (.client 0) (.client 1)) acrossBuckets true .standard "sync" true
      stoppedStage.listings).run stoppedStage.world).1.result =
    .ok ⟨1, 0, 0, ⟨1, 0, 0, 0⟩, ⟨0, 0, 1⟩, [], false⟩ := by
  rw [result_finishBy, diff_stopped]
  rfl

theorem reaches_stopped :
    Reaches acrossBuckets .standard .standard "sync" stoppedWorld stoppedStage :=
  ⟨_, rfl, rfl, rfl⟩

def acrossInvocation : CommandLine.Invocation :=
  ⟨false, true, false, "s3://a/", "s3://b/", .standard, .standard⟩

/-- The only command of the run is cancelled: it counts as failed, and the exit is clean. -/
theorem clean_exit_stopped : ∃ r,
    ((finishBy (performOn (.client 0) (.client 1)) acrossBuckets true .standard "sync" true
      stoppedStage.listings).run stoppedStage.world).1.result = .ok r ∧
    (CommandLine.exitOf acrossInvocation "sync"
      ((finishBy (performOn (.client 0) (.client 1)) acrossBuckets true .standard "sync" true
        stoppedStage.listings).run stoppedStage.world).1).code = 0 ∧
    r.stats.failed = 1 ∧ r.stats.copied ≠ r.plan.copies := by
  obtain ⟨hcode, hfailed, -⟩ := (clean_exit_iff acrossBuckets .standard "sync" true
    acrossInvocation).2 (performOn (.client 0) (.client 1)) true stoppedStage.listings
    stoppedStage.world _ (counts_performOn _ _) rfl report_stopped
  rw [tried_stopped] at hcode hfailed
  have hclean := hcode.mpr ⟨by rw [diff_stopped]; rfl, by simp [Fault.isCancellation]⟩
  exact ⟨_, report_stopped, hclean, hfailed hclean, by decide⟩

/-! A run from an empty bucket to an empty one. The listing of the source has one entry, which says
that nothing was found. -/

def vacantStage : Stage :=
  let opened := ((openSides acrossBuckets .standard .standard).run.run (twoBuckets [] [])).2
  let listed := (list acrossBuckets (.client 0) (.client 1) .standard "sync").run opened
  ⟨.client 0, .client 1, true, listed.1, listed.2⟩

theorem reaches_vacant :
    Reaches acrossBuckets .standard .standard "sync" (twoBuckets [] []) vacantStage :=
  ⟨_, rfl, rfl, rfl⟩

theorem diff_vacant :
    vacantStage.listings.diff Options.standard.exclude = ⟨[], [], []⟩ := by
  have hdiff : vacantStage.listings.diff Options.standard.exclude = Diff.ofListings [] [] := rfl
  rw [hdiff]
  simp [Diff.ofListings, Diff.sort, Diff.merge]

theorem outcome_vacant :
    ((runBetween acrossBuckets .standard .standard "sync" true).run (twoBuckets [] [])).1 =
      ⟨.ok ⟨0, 0, 0, ⟨0, 0, 0, 0⟩, .zero, [], false⟩,
        [.commandError "sync" "no object found: s3://a", .listed], []⟩ := by
  rw [runBetween_of_reaches reaches_vacant]
  simp only [finish, diff_vacant]
  rfl

/-- An exit with 0 does not tell that everything planned was done. Nor does it tell that the source
was listed without a fault: one run without a failure reports such a fault and exits with 0. -/
theorem clean_exit_hides_cancellation :
    (¬ ∀ (e : Ends) (o : Options) (c : Connection) (command : String)
      (i : CommandLine.Invocation) (w : World) (r : Report), o.trial = false →
        ((runBetween e o c command i.quiet).run w).1.result = .ok r →
        (CommandLine.exitOf i command ((runBetween e o c command i.quiet).run w).1).code = 0 →
          r.stats.failed = 0 ∧ r.stats.copied = r.plan.copies ∧
            r.stats.deleted = r.plan.deletes ∧
            ∀ g, Reaches e o c command w g →
              ∀ s ∈ g.listings.source.entries, s.fault = none) ∧
    ∃ (w : World) (r : Report) (g : Stage) (s : Entry) (f : Fault),
      let out := ((runBetween acrossBuckets .standard .standard "sync" true).run w).1
      out.result = .ok r ∧ (CommandLine.exitOf acrossInvocation "sync" out).code = 0 ∧
        r.stats.failed = 0 ∧ r.stats.copied = r.plan.copies ∧ r.stats.deleted = r.plan.deletes ∧
        Reaches acrossBuckets .standard .standard "sync" w g ∧
        s ∈ g.listings.source.entries ∧ s.fault = some f ∧
        .commandError "sync" f.message ∈ out.notices := by
  constructor
  · intro h
    have hrun : (runBetween acrossBuckets .standard .standard "sync" true).run stoppedWorld =
        (finishBy (performOn (.client 0) (.client 1)) acrossBuckets true .standard "sync" true
          stoppedStage.listings).run stoppedStage.world := by
      rw [runBetween_of_reaches reaches_stopped, ← finish_eq_finishBy]
      rfl
    have hresult := report_stopped
    rw [← hrun] at hresult
    have hfailed := (h acrossBuckets .standard .standard "sync" acrossInvocation stoppedWorld _ rfl
      hresult ((code_eq_zero_iff _ _ hresult).mpr rfl)).1
    exact absurd hfailed (by decide)
  · have hentries : vacantStage.listings.source.entries = [Listing.nothing acrossBuckets.source] :=
      rfl
    refine ⟨twoBuckets [] [], ⟨0, 0, 0, ⟨0, 0, 0, 0⟩, .zero, [], false⟩, vacantStage,
      Listing.nothing acrossBuckets.source, .notFound (some "s3://a"), ?_⟩
    rw [outcome_vacant]
    refine ⟨rfl, rfl, rfl, rfl, rfl, reaches_vacant, ?_, rfl, List.mem_cons_self⟩
    rw [hentries]
    exact List.mem_cons_self

end StoreSync.Sync
