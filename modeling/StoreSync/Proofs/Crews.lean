import Mathlib.Algebra.BigOperators.Group.List.Basic
import Mathlib.Algebra.Ring.Int.Defs
import Mathlib.Algebra.Ring.Nat
import StoreSync.Crew
import StoreSync.Proofs.Pipelines

/-!
What a crew keeps under every order of its steps. At every point the counts, the calls and the
reports in its books are those of the commands that are done, of the failures that are counted and
not reported yet, and of the calls that were answered (`Fit`). Each step of a worker keeps this,
whatever the other ones are at. The crew works in a pool, so its slots and its submitted commands
are accounted for as those of the pool are. `Sound` collects this.
-/
namespace StoreSync

open Execution

/-! ### Outcomes -/

abbrev Carried := Command × Except Fault Int

namespace Carried

def isCopy (x : Carried) : Bool := decide (x.1.op = Command.copyOp) && x.2.isOk

def removed (x : Carried) : Int :=
  match x.2 with
  | .ok n => if x.1.op = Command.removeOp then n else 0
  | .error _ => 0

/-- The failure that is reported: an interruption is none. -/
def failure? (x : Carried) : Option (Command × Fault) :=
  match x.2 with
  | .ok _ => none
  | .error f => if f.isInterruption then none else some (x.1, f)

def fault? (x : Carried) : Option Fault :=
  match x.2 with
  | .ok _ => none
  | .error f => some f

/-- A command that is refused comes to nothing but its refusal. -/
def Faithful (x : Carried) : Prop := ∀ f, resolve x.1 = .error f → x.2 = .error f

end Carried

namespace Books

/-- The books fit commands that are done, a number of failures that are not reported yet, and
commands that were looked at. -/
structure Fit (b : Books) (done : List Carried) (unreported : Nat) (seen : List Command) :
    Prop where
  copied : b.stats.copied = done.countP Carried.isCopy
  deleted : b.stats.deleted = (done.map Carried.removed).sum
  failed : b.stats.failed = (done.filterMap Carried.failure?).length + unreported
  reports : b.reports.Perm (done.filterMap Carried.failure?)
  calls : b.calls.Perm (seen.filterMap request?)

variable {b : Books} {done done' : List Carried} {unreported : Nat} {seen seen' : List Command}

theorem Fit.perm (h : b.Fit done unreported seen) (hdone : done.Perm done')
    (hseen : seen.Perm seen') : b.Fit done' unreported seen' where
  copied := by rw [h.copied, hdone.countP_eq]
  deleted := by rw [h.deleted, (hdone.map _).sum_eq]
  failed := by rw [h.failed, (hdone.filterMap _).length_eq]
  reports := h.reports.trans (hdone.filterMap _)
  calls := h.calls.trans (hseen.filterMap _)

def faults (b : Books) : List Fault := b.reports.map fun x => .execution x.1.text x.2

theorem fit_start : Books.Fit ⟨.zero, [], []⟩ [] 0 [] := ⟨rfl, rfl, rfl, .nil, .nil⟩

end Books

/-! ### The steps of a worker -/

namespace Task

variable {b b' : Books} {t t' : Task} {c : Command}

def carried? (t : Task) : Option Carried :=
  match t.stage with
  | .done outcome => some (t.command, outcome)
  | _ => none

def isReporting (t : Task) : Bool :=
  match t.stage with
  | .reporting _ => true
  | _ => false

def seen? (t : Task) : Option Command :=
  match t.stage with
  | .starting => none
  | _ => some t.command

def Sound (t : Task) : Prop :=
  match t.stage with
  | .starting => True
  | .answered outcome | .done outcome => Carried.Faithful (t.command, outcome)
  | .reporting f => Carried.Faithful (t.command, .error f) ∧ f.isInterruption = false

theorem resolve_eq_ok_iff {op : Operation} {request : Call} :
    resolve c = .ok (op, request) ↔ operation? c = some op ∧ call c op = .ok request := by
  unfold resolve
  cases hop : operation? c with
  | none => simp
  | some op' =>
    constructor
    · intro h
      cases hcall : call c op' with
      | error f => simp [hcall] at h
      | ok request' =>
        simp only [hcall, Except.ok.injEq, Prod.mk.injEq] at h
        obtain ⟨rfl, rfl⟩ := h
        exact ⟨rfl, hcall⟩
    · rintro ⟨hop', hcall⟩
      obtain rfl := Option.some.inj hop'
      simp [hcall]

/-- A command that was answered is counted under its operation. -/
theorem countDone_of_resolve {op : Operation} {request : Call} {n : Int} (s : Stats)
    (h : resolve c = .ok (op, request)) :
    (countDone s op n).copied = s.copied + (if Carried.isCopy (c, .ok n) then 1 else 0) ∧
      (countDone s op n).deleted = s.deleted + Carried.removed (c, .ok n) ∧
      (countDone s op n).failed = s.failed := by
  obtain ⟨hop, -⟩ := resolve_eq_ok_iff.mp h
  have hne : Command.removeOp ≠ Command.copyOp := by decide
  unfold operation? at hop
  split_ifs at hop with hcopy hremove
  · obtain rfl := Option.some.inj hop
    simp [countDone, Stats.addCopy, Carried.isCopy, Carried.removed, hcopy, hne.symm, Except.isOk,
      Except.toBool]
  · obtain rfl := Option.some.inj hop
    simp [countDone, Stats.addRemoved, Carried.isCopy, Carried.removed, hremove, hne]

/-- Each step keeps the books in line with what the worker has done, on top of what the other ones
have. -/
theorem Step.fit {done : List Carried} {unreported : Nat} {seen : List Command}
    (step : Step b t b' t') (sound : t.Sound)
    (h : b.Fit (t.carried?.toList ++ done) (t.isReporting.toNat + unreported)
      (t.seen?.toList ++ seen)) :
    b'.Fit (t'.carried?.toList ++ done) (t'.isReporting.toNat + unreported)
      (t'.seen?.toList ++ seen) := by
  cases step with
  | @refuse c f refused =>
    have hrequest : request? c = none := by simp only [request?, refused]
    exact { h with calls := by simpa [seen?, hrequest] using h.calls }
  | @ask c op request outcome resolved =>
    have hrequest : request? c = some request := by simp only [request?, resolved]
    refine { h with calls := ?_ }
    have hcalls : b.calls.Perm (seen.filterMap request?) := h.calls
    simpa [seen?, hrequest] using (hcalls.append_right [request]).trans List.perm_append_comm
  | @count c op request n resolved =>
    obtain ⟨hcopied, hdeleted, hfailed⟩ := countDone_of_resolve b.stats resolved (n := n)
    refine ⟨?_, ?_, ?_, h.reports, h.calls⟩
    · rw [hcopied, h.copied]
      by_cases hcopy : Carried.isCopy (c, .ok n) <;> simp [carried?, hcopy]
    · rw [hdeleted, h.deleted]
      simp [carried?, Int.add_comm]
    · rw [hfailed, h.failed]
      rfl
  | miss caught =>
    refine { h with failed := ?_ }
    have hfailed := h.failed
    simp only [Stats.addFailure, carried?, isReporting] at hfailed ⊢
    simp only [hfailed, Bool.toNat_false, Bool.toNat_true]
    push_cast
    omega
  | @pass c f interrupted =>
    have hfailure : Carried.failure? (c, .error f) = none := by
      simp [Carried.failure?, interrupted]
    refine ⟨?_, ?_, ?_, ?_, h.calls⟩
    · rw [h.copied]
      simp [carried?, Carried.isCopy, Except.isOk, Except.toBool]
    · rw [h.deleted]
      simp [carried?, Carried.removed]
    · rw [h.failed]
      simp [carried?, isReporting, hfailure]
    · simpa [carried?, hfailure] using h.reports
  | @report c f =>
    have hfailure : Carried.failure? (c, .error f) = some (c, f) := by
      simp [Carried.failure?, sound.2]
    refine ⟨?_, ?_, ?_, ?_, h.calls⟩
    · rw [h.copied]
      simp [carried?, Carried.isCopy, Except.isOk, Except.toBool]
    · rw [h.deleted]
      simp [carried?, Carried.removed]
    · rw [h.failed]
      simp [carried?, isReporting, hfailure]
      omega
    · have hreports : b.reports.Perm (done.filterMap Carried.failure?) := h.reports
      simpa [carried?, hfailure] using
        (hreports.append_right [(c, f)]).trans List.perm_append_comm

theorem Step.sound (step : Step b t b' t') (h : t.Sound) : t'.Sound := by
  cases step with
  | refuse refused =>
    intro f hf
    rw [refused] at hf
    rw [Except.error.inj hf]
  | ask outcome resolved =>
    intro f hf
    rw [resolved] at hf
    cases hf
  | count resolved => exact h
  | miss caught => exact ⟨h, caught⟩
  | pass interrupted => exact h
  | report => exact h.1

def rank (t : Task) : Nat :=
  match t.stage with
  | .starting => 5
  | .answered _ => 4
  | .reporting _ => 3
  | .done _ => 2

theorem Step.rank_lt (step : Step b t b' t') : t'.rank < t.rank := by
  cases step <;> simp [rank]

theorem Step.command_eq (step : Step b t b' t') : t'.command = t.command := by
  cases step <;> rfl

abbrev Run (b : Books) (t : Task) (b' : Books) (t' : Task) : Prop :=
  Relation.ReflTransGen (fun x y : Books × Task => Step x.1 x.2 y.1 y.2) (b, t) (b', t')

section Alone

variable {σ : Type} (perform : Call → σ → Except Fault Int × σ) (state : σ)

theorem run_eq_of_resolve (stats : Stats) (c : Command) :
    Execution.run false perform state stats c =
      match resolve c with
      | .error f => failWith state stats c f
      | .ok (op, request) =>
          match perform request state with
          | (.ok count, next) => ⟨next, countDone stats op count, [], none⟩
          | (.error f, next) => failWith next stats c f := by
  unfold Execution.run resolve
  cases operation? c with
  | none => rfl
  | some op =>
    cases hcall : call c op with
    | error f => simp [hcall]
    | ok request =>
      rcases hperform : perform request state with ⟨f | n, next⟩ <;> simp [hcall, hperform]

/-- A worker whose command failed counts and reports it, unless it was interrupted. -/
theorem exists_run_of_fault (b : Books) (c : Command) (f : Fault) :
    ∃ b', Run b ⟨c, .answered (.error f)⟩ b' ⟨c, .done (.error f)⟩ ∧
      b'.stats = (failWith state b.stats c f).stats ∧
      b'.faults = b.faults ++ (failWith state b.stats c f).fault.toList := by
  cases hint : f.isInterruption with
  | true => exact ⟨b, .single (.pass hint), by simp [failWith, hint], by simp [failWith, hint]⟩
  | false =>
    have missed : Run b ⟨c, .answered (.error f)⟩ _ ⟨c, .reporting f⟩ := .single (.miss hint)
    exact ⟨_, missed.tail .report, by simp [failWith, hint], by simp [failWith, hint, Books.faults]⟩

/-- A worker that is left alone does what `Execution.run` does. -/
theorem exists_run (b : Books) (c : Command) :
    ∃ b' outcome, Run b ⟨c, .starting⟩ b' ⟨c, .done outcome⟩ ∧
      b'.stats = (Execution.run false perform state b.stats c).stats ∧
      b'.faults = b.faults ++ (Execution.run false perform state b.stats c).fault.toList := by
  rw [run_eq_of_resolve]
  cases hresolve : resolve c with
  | error f =>
    obtain ⟨b', run, stats, faults⟩ := exists_run_of_fault state b c f
    exact ⟨b', _, .head (.refuse hresolve) run, stats, faults⟩
  | ok asked =>
    obtain ⟨op, request⟩ := asked
    have ask (outcome : Except Fault Int) : Run b ⟨c, .starting⟩ _ ⟨c, .answered outcome⟩ :=
      .single (.ask outcome hresolve)
    rcases hperform : perform request state with ⟨f | n, next⟩
    · obtain ⟨b', run, stats, faults⟩ :=
        exists_run_of_fault next { b with calls := b.calls ++ [request] } c f
      exact ⟨b', _, (ask _).trans run, by simpa [hperform] using stats,
        by simpa [hperform, Books.faults] using faults⟩
    · exact ⟨_, _, (ask (.ok n)).tail (.count hresolve), by simp [hperform],
        by simp [hperform, Books.faults]⟩

end Alone

end Task

namespace Crew

open Books

variable {cs : List Command} {workers : Nat} {s s' : Crew}

/-! ### The steps of a crew -/

section Invariant

def carried (s : Crew) : List Carried := s.tasks.filterMap Task.carried? ++ s.completed

def unreported (s : Crew) : Nat := s.tasks.countP Task.isReporting

def seen (s : Crew) : List Command := s.tasks.filterMap Task.seen? ++ s.completed.map Prod.fst

def pool (s : Crew) : Pool where
  free := s.free
  submitted := s.submitted
  queued := s.queued
  running := s.tasks.map Task.command
  completed := s.completed.map fun x => (x.1, Carried.fault? x)
  unreleased := s.unreleased

def Read (cs : List Command) (s : Crew) : Prop :=
  match s.reader with
  | .reading => cs = s.submitted ++ s.pending
  | .holding c | .waiting c | .submitting c => cs = s.submitted ++ c :: s.pending
  | .draining | .finished => s.submitted <+: cs ∧ (s.cancelled = false → s.submitted = cs)
  | .raising => False

structure Sound (cs : List Command) (workers : Nat) (s : Crew) : Prop where
  books : s.books.Fit s.carried s.unreported s.seen
  tasks : ∀ t ∈ s.tasks, t.Sound
  completed : ∀ x ∈ s.completed, Carried.Faithful x
  read : Read cs s
  idle : s.reader = .finished → s.queued = [] ∧ s.tasks = []
  slots : ∀ n, s.reader.slots? = some n → s.pool.slots + n = workers
  accounted : s.pool.Accounted

theorem sound_start (cs : List Command) (workers : Nat) : Sound cs workers (start cs workers) where
  books := fit_start
  tasks := nofun
  completed := nofun
  read := rfl
  idle := nofun
  slots n hn := by
    obtain rfl : 0 = n := Option.some.inj hn
    rfl
  accounted := .refl _

end Invariant

section Stepping

/-- A crew works in its pool: the reader takes and fills slots, everything else is a step of the
pool or leaves it alone. -/
theorem Step.pool_cases (step : Step workers s s') :
    (s'.pool = s.pool ∧ ∀ n, s'.reader.slots? = some n → s.reader.slots? = some n) ∨
      (Pool.Step workers s.pool s'.pool ∧ s'.reader = s.reader) ∨
      (∃ c, s.reader = .waiting c ∧ 0 < s.pool.free ∧ s'.pool = s.pool.acquire ∧
        s'.reader = .submitting c) ∨
      ∃ c, s.reader = .submitting c ∧ s'.pool = s.pool.submit c ∧ s'.reader = .reading := by
  cases step with
  | take reads next => exact .inl ⟨rfl, by simp [reads, Reader.slots?]⟩
  | exhaust => exact .inl ⟨rfl, nofun⟩
  | giveUp => exact .inl ⟨rfl, nofun⟩
  | abandon => exact .inl ⟨rfl, nofun⟩
  | keep holds running => exact .inl ⟨rfl, by simp [holds, Reader.slots?]⟩
  | @acquire c waits free => exact .inr (.inr (.inl ⟨c, waits, free, rfl, rfl⟩))
  | @submit c submits => exact .inr (.inr (.inr ⟨c, submits, rfl, rfl⟩))
  | drained => exact .inl ⟨rfl, nofun⟩
  | pick waits spare =>
    have picked : Pool.Step workers s.pool _ := .pick waits (by simpa [pool] using spare)
    exact .inr (.inl ⟨by simpa [pool] using picked, rfl⟩)
  | @work before after t t' b runs step =>
    refine .inl ⟨?_, fun n hn => hn⟩
    simp [pool, runs, step.command_eq]
  | @complete before after c outcome runs =>
    have ran : s.pool.running = before.map Task.command ++ c :: after.map Task.command :=
      (congrArg (List.map Task.command) runs).trans List.map_append
    have left : Pool.Step workers s.pool _ := .complete (Carried.fault? (c, outcome)) ran
    refine .inr (.inl ⟨?_, rfl⟩)
    simpa [pool] using left
  | release done =>
    have released : Pool.Step workers s.pool _ := .release done
    exact .inr (.inl ⟨released, rfl⟩)

theorem Step.accounted (step : Step workers s s') (h : s.pool.Accounted) : s'.pool.Accounted := by
  rcases step.pool_cases with ⟨same, -⟩ | ⟨moved, -⟩ | ⟨c, -, -, acquired, -⟩ | ⟨c, -, submitted, -⟩
  · rwa [same]
  · exact moved.accounted h
  · rw [acquired]
    exact h
  · rw [submitted]
    exact Pool.accounted_submit h c

theorem Step.slots (step : Step workers s s')
    (h : ∀ n, s.reader.slots? = some n → s.pool.slots + n = workers) :
    ∀ n, s'.reader.slots? = some n → s'.pool.slots + n = workers := by
  intro n hn
  rcases step.pool_cases with ⟨same, held⟩ | ⟨moved, reader⟩ | ⟨c, waits, free, acquired, reader⟩ |
    ⟨c, submits, submitted, reader⟩
  · rw [same]
    exact h n (held n hn)
  · rw [moved.slots_eq]
    exact h n (reader ▸ hn)
  · rw [reader] at hn
    obtain rfl : 1 = n := Option.some.inj hn
    have hslots := h 0 (by rw [waits]; rfl)
    rw [acquired, Pool.slots_acquire free]
    exact hslots
  · rw [reader] at hn
    obtain rfl : 0 = n := Option.some.inj hn
    have hslots := h 1 (by rw [submits]; rfl)
    rw [submitted, Pool.slots_submit]
    exact hslots

theorem Step.read (step : Step workers s s') (h : Read cs s) : Read cs s' := by
  unfold Read at h
  cases step with
  | take reads next =>
    simp only [reads] at h
    simpa [Read, next] using h
  | exhaust reads next =>
    simp only [reads, next, List.append_nil] at h
    subst h
    exact ⟨List.prefix_rfl, fun _ => rfl⟩
  | giveUp reads cancelled =>
    simp only [reads] at h
    exact ⟨⟨_, h.symm⟩, fun running => by simp [cancelled] at running⟩
  | abandon holds cancelled =>
    simp only [holds] at h
    exact ⟨⟨_, h.symm⟩, fun running => by simp [cancelled] at running⟩
  | keep holds running =>
    simp only [holds] at h
    exact h
  | acquire waits free =>
    simp only [waits] at h
    exact h
  | submit submits =>
    simp only [submits] at h
    simpa [Read] using h
  | drained drains empty idle =>
    simp only [drains] at h
    exact h
  | _ => exact h

/-- Nothing is left to the workers of a reader that is done. -/
theorem Step.idle (step : Step workers s s')
    (h : s.reader = .finished → s.queued = [] ∧ s.tasks = []) :
    s'.reader = .finished → s'.queued = [] ∧ s'.tasks = [] := by
  cases step with
  | drained drains empty idle => exact fun _ => ⟨empty, idle⟩
  | pick waits spare => exact fun finished => by simp [(h finished).1] at waits
  | work runs step => exact fun finished => by simp [(h finished).2] at runs
  | complete runs => exact fun finished => by simp [(h finished).2] at runs
  | release done => exact h
  | _ => exact nofun

theorem toList_append_filterMap {α : Type} (f : Task → Option α) (before after : List Task)
    (t : Task) (xs : List α) :
    ((before ++ t :: after).filterMap f ++ xs).Perm
      ((f t).toList ++ ((before ++ after).filterMap f ++ xs)) := by
  have moved : ((before ++ t :: after).filterMap f).Perm
      ((f t).toList ++ (before ++ after).filterMap f) := by
    have hcons : (t :: (before ++ after)).filterMap f =
        (f t).toList ++ (before ++ after).filterMap f := by
      cases hf : f t <;> simp [hf]
    exact hcons ▸ List.perm_middle.filterMap f
  rw [← List.append_assoc]
  exact moved.append_right xs

/-- The books of a crew, seen from one of its workers. -/
theorem fit_iff_of_tasks {before after : List Task} {t : Task} {b : Books}
    (runs : s.tasks = before ++ t :: after) :
    b.Fit s.carried s.unreported s.seen ↔
      b.Fit (t.carried?.toList ++ ((before ++ after).filterMap Task.carried? ++ s.completed))
        (t.isReporting.toNat + (before ++ after).countP Task.isReporting)
        (t.seen?.toList ++
          ((before ++ after).filterMap Task.seen? ++ s.completed.map Prod.fst)) := by
  have carried := toList_append_filterMap Task.carried? before after t s.completed
  have seen := toList_append_filterMap Task.seen? before after t (s.completed.map Prod.fst)
  have unreported : s.unreported =
      t.isReporting.toNat + (before ++ after).countP Task.isReporting := by
    rw [Crew.unreported, runs, List.perm_middle.countP_eq, List.countP_cons]
    cases t.isReporting <;> simp [Nat.add_comm]
  rw [← runs] at carried seen
  rw [← unreported]
  exact ⟨fun h => h.perm carried seen, fun h => h.perm carried.symm seen.symm⟩

theorem Step.books (step : Step workers s s') (tasks : ∀ t ∈ s.tasks, t.Sound)
    (books : s.books.Fit s.carried s.unreported s.seen) :
    s'.books.Fit s'.carried s'.unreported s'.seen := by
  cases step with
  | pick waits spare =>
    refine (fit_iff_of_tasks (show _ = s.tasks ++ _ :: [] from rfl)).mpr ?_
    rw [List.append_nil]
    exact Nat.zero_add s.unreported ▸ books
  | @work before after t t' b runs step =>
    have sound : t.Sound := tasks t (by simp [runs])
    exact (fit_iff_of_tasks rfl).mpr (step.fit sound ((fit_iff_of_tasks runs).mp books))
  | @complete before after c outcome runs =>
    have fits := (fit_iff_of_tasks runs).mp books
    have done := fits.perm (List.perm_append_comm.trans (.of_eq (List.append_assoc ..)))
      (List.perm_append_comm.trans (.of_eq (List.append_assoc ..)))
    rw [Task.isReporting, Bool.toNat_false, Nat.zero_add] at done
    simpa [carried, seen, unreported, Task.carried?, Task.seen?] using done
  | _ => exact books

theorem Step.tasks_sound (step : Step workers s s') (h : ∀ t ∈ s.tasks, t.Sound) :
    ∀ t ∈ s'.tasks, t.Sound := by
  cases step with
  | pick waits spare =>
    intro t ht
    rcases List.mem_append.mp ht with ht | ht
    · exact h t ht
    · obtain rfl := List.mem_singleton.mp ht
      trivial
  | @work before after t t' b runs step =>
    rw [runs, List.forall_mem_append, List.forall_mem_cons] at h
    exact List.forall_mem_append.mpr ⟨h.1, List.forall_mem_cons.mpr ⟨step.sound h.2.1, h.2.2⟩⟩
  | complete runs =>
    rw [runs, List.forall_mem_append, List.forall_mem_cons] at h
    exact List.forall_mem_append.mpr ⟨h.1, h.2.2⟩
  | _ => exact h

theorem Step.completed_sound (step : Step workers s s') (htasks : ∀ t ∈ s.tasks, t.Sound)
    (h : ∀ x ∈ s.completed, Carried.Faithful x) : ∀ x ∈ s'.completed, Carried.Faithful x := by
  cases step with
  | @complete before after c outcome runs =>
    have done : Task.Sound ⟨c, .done outcome⟩ := htasks _ (by simp [runs])
    intro x hx
    rcases List.mem_append.mp hx with hx | hx
    · exact h x hx
    · obtain rfl := List.mem_singleton.mp hx
      exact done
  | _ => exact h

theorem Step.sound (step : Step workers s s') (h : Sound cs workers s) : Sound cs workers s' where
  books := step.books h.tasks h.books
  tasks := step.tasks_sound h.tasks
  completed := step.completed_sound h.tasks h.completed
  read := step.read h.read
  idle := step.idle h.idle
  slots := step.slots h.slots
  accounted := step.accounted h.accounted

theorem Read.cancel (h : Read cs s) : Read cs s.cancel := by
  obtain ⟨pending, reader, free, submitted, queued, tasks, completed, unreleased, cancelled,
    books⟩ := s
  cases reader with
  | draining => exact ⟨h.1, nofun⟩
  | finished => exact ⟨h.1, nofun⟩
  | _ => exact h

/-- A cancellation changes nothing but what the reader is told. -/
theorem Sound.cancel (h : Sound cs workers s) : Sound cs workers s.cancel :=
  { h with read := h.read.cancel }

theorem Steps.sound (steps : Steps workers s s') (h : Sound cs workers s) :
    Sound cs workers s' := by
  induction steps with
  | refl => exact h
  | tail _ step ih => exact step.sound ih

/-- What a whole run keeps, by induction on its steps. -/
theorem Reachable.sound (h : Reachable cs workers s) : Sound cs workers s := by
  induction h with
  | refl => exact sound_start cs workers
  | tail _ step ih =>
    rcases step with step | rfl
    · exact step.sound ih
    · exact ih.cancel

theorem Reachable.trans (h : Reachable cs workers s) (steps : Steps workers s s') :
    Reachable cs workers s' :=
  Relation.ReflTransGen.trans h (Relation.ReflTransGen.mono (fun _ _ => Or.inl) _ _ steps)

theorem Step.cancelled_eq (step : Step workers s s') : s'.cancelled = s.cancelled := by
  cases step <;> rfl

theorem Steps.cancelled_eq (steps : Steps workers s s') : s'.cancelled = s.cancelled := by
  induction steps with
  | refl => rfl
  | tail _ step ih => exact step.cancelled_eq.trans ih

end Stepping

end Crew

end StoreSync
