import StoreSync.Proofs.Crews

/-!
The accounts of a crew at the end of a run. A run that nobody cancels cannot get stuck and takes no
more steps than its rank; at its end every command was carried out once and is accounted for once.
What a run without workers does is one of the ways in which a crew can go on.
-/
namespace StoreSync.Crew

open Execution Books

variable {cs : List Command} {workers : Nat} {s s' : Crew}

/-! ### The end of a run -/

section Ending

def readerRank : Reader → Nat
  | .reading => 2
  | .holding _ => 11
  | .waiting _ => 10
  | .submitting _ => 9
  | .draining => 1
  | .raising => 0
  | .finished => 0

def rank (s : Crew) : Nat :=
  10 * s.pending.length + readerRank s.reader + 6 * s.queued.length +
    (s.tasks.map Task.rank).sum + s.unreleased

/-- Every step brings the crew nearer to its end. -/
theorem Step.rank_lt (step : Step workers s s') : s'.rank < s.rank := by
  cases step with
  | take reads next =>
    simp only [rank, reads, next, readerRank, List.length_cons]
    omega
  | exhaust reads next =>
    simp only [rank, reads, readerRank]
    omega
  | giveUp reads cancelled =>
    simp only [rank, reads, readerRank]
    omega
  | abandon holds cancelled =>
    simp only [rank, holds, readerRank]
    omega
  | keep holds running =>
    simp only [rank, holds, readerRank]
    omega
  | acquire waits free =>
    simp only [rank, waits, readerRank]
    omega
  | submit submits =>
    simp only [rank, submits, readerRank, List.length_append, List.length_cons, List.length_nil]
    omega
  | drained drains empty idle =>
    simp only [rank, drains, readerRank]
    omega
  | pick waits spare =>
    simp only [rank, waits, List.length_cons, List.map_append, List.map_cons, List.map_nil,
      List.sum_append, List.sum_cons, List.sum_nil, Task.rank]
    omega
  | work runs step =>
    have nearer := step.rank_lt
    simp only [rank, runs, List.map_append, List.map_cons, List.sum_append, List.sum_cons]
    omega
  | complete runs =>
    simp only [rank, runs, List.map_append, List.map_cons, List.sum_append, List.sum_cons,
      Task.rank]
    omega
  | release done =>
    simp only [rank, done]
    omega

/-- Whatever a worker knows, it can go on until it is done. -/
theorem exists_step_of_task (b : Books) (c : Command) {stage : TaskStage}
    (sound : Task.Sound ⟨c, stage⟩) (busy : ∀ outcome, stage ≠ .done outcome) :
    ∃ b' t', Task.Step b ⟨c, stage⟩ b' t' := by
  cases stage with
  | starting =>
    cases hresolve : resolve c with
    | error f => exact ⟨_, _, .refuse hresolve⟩
    | ok asked => exact ⟨_, _, .ask (.ok 0) hresolve⟩
  | answered outcome =>
    cases outcome with
    | ok n =>
      cases hresolve : resolve c with
      | error f => cases sound f hresolve
      | ok asked => exact ⟨_, _, .count hresolve⟩
    | error f =>
      cases hint : f.isInterruption with
      | false => exact ⟨_, _, .miss hint⟩
      | true => exact ⟨_, _, .pass hint⟩
  | reporting f => exact ⟨_, _, .report⟩
  | done outcome => exact absurd rfl (busy outcome)

/-- A crew moves on as long as a command is in flight or a slot is to be given back. -/
theorem Sound.moves_of_work (h : Sound cs workers s) (positive : 0 < workers)
    (busy : s.pool.inFlight ≠ [] ∨ 0 < s.unreleased) : ∃ s', Step workers s s' := by
  rcases htasks : s.tasks with _ | ⟨⟨c, stage⟩, rest⟩
  · rcases hqueued : s.queued with _ | ⟨c, queued⟩
    · have empty : s.pool.inFlight = [] := by simp [Pool.inFlight, pool, hqueued, htasks]
      obtain ⟨n, hn⟩ := Nat.exists_eq_add_one.mpr (busy.resolve_left (by simp [empty]))
      exact ⟨_, .release hn⟩
    · exact ⟨_, .pick hqueued (by simpa [htasks] using positive)⟩
  · have runs : s.tasks = [] ++ ⟨c, stage⟩ :: rest := htasks
    by_cases hdone : ∃ outcome, stage = .done outcome
    · obtain ⟨outcome, rfl⟩ := hdone
      exact ⟨_, .complete runs⟩
    · have sound : Task.Sound ⟨c, stage⟩ := h.tasks _ (by simp [htasks])
      obtain ⟨b', t', step⟩ := exists_step_of_task s.books c sound fun outcome hstage =>
        hdone ⟨outcome, hstage⟩
      exact ⟨_, .work runs step⟩

/-- A run whose reader is not done is never stuck: a reader that waits for a slot waits for a
worker. -/
theorem Sound.moves (h : Sound cs workers s) (positive : 0 < workers)
    (unfinished : s.reader ≠ .finished) : ∃ s', Step workers s s' := by
  cases hreader : s.reader with
  | reading =>
    rcases hpending : s.pending with _ | ⟨c, rest⟩
    · exact ⟨_, .exhaust hreader hpending⟩
    · exact ⟨_, .take hreader hpending⟩
  | holding c =>
    cases hcancelled : s.cancelled with
    | true => exact ⟨_, .abandon hreader hcancelled⟩
    | false => exact ⟨_, .keep hreader hcancelled⟩
  | waiting c =>
    rcases Nat.eq_zero_or_pos s.free with full | free
    · refine h.moves_of_work positive ?_
      have slots := h.slots 0 (by rw [hreader]; rfl)
      have hfree : s.pool.free = 0 := full
      have hunreleased : s.pool.unreleased = s.unreleased := rfl
      rw [Pool.slots, hfree, hunreleased] at slots
      rw [← List.length_pos_iff]
      omega
    · exact ⟨_, .acquire hreader free⟩
  | submitting c => exact ⟨_, .submit hreader⟩
  | draining =>
    by_cases hidle : s.pool.inFlight = []
    · obtain ⟨empty, idle⟩ := List.append_eq_nil_iff.mp hidle
      exact ⟨_, .drained hreader empty (List.map_eq_nil_iff.mp idle)⟩
    · exact h.moves_of_work positive (.inl hidle)
  | raising =>
    have read := h.read
    simp [Read, hreader] at read
  | finished => exact absurd hreader unfinished

/-- Every state goes on to the end of the run. -/
theorem Sound.finishes (h : Sound cs workers s) (positive : 0 < workers) :
    ∃ s', Steps workers s s' ∧ s'.reader = .finished := by
  refine exists_end_of_rank rank (fun s h unfinished => ?_) h
  obtain ⟨s', step⟩ := h.moves positive unfinished
  exact ⟨s', .single step, step.sound h, step.rank_lt⟩

end Ending

/-! ### One command after the other -/

section Serial

variable {σ : Type} (perform : Call → σ → Except Fault Int × σ) {b : Books} {c : Command}

def serial : σ → Stats → List Command → Stats × List Fault
  | _, stats, [] => (stats, [])
  | state, stats, c :: rest =>
      let r := Execution.run false perform state stats c
      let (after, faults) := serial r.state r.stats rest
      (after, r.fault.toList ++ faults)

def waitingAt (pending : List Command) (workers : Nat) (submitted : List Command)
    (completed : List Carried) (b : Books) : Crew :=
  ⟨pending, .reading, workers, submitted, [], [], completed, 0, false, b⟩

theorem steps_run {s : Crew} {b' : Books} {t t' : Task} (runs : s.tasks = [t])
    (run : Task.Run s.books t b' t') : Steps workers s { s with tasks := [t'], books := b' } := by
  suffices h : ∀ x : Books × Task, Relation.ReflTransGen
      (fun x y : Books × Task => Task.Step x.1 x.2 y.1 y.2) (s.books, t) x →
        Steps workers s { s with tasks := [x.2], books := x.1 } from h (b', t') run
  intro x hx
  induction hx with
  | refl => rw [← runs]
  | tail _ step ih => exact ih.tail (@Step.work _ _ [] [] _ _ _ rfl step)

/-- One command goes through the crew before the next one is taken. -/
theorem exists_steps_round (positive : 0 < workers) (state : σ) (rest submitted : List Command)
    (completed : List Carried) (b : Books) (c : Command) :
    ∃ b' outcome, Steps workers (waitingAt (c :: rest) workers submitted completed b)
        (waitingAt rest workers (submitted ++ [c]) (completed ++ [(c, outcome)]) b') ∧
      b'.stats = (Execution.run false perform state b.stats c).stats ∧
      b'.faults = b.faults ++ (Execution.run false perform state b.stats c).fault.toList := by
  obtain ⟨b', outcome, run, stats, faults⟩ := Task.exists_run perform state b c
  refine ⟨b', outcome, ?_, stats, faults⟩
  have taken : Steps workers (waitingAt (c :: rest) workers submitted completed b) _ :=
    .single (.take rfl rfl)
  have submits := ((taken.tail (.keep rfl rfl)).tail (.acquire rfl positive)).tail (.submit rfl)
  have picked := submits.tail (.pick rfl positive)
  have done := picked.trans (steps_run rfl run)
  have released := (done.tail (@Step.complete _ _ [] [] _ _ rfl)).tail (.release rfl)
  simpa [waitingAt, Nat.sub_add_cancel positive] using released

/-- A crew can carry out the commands one after the other, as a run without workers does. -/
theorem exists_steps_serial (positive : 0 < workers) (state : σ) (cs submitted : List Command)
    (completed : List Carried) (b : Books) :
    ∃ s, Steps workers (waitingAt cs workers submitted completed b) s ∧ s.reader = .finished ∧
      s.books.stats = (serial perform state b.stats cs).1 ∧
      s.books.faults = b.faults ++ (serial perform state b.stats cs).2 := by
  induction cs generalizing state submitted completed b with
  | nil =>
    have exhausted : Steps workers (waitingAt [] workers submitted completed b) _ :=
      .single (.exhaust rfl rfl)
    exact ⟨_, exhausted.tail (.drained rfl rfl rfl), rfl, rfl, by simp [waitingAt, serial]⟩
  | cons c rest ih =>
    obtain ⟨b', outcome, round, stats, faults⟩ :=
      exists_steps_round perform positive state rest submitted completed b c
    obtain ⟨s, steps, finished, hstats, hfaults⟩ :=
      ih (Execution.run false perform state b.stats c).state _ _ b'
    rw [stats] at hstats hfaults
    exact ⟨s, round.trans steps, finished, hstats, by rw [hfaults, faults, List.append_assoc]; rfl⟩

end Serial

/-! ### The accounts of a run -/

section Accounts

/-- The order of steps does not matter to a run that nobody cancels: as long as the reader is not
done somebody can go on, and every step brings the end nearer. When the reader is done every
command was carried out once, those that are refused with their refusal and the others with one
call each. The copies that did not fail are counted, the removals with what they were answered
with, and the failures. Each failure is reported once, with its command and its cause. -/
theorem commands_accounted (positive : 0 < workers) (steps : Steps workers (start cs workers) s) :
    (s.reader ≠ .finished → ∃ s', Step workers s s') ∧
    (∀ s', Step workers s s' → s'.rank < s.rank) ∧
    (s.reader = .finished →
      (s.completed.map Prod.fst).Perm cs ∧
      s.books.calls.Perm (cs.filterMap request?) ∧
      (∀ c outcome, (c, outcome) ∈ s.completed → ∀ f, resolve c = .error f → outcome = .error f) ∧
      s.books.stats.copied = s.completed.countP Carried.isCopy ∧
      s.books.stats.deleted = (s.completed.map Carried.removed).sum ∧
      s.books.stats.failed = s.completed.countP (fun x => (Carried.failure? x).isSome) ∧
      s.books.stats.failed = s.books.reports.length ∧
      s.books.reports.Perm (s.completed.filterMap Carried.failure?)) := by
  have sound : Sound cs workers s := steps.sound (sound_start cs workers)
  refine ⟨sound.moves positive, fun s' step => step.rank_lt, fun finished => ?_⟩
  have running : s.cancelled = false := steps.cancelled_eq
  obtain ⟨empty, idle⟩ := sound.idle finished
  have submitted : s.submitted = cs := by
    have read := sound.read
    rw [Read, finished] at read
    exact read.2 running
  have all : (s.completed.map Prod.fst).Perm cs := by
    have accounted := sound.accounted
    rw [Pool.Accounted] at accounted
    simpa [pool, Pool.inFlight, empty, idle, submitted, List.map_map, Function.comp_def] using
      accounted.symm
  have books := sound.books
  simp only [carried, unreported, seen, idle, List.filterMap_nil, List.countP_nil,
    List.nil_append] at books
  refine ⟨all, books.calls.trans (all.filterMap _), ?_, books.copied, books.deleted, ?_, ?_,
    books.reports⟩
  · exact fun c outcome hx f hf => sound.completed (c, outcome) hx f hf
  · rw [books.failed, List.countP_eq_length_filter, List.length_filterMap_eq_countP]
    simp [List.countP_eq_length_filter]
  · rw [books.failed, books.reports.length_eq]
    simp

/-- An operation that nobody knows, a copy without operands, a copy and a removal of two files. -/
def assorted : List Command :=
  [⟨"mv", [], []⟩, ⟨Command.copyOp, [], []⟩, Pipeline.copyOf "a",
    ⟨Command.removeOp, [(Diff.fileAt "b" 1).location, (Diff.fileAt "c" 1).location], []⟩]

def denying (request : Call) (_ : Unit) : Except Fault Int × Unit :=
  match request with
  | .remove ls => (.ok ls.length, ())
  | _ => (.error (.plain .storage "denied"), ())

/-- Two workers bring these commands to an end with two deletions and three reported failures. -/
theorem commands_accounted_assorted :
    0 < 2 ∧ ∃ s, Steps 2 (start assorted 2) s ∧ s.reader = .finished ∧
      (s.completed.map Prod.fst).Perm assorted ∧ s.books.stats = ⟨0, 2, 3⟩ ∧
      s.books.reports.length = 3 := by
  obtain ⟨s, steps, finished, stats, -⟩ :=
    exists_steps_serial denying (by decide : 0 < 2) () assorted [] [] ⟨.zero, [], []⟩
  have counts : s.books.stats = ⟨0, 2, 3⟩ := stats.trans rfl
  obtain ⟨-, -, ends⟩ := commands_accounted (by decide) steps
  obtain ⟨all, -, -, -, -, -, reported, -⟩ := ends finished
  refine ⟨by decide, s, steps, finished, all, counts, ?_⟩
  have three : (3 : Int) = s.books.reports.length :=
    (congrArg Stats.failed counts).symm.trans reported
  exact_mod_cast three.symm

end Accounts

end StoreSync.Crew
