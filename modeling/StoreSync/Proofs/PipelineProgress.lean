import StoreSync.Proofs.Pipelines

/-!
A run comes to its end. What the parties still have to do is counted (`rank`); as long as the run
has not ended one of them can do a part of it, so no state that a run can come to is stuck. A
command that is made, waits, is held and is worked on counts less at each of these places. Asking
again for a place or for a command is no progress; a party that can do nothing else waits for the
other one, and that one is not done.
-/
namespace StoreSync

namespace Pool

variable {workers : Nat} {q : Pool}

def rank (q : Pool) : Nat := 3 * q.queued.length + 2 * q.running.length + q.unreleased

theorem rank_submit (q : Pool) (c : Command) : (q.submit c).rank = q.rank + 3 := by
  simp only [rank, submit, List.length_append, List.length_cons, List.length_nil]
  omega

/-- Workers that have something to do can do it: with nothing running there is one for the first
queued command. -/
theorem exists_step (positive : 0 < workers) (q : Pool) :
    (q.inFlight = [] ∧ q.unreleased = 0) ∨ ∃ q', Step workers q q' ∧ q'.rank < q.rank := by
  rcases hdone : q.unreleased with _ | n
  · rcases hruns : q.running with _ | ⟨c, running⟩
    · rcases hwaits : q.queued with _ | ⟨c, queued⟩
      · exact .inl ⟨by rw [inFlight, hruns, hwaits]; rfl, rfl⟩
      · refine .inr ⟨_, .pick hwaits (by rw [hruns]; exact positive), ?_⟩
        simp only [rank, hwaits, hruns, List.length_append, List.length_cons, List.length_nil]
        omega
    · refine .inr ⟨_, .complete none (show q.running = [] ++ c :: running from hruns), ?_⟩
      simp only [rank, hruns, List.length_append, List.length_cons, List.length_nil]
      omega
  · refine .inr ⟨_, .release hdone, ?_⟩
    simp only [rank, hdone]
    omega

end Pool

namespace Pipeline

open Handoff Plan

variable {p : Planner} {d : Diff} {workers : Nat} {s s' : Pipeline} {item : Item}

section Rank

def placeRank : Option Item → Nat
  | some (.command _) => 9
  | some .closed => 1
  | none => 0

def planningRank : Planning → Nat
  | .thinking rest => 12 * remaining rest + 5
  | .offering rest => 12 * remaining rest + 14
  | .leaving => 4
  | .closing => 1
  | .finished => 0

def producerRank : Producer → Nat
  | .checking _ => 2
  | .placing _ => 1
  | .idle => 0

def readerRank : Reader → Nat
  | .reading => 2
  | .holding _ => 8
  | .waiting _ => 7
  | .submitting _ => 6
  | .draining => 1
  | .raising => 1
  | .finished => 0

def consumerRank : Consumer → Nat
  | .idle => 2
  | .checking => 1
  | .taking => 0
  | .stopped => 0

def rank (s : Pipeline) : Nat :=
  planningRank s.planning + producerRank s.exchange.producer + placeRank s.exchange.hand.waiting +
    (readerRank s.reader + consumerRank s.exchange.consumer) + s.pool.rank

/-- Some parties can do a part of what is still to be done. -/
def Moves (p : Planner) (workers : Nat) (s : Pipeline) : Prop :=
  ∃ s', Steps p workers s s' ∧ rank s' < rank s

theorem moves_of_step (step : Step p workers s s') (less : rank s' < rank s) :
    Moves p workers s :=
  ⟨s', .single step, less⟩

end Rank

section Stopped

/-- A reader that left its loop without a cancellation has got all of a plan that is done. -/
theorem Sound.complete (h : Sound p d workers s) (running : s.cancelled = false)
    (left : s.reader = .draining ∨ s.reader = .finished) :
    s.planning = .finished ∧ s.exchange.delivered = commands (ofDiff p d).steps ∧
      s.fault = (ofDiff p d).fault ∧ s.summary = Summary.ofSteps (ofDiff p d).steps := by
  have stopped : s.exchange.consumer = .stopped := by
    have read := h.read
    unfold Read at read
    rcases left with left | left <;> rw [left] at read <;> exact read.2 running
  obtain ⟨closed, nothing⟩ := h.exchange.sound.stopped stopped running
  have flow := h.exchange.sound.flow
  rw [nothing, List.append_nil] at flow
  have planned := h.planned
  unfold Planned at planned
  split at planned
  case h_5 hplanning =>
    obtain ⟨-, closing, -⟩ := planned
    obtain ⟨accepted, hfault, hsummary⟩ := closing.2 running
    exact ⟨hplanning, flow.symm.trans accepted, hfault, hsummary⟩
  case h_2 =>
    obtain ⟨-, -, unclosed, -⟩ := planned
    exact absurd closed (unclosed true)
  all_goals exact absurd closed (planned.2.1 true)

/-- The end that a planner left behind waits for a reader that has not left its loop. -/
theorem Sound.end_waits (h : Sound p d workers s) (running : s.cancelled = false)
    (finished : s.planning = .finished) (reads : s.reader = .reading) :
    s.exchange.hand.waiting = some .closed := by
  have planned := h.planned
  unfold Planned at planned
  rw [finished] at planned
  have read := h.read
  unfold Read at read
  rw [reads] at read
  exact (h.exchange.end_waits (planned.2.2 running)).resolve_right read.1

end Stopped

section Moving

theorem Planned.rank_answered (h : Planned p d s) (holds : s.exchange.producer.item? = some item) :
    planningRank (s.planning.answered true) + placeRank (some item) ≤ planningRank s.planning ∧
      planningRank (s.planning.answered false) ≤ planningRank s.planning := by
  obtain ⟨-, ⟨c, rest, rfl, hplanning, -⟩ | ⟨rfl, hplanning, -⟩⟩ := h.holding holds
  · simp only [hplanning, Planning.answered, planningRank, placeRank]
    omega
  · simp [hplanning, Planning.answered, planningRank, placeRank]

/-- A planner with an item in hand gets rid of it when the place is free, or in vain when the run
is cancelled. -/
theorem Sound.holder_moves (h : Sound p d workers s)
    (holds : s.exchange.producer.item? = some item)
    (room : s.exchange.hand.waiting = none ∨ s.cancelled = true) : Moves p workers s := by
  obtain ⟨placed, refused⟩ := h.planned.rank_answered holds
  rcases hproducer : s.exchange.producer with _ | item' | item'
  · simp [hproducer, Producer.item?] at holds
  · obtain rfl : item' = item := by simpa [hproducer, Producer.item?] using holds
    cases hcancelled : s.cancelled with
    | true =>
      refine moves_of_step (.refuse hproducer hcancelled) ?_
      simp only [rank, hproducer, producerRank]
      omega
    | false =>
      refine moves_of_step (.proceed hproducer hcancelled) ?_
      simp only [rank, hproducer, producerRank]
      omega
  · obtain rfl : item' = item := by simpa [hproducer, Producer.item?] using holds
    by_cases free : s.exchange.hand.waiting = none
    · refine moves_of_step (.place hproducer free) ?_
      simp only [rank, hproducer, producerRank, free]
      omega
    · have again : Steps p workers s _ := Relation.ReflTransGen.single (.retry hproducer free)
      refine ⟨_, again.tail (.refuse rfl (room.resolve_left free)), ?_⟩
      simp only [rank, hproducer, producerRank]
      omega

theorem Sound.planner_moves (h : Sound p d workers s) (active : s.planning ≠ .finished)
    (room : s.exchange.hand.waiting = none ∨ s.cancelled = true) : Moves p workers s := by
  have planned := h.planned
  unfold Planned at planned
  split at planned
  case h_1 rest hplanning =>
    have hproducer := planned.1
    rcases hnext : Plan.next p rest with ⟨step, rest'⟩ | f | _
    · obtain ⟨-, less⟩ := ofDiff_of_made hnext
      cases hcommand : step.command? with
      | none =>
        refine moves_of_step (.note hplanning hnext hcommand) ?_
        simp only [rank, hplanning, planningRank]
        omega
      | some c =>
        obtain rfl := command?_eq_some_iff.mp hcommand
        refine moves_of_step (.offer hplanning hnext) ?_
        simp only [rank, hplanning, planningRank, hproducer, producerRank]
        omega
    · refine moves_of_step (.fail hplanning hnext) ?_
      simp only [rank, hplanning, planningRank]
      omega
    · refine moves_of_step (.exhaust hplanning hnext) ?_
      simp only [rank, hplanning, planningRank]
      omega
  case h_2 =>
    obtain ⟨c, holds, -, -⟩ := planned
    exact h.holder_moves holds room
  case h_3 hplanning =>
    have hproducer := planned.1
    refine moves_of_step (.close hplanning) ?_
    simp only [rank, hplanning, planningRank, hproducer, producerRank]
    omega
  case h_4 => exact h.holder_moves planned.1 room
  case h_5 hplanning => exact absurd hplanning active

/-- The reader asks for the next command, and there is something for it to take or to learn. -/
theorem moves_of_reading (reads : s.reader = .reading) (active : s.exchange.consumer ≠ .stopped)
    (empty : s.exchange.consumer = .taking → s.exchange.hand.waiting = none → s.cancelled = true) :
    Moves p workers s := by
  rcases hconsumer : s.exchange.consumer with _ | _ | _ | _
  · refine moves_of_step (.next reads hconsumer) ?_
    simp only [rank, hconsumer, consumerRank]
    omega
  · rcases hwaits : s.exchange.hand.waiting with _ | (c | _)
    · have missed : Steps p workers s _ :=
        Relation.ReflTransGen.single (.miss reads hconsumer hwaits)
      refine ⟨_, missed.tail (.giveUp reads rfl (empty hconsumer hwaits)), ?_⟩
      simp only [rank, reads, readerRank, hconsumer, consumerRank]
      omega
    · refine moves_of_step (.deliver reads hconsumer hwaits) ?_
      simp only [rank, reads, readerRank, hconsumer, consumerRank, hwaits, placeRank]
      omega
    · refine moves_of_step (.finish reads hconsumer hwaits) ?_
      simp only [rank, reads, readerRank, hconsumer, consumerRank, hwaits, placeRank]
      omega
  · cases hcancelled : s.cancelled with
    | true =>
      refine moves_of_step (.giveUp reads hconsumer hcancelled) ?_
      simp only [rank, reads, readerRank, hconsumer, consumerRank]
      omega
    | false =>
      refine moves_of_step (.resume reads hconsumer hcancelled) ?_
      simp only [rank, hconsumer, consumerRank]
      omega
  · exact absurd hconsumer active

/-- With the workers at rest and all slots given back the reader goes on, unless it is done or
finds nothing to take while the run goes on. -/
theorem Sound.reader_moves (h : Sound p d workers s) (positive : 0 < workers)
    (idle : s.pool.inFlight = []) (released : s.pool.unreleased = 0) :
    Moves p workers s ∨ s.reader = .finished ∨
      (s.reader = .reading ∧ s.exchange.hand.waiting = none ∧ s.cancelled = false) := by
  have read := h.read
  unfold Read at read
  split at read
  case h_1 reads =>
    by_cases nothing : s.exchange.hand.waiting = none ∧ s.cancelled = false
    · exact .inr (.inr ⟨reads, nothing⟩)
    · refine .inl (moves_of_reading reads read.1 fun _ free => ?_)
      simpa [free] using nothing
  case h_2 c holds =>
    cases hcancelled : s.cancelled with
    | true =>
      refine .inl (moves_of_step (.abandon holds hcancelled) ?_)
      simp only [rank, holds, readerRank]
      omega
    | false =>
      refine .inl (moves_of_step (.keep holds hcancelled) ?_)
      simp only [rank, holds, readerRank]
      omega
  case h_3 c waits =>
    have slots := h.slots 0 (by rw [waits]; rfl)
    simp only [Pool.slots, idle, List.length_nil, released] at slots
    refine .inl (moves_of_step (.acquire waits (by omega)) ?_)
    simp only [rank, waits, readerRank, Pool.rank, Pool.acquire]
    omega
  case h_4 c submits =>
    refine .inl (moves_of_step (.submit submits) ?_)
    simp only [rank, submits, readerRank, Pool.rank_submit]
    omega
  case h_5 drains =>
    refine .inl (moves_of_step (.drained drains idle) ?_)
    simp only [rank, drains, readerRank]
    omega
  case h_6 finished => exact .inr (.inl finished)
  case h_7 raises =>
    refine .inl (moves_of_step (.recover raises) ?_)
    simp only [rank, raises, readerRank, Pipeline.cancel, Handoff.cancel]
    omega

/-- No state is stuck. A planner that waits for a reader waits for one that is in its loop, and a
reader that waits for a planner for one that has not left its end behind. -/
theorem Sound.ended_or_moves (h : Sound p d workers s) (positive : 0 < workers) :
    Ended s ∨ Moves p workers s := by
  rcases Pool.exists_step positive s.pool with ⟨idle, released⟩ | ⟨q, step, less⟩
  · rcases h.reader_moves positive idle released with moves | finished | ⟨reads, free, running⟩
    · exact .inr moves
    · -- Nobody takes commands any more: the planner is done, or the run is cancelled.
      by_cases planned : s.planning = .finished
      · exact .inl ⟨planned, finished, idle⟩
      · refine .inr (h.planner_moves planned (.inr ?_))
        by_contra running
        exact planned (h.complete (by simpa using running) (.inr finished)).1
    · -- The reader finds nothing, so the planner has not left its end behind yet.
      refine .inr (h.planner_moves (fun finished => ?_) (.inl free))
      simpa [free] using h.end_waits running finished reads
  · refine .inr (moves_of_step (.work step) ?_)
    simp only [rank]
    omega

end Moving

section Ending

theorem Steps.sound (steps : Steps p workers s s') (h : Sound p d workers s) :
    Sound p d workers s' := by
  induction steps with
  | refl => exact h
  | tail _ step ih => exact step.sound ih

/-- From every state the parties can go on to the end. -/
theorem Sound.ends (h : Sound p d workers s) (positive : 0 < workers) :
    ∃ s', Steps p workers s s' ∧ Ended s' := by
  refine exists_end_of_rank rank (fun s h unended => ?_) h
  obtain ⟨s', steps, less⟩ := (h.ended_or_moves positive).resolve_left unended
  exact ⟨s', steps, steps.sound h, less⟩

def Undisturbed (s : Pipeline) : Prop := s.cancelled = false ∧ s.reader ≠ .raising

theorem Step.undisturbed (step : Step p workers s s') (h : s.Undisturbed) : s'.Undisturbed := by
  cases step with
  | recover raises => exact absurd raises h.2
  | deliver => exact ⟨h.1, nofun⟩
  | finish => exact ⟨h.1, nofun⟩
  | giveUp => exact ⟨h.1, nofun⟩
  | abandon => exact ⟨h.1, nofun⟩
  | keep => exact ⟨h.1, nofun⟩
  | acquire => exact ⟨h.1, nofun⟩
  | submit => exact ⟨h.1, nofun⟩
  | drained => exact ⟨h.1, nofun⟩
  | _ => exact h

theorem Steps.undisturbed (steps : Steps p workers s s') (h : s.Undisturbed) :
    s'.Undisturbed := by
  induction steps with
  | refl => exact h
  | tail _ step ih => exact step.undisturbed ih

/-- In every order of steps the reader gets the commands of the plan from the front. When it has
left its loop and the run is not cancelled it has got all of them, those before a fault that ended
the planning included, and the planner is done with the same fault and summary as the plan. On a
running pipeline neither party waits for one that is done. Every state goes on to the end of the
run, and an undisturbed one to an end where the plan was delivered. -/
theorem pipeline_refines_plan (h : Reachable p d workers s) (positive : 0 < workers) :
    s.exchange.delivered <+: commands (ofDiff p d).steps ∧
    (s.cancelled = false → s.reader = .draining ∨ s.reader = .finished →
      s.exchange.delivered = commands (ofDiff p d).steps ∧ s.planning = .finished ∧
        s.fault = (ofDiff p d).fault ∧ s.summary = Summary.ofSteps (ofDiff p d).steps) ∧
    (s.cancelled = false →
      ¬ (s.planning = .finished ∧ s.reader = .reading ∧ s.exchange.hand.waiting = none) ∧
      ¬ (s.exchange.producer ≠ .idle ∧ s.exchange.hand.waiting ≠ none ∧
        (s.reader = .draining ∨ s.reader = .finished))) ∧
    ∃ s', Steps p workers s s' ∧ Ended s' ∧
      (s.Undisturbed → s'.cancelled = false ∧
        s'.exchange.delivered = commands (ofDiff p d).steps ∧ s'.fault = (ofDiff p d).fault) := by
  have sound := h.sound
  have delivered : s.exchange.delivered <+: s.exchange.accepted :=
    ⟨_, sound.exchange.sound.flow.symm⟩
  refine ⟨delivered.trans sound.planned.accepted_isPrefix, ?_, ?_, ?_⟩
  · intro running left
    obtain ⟨finished, all, rest⟩ := sound.complete running left
    exact ⟨all, finished, rest⟩
  · refine fun running => ⟨?_, ?_⟩
    · rintro ⟨finished, reads, free⟩
      simpa [free] using sound.end_waits running finished reads
    · rintro ⟨holds, -, left⟩
      have planned := sound.planned
      unfold Planned at planned
      rw [(sound.complete running left).1] at planned
      exact holds planned.1
  · obtain ⟨s', steps, ended⟩ := sound.ends positive
    refine ⟨s', steps, ended, fun undisturbed => ?_⟩
    have running := (steps.undisturbed undisturbed).1
    obtain ⟨-, all, fault, -⟩ := (steps.sound sound).complete running (.inr ended.reader)
    exact ⟨running, all, fault⟩

def undatable : Diff :=
  ⟨[(Diff.fileAt "a" 1).location], [(Diff.fileAt "c" 1).location],
    [({ Diff.fileAt "b" 1 with modified := some (.zoned 0) },
      { Diff.fileAt "b" 1 with modified := some (.unzoned 0) })]⟩

def dating : Planner := { deleting with strategy := .sizeAndTime }

/-- The plan fails at its second step. A run with two workers comes to an end with the first
command delivered, the removal left out and the fault kept. -/
theorem pipeline_refines_plan_undatable :
    Reachable dating undatable 2 (start undatable 2) ∧ 0 < 2 ∧
      ∃ s, Reachable dating undatable 2 s ∧ Ended s ∧ s.cancelled = false ∧
        s.exchange.delivered = [copyOf "a"] ∧ s.fault = some Freshness.timesDisagree := by
  have started : Reachable dating undatable 2 (start undatable 2) := .refl
  obtain ⟨-, -, -, s, steps, ended, all⟩ := pipeline_refines_plan started (by decide)
  obtain ⟨running, delivered, fault⟩ := all ⟨rfl, nofun⟩
  exact ⟨started, by decide, s, started.trans steps, ended, running, delivered, fault⟩

end Ending

end Pipeline

end StoreSync
