import StoreSync.Pipeline
import StoreSync.Proofs.Exchanges
import StoreSync.Proofs.PlanCommands
import StoreSync.Proofs.RemovalCoverage

/-!
What the parties of a run keep under every order of their steps. What the planner still has to
make completes what it has made to the plan (`Planned`); the reader has submitted what was
delivered, but for the command it holds (`Read`); and the slots are all accounted for. `Sound`
collects this, every step and every disturbance keeps it.
-/
namespace StoreSync

/-- Parties that can go on with less to do until they have ended come to their end, by induction on
what is still to be done. -/
theorem exists_end_of_rank {α : Type} {step : α → α → Prop} {Inv Ended : α → Prop}
    (rank : α → Nat)
    (moves : ∀ s, Inv s → ¬ Ended s →
      ∃ s', Relation.ReflTransGen step s s' ∧ Inv s' ∧ rank s' < rank s) {s : α} (h : Inv s) :
    ∃ s', Relation.ReflTransGen step s s' ∧ Ended s' := by
  induction hn : rank s using Nat.strongRecOn generalizing s with
  | _ n ih =>
    by_cases ended : Ended s
    · exact ⟨s, .refl, ended⟩
    · obtain ⟨s', steps, kept, less⟩ := moves s h ended
      obtain ⟨s'', steps', ended⟩ := ih (rank s') (hn ▸ less) kept rfl
      exact ⟨s'', steps.trans steps', ended⟩

namespace Plan

variable {p : Planner} {d rest : Diff} {s : Step} {f : Fault}

/-- The entries that are still to be planned, with the removal as one for each location. -/
def remaining (d : Diff) : Nat :=
  d.onlySource.length + d.common.length + d.onlyDestination.length

theorem removal_nil (p : Planner) : removal p [] = [] := by simp [removal]

theorem removal_cons_iff {ls : List Location} {tail : List Step} :
    removal p ls = s :: tail ↔
      tail = [] ∧ ls ≠ [] ∧ p.delete = true ∧ s = attempt Command.removeOp baseFlags ls ls := by
  unfold removal
  cases p.delete <;> cases ls <;> simp [eq_comm, and_comm]

/-- A plan is its next step and the plan of what is left. -/
theorem ofDiff_of_made (h : next p d = .made s rest) :
    ofDiff p d = ⟨s :: (ofDiff p rest).steps, (ofDiff p rest).fault⟩ ∧
      remaining rest < remaining d := by
  obtain ⟨sources, destinations, pairs⟩ := d
  unfold next at h
  rcases sources with _ | ⟨l, ls⟩
  · rcases pairs with _ | ⟨pair, pairs⟩
    · rcases hremoval : removal p destinations with _ | ⟨s', tail⟩
      · simp [hremoval] at h
      · obtain ⟨rfl, hne, -, -⟩ := removal_cons_iff.mp hremoval
        simp only [hremoval, Next.made.injEq] at h
        obtain ⟨rfl, rfl⟩ := h
        have hpos := List.length_pos_iff.mpr hne
        simp [ofDiff, copyPairs, hremoval, removal_nil, remaining, hpos]
    · cases hpair : copyPair p pair with
      | error f => simp [hpair] at h
      | ok s' =>
        simp only [hpair, Next.made.injEq] at h
        obtain ⟨rfl, rfl⟩ := h
        simp [ofDiff, copyPairs, hpair, remaining]
  · simp only [Next.made.injEq] at h
    obtain ⟨rfl, rfl⟩ := h
    simp [ofDiff, remaining]

theorem ofDiff_of_failed (h : next p d = .failed f) : ofDiff p d = ⟨[], some f⟩ := by
  obtain ⟨sources, destinations, pairs⟩ := d
  unfold next at h
  rcases sources with _ | ⟨l, ls⟩
  · rcases pairs with _ | ⟨pair, pairs⟩
    · rcases hremoval : removal p destinations with _ | ⟨s', tail⟩ <;> simp [hremoval] at h
    · cases hpair : copyPair p pair with
      | ok s' => simp [hpair] at h
      | error f' =>
        obtain rfl : f' = f := by simpa [hpair] using h
        simp [ofDiff, copyPairs, hpair]
  · simp at h

theorem ofDiff_of_ended (h : next p d = .ended) : ofDiff p d = ⟨[], none⟩ := by
  obtain ⟨sources, destinations, pairs⟩ := d
  unfold next at h
  rcases sources with _ | ⟨l, ls⟩
  · rcases pairs with _ | ⟨pair, pairs⟩
    · rcases hremoval : removal p destinations with _ | ⟨s', tail⟩
      · simp [ofDiff, copyPairs, hremoval]
      · simp [hremoval] at h
    · cases hpair : copyPair p pair <;> simp [hpair] at h
  · simp at h

theorem commands_append_singleton (steps : List Step) (s : Step) :
    commands (steps ++ [s]) = commands steps ++ s.command?.toList := by
  rw [commands_append]
  cases hs : s.command? <;> simp [commands, hs]

theorem Summary.ofSteps_append_singleton (steps : List Step) (s : Step) :
    Summary.ofSteps (steps ++ [s]) = (Summary.ofSteps steps).add s := by
  simp [Summary.ofSteps]

end Plan

namespace Pool

variable {workers : Nat} {q q' : Pool}

/-- Every slot is free, in use or about to be given back. -/
def slots (q : Pool) : Nat := q.free + q.inFlight.length + q.unreleased

def Accounted (q : Pool) : Prop :=
  q.submitted.Perm (q.completed.map Prod.fst ++ q.inFlight)

theorem Step.slots_eq (step : Step workers q q') : q'.slots = q.slots := by
  cases step with
  | pick waits spare =>
    simp only [slots, inFlight, waits, List.length_append, List.length_cons, List.length_nil]
    omega
  | complete outcome runs =>
    simp only [slots, inFlight, runs, List.length_append, List.length_cons]
    omega
  | release done =>
    simp only [slots, inFlight, done]
    omega

theorem Step.length_inFlight_le (step : Step workers q q') :
    q'.inFlight.length ≤ q.inFlight.length := by
  cases step with
  | pick waits spare =>
    simp only [inFlight, waits, List.length_append, List.length_cons, List.length_nil]
    omega
  | complete outcome runs => simp [inFlight, runs]
  | release done => exact Nat.le_refl _

theorem Step.submitted_eq (step : Step workers q q') : q'.submitted = q.submitted := by
  cases step <;> rfl

theorem Step.accounted (step : Step workers q q') (h : q.Accounted) : q'.Accounted := by
  unfold Accounted at h ⊢
  rw [step.submitted_eq]
  refine h.trans (List.perm_iff_count.mpr fun c => ?_)
  cases step with
  | pick waits spare =>
    simp only [inFlight, waits, List.count_append, List.count_cons, List.count_nil]
    omega
  | complete outcome runs =>
    simp only [inFlight, runs, List.map_append, List.map_cons, List.map_nil, List.count_append,
      List.count_cons, List.count_nil]
    omega
  | release done => rfl

theorem slots_acquire (free : 0 < q.free) : q.acquire.slots + 1 = q.slots := by
  simp only [slots, acquire, inFlight]
  omega

theorem slots_submit (q : Pool) (c : Command) : (q.submit c).slots = q.slots + 1 := by
  simp only [slots, submit, inFlight, List.length_append, List.length_cons, List.length_nil]
  omega

theorem length_inFlight_le_slots (q : Pool) : q.inFlight.length ≤ q.slots :=
  Nat.le_trans (Nat.le_add_left _ _) (Nat.le_add_right _ _)

theorem accounted_submit (h : q.Accounted) (c : Command) : (q.submit c).Accounted := by
  refine (List.Perm.append_right [c] h).trans (List.perm_iff_count.mpr fun c' => ?_)
  simp only [submit, inFlight, List.count_append]
  omega

end Pool

def Reader.slots? : Reader → Option Nat
  | .reading | .holding _ | .waiting _ => some 0
  | .submitting _ => some 1
  | .draining | .raising | .finished => none

namespace Pipeline

open Handoff Plan

variable {p : Planner} {d rest : Diff} {workers : Nat} {s s' : Pipeline} {c : Command}

section Invariant

def Unclosed (s : Pipeline) : Prop := ∀ answer, (Item.closed, answer) ∉ s.exchange.answers

/-- The planner has made the steps in front of what is left, with the given commands. -/
def Made (p : Planner) (d : Diff) (s : Pipeline) (cs : List Command) (rest : Diff) : Prop :=
  ∃ steps, ofDiff p d = ⟨steps ++ (ofDiff p rest).steps, (ofDiff p rest).fault⟩ ∧
    commands steps = cs ∧ s.summary = Summary.ofSteps steps ∧ s.fault = none

/-- The planner makes no more steps. Unless the run is cancelled it has worked off its plan. -/
def Closing (p : Planner) (d : Diff) (s : Pipeline) : Prop :=
  s.exchange.accepted <+: commands (ofDiff p d).steps ∧
    (s.cancelled = false →
      s.exchange.accepted = commands (ofDiff p d).steps ∧ s.fault = (ofDiff p d).fault ∧
        s.summary = Summary.ofSteps (ofDiff p d).steps)

def Planned (p : Planner) (d : Diff) (s : Pipeline) : Prop :=
  match s.planning with
  | .thinking rest =>
      s.exchange.producer = .idle ∧ s.Unclosed ∧ Made p d s s.exchange.accepted rest
  | .offering rest =>
      ∃ c, s.exchange.producer.item? = some (.command c) ∧ s.Unclosed ∧
        Made p d s (s.exchange.accepted ++ [c]) rest
  | .leaving => s.exchange.producer = .idle ∧ s.Unclosed ∧ Closing p d s
  | .closing => s.exchange.producer.item? = some .closed ∧ s.Unclosed ∧ Closing p d s
  | .finished =>
      s.exchange.producer = .idle ∧ Closing p d s ∧
        (s.cancelled = false → (Item.closed, true) ∈ s.exchange.answers)

/-- Of the delivered commands at most the last one is not submitted. -/
def Submits (s : Pipeline) : Prop :=
  s.pool.submitted <+: s.exchange.delivered ∧
    s.exchange.delivered.length ≤ s.pool.submitted.length + 1

def Read (s : Pipeline) : Prop :=
  match s.reader with
  | .reading => s.exchange.consumer ≠ .stopped ∧ s.exchange.delivered = s.pool.submitted
  | .holding c | .waiting c | .submitting c =>
      s.exchange.consumer = .idle ∧ s.exchange.delivered = s.pool.submitted ++ [c]
  | .draining | .finished =>
      s.Submits ∧ (s.cancelled = false → s.exchange.consumer = .stopped)
  | .raising => s.Submits

structure Sound (p : Planner) (d : Diff) (workers : Nat) (s : Pipeline) : Prop where
  exchange : Exchange.Reachable s.exchange
  planned : Planned p d s
  read : s.Read
  inFlight : s.pool.inFlight.length ≤ workers
  slots : ∀ n, s.reader.slots? = some n → s.pool.slots + n = workers
  accounted : s.pool.Accounted

end Invariant

theorem sound_start (p : Planner) (d : Diff) (workers : Nat) :
    Sound p d workers (start d workers) where
  exchange := .refl
  planned := ⟨rfl, nofun, [], rfl, rfl, rfl, rfl⟩
  read := ⟨nofun, rfl⟩
  inFlight := Nat.zero_le _
  slots n hn := by
    obtain rfl : 0 = n := Option.some.inj hn
    rfl
  accounted := .refl _

section Planning

variable {step : Plan.Step} {cs : List Command}

theorem Made.note (h : Made p d s cs rest) {rest' : Diff}
    (next : Plan.next p rest = .made step rest') :
    Made p d { s with summary := s.summary.add step } (cs ++ step.command?.toList) rest' := by
  obtain ⟨steps, hplan, rfl, hsummary, hfault⟩ := h
  obtain ⟨hrest, -⟩ := ofDiff_of_made next
  refine ⟨steps ++ [step], ?_, commands_append_singleton steps step, ?_, hfault⟩
  · rw [hplan, hrest]
    simp
  · rw [Summary.ofSteps_append_singleton, ← hsummary]

theorem Made.closing (h : Made p d s s.exchange.accepted rest) {fault : Option Fault}
    (last : ofDiff p rest = ⟨[], fault⟩) : Closing p d { s with fault := fault } := by
  obtain ⟨steps, hplan, hcommands, hsummary, -⟩ := h
  rw [last, List.append_nil] at hplan
  have haccepted : s.exchange.accepted = commands (ofDiff p d).steps := by
    rw [hplan, ← hcommands]
  refine ⟨haccepted ▸ List.prefix_rfl, fun _ => ⟨haccepted, ?_, ?_⟩⟩
  · rw [hplan]
  · rw [hplan]
    exact hsummary

theorem Made.isPrefix (h : Made p d s cs rest) : cs <+: commands (ofDiff p d).steps := by
  obtain ⟨steps, hplan, rfl, -, -⟩ := h
  rw [hplan, commands_append]
  exact List.prefix_append _ _

end Planning

section Answers

variable {item : Item}

/-- The planner that holds an item is offering a command or the end. -/
theorem Planned.holding (h : Planned p d s) (holds : s.exchange.producer.item? = some item) :
    s.Unclosed ∧
      ((∃ c rest, item = .command c ∧ s.planning = .offering rest ∧
        Made p d s (s.exchange.accepted ++ [c]) rest) ∨
      (item = .closed ∧ s.planning = .closing ∧ Closing p d s)) := by
  unfold Planned at h
  split at h
  case h_2 rest hplanning =>
    obtain ⟨c, hitem, unclosed, made⟩ := h
    obtain rfl : Item.command c = item := Option.some.inj (hitem.symm.trans holds)
    exact ⟨unclosed, .inl ⟨c, rest, rfl, hplanning, made⟩⟩
  case h_4 hplanning =>
    obtain ⟨hitem, unclosed, closing⟩ := h
    obtain rfl : Item.closed = item := Option.some.inj (hitem.symm.trans holds)
    exact ⟨unclosed, .inr ⟨rfl, hplanning, closing⟩⟩
  all_goals simp [h.1, Producer.item?] at holds

theorem Planned.handle (h : Planned p d s) (holds : s.exchange.producer.item? = some item)
    {producer : Producer} (same : producer.item? = some item) :
    Planned p d { s with exchange := { s.exchange with producer := producer } } := by
  obtain ⟨unclosed, ⟨c, rest, rfl, hplanning, made⟩ | ⟨rfl, hplanning, closing⟩⟩ := h.holding holds
  · simp only [Planned, hplanning]
    exact ⟨c, same, unclosed, made⟩
  · simp only [Planned, hplanning]
    exact ⟨same, unclosed, closing⟩

theorem accepted_answer (e : Exchange) (hand : State) (producer : Producer) (answer : Item × Bool) :
    Exchange.accepted { e with
      hand := hand, producer := producer, answers := e.answers ++ [answer] } =
      e.accepted ++ [answer].filterMap Exchange.acceptedCommand :=
  List.filterMap_append

theorem Unclosed.command (h : s.Unclosed) (c : Command) (answer answer' : Bool) :
    (Item.closed, answer') ∉ s.exchange.answers ++ [(Item.command c, answer)] := by
  simpa using h answer'

theorem Planned.place (h : Planned p d s) (holds : s.exchange.producer.item? = some item) :
    Planned p d { s with
      planning := s.planning.answered true
      exchange := { s.exchange with
        hand := { s.exchange.hand with waiting := some item }
        producer := .idle
        answers := s.exchange.answers ++ [(item, true)] } } := by
  obtain ⟨unclosed, ⟨c, rest, rfl, hplanning, made⟩ | ⟨rfl, hplanning, closing⟩⟩ := h.holding holds
  · simp only [Planned, hplanning, Planning.answered]
    refine ⟨trivial, unclosed.command c true, ?_⟩
    rw [accepted_answer, Exchange.filterMap_answered_yes]
    exact made
  · simp only [Planned, hplanning, Planning.answered]
    refine ⟨trivial, ?_, fun _ => by simp⟩
    unfold Closing
    rw [accepted_answer, Exchange.filterMap_answered_yes, Exchange.queued_closed, List.append_nil]
    exact closing

theorem Planned.refuse (h : Planned p d s) (holds : s.exchange.producer.item? = some item)
    (cancelled : s.cancelled = true) :
    Planned p d { s with
      planning := s.planning.answered false
      exchange := { s.exchange with
        producer := .idle
        answers := s.exchange.answers ++ [(item, false)] } } := by
  have accepted := accepted_answer s.exchange s.exchange.hand .idle (item, false)
  rw [Exchange.filterMap_answered_no, List.append_nil] at accepted
  -- Behind a refusal the run is cancelled, so no more than a prefix of the plan is promised.
  have running : s.cancelled ≠ false := by simp [cancelled]
  obtain ⟨unclosed, ⟨c, rest, rfl, hplanning, made⟩ | ⟨rfl, hplanning, closing⟩⟩ := h.holding holds
  · simp only [Planned, hplanning, Planning.answered]
    refine ⟨trivial, unclosed.command c false, ?_, fun h => absurd h running⟩
    rw [accepted]
    exact (List.prefix_append _ _).trans made.isPrefix
  · simp only [Planned, hplanning, Planning.answered]
    refine ⟨trivial, ⟨?_, fun h => absurd h running⟩, fun h => absurd h running⟩
    rw [accepted]
    exact closing.1

end Answers

theorem Planned.cancel (h : Planned p d s) : Planned p d s.cancel := by
  have closes (closing : Closing p d s) : Closing p d s.cancel := ⟨closing.1, nofun⟩
  obtain ⟨exchange, planning, summary, fault, reader, pool⟩ := s
  cases planning with
  | thinking rest => exact h
  | offering rest => exact h
  | leaving => exact ⟨h.1, h.2.1, closes h.2.2⟩
  | closing => exact ⟨h.1, h.2.1, closes h.2.2⟩
  | finished => exact ⟨h.1, closes h.2.1, nofun⟩

section Reading

theorem submits_of_eq (h : s.exchange.delivered = s.pool.submitted) : s.Submits := by
  simp [Submits, h]

theorem submits_of_held (h : s.exchange.delivered = s.pool.submitted ++ [c]) : s.Submits := by
  simp [Submits, h]

theorem Read.submits (h : s.Read) : s.Submits := by
  unfold Read at h
  split at h
  case h_1 => exact submits_of_eq h.2
  case h_2 => exact submits_of_held h.2
  case h_3 => exact submits_of_held h.2
  case h_4 => exact submits_of_held h.2
  case h_5 => exact h.1
  case h_6 => exact h.1
  case h_7 => exact h

theorem Read.work (h : s.Read) {q : Pool} (same : q.submitted = s.pool.submitted) :
    Read { s with pool := q } := by
  obtain ⟨exchange, planning, summary, fault, reader, pool⟩ := s
  unfold Read Submits at *
  cases reader <;> simp only [same] <;> exact h

theorem Read.cancel (h : s.Read) : s.cancel.Read := by
  obtain ⟨exchange, planning, summary, fault, reader, pool⟩ := s
  cases reader with
  | draining => exact ⟨h.1, nofun⟩
  | finished => exact ⟨h.1, nofun⟩
  | _ => exact h

end Reading

theorem Step.sound (step : Step p workers s s') (h : Sound p d workers s) :
    Sound p d workers s' := by
  have planned := h.planned
  have read := h.read
  unfold Planned at planned
  unfold Read at read
  cases step with
  | note thinks next silent =>
    rw [thinks] at planned
    obtain ⟨idle, unclosed, made⟩ := planned
    have made' := made.note next
    rw [silent, Option.toList_none, List.append_nil] at made'
    exact { h with planned := ⟨idle, unclosed, made'⟩ }
  | offer thinks next =>
    rw [thinks] at planned
    obtain ⟨idle, unclosed, made⟩ := planned
    exact { h with
      exchange := h.exchange.tail (.put _ idle unclosed)
      planned := ⟨_, rfl, unclosed, made.note next⟩ }
  | fail thinks next =>
    rw [thinks] at planned
    obtain ⟨idle, unclosed, made⟩ := planned
    exact { h with planned := ⟨idle, unclosed, made.closing (ofDiff_of_failed next)⟩ }
  | exhaust thinks next =>
    rw [thinks] at planned
    obtain ⟨idle, unclosed, made⟩ := planned
    have closing := made.closing (ofDiff_of_ended next)
    obtain ⟨-, -, -, -, hfault⟩ := made
    rw [← hfault] at closing
    exact { h with planned := ⟨idle, unclosed, closing⟩ }
  | close leaves =>
    rw [leaves] at planned
    obtain ⟨idle, unclosed, closing⟩ := planned
    exact { h with
      exchange := h.exchange.tail (.close idle)
      planned := ⟨rfl, unclosed, closing⟩ }
  | @proceed item holds running =>
    exact { h with
      exchange := h.exchange.tail (.proceed holds running)
      planned := h.planned.handle (holds ▸ rfl : s.exchange.producer.item? = some item) rfl }
  | @retry item holds taken =>
    exact { h with
      exchange := h.exchange.tail (.retry holds taken)
      planned := h.planned.handle (holds ▸ rfl : s.exchange.producer.item? = some item) rfl }
  | place holds free =>
    exact { h with
      exchange := h.exchange.tail (.place holds free)
      planned := h.planned.place (by rw [holds]; rfl) }
  | refuse holds cancelled =>
    exact { h with
      exchange := h.exchange.tail (.refuse holds cancelled)
      planned := h.planned.refuse (by rw [holds]; rfl) cancelled }
  | next reads idle =>
    rw [reads] at read
    exact { h with
      exchange := h.exchange.tail (.next idle)
      read := by
        unfold Read
        simp only [reads]
        exact ⟨nofun, read.2⟩ }
  | deliver reads taking waits => 
    rw [reads] at read
    exact { h with
      exchange := h.exchange.tail (.deliver taking waits)
      read := ⟨rfl, by rw [read.2]⟩
      slots := fun n hn => h.slots n (reads ▸ hn) }
  | finish reads taking waits =>
    rw [reads] at read
    exact { h with
      exchange := h.exchange.tail (.finish taking waits)
      read := ⟨⟨read.2 ▸ List.prefix_rfl, by simp [read.2]⟩, fun _ => rfl⟩
      slots := nofun }
  | miss reads taking free =>
    rw [reads] at read
    exact { h with
      exchange := h.exchange.tail (.miss taking free)
      read := by simpa [Read, reads] using read.2 }
  | resume reads checks running =>
    rw [reads] at read
    exact { h with
      exchange := h.exchange.tail (.resume checks running)
      read := by simpa [Read, reads] using read.2 }
  | giveUp reads checks cancelled =>
    rw [reads] at read
    exact { h with
      exchange := h.exchange.tail (.giveUp checks cancelled)
      read := ⟨submits_of_eq read.2, fun _ => rfl⟩
      slots := nofun }
  | abandon holds cancelled =>
    exact { h with
      read := ⟨h.read.submits, fun running => nomatch cancelled.symm.trans running⟩
      slots := nofun }
  | keep holds running =>
    rw [holds] at read
    exact { h with
      read := read
      slots := fun n hn => h.slots n (holds ▸ hn) }
  | acquire waits free =>
    rw [waits] at read
    have slots : s.pool.slots = workers := h.slots 0 (by rw [waits]; rfl)
    exact { h with
      read := read
      slots := fun n hn => by
        obtain rfl : 1 = n := Option.some.inj hn
        exact (Pool.slots_acquire free).trans slots }
  | @submit c submits =>
    rw [submits] at read
    have slots : (s.pool.submit c).slots = workers :=
      (Pool.slots_submit s.pool c).trans (h.slots 1 (by rw [submits]; rfl))
    exact { h with
      read := ⟨by simp [read.1], read.2⟩
      inFlight := slots ▸ Pool.length_inFlight_le_slots _
      slots := fun n hn => by
        obtain rfl : 0 = n := Option.some.inj hn
        exact slots
      accounted := Pool.accounted_submit h.accounted c }
  | drained drains idle =>
    rw [drains] at read
    exact { h with
      read := read
      slots := nofun }
  | recover raises =>
    exact { h with
      exchange := h.exchange.tail .cancel
      planned := h.planned.cancel
      read := ⟨h.read.submits, nofun⟩
      slots := nofun }
  | work step =>
    exact { h with
      read := h.read.work step.submitted_eq
      inFlight := Nat.le_trans step.length_inFlight_le h.inFlight
      slots := fun n hn => step.slots_eq ▸ h.slots n hn
      accounted := step.accounted h.accounted }

theorem Disturbance.sound (step : Disturbance s s') (h : Sound p d workers s) :
    Sound p d workers s' := by
  cases step with
  | cancel =>
    exact { h with
      exchange := h.exchange.tail .cancel
      planned := h.planned.cancel
      read := h.read.cancel }
  | interrupt active =>
    exact { h with
      read := h.read.submits
      slots := nofun }

/-- In every state that a run can come to, whatever its parties do and whatever disturbs them. -/
theorem Reachable.sound (h : Reachable p d workers s) : Sound p d workers s := by
  induction h with
  | refl => exact sound_start p d workers
  | tail _ step ih =>
    rcases step with step | disturbance
    · exact step.sound ih
    · exact disturbance.sound ih

theorem Reachable.trans (h : Reachable p d workers s) (steps : Steps p workers s s') :
    Reachable p d workers s' :=
  Relation.ReflTransGen.trans h (Relation.ReflTransGen.mono (fun _ _ => Or.inl) _ _ steps)

theorem Planned.accepted_isPrefix (h : Planned p d s) :
    s.exchange.accepted <+: commands (ofDiff p d).steps := by
  obtain ⟨exchange, planning, summary, fault, reader, pool⟩ := s
  cases planning with
  | thinking rest => exact h.2.2.isPrefix
  | offering rest =>
    obtain ⟨c, -, -, made⟩ := h
    exact (List.prefix_append _ _).trans made.isPrefix
  | leaving => exact h.2.2.1
  | closing => exact h.2.2.1
  | finished => exact h.2.1.1

/-! ### The lead of the planner -/

/-- The reader submits the plan in order, every command of it at most once, and never has more
than `workers` of them in flight, whether they fail or not. The planner is ahead of the completed
commands by those in flight, the one that the reader holds and the one that waits. -/
theorem lead_bounded (h : Reachable p d workers s) :
    s.pool.submitted <+: commands (ofDiff p d).steps ∧
    s.pool.submitted.Perm (s.pool.completed.map Prod.fst ++ s.pool.inFlight) ∧
    s.pool.inFlight.length ≤ workers ∧
    s.exchange.accepted.length ≤ s.pool.completed.length + workers + 2 := by
  have sound := h.sound
  obtain ⟨isPrefix, held⟩ := sound.read.submits
  have flow := sound.exchange.sound.flow
  have delivered : s.exchange.delivered <+: s.exchange.accepted := ⟨_, flow.symm⟩
  refine ⟨(isPrefix.trans delivered).trans sound.planned.accepted_isPrefix, sound.accounted,
    sound.inFlight, ?_⟩
  have waits := Exchange.length_queued_le s.exchange.hand.waiting
  have submitted := sound.accounted.length_eq
  have inFlight := sound.inFlight
  rw [List.length_append, List.length_map] at submitted
  rw [flow, List.length_append]
  omega

section HandOver

variable {rest' : Diff}

/-- A command that is made while the place is free comes to wait there. -/
theorem steps_emit (thinks : s.planning = .thinking rest)
    (next : Plan.next p rest = .made (.emit c) rest') (running : s.cancelled = false)
    (free : s.exchange.hand.waiting = none) :
    Steps p workers s { s with
      planning := .thinking rest'
      summary := s.summary.add (.emit c)
      exchange := { s.exchange with
        hand := { s.exchange.hand with waiting := some (.command c) }
        producer := .idle
        answers := s.exchange.answers ++ [(.command c, true)] } } := by
  have offered : Steps p workers s _ := Relation.ReflTransGen.single (.offer thinks next)
  have proceeded := offered.tail (.proceed rfl running)
  exact proceeded.tail (.place rfl free)

theorem steps_receive (reads : s.reader = .reading) (idle : s.exchange.consumer = .idle)
    (waits : s.exchange.hand.waiting = some (.command c)) :
    Steps p workers s { s with
      reader := .holding c
      exchange := { s.exchange with
        hand := { s.exchange.hand with waiting := none }
        consumer := .idle
        delivered := s.exchange.delivered ++ [c] } } := by
  have asked : Steps p workers s _ := Relation.ReflTransGen.single (.next reads idle)
  exact asked.tail (.deliver reads rfl waits)

theorem steps_submit (holds : s.reader = .holding c) (running : s.cancelled = false)
    (free : 0 < s.pool.free) :
    Steps p workers s { s with reader := .reading, pool := s.pool.acquire.submit c } := by
  have kept : Steps p workers s _ := Relation.ReflTransGen.single (.keep holds running)
  have acquired := kept.tail (.acquire rfl free)
  exact acquired.tail (.submit rfl)

end HandOver

def threeFiles : Diff := ⟨["a", "b", "c"].map fun name => (Diff.fileAt name 1).location, [], []⟩

def copyOf (name : String) : Command :=
  ⟨Command.copyOp, [(Diff.fileAt name 1).location, ⟨"s3", "b", name, true, none⟩], baseFlags⟩

/-- One worker is busy with the first command, the reader holds the second one and the third one
waits. -/
def crowded : Pipeline where
  exchange :=
    ⟨⟨some (.command (copyOf "c")), false⟩, .idle, .idle,
      ["a", "b", "c"].map fun name => (.command (copyOf name), true), [copyOf "a", copyOf "b"]⟩
  planning := .thinking ⟨[], [], []⟩
  summary := ⟨3, 0, 0, 0⟩
  fault := none
  reader := .holding (copyOf "b")
  pool := ⟨0, [copyOf "a"], [copyOf "a"], [], [], 0⟩

theorem reachable_crowded : Reachable deleting threeFiles 1 crowded := by
  have emitted : Steps deleting 1 (start threeFiles 1) _ :=
    steps_emit (c := copyOf "a") rfl rfl rfl rfl
  have received := emitted.trans (steps_receive rfl rfl rfl)
  have submitted := received.trans (steps_submit rfl rfl Nat.one_pos)
  have next := submitted.trans (steps_emit (c := copyOf "b") rfl rfl rfl rfl)
  have held := next.trans (steps_receive rfl rfl rfl)
  exact Reachable.trans .refl (held.trans (steps_emit (c := copyOf "c") rfl rfl rfl rfl))

/-- The bound is met: one worker, nothing completed, and three commands accepted. -/
theorem lead_bounded_crowded : Reachable deleting threeFiles 1 crowded ∧
    crowded.pool.submitted <+: commands (ofDiff deleting threeFiles).steps ∧
    crowded.pool.inFlight.length = 1 ∧
    crowded.exchange.accepted.length = crowded.pool.completed.length + 1 + 2 ∧
    crowded.exchange.accepted.length ≤ crowded.pool.completed.length + 1 + 2 := by
  obtain ⟨isPrefix, -, -, lead⟩ := lead_bounded reachable_crowded
  exact ⟨reachable_crowded, isPrefix, rfl, rfl, lead⟩

end Pipeline

end StoreSync
