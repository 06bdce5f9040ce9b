import Mathlib.Data.List.Basic
import StoreSync.Exchange

/-!
What a hand-over keeps under every order of steps. The commands accepted so far are the ones
delivered so far and, behind them, the one that waits (`Sound`); every step keeps that, so every
run does. A command that waits when the next one is asked for is the next one delivered, since
only a delivery empties the place.
-/
namespace StoreSync

namespace Handoff

def Producer.item? : Producer → Option Item
  | .idle => none
  | .checking item => some item
  | .placing item => some item

namespace Exchange

variable {e e' e'' : Exchange} {item : Item} {c : Command}

def queued : Option Item → List Command
  | some (.command c) => [c]
  | _ => []

@[simp] theorem queued_none : queued none = [] := rfl

@[simp] theorem queued_command (c : Command) : queued (some (.command c)) = [c] := rfl

@[simp] theorem queued_closed : queued (some .closed) = [] := rfl

theorem length_queued_le (w : Option Item) : (queued w).length ≤ 1 := by
  rcases w with _ | (_ | _) <;> simp

@[simp] theorem filterMap_answered_yes (item : Item) :
    [(item, true)].filterMap acceptedCommand = queued (some item) := by
  cases item <;> rfl

@[simp] theorem filterMap_answered_no (item : Item) :
    [(item, false)].filterMap acceptedCommand = [] := by
  cases item <;> rfl

structure Sound (e : Exchange) : Prop where
  flow : e.accepted = e.delivered ++ queued e.hand.waiting
  answered : e.hand.waiting = some .closed → (Item.closed, true) ∈ e.answers
  unclosed : ∀ c, e.producer.item? = some (.command c) → ∀ answer, (Item.closed, answer) ∉ e.answers
  refused : ∀ item, (item, false) ∈ e.answers → e.hand.cancelled = true
  stopped : e.consumer = .stopped → e.hand.cancelled = false →
    (Item.closed, true) ∈ e.answers ∧ queued e.hand.waiting = []

theorem sound_start : Sound start where
  flow := rfl
  answered := nofun
  unclosed := nofun
  refused := nofun
  stopped := nofun

theorem sound_refuse (h : Sound e) (cancelled : e.hand.cancelled = true) :
    Sound { e with producer := .idle, answers := e.answers ++ [(item, false)] } where
  flow := by simpa [accepted] using h.flow
  answered waits := List.mem_append_left _ (h.answered waits)
  unclosed := nofun
  refused _ _ := cancelled
  stopped _ running := by simp [cancelled] at running

/-- The place was free, so the item is the only one that waits; behind an accepted end the
producer has no command in hand. -/
theorem sound_place (h : Sound e) (holds : e.producer = .placing item)
    (free : e.hand.waiting = none) :
    Sound { e with
      hand := { e.hand with waiting := some item }
      producer := .idle
      answers := e.answers ++ [(item, true)] } where
  flow := by simpa [accepted, free] using h.flow
  answered waits := by simp_all
  unclosed := nofun
  refused i hi := h.refused i (by simpa using hi)
  stopped hstop running := by
    obtain ⟨closed, -⟩ := h.stopped hstop running
    refine ⟨List.mem_append_left _ closed, ?_⟩
    cases item with
    | command c => exact absurd closed (h.unclosed c (by simp [holds, Producer.item?]) true)
    | closed => rfl

theorem sound_deliver (h : Sound e)
    (waits : e.hand.waiting = some (.command c)) :
    Sound { e with
      hand := { e.hand with waiting := none }
      consumer := .idle
      delivered := e.delivered ++ [c] } where
  flow := by simpa [accepted, waits] using h.flow
  answered := nofun
  unclosed := h.unclosed
  refused := h.refused
  stopped := nofun

theorem sound_finish (h : Sound e) (waits : e.hand.waiting = some .closed) :
    Sound { e with hand := { e.hand with waiting := none }, consumer := .stopped } where
  flow := by simpa [accepted, waits] using h.flow
  answered := nofun
  unclosed := h.unclosed
  refused := h.refused
  stopped _ _ := ⟨h.answered waits, rfl⟩

theorem sound_cancel (h : Sound e) : Sound { e with hand := Handoff.cancel e.hand } where
  flow := h.flow
  answered := h.answered
  unclosed := h.unclosed
  refused _ _ := rfl
  stopped _ running := by simp [Handoff.cancel] at running

theorem Step.sound (step : Step e e') (h : Sound e) : Sound e' := by
  cases step with
  | put c idle unclosed => exact { h with unclosed := fun _ _ => unclosed }
  | close idle => exact { h with unclosed := nofun }
  | refuse holds cancelled => exact sound_refuse h cancelled
  | proceed holds running =>
      exact { h with unclosed := fun c hc => h.unclosed c (by rw [holds]; exact hc) }
  | place holds free => exact sound_place h holds free
  | retry holds taken =>
      exact { h with unclosed := fun c hc => h.unclosed c (by rw [holds]; exact hc) }
  | next idle => exact { h with stopped := nofun }
  | deliver taking waits => exact sound_deliver h waits
  | finish taking waits => exact sound_finish h waits
  | miss taking free => exact { h with stopped := nofun }
  | giveUp checks cancelled =>
      exact { h with stopped := fun _ running => by simp [cancelled] at running }
  | resume checks running => exact { h with stopped := nofun }
  | cancel => exact sound_cancel h

theorem Reachable.sound (h : Reachable e) : Sound e := by
  induction h with
  | refl => exact sound_start
  | tail _ step ih => exact step.sound ih

/-- An end that was accepted waits until the iterator stops. -/
theorem Step.end_waits (step : Step e e')
    (h : (Item.closed, true) ∈ e.answers → e.hand.waiting = some .closed ∨ e.consumer = .stopped)
    (closed : (Item.closed, true) ∈ e'.answers) :
    e'.hand.waiting = some .closed ∨ e'.consumer = .stopped := by
  cases step with
  | place holds free =>
      rcases List.mem_append.mp closed with before | now
      · exact .inr ((h before).resolve_left (by simp [free]))
      · exact .inl (by simp_all)
  | deliver taking waits => simp_all
  | finish => exact .inr rfl
  | giveUp => exact .inr rfl
  | next idle => simp_all
  | miss taking free => simp_all
  | resume checks running => simp_all
  | refuse holds cancelled => exact h (by simpa using closed)
  | _ => exact h closed

theorem Reachable.end_waits (h : Reachable e) (closed : (Item.closed, true) ∈ e.answers) :
    e.hand.waiting = some .closed ∨ e.consumer = .stopped := by
  induction h with
  | refl => simp [start] at closed
  | tail _ step ih => exact step.end_waits ih closed

/-! ### Single calls -/

/-- A put that nothing comes between does what `offer` says; one that finds the place taken is
back where it started. -/
theorem steps_offer (holds : e.producer = .checking item) :
    Steps e (e.afterOffer item (offer e.hand item)) := by
  by_cases cancelled : e.hand.cancelled = true
  · simpa [offer, cancelled, afterOffer] using
      Relation.ReflTransGen.single (Step.refuse holds cancelled)
  · have proceeds := Relation.ReflTransGen.single (Step.proceed holds (by simpa using cancelled))
    by_cases taken : e.hand.waiting.isSome = true
    · have back := proceeds.tail (Step.retry rfl (by simpa [Option.isSome_iff_ne_none] using taken))
      simpa [offer, cancelled, taken, afterOffer, ← holds] using back
    · have placed := proceeds.tail (Step.place rfl (by simpa using taken))
      simpa [offer, cancelled, taken, afterOffer] using placed

/-- A next that nothing comes between does what `take` says; one that finds nothing on a running
exchange is back where it started. -/
theorem steps_take (taking : e.consumer = .taking) : Steps e (e.afterTake (take e.hand)) := by
  rcases waits : e.hand.waiting with _ | (c | _)
  · have missed := Relation.ReflTransGen.single (Step.miss taking waits)
    by_cases cancelled : e.hand.cancelled = true
    · have gone := missed.tail (Step.giveUp rfl cancelled)
      simpa [take, waits, cancelled, afterTake] using gone
    · have back := missed.tail (Step.resume rfl (by simpa using cancelled))
      simpa [take, waits, cancelled, afterTake, ← taking] using back
  · simpa [take, waits, afterTake] using
      Relation.ReflTransGen.single (Step.deliver taking waits)
  · simpa [take, waits, afterTake] using
      Relation.ReflTransGen.single (Step.finish taking waits)

/-! ### A command that waits when the next one is asked for -/

/-- The next command is asked for and `c` waits, with `delivered` handed out before. -/
structure Due (c : Command) (delivered : List Command) (e : Exchange) : Prop where
  taking : e.consumer = .taking
  waits : e.hand.waiting = some (.command c)
  delivered_eq : e.delivered = delivered

theorem Due.delivers {ds : List Command} (h : Due c ds e) :
    ∃ e', Step e e' ∧ e'.delivered = ds ++ [c] :=
  ⟨_, .deliver h.taking h.waits, by rw [h.delivered_eq]⟩

theorem Step.delivered_prefix (step : Step e e') : e.delivered <+: e'.delivered := by
  cases step with
  | deliver => exact List.prefix_append _ _
  | _ => exact List.prefix_rfl

theorem Step.due {ds : List Command} (step : Step e e') (h : Due c ds e) :
    Due c ds e' ∨ e'.delivered = ds ++ [c] := by
  obtain ⟨taking, waits, rfl⟩ := h
  cases step with
  | place holds free => simp [free] at waits
  | next idle => simp [idle] at taking
  | @deliver c' _ waits' =>
      obtain rfl : c' = c := by simpa [waits'] using waits
      exact .inr rfl
  | finish _ waits' => simp [waits'] at waits
  | miss _ free => simp [free] at waits
  | giveUp checks => simp [checks] at taking
  | resume checks => simp [checks] at taking
  | _ => exact .inl ⟨taking, waits, rfl⟩

/-- On every path the waiting command stays the next one until it is delivered. -/
theorem Steps.due {ds : List Command} (steps : Steps e e') (h : Due c ds e) :
    Due c ds e' ∨ ds ++ [c] <+: e'.delivered := by
  induction steps with
  | refl => exact .inl h
  | tail _ step ih =>
      rcases ih with due | delivered
      · exact (step.due due).imp_right fun delivered => by simp [delivered]
      · exact .inr (delivered.trans step.delivered_prefix)

/-! ### Every run -/

theorem count_accepted_le (answers : List (Item × Bool)) (c : Command) :
    (answers.filterMap acceptedCommand).count c ≤ answers.count (.command c, true) := by
  induction answers with
  | nil => simp
  | cons a answers ih =>
      rcases a with ⟨c' | _, _ | _⟩ <;>
        simp [acceptedCommand, List.filterMap_cons, List.count_cons, ih]

/-- Under every order of steps, the delivered commands are the first of the accepted ones, with
at most one missing, and as often as a put of them was accepted; a put is refused only on a
cancelled exchange; without a cancellation the iterator stops only behind an accepted end and
with everything delivered. A command that waits when the next one is asked for stays the next
one, its delivery possible at any time and nothing else delivered before it. -/
theorem exchange_delivers (h : Reachable e) :
    e.delivered <+: e.accepted ∧
    e.accepted.length ≤ e.delivered.length + 1 ∧
    (∀ c, e.delivered.count c ≤ e.answers.count (.command c, true)) ∧
    (∀ c, (.command c, false) ∈ e.answers → e.hand.cancelled = true) ∧
    (e.consumer = .stopped → e.hand.cancelled = false →
      (.closed, true) ∈ e.answers ∧ e.delivered = e.accepted) ∧
    (∀ c, e.consumer = .idle → e.hand.waiting = some (.command c) →
      ∀ e', Steps { e with consumer := .taking } e' →
        (e'.consumer = .taking ∧ e'.hand.waiting = some (.command c) ∧
          e'.delivered = e.delivered ∧
          ∃ e'', Step e' e'' ∧ e''.delivered = e.delivered ++ [c]) ∨
        e.delivered ++ [c] <+: e'.delivered) := by
  have sound := h.sound
  have isPrefix : e.delivered <+: e.accepted := ⟨_, sound.flow.symm⟩
  refine ⟨isPrefix, ?_, ?_, fun c => sound.refused _, ?_, ?_⟩
  · have bound := length_queued_le e.hand.waiting
    rw [sound.flow, List.length_append]
    omega
  · intro c
    exact Nat.le_trans (isPrefix.sublist.count_le c) (count_accepted_le _ _)
  · intro stopped running
    obtain ⟨closed, nothing⟩ := sound.stopped stopped running
    exact ⟨closed, by simpa [nothing] using sound.flow.symm⟩
  · intro c _ waits e' steps
    have due : Due c e.delivered { e with consumer := .taking } := ⟨rfl, waits, rfl⟩
    refine (steps.due due).imp_left fun due => ?_
    exact ⟨due.taking, due.waits, due.delivered_eq, due.delivers⟩

def removal (key : String) : Command :=
  ⟨Command.removeOp, [⟨Location.remoteScheme, "b", key, true, none⟩], []⟩

/-- One command was accepted and waits when the run is cancelled; the next one is refused. -/
def heldAfterCancel : Exchange where
  hand := ⟨some (.command (removal "x")), true⟩
  producer := .idle
  consumer := .idle
  answers := [(.command (removal "x"), true), (.command (removal "y"), false)]
  delivered := []

theorem reachable_heldAfterCancel : Reachable heldAfterCancel := by
  have accepted : Reachable { start with
      hand := ⟨some (.command (removal "x")), false⟩
      answers := [(.command (removal "x"), true)] } :=
    (Relation.ReflTransGen.single (.put (removal "x") rfl nofun)).trans (steps_offer rfl)
  have asked := accepted.tail (.put (removal "y") rfl (by simp))
  exact (asked.tail .cancel).trans (steps_offer rfl)

/-- The command that waits is still handed out after the cancellation. -/
theorem exchange_delivers_held : Reachable heldAfterCancel ∧
    ∀ e', Steps { heldAfterCancel with consumer := .taking } e' →
      (e'.consumer = .taking ∧ e'.hand.waiting = some (.command (removal "x")) ∧
        e'.delivered = [] ∧ ∃ e'', Step e' e'' ∧ e''.delivered = [removal "x"]) ∨
      [removal "x"] <+: e'.delivered := by
  obtain ⟨-, -, -, -, -, next⟩ := exchange_delivers reachable_heldAfterCancel
  exact ⟨reachable_heldAfterCancel, next (removal "x") rfl rfl⟩

end Exchange

end Handoff

end StoreSync
