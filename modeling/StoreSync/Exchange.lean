import Mathlib.Logic.Relation
import StoreSync.Handoff

/-!
The two sides of a hand-over, step by step. A step looks at the shared place or at the
cancellation once; between two steps of one party the other party may do anything, and the run
may be cancelled. So an item can still be handed over after a cancellation, when the producer
had looked just before. `Handoff.offer` and `Handoff.take` are what the steps of one party
come to when nothing comes between them.
-/
namespace StoreSync

namespace Handoff

/-- Where the producer stands. With an item in hand it is about to look whether the run is
cancelled, or has seen that it is not and is about to use the place. -/
inductive Producer where
  | idle
  | checking (item : Item)
  | placing (item : Item)
  deriving DecidableEq

/-- Where the party that takes the commands stands. One that stopped does not start again. -/
inductive Consumer where
  | idle
  | taking
  | checking
  | stopped
  deriving DecidableEq

structure Exchange where
  hand : State
  producer : Producer
  consumer : Consumer
  /-- The items offered so far, each with the answer the producer got. -/
  answers : List (Item × Bool)
  delivered : List Command
  deriving DecidableEq

namespace Exchange

def start : Exchange := ⟨empty, .idle, .idle, [], []⟩

def acceptedCommand : Item × Bool → Option Command
  | (.command c, true) => some c
  | _ => none

def accepted (e : Exchange) : List Command := e.answers.filterMap acceptedCommand

/-- What any of the parties does next. The place is used and the answer given in one step:
between the two the producer looks at nothing that is shared. -/
inductive Step : Exchange → Exchange → Prop
  | put {e : Exchange} (c : Command) (idle : e.producer = .idle)
      (unclosed : ∀ answer, (Item.closed, answer) ∉ e.answers) :
      Step e { e with producer := .checking (.command c) }
  | close {e : Exchange} (idle : e.producer = .idle) :
      Step e { e with producer := .checking .closed }
  | refuse {e : Exchange} {item : Item} (holds : e.producer = .checking item)
      (cancelled : e.hand.cancelled = true) :
      Step e { e with producer := .idle, answers := e.answers ++ [(item, false)] }
  | proceed {e : Exchange} {item : Item} (holds : e.producer = .checking item)
      (running : e.hand.cancelled = false) :
      Step e { e with producer := .placing item }
  | place {e : Exchange} {item : Item} (holds : e.producer = .placing item)
      (free : e.hand.waiting = none) :
      Step e { e with
        hand := { e.hand with waiting := some item }
        producer := .idle
        answers := e.answers ++ [(item, true)] }
  | retry {e : Exchange} {item : Item} (holds : e.producer = .placing item)
      (taken : e.hand.waiting ≠ none) :
      Step e { e with producer := .checking item }
  | next {e : Exchange} (idle : e.consumer = .idle) :
      Step e { e with consumer := .taking }
  | deliver {e : Exchange} {c : Command} (taking : e.consumer = .taking)
      (waits : e.hand.waiting = some (.command c)) :
      Step e { e with
        hand := { e.hand with waiting := none }
        consumer := .idle
        delivered := e.delivered ++ [c] }
  | finish {e : Exchange} (taking : e.consumer = .taking)
      (waits : e.hand.waiting = some .closed) :
      Step e { e with hand := { e.hand with waiting := none }, consumer := .stopped }
  | miss {e : Exchange} (taking : e.consumer = .taking) (free : e.hand.waiting = none) :
      Step e { e with consumer := .checking }
  | giveUp {e : Exchange} (checks : e.consumer = .checking)
      (cancelled : e.hand.cancelled = true) :
      Step e { e with consumer := .stopped }
  | resume {e : Exchange} (checks : e.consumer = .checking)
      (running : e.hand.cancelled = false) :
      Step e { e with consumer := .taking }
  | cancel {e : Exchange} : Step e { e with hand := Handoff.cancel e.hand }

abbrev Steps : Exchange → Exchange → Prop := Relation.ReflTransGen Step

def Reachable (e : Exchange) : Prop := Steps start e

/-- A put that nothing comes between, by what the offer came to. -/
def afterOffer (e : Exchange) (item : Item) : Offer → Exchange
  | .accepted hand =>
      { e with hand := hand, producer := .idle, answers := e.answers ++ [(item, true)] }
  | .refused => { e with producer := .idle, answers := e.answers ++ [(item, false)] }
  | .waits => e

/-- A next that nothing comes between, by what the attempt to take came to. -/
def afterTake (e : Exchange) : Take → Exchange
  | .received c hand =>
      { e with hand := hand, consumer := .idle, delivered := e.delivered ++ [c] }
  | .stopped hand => { e with hand := hand, consumer := .stopped }
  | .waits => e

end Exchange

end Handoff

end StoreSync
