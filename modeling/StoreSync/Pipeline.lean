import StoreSync.Exchange
import StoreSync.Plan

/-!
The parties of a run side by side, step by step. A planner makes the steps of its plan one at a
time and hands each command over; a reader takes the commands and submits them to a pool of
workers, each once a slot is free; the workers carry them out in any order and may fail. A step of
one party looks at or changes what is shared once. From outside come the cancellation of the run
and an exception that takes the reader out of its loop. `Plan.ofDiff` is the plan that a planner
works off when nothing comes between its steps.
-/
namespace StoreSync

namespace Plan

/-- What planning comes to next: a step with what is left of the difference, a fault that ends
the planning, or its end. -/
inductive Next where
  | made (step : Step) (rest : Diff)
  | failed (f : Fault)
  | ended

def next (p : Planner) (d : Diff) : Next :=
  match d.onlySource, d.common with
  | l :: ls, _ => .made (copyNew p l) { d with onlySource := ls }
  | [], pair :: pairs =>
      match copyPair p pair with
      | .ok s => .made s { d with common := pairs }
      | .error f => .failed f
  | [], [] =>
      match removal p d.onlyDestination with
      | s :: _ => .made s { d with onlyDestination := [] }
      | [] => .ended

end Plan

/-- The workers and the slots that bound their work. A submitted command is queued, running or
completed; a completed one stands with the fault that it met. -/
structure Pool where
  free : Nat
  submitted : List Command
  queued : List Command
  running : List Command
  completed : List (Command × Option Fault)
  /-- The number of completed commands whose slots are still taken. -/
  unreleased : Nat

namespace Pool

def start (workers : Nat) : Pool := ⟨workers, [], [], [], [], 0⟩

def acquire (q : Pool) : Pool := { q with free := q.free - 1 }

def submit (q : Pool) (c : Command) : Pool :=
  { q with submitted := q.submitted ++ [c], queued := q.queued ++ [c] }

def inFlight (q : Pool) : List Command := q.queued ++ q.running

/-- What a worker does next. It gives the slot of a command back after the command is done. -/
inductive Step (workers : Nat) : Pool → Pool → Prop
  | pick {q : Pool} {c : Command} {rest : List Command} (waits : q.queued = c :: rest)
      (spare : q.running.length < workers) :
      Step workers q { q with queued := rest, running := q.running ++ [c] }
  | complete {q : Pool} {before after : List Command} {c : Command} (outcome : Option Fault)
      (runs : q.running = before ++ c :: after) :
      Step workers q { q with
        running := before ++ after
        completed := q.completed ++ [(c, outcome)]
        unreleased := q.unreleased + 1 }
  | release {q : Pool} {n : Nat} (done : q.unreleased = n + 1) :
      Step workers q { q with free := q.free + 1, unreleased := n }

end Pool

/-- Where the planner stands: about to make the next step, with a command on offer, out of its
loop, with the end on offer, or done. -/
inductive Planning where
  | thinking (rest : Diff)
  | offering (rest : Diff)
  | leaving
  | closing
  | finished

def Planning.answered : Planning → Bool → Planning
  | .offering rest, true => .thinking rest
  | .offering _, false => .leaving
  | _, _ => .finished

/-- Where the reader stands: in its loop it asks for a command, holds one, waits for a slot or has
one. Behind the loop it waits for the workers; an exception takes it out of there as well. -/
inductive Reader where
  | reading
  | holding (c : Command)
  | waiting (c : Command)
  | submitting (c : Command)
  | draining
  | raising
  | finished
  deriving DecidableEq

structure Pipeline where
  exchange : Handoff.Exchange
  planning : Planning
  summary : Plan.Summary
  /-- The fault that ended the planning. -/
  fault : Option Fault
  reader : Reader
  pool : Pool

namespace Pipeline

open Handoff

def start (d : Diff) (workers : Nat) : Pipeline :=
  ⟨Exchange.start, .thinking d, Plan.Summary.zero, none, .reading, Pool.start workers⟩

def cancelled (s : Pipeline) : Bool := s.exchange.hand.cancelled

def cancel (s : Pipeline) : Pipeline :=
  { s with exchange := { s.exchange with hand := Handoff.cancel s.exchange.hand } }

/-- What any of the parties does next. The steps of the exchange are those of `Exchange.Step`. -/
inductive Step (p : Planner) (workers : Nat) : Pipeline → Pipeline → Prop
  | note {s : Pipeline} {rest rest' : Diff} {step : Plan.Step}
      (thinks : s.planning = .thinking rest) (next : Plan.next p rest = .made step rest')
      (silent : step.command? = none) :
      Step p workers s { s with planning := .thinking rest', summary := s.summary.add step }
  | offer {s : Pipeline} {rest rest' : Diff} {c : Command}
      (thinks : s.planning = .thinking rest) (next : Plan.next p rest = .made (.emit c) rest') :
      Step p workers s { s with
        planning := .offering rest'
        summary := s.summary.add (.emit c)
        exchange := { s.exchange with producer := .checking (.command c) } }
  | fail {s : Pipeline} {rest : Diff} {f : Fault} (thinks : s.planning = .thinking rest)
      (next : Plan.next p rest = .failed f) :
      Step p workers s { s with planning := .leaving, fault := some f }
  | exhaust {s : Pipeline} {rest : Diff} (thinks : s.planning = .thinking rest)
      (next : Plan.next p rest = .ended) :
      Step p workers s { s with planning := .leaving }
  | close {s : Pipeline} (leaves : s.planning = .leaving) :
      Step p workers s { s with
        planning := .closing
        exchange := { s.exchange with producer := .checking .closed } }
  | proceed {s : Pipeline} {item : Item} (holds : s.exchange.producer = .checking item)
      (running : s.cancelled = false) :
      Step p workers s { s with exchange := { s.exchange with producer := .placing item } }
  | retry {s : Pipeline} {item : Item} (holds : s.exchange.producer = .placing item)
      (taken : s.exchange.hand.waiting ≠ none) :
      Step p workers s { s with exchange := { s.exchange with producer := .checking item } }
  | place {s : Pipeline} {item : Item} (holds : s.exchange.producer = .placing item)
      (free : s.exchange.hand.waiting = none) :
      Step p workers s { s with
        planning := s.planning.answered true
        exchange := { s.exchange with
          hand := { s.exchange.hand with waiting := some item }
          producer := .idle
          answers := s.exchange.answers ++ [(item, true)] } }
  | refuse {s : Pipeline} {item : Item} (holds : s.exchange.producer = .checking item)
      (cancelled : s.cancelled = true) :
      Step p workers s { s with
        planning := s.planning.answered false
        exchange := { s.exchange with
          producer := .idle
          answers := s.exchange.answers ++ [(item, false)] } }
  | next {s : Pipeline} (reads : s.reader = .reading) (idle : s.exchange.consumer = .idle) :
      Step p workers s { s with exchange := { s.exchange with consumer := .taking } }
  | deliver {s : Pipeline} {c : Command} (reads : s.reader = .reading)
      (taking : s.exchange.consumer = .taking)
      (waits : s.exchange.hand.waiting = some (.command c)) :
      Step p workers s { s with
        reader := .holding c
        exchange := { s.exchange with
          hand := { s.exchange.hand with waiting := none }
          consumer := .idle
          delivered := s.exchange.delivered ++ [c] } }
  | finish {s : Pipeline} (reads : s.reader = .reading) (taking : s.exchange.consumer = .taking)
      (waits : s.exchange.hand.waiting = some .closed) :
      Step p workers s { s with
        reader := .draining
        exchange := { s.exchange with
          hand := { s.exchange.hand with waiting := none }
          consumer := .stopped } }
  | miss {s : Pipeline} (reads : s.reader = .reading) (taking : s.exchange.consumer = .taking)
      (free : s.exchange.hand.waiting = none) :
      Step p workers s { s with exchange := { s.exchange with consumer := .checking } }
  | resume {s : Pipeline} (reads : s.reader = .reading)
      (checks : s.exchange.consumer = .checking) (running : s.cancelled = false) :
      Step p workers s { s with exchange := { s.exchange with consumer := .taking } }
  | giveUp {s : Pipeline} (reads : s.reader = .reading)
      (checks : s.exchange.consumer = .checking) (cancelled : s.cancelled = true) :
      Step p workers s { s with
        reader := .draining
        exchange := { s.exchange with consumer := .stopped } }
  | abandon {s : Pipeline} {c : Command} (holds : s.reader = .holding c)
      (cancelled : s.cancelled = true) : Step p workers s { s with reader := .draining }
  | keep {s : Pipeline} {c : Command} (holds : s.reader = .holding c)
      (running : s.cancelled = false) : Step p workers s { s with reader := .waiting c }
  | acquire {s : Pipeline} {c : Command} (waits : s.reader = .waiting c)
      (free : 0 < s.pool.free) :
      Step p workers s { s with reader := .submitting c, pool := s.pool.acquire }
  | submit {s : Pipeline} {c : Command} (submits : s.reader = .submitting c) :
      Step p workers s { s with reader := .reading, pool := s.pool.submit c }
  | drained {s : Pipeline} (drains : s.reader = .draining) (idle : s.pool.inFlight = []) :
      Step p workers s { s with reader := .finished }
  /-- Whoever called the reader cancels the run before the exception goes further. -/
  | recover {s : Pipeline} (raises : s.reader = .raising) :
      Step p workers s { s.cancel with reader := .finished }
  | work {s : Pipeline} {q : Pool} (step : Pool.Step workers s.pool q) :
      Step p workers s { s with pool := q }

/-- What comes from outside: a cancellation at any time, also by whoever learns of a fault that
ends the run, and an exception in the reader. -/
inductive Disturbance : Pipeline → Pipeline → Prop
  | cancel {s : Pipeline} : Disturbance s s.cancel
  | interrupt {s : Pipeline} (active : s.reader ≠ .finished) :
      Disturbance s { s with reader := .raising }

abbrev Steps (p : Planner) (workers : Nat) : Pipeline → Pipeline → Prop :=
  Relation.ReflTransGen (Step p workers)

def Reachable (p : Planner) (d : Diff) (workers : Nat) (s : Pipeline) : Prop :=
  Relation.ReflTransGen (fun s s' => Step p workers s s' ∨ Disturbance s s') (start d workers) s

structure Ended (s : Pipeline) : Prop where
  planning : s.planning = .finished
  reader : s.reader = .finished
  pool : s.pool.inFlight = []

end Pipeline

end StoreSync
