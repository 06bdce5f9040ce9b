import StoreSync.Execution
import StoreSync.Pipeline

/-!
The reader and the workers of a run over any commands, step by step. The reader takes the commands
and submits each of them once a slot is free. A worker looks at its command, has a client answer
the call, and enters what came of it into the books that all workers share: the counts are changed
by one step, a failure is counted first and reported after that. `Execution.run` is what a worker
does when no other one comes between its steps.
-/
namespace StoreSync

namespace Execution

def resolve (c : Command) : Except Fault (Operation × Call) :=
  match operation? c with
  | none => .error (unknownOperation c.op)
  | some op =>
      match call c op with
      | .error f => .error f
      | .ok request => .ok (op, request)

def request? (c : Command) : Option Call :=
  match resolve c with
  | .error _ => none
  | .ok (_, request) => some request

end Execution

/-- What the workers of a run share. A report names the command that failed and the cause. -/
structure Books where
  stats : Execution.Stats
  calls : List Call
  reports : List (Command × Fault)

/-- Where a worker stands with its command: about to look at it, with the answer to it, with a
failure that is counted and not reported yet, or done. An answer is what the call returned or
raised. -/
inductive TaskStage where
  | starting
  | answered (outcome : Except Fault Int)
  | reporting (f : Fault)
  | done (outcome : Except Fault Int)

structure Task where
  command : Command
  stage : TaskStage

namespace Task

open Execution

/-- What a worker does next. A client may answer in any way. -/
inductive Step : Books → Task → Books → Task → Prop
  | refuse {b : Books} {c : Command} {f : Fault} (refused : resolve c = .error f) :
      Step b ⟨c, .starting⟩ b ⟨c, .answered (.error f)⟩
  | ask {b : Books} {c : Command} {op : Operation} {request : Call}
      (outcome : Except Fault Int) (resolved : resolve c = .ok (op, request)) :
      Step b ⟨c, .starting⟩ { b with calls := b.calls ++ [request] } ⟨c, .answered outcome⟩
  | count {b : Books} {c : Command} {op : Operation} {request : Call} {n : Int}
      (resolved : resolve c = .ok (op, request)) :
      Step b ⟨c, .answered (.ok n)⟩ { b with stats := countDone b.stats op n } ⟨c, .done (.ok n)⟩
  | miss {b : Books} {c : Command} {f : Fault} (caught : f.isInterruption = false) :
      Step b ⟨c, .answered (.error f)⟩ { b with stats := b.stats.addFailure } ⟨c, .reporting f⟩
  /-- An interruption leaves the worker without a trace. -/
  | pass {b : Books} {c : Command} {f : Fault} (interrupted : f.isInterruption = true) :
      Step b ⟨c, .answered (.error f)⟩ b ⟨c, .done (.error f)⟩
  | report {b : Books} {c : Command} {f : Fault} :
      Step b ⟨c, .reporting f⟩ { b with reports := b.reports ++ [(c, f)] } ⟨c, .done (.error f)⟩

end Task

structure Crew where
  /-- The commands that the reader has not taken. -/
  pending : List Command
  reader : Reader
  free : Nat
  submitted : List Command
  queued : List Command
  tasks : List Task
  completed : List (Command × Except Fault Int)
  /-- The number of completed commands whose slots are still taken. -/
  unreleased : Nat
  cancelled : Bool
  books : Books

namespace Crew

def start (commands : List Command) (workers : Nat) : Crew :=
  ⟨commands, .reading, workers, [], [], [], [], 0, false, ⟨.zero, [], []⟩⟩

def cancel (s : Crew) : Crew := { s with cancelled := true }

/-- What the reader or a worker does next. The stream of commands may end early once the run is
cancelled. -/
inductive Step (workers : Nat) : Crew → Crew → Prop
  | take {s : Crew} {c : Command} {rest : List Command} (reads : s.reader = .reading)
      (next : s.pending = c :: rest) :
      Step workers s { s with pending := rest, reader := .holding c }
  | exhaust {s : Crew} (reads : s.reader = .reading) (next : s.pending = []) :
      Step workers s { s with reader := .draining }
  | giveUp {s : Crew} (reads : s.reader = .reading) (cancelled : s.cancelled = true) :
      Step workers s { s with reader := .draining }
  | abandon {s : Crew} {c : Command} (holds : s.reader = .holding c)
      (cancelled : s.cancelled = true) : Step workers s { s with reader := .draining }
  | keep {s : Crew} {c : Command} (holds : s.reader = .holding c)
      (running : s.cancelled = false) : Step workers s { s with reader := .waiting c }
  | acquire {s : Crew} {c : Command} (waits : s.reader = .waiting c) (free : 0 < s.free) :
      Step workers s { s with reader := .submitting c, free := s.free - 1 }
  | submit {s : Crew} {c : Command} (submits : s.reader = .submitting c) :
      Step workers s { s with
        reader := .reading
        submitted := s.submitted ++ [c]
        queued := s.queued ++ [c] }
  | drained {s : Crew} (drains : s.reader = .draining) (empty : s.queued = [])
      (idle : s.tasks = []) : Step workers s { s with reader := .finished }
  | pick {s : Crew} {c : Command} {rest : List Command} (waits : s.queued = c :: rest)
      (spare : s.tasks.length < workers) :
      Step workers s { s with queued := rest, tasks := s.tasks ++ [⟨c, .starting⟩] }
  | work {s : Crew} {before after : List Task} {t t' : Task} {b : Books}
      (runs : s.tasks = before ++ t :: after) (step : Task.Step s.books t b t') :
      Step workers s { s with tasks := before ++ t' :: after, books := b }
  | complete {s : Crew} {before after : List Task} {c : Command} {outcome : Except Fault Int}
      (runs : s.tasks = before ++ ⟨c, .done outcome⟩ :: after) :
      Step workers s { s with
        tasks := before ++ after
        completed := s.completed ++ [(c, outcome)]
        unreleased := s.unreleased + 1 }
  | release {s : Crew} {n : Nat} (done : s.unreleased = n + 1) :
      Step workers s { s with free := s.free + 1, unreleased := n }

abbrev Steps (workers : Nat) : Crew → Crew → Prop := Relation.ReflTransGen (Step workers)

def Reachable (commands : List Command) (workers : Nat) (s : Crew) : Prop :=
  Relation.ReflTransGen (fun s s' => Step workers s s' ∨ s' = s.cancel) (start commands workers) s

end Crew

end StoreSync
