import StoreSync.Crew
import StoreSync.Ledger

/-!
The collection of faults while a run goes on, step by step. Whoever meets a fault puts it into a
queue and goes on. One party, the desk, takes the faults out one by one, tells them and enters them
into the ledger; a shortage of file descriptors makes it cancel the run. Who closes the collection
puts a last word into the queue and waits until the desk has come to it. `Ledger.record` and
`Ledger.notices` are what the desk does with one fault.
-/
namespace StoreSync

/-- What waits in the queue of a desk. The last word says that no more faults follow. -/
inductive Letter where
  | fault (f : Fault)
  | lastWord

/-- Where the desk stands: idle, about to judge a fault, telling what is left to tell of it, about
to cancel the run, or done. -/
inductive Handling where
  | waiting
  | judging (f : Fault)
  | telling (f : Fault) (left : List Notice)
  | cancelling
  | finished

structure Desk where
  queue : List Letter
  handling : Handling
  ledger : Ledger
  /-- What was told, in order. -/
  told : List Notice
  /-- Whether the desk has cancelled the run. -/
  cancelled : Bool
  /-- The faults that the desk is done with. -/
  handled : List Fault

namespace Desk

def start : Desk := ⟨[], .waiting, .empty, [], false, []⟩

def post (d : Desk) (letters : List Letter) : Desk := { d with queue := d.queue ++ letters }

def afterEntry (l : Ledger) (f : Fault) : Handling :=
  if l.judge f = .fatal then .cancelling else .waiting

/-- What the desk does next. `command` is the one that the run reports under. -/
inductive Step (command : String) : Desk → Desk → Prop
  | take {d : Desk} {f : Fault} {rest : List Letter} (waits : d.handling = .waiting)
      (next : d.queue = .fault f :: rest) :
      Step command d { d with queue := rest, handling := .judging f }
  | stop {d : Desk} {rest : List Letter} (waits : d.handling = .waiting)
      (next : d.queue = .lastWord :: rest) :
      Step command d { d with queue := rest, handling := .finished }
  | judge {d : Desk} {f : Fault} (judges : d.handling = .judging f) :
      Step command d { d with handling := .telling f (d.ledger.notices command f) }
  | tell {d : Desk} {f : Fault} {n : Notice} {left : List Notice}
      (tells : d.handling = .telling f (n :: left)) :
      Step command d { d with told := d.told ++ [n], handling := .telling f left }
  | enter {d : Desk} {f : Fault} (tells : d.handling = .telling f []) :
      Step command d { d with
        ledger := d.ledger.record f
        handled := d.handled ++ [f]
        handling := afterEntry d.ledger f }
  | cancel {d : Desk} (cancels : d.handling = .cancelling) :
      Step command d { d with cancelled := true, handling := .waiting }

end Desk

/-- Where the party stands that closes a collection. It gets the kept faults as one. -/
inductive Closing where
  | opened
  | waiting
  | returned (result : Option Fault)

structure Collection where
  desk : Desk
  /-- What each of the parties is still going to report. -/
  reporters : List (List Fault)
  closing : Closing
  /-- The faults that were reported, in the order of the queue. -/
  reported : List Fault

namespace Collection

def start (plans : List (List Fault)) : Collection := ⟨.start, plans, .opened, []⟩

/-- What any of the parties does next. The collection is closed when all reports were made. -/
inductive Step (command : String) : Collection → Collection → Prop
  | report {s : Collection} {before after : List (List Fault)} {f : Fault} {rest : List Fault}
      (reports : s.reporters = before ++ (f :: rest) :: after) :
      Step command s { s with
        desk := s.desk.post [.fault f]
        reporters := before ++ rest :: after
        reported := s.reported ++ [f] }
  | handle {s : Collection} {d : Desk} (step : Desk.Step command s.desk d) :
      Step command s { s with desk := d }
  | close {s : Collection} (opened : s.closing = .opened)
      (silent : ∀ plan ∈ s.reporters, plan = []) :
      Step command s { s with desk := s.desk.post [.lastWord], closing := .waiting }
  | join {s : Collection} (waits : s.closing = .waiting) (done : s.desk.handling = .finished) :
      Step command s { s with closing := .returned s.desk.ledger.combined? }

abbrev Steps (command : String) : Collection → Collection → Prop :=
  Relation.ReflTransGen (Step command)

end Collection

/-- Where the main party of a run stands: it has the crew at work, waits for the planner, is about
to close the collection, waits for the desk, or is done. -/
inductive Concluding where
  | executing
  | joining
  | closing
  | waiting
  | returned (result : Option Fault)

structure Session where
  crew : Crew
  /-- The fault that ended the planner, once it has ended. -/
  planner : Option (Option Fault)
  desk : Desk
  main : Concluding
  /-- The faults that were reported, in the order of the queue. -/
  reported : List Fault

namespace Session

def start (commands : List Command) (workers : Nat) : Session :=
  ⟨.start commands workers, none, .start, .executing, []⟩

def newFaults (before after : Crew) : List Fault :=
  (after.books.reports.drop before.books.reports.length).map fun x => .execution x.1.text x.2

def report (s : Session) (faults : List Fault) : Session :=
  { s with desk := s.desk.post (faults.map .fault), reported := s.reported ++ faults }

/-- What any of the parties does next. An exception in the loop of the reader ends this loop, but
the workers are waited for. -/
inductive Step (command : String) (workers : Nat) : Session → Session → Prop
  | work {s : Session} {crew : Crew} (step : Crew.Step workers s.crew crew) :
      Step command workers s { s.report (newFaults s.crew crew) with crew := crew }
  | raise {s : Session} (loops : s.crew.reader ≠ .finished) :
      Step command workers s { s with crew := { s.crew with reader := .draining } }
  | cancel {s : Session} : Step command workers s { s with crew := s.crew.cancel }
  | plan {s : Session} (fault : Option Fault) (plans : s.planner = none) :
      Step command workers s { s with planner := some fault }
  | handle {s : Session} {d : Desk} (step : Desk.Step command s.desk d) :
      Step command workers s { s with
        desk := d
        crew := if d.cancelled then s.crew.cancel else s.crew }
  | executed {s : Session} (executes : s.main = .executing)
      (finished : s.crew.reader = .finished) : Step command workers s { s with main := .joining }
  | joined {s : Session} {fault : Option Fault} (joins : s.main = .joining)
      (planned : s.planner = some fault) :
      Step command workers s { s.report fault.toList with main := .closing }
  | close {s : Session} (closes : s.main = .closing) :
      Step command workers s { s with desk := s.desk.post [.lastWord], main := .waiting }
  | join {s : Session} (waits : s.main = .waiting) (done : s.desk.handling = .finished) :
      Step command workers s { s with main := .returned s.desk.ledger.combined? }

def Reachable (command : String) (commands : List Command) (workers : Nat) (s : Session) : Prop :=
  Relation.ReflTransGen (Step command workers) (start commands workers) s

end Session

end StoreSync
