import StoreSync.Fault
import StoreSync.Notice

/-!
The ledger of faults that a run reports. Faults are kept in order and reported one by one.
The first shortage of file descriptors is fatal: it cancels the run, and what comes later is
left out. Cancellations are left out as well.
-/
namespace StoreSync

structure Ledger where
  kept : List Fault
  fatal : Option Fault

namespace Ledger

def empty : Ledger := ⟨[], none⟩

def cancelled (l : Ledger) : Bool := l.fatal.isSome

inductive Verdict where
  | discarded
  | fatal
  | ignored
  | kept
  deriving DecidableEq

def judge (l : Ledger) (f : Fault) : Verdict :=
  if l.fatal.isSome then .discarded
  else if f.isDescriptorShortage then .fatal
  else if f.isCancellation then .ignored
  else .kept

def record (l : Ledger) (f : Fault) : Ledger :=
  match l.judge f with
  | .fatal => { l with fatal := some f }
  | .kept => { l with kept := l.kept ++ [f] }
  | _ => l

def shortageAdvice : String :=
  "bucketsync is hitting the max open file limit allowed by your OS. " ++
    "Either increase the open file limit or try to decrease the number of workers " ++
    "with the '--workers' option."

/-- A fault of a command names its own command; any other is reported under the run's command. -/
def report (command : String) : Fault → Notice
  | .execution c cause => .error (Fault.execution c cause).message
  | f => .commandError command f.message

def notices (l : Ledger) (command : String) (f : Fault) : List Notice :=
  match l.judge f with
  | .fatal => [.warning shortageAdvice, .error f.message]
  | .kept => [report command f]
  | _ => []

def journal (l : Ledger) (f : Fault) : List String :=
  match l.judge f with
  | .discarded => ["Discarding error after fatal error: " ++ f.message]
  | .ignored => ["Ignoring cancellation: " ++ f.message]
  | _ => []

def ofFaults (faults : List Fault) : Ledger := faults.foldl record empty

def combined? (l : Ledger) : Option Fault := Fault.combine? l.kept

end Ledger

end StoreSync
