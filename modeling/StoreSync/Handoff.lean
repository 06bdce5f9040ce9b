import StoreSync.Command

/-!
The hand-over of commands from a planner to the party that runs them. At most one item waits;
a producer waits while the place is taken and a consumer while it is empty, until the run is
cancelled. What waits when the run is cancelled can still be taken.
-/
namespace StoreSync

namespace Handoff

/-- The last item says that no more commands follow. -/
inductive Item where
  | command (c : Command)
  | closed
  deriving DecidableEq

structure State where
  waiting : Option Item
  cancelled : Bool
  deriving DecidableEq

def empty : State := ⟨none, false⟩

inductive Offer where
  | accepted (s : State)
  | refused
  | waits

inductive Take where
  | received (c : Command) (s : State)
  | stopped (s : State)
  | waits

def offer (s : State) (item : Item) : Offer :=
  if s.cancelled then .refused
  else if s.waiting.isSome then .waits
  else .accepted { s with waiting := some item }

def take (s : State) : Take :=
  match s.waiting with
  | some (.command c) => .received c { s with waiting := none }
  | some .closed => .stopped { s with waiting := none }
  | none => if s.cancelled then .stopped s else .waits

def cancel (s : State) : State := { s with cancelled := true }

end Handoff

end StoreSync
