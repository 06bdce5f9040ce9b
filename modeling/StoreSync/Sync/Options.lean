import StoreSync.Freshness
import StoreSync.Scalar
import StoreSync.Settings

/-!
What a user may ask of a run.
-/
namespace StoreSync.Sync

/-- `raw` takes special characters in the source literally; `trial` prints commands instead of
running them. -/
structure Options where
  delete : Bool
  sizeOnly : Bool
  exclude : List String
  sse : Option String
  sseKmsKeyId : Option String
  storageClass : Option String
  raw : Bool
  sourceRegion : Option String
  destinationRegion : Option String
  followLinks : Bool
  workers : Int
  trial : Bool
  deriving DecidableEq

namespace Options

def standard : Options :=
  ⟨false, false, [], none, none, none, false, none, none, true, Settings.defaultWorkers, false⟩

def strategy (o : Options) : Strategy := Strategy.ofFlag o.sizeOnly

def copyFlags (o : Options) : Flags :=
  [("sse", o.sse), ("sse-kms-key-id", o.sseKmsKeyId), ("storage-class", o.storageClass),
    ("source-region", o.sourceRegion), ("destination-region", o.destinationRegion)].filterMap
    fun p => (p.2.filter (· ≠ "")).map fun v => (p.1, .text v)

end Options

end StoreSync.Sync
