import StoreSync.Text.Upper

/-!
Storage classes of objects in a bucket.
-/
namespace StoreSync

inductive StorageClass where
  | standard
  | reducedRedundancy
  | standardIA
  | onezoneIA
  | intelligentTiering
  | glacierIR
  | glacier
  | deepArchive
  deriving DecidableEq

namespace StorageClass

def name : StorageClass → String
  | standard => "STANDARD"
  | reducedRedundancy => "REDUCED_REDUNDANCY"
  | standardIA => "STANDARD_IA"
  | onezoneIA => "ONEZONE_IA"
  | intelligentTiering => "INTELLIGENT_TIERING"
  | glacierIR => "GLACIER_IR"
  | glacier => "GLACIER"
  | deepArchive => "DEEP_ARCHIVE"

def all : List StorageClass :=
  [standard, reducedRedundancy, standardIA, onezoneIA, intelligentTiering, glacierIR, glacier,
    deepArchive]

def ofName? (text : String) : Option StorageClass := do
  let upper ← Text.Upper.upper? text
  all.find? fun c => c.name = upper

def isArchival : StorageClass → Bool
  | glacier => true
  | deepArchive => true
  | _ => false

theorem mem_all (c : StorageClass) : c ∈ all := by cases c <;> decide

end StorageClass

end StoreSync
