import StoreSync.Fault
import StoreSync.Settings

/-!
How an object store is reached.
-/
namespace StoreSync

structure Connection where
  endpoint : Option String
  region : Option String
  skipVerification : Bool
  maxRetries : Int
  poolSize : Int
  deriving DecidableEq

namespace Connection

def standard : Connection := ⟨none, none, false, Settings.defaultRetries, 50⟩

def withRegion (c : Connection) (region : Option String) : Connection :=
  match region with
  | none => c
  | some r => if r = "" then c else { c with region := some r }

def check (c : Connection) : Except Fault Unit :=
  if c.maxRetries < 0 then .error (.negativeRetries c.maxRetries) else .ok ()

end Connection

end StoreSync
