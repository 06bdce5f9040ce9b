import StoreSync.Entry

/-!
Listings: the entries that a location expands to, and the fault that ended the listing early, if
one did. While a listing is read it looks up again and again whether the run is cancelled.
-/
namespace StoreSync

structure Listing where
  entries : List Entry
  fault : Option Fault

/-- Whether the run is cancelled when a listing looks it up, given how often it has done so
before and how many entries it has given out. -/
abbrev Watch := Nat → Nat → Bool

namespace Watch

def never : Watch := fun _ _ => false

def afterEntries (count : Nat) : Watch := fun _ given => count ≤ given

end Watch

namespace Listing

def single (e : Entry) : Listing := ⟨[e], none⟩

def failed (f : Fault) : Listing := ⟨[], some f⟩

def push (e : Entry) (l : Listing) : Listing := { l with entries := e :: l.entries }

def nothing (l : Location) : Entry := .ofFault l (.notFound (some l.text))

def cancelled (l : Location) : Entry := .ofFault l (.listingCancelled "listing cancelled")

end Listing

end StoreSync
