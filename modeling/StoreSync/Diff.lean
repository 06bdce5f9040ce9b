import StoreSync.Entry

/-!
Differences between two listings. Both sides are sorted by relative path, in code point order
and stably, and then merged: objects at one relative path are paired in order, the others belong
to one side only.
-/
namespace StoreSync

structure Diff where
  onlySource : List Location
  onlyDestination : List Location
  common : List (Entry × Entry)

namespace Diff

def inOrder (a b : Entry) : Bool := decide (a.relative ≤ b.relative)

def sort (entries : List Entry) : List Entry := entries.mergeSort inOrder

def empty : Diff := ⟨[], [], []⟩

def addSource (e : Entry) (d : Diff) : Diff :=
  { d with onlySource := e.location :: d.onlySource }

def addDestination (e : Entry) (d : Diff) : Diff :=
  { d with onlyDestination := e.location :: d.onlyDestination }

def addPair (s t : Entry) (d : Diff) : Diff := { d with common := (s, t) :: d.common }

def merge : List Entry → List Entry → Diff
  | [], ts => ⟨[], ts.map Entry.location, []⟩
  | ss, [] => ⟨ss.map Entry.location, [], []⟩
  | s :: ss, t :: ts =>
      if s.relative = t.relative then addPair s t (merge ss ts)
      else if t.relative < s.relative then addDestination t (merge (s :: ss) ts)
      else addSource s (merge ss (t :: ts))
termination_by ss ts => ss.length + ts.length

def ofListings (sources destinations : List Entry) : Diff :=
  merge (sort sources) (sort destinations)

end Diff

end StoreSync
