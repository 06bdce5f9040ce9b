import StoreSync.Proofs.Runs

/-!
The names of what a run finds at its source. No relative path ends in a slash, so none of them
stands for a folder when a prefix is put in front of it, and none is empty, as every stored object
has a key. A source that is no batch finds one object at most, which lies at the source itself
under its base name.
-/
namespace StoreSync

open ObjectStore Eligibility Text

/-- Every object has a key of one character at least. A store takes no other keys. -/
def ObjectStore.Store.Named (s : Store) : Prop := ∀ e ∈ s.buckets, ∀ o ∈ e.2, o.key ≠ ""

theorem ObjectStore.Store.Named.object?_empty {s : Store} (h : s.Named) (bucket : String) :
    s.object? bucket "" = none := by
  refine Option.eq_none_iff_forall_ne_some.mpr fun o ho => ?_
  obtain ⟨b, hb, hfind⟩ := Option.bind_eq_some_iff.mp ho
  obtain ⟨hmem, hkey⟩ := Bucket.mem_of_object? hfind
  obtain ⟨before, after, hbuckets, -⟩ := List.lookup_eq_some_iff.mp hb
  exact h (bucket, b) (hbuckets ▸ List.mem_append_right before List.mem_cons_self) o hmem hkey

namespace RemoteListing

variable {w : World} {client : Nat} {l : Location} {e : Entry}

/-- What is found is no folder. -/
theorem endsInSlash_of_mem_found (hexpands : l.Expands)
    (he : e ∈ found ((list client l Watch.never).run w).1.entries) :
    Slash.endsInSlash e.location.path.toList = false := by
  obtain ⟨hlisted, hfound⟩ := List.mem_filter.mp ((found_list_sublist hexpands w).subset he)
  obtain ⟨obj, -, rfl⟩ := List.mem_map.mp hlisted
  by_contra hslash
  rw [Bool.not_eq_false] at hslash
  change Slash.endsInSlash obj.key.toList = true at hslash
  simp [listed, entryOf, isFound, Entry.isDirectory, kindOf, hslash] at hfound

/-- A key that does not end in a slash has no end that does. -/
theorem endsInSlash_relative (hexpands : l.Expands)
    (he : e ∈ found ((list client l Watch.never).run w).1.entries) :
    Slash.endsInSlash e.relative.toList = false := by
  obtain ⟨hlisted, hfound⟩ := List.mem_filter.mp ((found_list_sublist hexpands w).subset he)
  obtain ⟨obj, hobj, rfl⟩ := List.mem_map.mp hlisted
  have hkey := key_of_listed (listBase_prefix_key hexpands hobj) hfound
  by_cases hnil : (listed l l.listBase.length obj).relative.toList = []
  · rw [hnil]
    rfl
  · have hfile : Slash.endsInSlash obj.key.toList = false := endsInSlash_of_mem_found hexpands he
    rw [hkey, Slash.endsInSlash, List.getLast?_append_of_ne_nil _ hnil] at hfile
    exact hfile

theorem relative_entryOf_base {b : String} {obj : Object} (hbase : l.base ≠ "") :
    (entryOf b l.base obj).relative = l.base := by
  simp [entryOf, Entry.relative, Location.relative, locationOf, hbase]

/-- The base of a listing is no object of its own: it is empty or a folder. -/
theorem relative_ne_empty (hnamed : w.store.Named) (hexpands : l.Expands)
    (he : e ∈ found ((list client l Watch.never).run w).1.entries) : e.relative ≠ "" := by
  intro hempty
  obtain ⟨hpath, hstored⟩ := object?_of_mem_found hexpands he
  rw [hempty, String.toList_empty, List.append_nil] at hpath
  by_cases hbase : l.listBase = []
  · rw [hbase, String.toList_eq_nil_iff] at hpath
    rw [hpath, hnamed.object?_empty] at hstored
    exact Bool.false_ne_true hstored
  · have hslash := Location.endsInSlash_listBase hbase
    rw [← hpath, endsInSlash_of_mem_found hexpands he] at hslash
    exact Bool.false_ne_true hslash

/-- A key that stands for itself has a last component. -/
theorem base_ne_empty (hremote : l.isRemote = true) (hkey : ¬ l.Expands) : l.base ≠ "" := by
  unfold Location.Expands at hkey
  simp only [Location.isFolder, Location.isBucket, hremote, Bool.true_and, Bool.or_eq_true,
    decide_eq_true_eq, not_or, Bool.not_eq_true] at hkey
  exact Location.base_ne_empty hkey.2 hkey.1.2

end RemoteListing

namespace LocalListing

open Files

variable {t : Tree} {l : Location} {e : Entry} {followLinks : Bool}

/-- A local source that is no batch is no directory. A directory without a moment ends the run. -/
theorem find_ne_directory (hlocal : l.isRemote = false)
    (h : Sync.sourceIsBatch t l = .ok false) :
    l.isWildcard = false ∧ ∀ p, t.find .target l.path ≠ .ok (p, .directory) := by
  have hwild : l.isWildcard = false := by
    by_contra hwild
    rw [Bool.not_eq_false] at hwild
    simp [Sync.sourceIsBatch, Placement.isBatch, hwild] at h
  refine ⟨hwild, fun p hfind => ?_⟩
  cases htime : timeOf t p .directory with
  | error f =>
    obtain ⟨year, rfl⟩ := year_of_timeOf htime
    simp [Sync.sourceIsBatch, status, hfind, entryOf, htime, hwild, hlocal, Fault.isSystem] at h
  | ok time =>
    simp [Sync.sourceIsBatch, status, hfind, entryOf, htime, Placement.isBatch, hwild, hlocal,
      Entry.isDirectory, Node.isDirectory] at h

/-- A path at which there is a file has a last component. -/
theorem base_ne_empty {q : Files.Path} (h : t.HoldsAt l.path q) : l.base ≠ "" := by
  refine Location.base_ne_empty ?_ h.endsInSlash
  intro hempty
  obtain ⟨m, hlocate, -⟩ := h
  have htext := (Tree.locate_eq_ok_iff.mp hlocate).1
  rw [hempty] at htext
  cases htext

theorem relative_ne_empty (ht : t.Proper)
    (he : e ∈ found (list t l followLinks Watch.never).entries) : e.relative ≠ "" := by
  rcases named_of_mem_found ht he with ⟨names, hne, hproper, hrelative⟩ | hlocation
  · rw [hrelative]
    exact intercalate_ne_empty hne hproper
  · obtain ⟨q, hq⟩ := (stands_of_mem_found he).holds
    rw [hlocation] at hq
    rw [Entry.relative, hlocation, relative_locationOf_base]
    exact base_ne_empty hq

end LocalListing

namespace Sync

variable {e : Ends} {o : Options} {c : Connection} {command : String} {w : World} {g : Stage}
  {s : Entry}

theorem endsInSlash_of_found_source (hw : w.Proper) (h : Reaches e o c command w g)
    (hs : s ∈ found g.listings.source.entries) :
    Slash.endsInSlash s.relative.toList = false := by
  obtain ⟨hserves, -, -, w₁, w₂, halike, -, -, hlisting, -⟩ := listings_of_reaches h
  rw [hlisting] at hs
  rcases hserves with ⟨hlocal, hside⟩ | ⟨hremote, n, hside⟩
  · rw [hside] at hs
    exact LocalListing.endsInSlash_relative (hw.of_alike halike).files hs
  · rw [hside] at hs
    by_cases hexpands : e.source.Expands
    · exact RemoteListing.endsInSlash_relative hexpands hs
    · obtain ⟨obj, -, rfl⟩ := RemoteListing.mem_found_key hexpands hs
      have hbase := RemoteListing.base_ne_empty hremote hexpands
      rw [RemoteListing.relative_entryOf_base hbase]
      exact Location.endsInSlash_base e.source

theorem relative_ne_empty_of_found_source (hw : w.Proper) (hnamed : w.store.Named)
    (h : Reaches e o c command w g) (hs : s ∈ found g.listings.source.entries) :
    s.relative ≠ "" := by
  obtain ⟨hserves, -, -, w₁, w₂, halike, -, -, hlisting, -⟩ := listings_of_reaches h
  rw [hlisting] at hs
  rcases hserves with ⟨hlocal, hside⟩ | ⟨hremote, n, hside⟩
  · rw [hside] at hs
    exact LocalListing.relative_ne_empty (hw.of_alike halike).files hs
  · rw [hside] at hs
    by_cases hexpands : e.source.Expands
    · have hsame : w₁.store.Named := by
        rw [ObjectStore.Store.Named, halike.buckets]
        exact hnamed
      exact RemoteListing.relative_ne_empty hsame hexpands hs
    · obtain ⟨obj, -, rfl⟩ := RemoteListing.mem_found_key hexpands hs
      have hbase := RemoteListing.base_ne_empty hremote hexpands
      rw [RemoteListing.relative_entryOf_base hbase]
      exact hbase

/-- What a source that is no batch finds lies at the source, under its base name. -/
structure Single (source : Location) (s : Entry) : Prop where
  path : s.location.path = source.path
  relative : s.relative = source.base
  named : source.base ≠ ""

theorem Single.base {source : Location} (h : Single source s) : s.location.base = source.base := by
  rw [Location.base, h.path, Location.base]

theorem single_of_found_source (h : Reaches e o c command w g) (hsingle : g.batch = false)
    (hs : s ∈ found g.listings.source.entries) : Single e.source s := by
  obtain ⟨hserves, -, -, w₁, w₂, halike, -, hbatch, hlisting, -⟩ := listings_of_reaches h
  rw [hsingle] at hbatch
  rw [hlisting] at hs
  rcases hserves with ⟨hlocal, hside⟩ | ⟨hremote, n, hside⟩
  · rw [hside] at hs
    rw [← halike.files] at hbatch
    obtain ⟨hwild, hdirectory⟩ := LocalListing.find_ne_directory hlocal hbatch
    have hlocation := LocalListing.location_of_found_single hwild hdirectory hs
    obtain ⟨q, hq⟩ := (LocalListing.stands_of_mem_found hs).holds
    rw [hlocation] at hq
    refine ⟨by rw [hlocation]; rfl, ?_, LocalListing.base_ne_empty hq⟩
    rw [Entry.relative, hlocation, LocalListing.relative_locationOf_base]
  · rw [hside] at hs
    have hkey : ¬ e.source.Expands := by
      rw [expands_iff_batch hremote hbatch]
      exact Bool.false_ne_true
    have hbase := RemoteListing.base_ne_empty hremote hkey
    obtain ⟨obj, hobj, rfl⟩ := RemoteListing.mem_found_key hkey hs
    obtain ⟨b, -, hfind⟩ := Option.bind_eq_some_iff.mp hobj
    exact ⟨(Bucket.mem_of_object? hfind).2, RemoteListing.relative_entryOf_base hbase, hbase⟩

/-- Such a source finds one object at most. -/
theorem length_found_source (hw : w.Proper) (h : Reaches e o c command w g)
    (hsingle : g.batch = false) : (found g.listings.source.entries).length ≤ 1 := by
  have hdistinct := (located_source hw h).distinct
  have hrelative : (found g.listings.source.entries).map Entry.relative =
      List.replicate (found g.listings.source.entries).length e.source.base := by
    refine List.eq_replicate_iff.mpr ⟨List.length_map .., fun r hr => ?_⟩
    obtain ⟨s, hs, rfl⟩ := List.mem_map.mp hr
    exact (single_of_found_source h hsingle hs).relative
  rw [Diff.DistinctPaths, hrelative] at hdistinct
  exact List.nodup_replicate.mp hdistinct

end Sync

end StoreSync
