import StoreSync.Glob.FixedPart
import StoreSync.Proofs.CompleteListings

/-!
The keys that a remote location covers: those that match its pattern, or that start with its path.
The store is asked for the keys that begin with the fixed part, and it answers page by page. Neither
loses a key: a listing that meets no outage gives one entry for each key that is covered, in the
order of the store, and says that there is nothing only if no key is covered.
-/
namespace StoreSync.RemoteListing

open ObjectStore Text StoreSync.Action

variable {w : World} {client : Nat} {l : Location} {b : Bucket} {key : String}

section Covering

def Covers (l : Location) (key : String) : Prop :=
  if l.isWildcard then Glob.Matches (Glob.read l.path) key.toList else l.path.toList <+: key.toList

/-- What is covered begins with the fixed part, whatever the pattern says behind it. -/
theorem covers_iff :
    Covers l key ↔ l.fixedPart <+: key.toList ∧ accepts l key.toList = true := by
  unfold Covers accepts Location.fixedPart
  cases l.isWildcard with
  | true =>
    simp only [if_true]
    rw [Glob.holds_iff_matches]
    exact ⟨fun h => ⟨Glob.takeWhile_prefix_of_matches h, h⟩, And.right⟩
  | false => simp

instance (l : Location) (key : String) : Decidable (Covers l key) :=
  decidable_of_iff (l.fixedPart <+: key.toList ∧ accepts l key.toList = true) covers_iff.symm

/-- Nothing is lost when the store is asked for keys that begin with the fixed part only. -/
theorem filter_startingWith (l : Location) (b : Bucket) :
    ((startingWith b (String.ofList l.fixedPart)).filter fun o => accepts l o.key.toList) =
      b.filter fun o => Covers l o.key := by
  unfold startingWith
  rw [List.filter_filter]
  refine List.filter_congr fun o _ => ?_
  rw [Bool.eq_iff_iff, decide_eq_true_iff, covers_iff, Bool.and_eq_true, and_comm,
    List.isPrefixOf_iff_prefix, String.toList_ofList]

end Covering

section Covered

/-- The pages of an answer, however it is split, give one entry for each key that is covered. -/
theorem readPages_of_split (hpage : .page ∉ w.store.outages.map Outage.point)
    {pages : List (List Object)}
    (hpages : pages.flatten = startingWith b (String.ofList l.fixedPart)) :
    ((readPages Watch.never l (accepts l) l.listBase.length 0 ⟨0, 0⟩ pages).run w).1 =
      let entries := (b.filter fun o => Covers l o.key).map (listed l l.listBase.length)
      ⟨if entries = [] then [Listing.nothing l] else entries, none⟩ := by
  rw [readPages_undisturbed hpage, hpages, filter_startingWith]
  simp

/-- The answer of the store is split into pages of some size. -/
theorem list_undisturbed (hexpands : l.Expands) (hb : w.store.bucket? l.bucket = some b)
    (hlist : .list ∉ w.store.outages.map Outage.point)
    (hpage : .page ∉ w.store.outages.map Outage.point) (client : Nat) :
    ((list client l Watch.never).run w).1 =
      let entries := (b.filter fun o => Covers l o.key).map (listed l l.listBase.length)
      ⟨if entries = [] then [Listing.nothing l] else entries, none⟩ := by
  obtain ⟨pages, w₁, hrequest⟩ := gives_request client hlist hb
  obtain ⟨b', hb', hpages⟩ := flatten_of_request hrequest
  obtain rfl : b = b' := Option.some.inj (hb.symm.trans hb')
  have halike : World.Alike w w₁ := by
    have hkeeps := keeps_request client l w
    unfold Keeps at hkeeps
    rw [hrequest] at hkeeps
    exact hkeeps
  unfold Location.Expands at hexpands
  unfold list
  rw [hexpands, Bool.not_true, if_neg Bool.false_ne_true, run_state_bind, hrequest]
  exact readPages_of_split (halike.points ▸ hpage) hpages

/-- An entry without a fault that tells of an object what the store answers about it: where it lies,
whether its key stands for a folder, its size, its time, its identity and its class. -/
structure Shows (l : Location) (o : Object) (e : Entry) : Prop where
  isRemote : e.location.isRemote = true
  bucket : e.location.bucket = l.bucket
  path : e.location.path = o.key
  kind : e.kind = .directory ↔ o.key.toList.getLast? = some '/'
  size : e.size = if o.sized then (o.data.size : Int) else 0
  modified : e.modified = o.modified
  etag : e.etag = Entry.cleanETag o.etag
  storageClass : e.storageClass = o.storageClass.bind StorageClass.ofName?
  fault : e.fault = none

theorem kindOf_eq_directory_iff : kindOf key = .directory ↔ key.toList.getLast? = some '/' := by
  unfold kindOf Slash.endsInSlash
  split_ifs with h
  · exact iff_of_true rfl (of_decide_eq_true h)
  · exact iff_of_false nofun fun hlast => h (decide_eq_true hlast)

theorem shows_listed (l : Location) (base : Nat) (o : Object) : Shows l o (listed l base o) where
  isRemote := rfl
  bucket := rfl
  path := rfl
  kind := kindOf_eq_directory_iff
  size := rfl
  modified := rfl
  etag := rfl
  storageClass := rfl
  fault := rfl

/-- A listing of several objects that is not cancelled and meets no outage: its entries are those of
the keys that are covered, one that shows each of these objects, in the order of the bucket, however
the answer is split into pages; a key that is longer than the base of the listing is the base with
the relative path behind it; and there is the fault that nothing was found, and nothing else,
exactly when no key is covered. -/
theorem listing_covers (hexpands : l.Expands) (hb : w.store.bucket? l.bucket = some b)
    (hlist : .list ∉ w.store.outages.map Outage.point)
    (hpage : .page ∉ w.store.outages.map Outage.point) (client : Nat) :
    let covered := b.filter fun o => Covers l o.key
    let listing := ((list client l Watch.never).run w).1
    (∀ pages : List (List Object), pages.flatten = startingWith b (String.ofList l.fixedPart) →
      ((readPages Watch.never l (accepts l) l.listBase.length 0 ⟨0, 0⟩ pages).run w).1 = listing) ∧
    listing.fault = none ∧
    (covered ≠ [] → listing.entries = covered.map (listed l l.listBase.length) ∧
      listing.entries.map (·.location.path) = covered.map Object.key ∧
      List.Forall₂ (Shows l) covered listing.entries) ∧
    (∀ o ∈ covered, l.listBase.length < o.key.toList.length →
      o.key.toList = l.listBase ++ (listed l l.listBase.length o).relative.toList) ∧
    (listing.entries = [Listing.nothing l] ↔ covered = []) ∧
    ((b.map Object.key).Pairwise (· < ·) →
      (listing.entries.map (·.location.path)).Pairwise (· < ·)) := by
  intro covered listing
  have hlisting : listing = ⟨if covered.map (listed l l.listBase.length) = [] then
      [Listing.nothing l] else covered.map (listed l l.listBase.length), none⟩ :=
    list_undisturbed hexpands hb hlist hpage client
  have hcovered (hne : covered ≠ []) :
      listing.entries = covered.map (listed l l.listBase.length) := by
    rw [hlisting]
    simp [hne]
  refine ⟨?_, by rw [hlisting], ?_, ?_, ?_, ?_⟩
  · intro pages hpages
    rw [readPages_of_split hpage hpages, hlisting]
  · intro hne
    rw [hcovered hne, List.map_map, List.forall₂_map_right_iff, List.forall₂_same]
    exact ⟨rfl, rfl, fun o _ => shows_listed l _ o⟩
  · intro o ho hlonger
    have hfixed := (covers_iff.mp (by simpa using (List.mem_filter.mp ho).2)).1
    exact key_of_longer ((Location.fixedPart_startsWith_listBase hexpands).trans hfixed) hlonger
  · constructor
    · intro hnothing
      by_contra hne
      rw [hcovered hne] at hnothing
      obtain ⟨o, -, ho⟩ := List.mem_map.mp (hnothing ▸ List.mem_singleton_self (Listing.nothing l))
      have hfault := congrArg Entry.fault ho
      simp [listed, entryOf, Listing.nothing, Entry.ofFault] at hfault
    · intro hnil
      rw [hlisting]
      simp [hnil]
  · intro hsorted
    by_cases hnil : covered = []
    · rw [hlisting]
      simp [hnil]
    · rw [hcovered hnil, List.map_map]
      exact hsorted.sublist (List.filter_sublist.map Object.key)

def bracketPattern : Location := ⟨"s3", "b", "p/[a*", false, none⟩

def bracketBucket : Bucket :=
  ["p/", "p/[a", "p/[a/x", "p/[ab", "p/b", "q/[a"].map fun key =>
    ⟨key, ⟨#[]⟩, none, none, none, none, true⟩

def bracketWorld : World := ⟨.ofNodes [] [], ⟨[("b", bracketBucket)], [], 2, 0, .plain⟩, []⟩

/-- The bracket stands for itself, and an empty page among the others changes nothing. -/
theorem listing_covers_bracket :
    bracketPattern.Expands ∧ bracketWorld.store.bucket? bracketPattern.bucket = some bracketBucket ∧
      let listing := ((list 0 bracketPattern Watch.never).run bracketWorld).1
      listing.entries.map (fun e => (e.location.path, e.relative)) =
          [("p/[a", "[a"), ("p/[a/x", "[a/x"), ("p/[ab", "[ab")] ∧
        ((readPages Watch.never bracketPattern (accepts bracketPattern)
          bracketPattern.listBase.length 0 ⟨0, 0⟩
          [[], bracketBucket.take 3, [], (bracketBucket.drop 3).take 2]).run bracketWorld).1 =
          listing := by
  have hexpands : bracketPattern.Expands := by unfold Location.Expands; decide
  obtain ⟨hpages, -, hentries, -⟩ := listing_covers (w := bracketWorld) (b := bracketBucket)
    hexpands rfl (by decide) (by decide) 0
  refine ⟨hexpands, rfl, ?_, hpages _ ?_⟩
  · rw [(hentries (by decide)).1]
    decide
  · rfl

end Covered

end StoreSync.RemoteListing
