import StoreSync.Proofs.Retention
import StoreSync.Proofs.Runs

/-!
Listings that are complete: they find what the same requests find when none of them meets an
outage. Such a listing finds everything that the location covers, so it depends on nothing but
the files and objects of the world.
-/
namespace StoreSync

open ObjectStore Eligibility World StoreSync.Action

structure World.SameContents (w w' : World) : Prop where
  files : w'.files = w.files
  buckets : w'.store.buckets = w.store.buckets

def World.undisturbed (w : World) : World := w.setStore { w.store with outages := [] }

namespace World

variable {w w' : World}

theorem Alike.sameContents (h : Alike w w') : SameContents w w' := ⟨h.files, h.buckets⟩

/-- No request adds an outage. -/
theorem Alike.outages (h : Alike w w') (hnil : w.store.outages = []) :
    w'.store.outages = [] := by
  have hpoints := h.points
  rw [hnil] at hpoints
  exact List.map_eq_nil_iff.mp hpoints

theorem sameContents_undisturbed (w : World) : SameContents w w.undisturbed := ⟨rfl, rfl⟩

theorem SameContents.bucket? (h : SameContents w w') (name : String) :
    w'.store.bucket? name = w.store.bucket? name := by
  rw [Store.bucket?, Store.bucket?, h.buckets]

theorem SameContents.object? (h : SameContents w w') (bucket key : String) :
    w'.store.object? bucket key = w.store.object? bucket key := by
  rw [Store.object?, Store.object?, h.bucket?]

end World

namespace RemoteListing

variable {w : World} {client : Nat} {l : Location}

section Undisturbed

theorem gives_meet_of_nil (h : w.store.outages = []) (point : Point)
    (bucket key : Option String) : (meet point bucket key).Gives w () w :=
  Transfer.gives_meet_of_not_mem (by simp [h]) bucket key

/-- A listing goes on from page to page with the number of entries that it has given out. -/
theorem given_readPage (accepts : List Char → Bool) (base : Nat) (p : Progress)
    (page : List Object) :
    (readPage Watch.never l accepts base p page).progress.given =
      p.given + (page.filter fun o => accepts o.key.toList).length := by
  induction page generalizing p with
  | nil => rfl
  | cons o rest ih =>
    unfold readPage
    rw [Watch.never, if_neg Bool.false_ne_true]
    cases haccepts : accepts o.key.toList with
    | true =>
      simp only [if_true, List.filter_cons, haccepts, List.length_cons]
      rw [ih, Nat.add_right_comm]
      exact Nat.add_assoc _ _ _
    | false =>
      simp only [Bool.false_eq_true, if_false, List.filter_cons, haccepts]
      exact ih _

/-- Pages that meet no outage are read to the last one. What is listed does not depend on how the
objects are split into pages; only when there is nothing at all, a fault takes the place. -/
theorem readPages_undisturbed (h : .page ∉ w.store.outages.map Outage.point)
    (accepts : List Char → Bool) (base number : Nat) (p : Progress) (pages : List (List Object)) :
    ((readPages Watch.never l accepts base number p pages).run w).1 =
      let entries := (pages.flatten.filter fun o => accepts o.key.toList).map (listed l base)
      ⟨if p.given = 0 ∧ entries = [] then [Listing.nothing l] else entries, none⟩ := by
  induction pages generalizing number p with
  | nil =>
    unfold readPages
    by_cases hgiven : p.given = 0 <;> simp [hgiven] <;> rfl
  | cons page rest ih =>
    obtain ⟨hended, hentries⟩ := readPage_never l accepts base p page
    have hgiven := given_readPage (l := l) accepts base p page
    have hmeet : (meet .page (some l.bucket) (some (toString number))).run.run w = (.ok (), w) :=
      Transfer.gives_meet_of_not_mem h _ _
    unfold readPages
    rw [run_state_bind, hmeet]
    simp only [hended, Bool.false_eq_true, if_false, run_state_bind]
    change prepend _ ((readPages _ _ _ _ _ _ rest).run w).1 = _
    rw [ih, hentries, prepend, List.flatten_cons, List.filter_append, List.map_append, hgiven]
    cases hpage : page.filter fun o => accepts o.key.toList with
    | nil => simp
    | cons o more => simp

theorem found_readPages (h : w.store.outages = []) (accepts : List Char → Bool)
    (base number : Nat) (p : Progress) (pages : List (List Object)) :
    found ((readPages Watch.never l accepts base number p pages).run w).1.entries =
      found ((pages.flatten.filter fun o => accepts o.key.toList).map (listed l base)) := by
  rw [readPages_undisturbed (by simp [h])]
  dsimp only
  split_ifs with hnothing
  · rw [hnothing.2]
    rfl
  · rfl

theorem gives_request (client : Nat) (h : .list ∉ w.store.outages.map Outage.point) {b : Bucket}
    (hb : w.store.bucket? l.bucket = some b) :
    ∃ pages w₁, (request client l).Gives w pages w₁ := by
  unfold request Gives
  dsimp only
  generalize (if String.ofList l.fixedPart = "" then none
    else some (String.ofList l.fixedPart)) = given
  let w₁ := w.note client (.list l.bucket given)
  have hmeet : (meet .list (some l.bucket) given).run.run w₁ = (.ok (), w₁) :=
    Transfer.gives_meet_of_not_mem (w := w₁) h _ _
  have hbucket : (bucket l.bucket "ListObjectsV2").run.run w₁ = (.ok b, w₁) :=
    gives_bucket_iff.mpr ⟨hb, rfl⟩
  have hnote : (note client (.list l.bucket given)).run.run w = (.ok (), w₁) := rfl
  have hget : (get : Action World).run.run w₁ = (.ok w₁, w₁) := rfl
  simp only [run_bind, hnote, hmeet, hbucket, hget]
  split <;> exact ⟨_, _, rfl⟩

theorem gives_status (client : Nat) (h : w.store.outages = []) {o : Object}
    (ho : w.store.object? l.bucket l.path = some o) :
    ∃ w₁, (status client l).Gives w (entryOf l.bucket l.base o) w₁ := by
  let w₁ := w.note client (.head l.bucket l.path)
  have hmeet : (meet .head (some l.bucket) (some l.path)).Gives w₁ () w₁ :=
    gives_meet_of_nil (w := w₁) h _ _ _
  have hobject : (object l.bucket l.path).Gives w₁ o w₁ := gives_object_iff.mpr ⟨ho, rfl⟩
  refine ⟨w₁, gives_bind_iff.mpr ⟨(), w₁, gives_note_iff.mpr rfl, gives_tryCatch_iff.mpr (.inl ?_)⟩⟩
  refine gives_bind_iff.mpr ⟨o, w₁, ?_, gives_pure_iff.mpr ⟨rfl, rfl⟩⟩
  exact gives_bind_iff.mpr ⟨(), w₁, hmeet, hobject⟩

end Undisturbed

section Complete

/-- Everything in a world that a remote location covers. -/
def available (w : World) (l : Location) : List Entry :=
  if l.isWildcard || l.isFolder || l.isBucket then
    ((startingWith ((w.store.bucket? l.bucket).getD []) (String.ofList l.fixedPart)).filter
      fun o => accepts l o.key.toList).map (listed l l.listBase.length)
  else (w.store.object? l.bucket l.path).toList.map (entryOf l.bucket l.base)

theorem found_ofKey (h : w.store.outages = []) (client : Nat) (l : Location) :
    found ((ofKey client l).run w).1.entries =
      found ((w.store.object? l.bucket l.path).toList.map (entryOf l.bucket l.base)) := by
  unfold ofKey
  rw [run_state_bind]
  rcases hrun : (status client l).run.run w with ⟨f | e, w₁⟩
  · have hnone : w.store.object? l.bucket l.path = none := by
      by_contra hsome
      obtain ⟨o, ho⟩ := Option.ne_none_iff_exists'.mp hsome
      obtain ⟨w₂, hgives⟩ := gives_status client h ho
      cases (Prod.mk.inj (hrun.symm.trans hgives)).1
    rw [hnone]
    dsimp only
    split_ifs <;> rfl
  · obtain ⟨o, ho, rfl⟩ := object?_of_status hrun
    rw [ho]
    rfl

/-- Without outages a listing finds everything that the location covers. -/
theorem found_list (h : w.store.outages = []) (client : Nat) (l : Location) :
    found ((list client l Watch.never).run w).1.entries = found (available w l) := by
  unfold list available
  cases hexpands : l.isWildcard || l.isFolder || l.isBucket with
  | true =>
    rw [Bool.not_true, if_neg Bool.false_ne_true, if_pos rfl, run_state_bind]
    rcases hrun : (request client l).run.run w with ⟨f | pages, w₁⟩
    · have hnone : w.store.bucket? l.bucket = none := by
        by_contra hsome
        obtain ⟨b, hb⟩ := Option.ne_none_iff_exists'.mp hsome
        obtain ⟨pages, w₂, hgives⟩ := gives_request client (by simp [h]) hb
        cases (Prod.mk.inj (hrun.symm.trans hgives)).1
      change found (endedBy l f).entries = _
      rw [found_endedBy, hnone]
      rfl
    · obtain ⟨b, hb, hflat⟩ := flatten_of_request hrun
      have halike : World.Alike w w₁ := by
        have hkeeps := keeps_request client l w
        unfold Keeps at hkeeps
        rw [hrun] at hkeeps
        exact hkeeps
      rw [hb, Option.getD_some, ← hflat]
      exact found_readPages (halike.outages h) _ _ _ _ pages
  | false =>
    rw [Bool.not_false, if_pos rfl, if_neg Bool.false_ne_true]
    exact found_ofKey h client l

/-- What several objects are listed from is their bucket. -/
theorem available_of_bucket? {w' : World}
    (h : w'.store.bucket? l.bucket = w.store.bucket? l.bucket) :
    available w' l = available w l := by
  rw [available, available, Store.object?, Store.object?, h]

theorem available_of_object? {w' : World} (hkey : ¬ l.Expands)
    (h : w'.store.object? l.bucket l.path = w.store.object? l.bucket l.path) :
    available w' l = available w l := by
  unfold Location.Expands at hkey
  rw [available, available, if_neg hkey, if_neg hkey, h]

end Complete

end RemoteListing

namespace Sync

open Transfer

variable {e : Ends} {o : Options} {c : Connection} {command : String} {w w' : World} {g : Stage}

/-- Both listings of a run find what they find when no request meets an outage. -/
structure Stage.Complete (e : Ends) (o : Options) (w : World) (g : Stage) : Prop where
  source : found g.listings.source.entries =
    found ((listSide g.source e.source o.followLinks Watch.never).run w.undisturbed).1.entries
  destination : found g.listings.destination.entries =
    found ((listSide g.destination (listingLocation e.destination) false
      Watch.never).run w.undisturbed).1.entries

/-- What a location stands for in a world. -/
def standing (w : World) (l : Location) (followLinks : Bool) : List Entry :=
  if l.isRemote then found (RemoteListing.available w l)
  else found (LocalListing.list w.files l followLinks Watch.never).entries

theorem found_listSide {side : Side} {l : Location} (h : Serves side l)
    (hnil : w.store.outages = []) (followLinks : Bool) :
    found ((listSide side l followLinks Watch.never).run w).1.entries =
      standing w l followLinks := by
  unfold standing
  rcases h with ⟨hlocal, rfl⟩ | ⟨hremote, n, rfl⟩
  · rw [hlocal]
    rfl
  · rw [hremote]
    exact RemoteListing.found_list hnil n l

theorem standing_of_sameContents {l : Location} {followLinks : Bool} (h : SameContents w w') :
    standing w' l followLinks = standing w l followLinks := by
  unfold standing
  rw [RemoteListing.available_of_bucket? (h.bucket? _), h.files]

theorem found_undisturbed {side : Side} {l : Location} (h : Serves side l) (followLinks : Bool) :
    found ((listSide side l followLinks Watch.never).run w.undisturbed).1.entries =
      standing w l followLinks :=
  (found_listSide h rfl followLinks).trans (standing_of_sameContents (sameContents_undisturbed w))

theorem serves_destination (h : Reaches e o c command w g) :
    Serves g.destination (listingLocation e.destination) := (listings_of_reaches h).2.1

theorem Stage.Complete.found_source (hg : g.Complete e o w) (h : Reaches e o c command w g) :
    found g.listings.source.entries = standing w e.source o.followLinks :=
  hg.source.trans (found_undisturbed (listings_of_reaches h).1 _)

theorem Stage.Complete.found_destination (hg : g.Complete e o w)
    (h : Reaches e o c command w g) :
    found g.listings.destination.entries = standing w (listingLocation e.destination) false :=
  hg.destination.trans (found_undisturbed (serves_destination h) false)

/-- In a world without outages every run has complete listings. -/
theorem complete_of_reaches (h : Reaches e o c command w g) (hnil : w.store.outages = []) :
    g.Complete e o w := by
  obtain ⟨hsource, -, -, w₁, w₂, halike, halike', -, hs, hd⟩ := listings_of_reaches h
  constructor
  · rw [hs, found_listSide hsource (halike.outages hnil), found_undisturbed hsource]
    exact standing_of_sameContents halike.sameContents
  · rw [hd, found_listSide (serves_destination h) (halike'.outages hnil),
      found_undisturbed (serves_destination h)]
    exact standing_of_sameContents halike'.sameContents

section Destination

variable {d : Location} {r : String} {obj : Object}

theorem listed_listingLocation (hremote : d.isRemote = true) (hkey : obj.key = keyPrefix d ++ r) :
    RemoteListing.listed (listingLocation d) (listingLocation d).listBase.length obj =
      RemoteListing.entryOf d.bucket r obj := by
  have hdrop : obj.key.toList.drop (listingLocation d).listBase.length = r.toList := by
    rw [listBase_listingLocation hremote, hkey, String.toList_append, List.drop_left]
  rw [RemoteListing.listed, hdrop, String.ofList_toList]
  rfl

/-- An object that is found below the prefix has its relative path behind it. -/
theorem relative_entryOf (hremote : d.isRemote = true) (hkey : obj.key = keyPrefix d ++ r)
    (hfound : isFound (RemoteListing.entryOf d.bucket r obj) = true) :
    (RemoteListing.entryOf d.bucket r obj).relative = r := by
  have hlisted := listed_listingLocation hremote hkey
  have hstarts : (listingLocation d).listBase <+: obj.key.toList := by
    rw [listBase_listingLocation hremote, hkey, String.toList_append]
    exact List.prefix_append _ _
  have hrelative := RemoteListing.key_of_listed hstarts (hlisted ▸ hfound)
  rw [hlisted, listBase_listingLocation hremote, hkey, String.toList_append] at hrelative
  exact String.toList_inj.mp (List.append_cancel_left hrelative).symm

theorem mem_available_iff (hw : w.Proper) (hremote : d.isRemote = true) {t : Entry} :
    t ∈ RemoteListing.available w (listingLocation d) ↔
      ∃ r obj, w.store.object? d.bucket (keyPrefix d ++ r) = some obj ∧
        t = RemoteListing.entryOf d.bucket r obj := by
  have haccepts : RemoteListing.accepts (listingLocation d) = fun _ => true := by
    rw [RemoteListing.accepts, isWildcard_listingLocation, if_neg Bool.false_ne_true]
  have hfixed : String.ofList (listingLocation d).fixedPart = keyPrefix d := by
    simp [Location.fixedPart, isWildcard_listingLocation, keyPrefix]
  have hkeys := hw.nodup_keys d.bucket
  have hexpands := expands_listingLocation hremote
  unfold Location.Expands at hexpands
  rw [RemoteListing.available, if_pos hexpands, haccepts, hfixed, List.filter_true, List.mem_map]
  change (∃ obj ∈ startingWith ((w.store.bucket? d.bucket).getD []) _, _) ↔ _
  constructor
  · rintro ⟨obj, hobj, rfl⟩
    obtain ⟨hmem, hstarts⟩ := List.mem_filter.mp hobj
    obtain ⟨rest, hrest⟩ := List.isPrefixOf_iff_prefix.mp hstarts
    have hkey : obj.key = keyPrefix d ++ String.ofList rest := by
      apply String.toList_inj.mp
      rw [← hrest, String.toList_append, String.toList_ofList]
    have hobject := Bucket.object?_of_mem hkeys hmem
    refine ⟨String.ofList rest, obj, ?_, listed_listingLocation hremote hkey⟩
    rw [← hkey, Store.object?]
    cases hb : w.store.bucket? d.bucket with
    | none => simp [hb] at hmem
    | some b => simpa [hb] using hobject
  · rintro ⟨r, obj, hobject, rfl⟩
    obtain ⟨b, hb, hfind⟩ := Option.bind_eq_some_iff.mp hobject
    obtain ⟨hmem, hkey⟩ := Bucket.mem_of_object? hfind
    refine ⟨obj, List.mem_filter.mpr ⟨by simpa [hb] using hmem, ?_⟩,
      listed_listingLocation hremote hkey⟩
    rw [hkey, String.toList_append, List.isPrefixOf_iff_prefix]
    exact List.prefix_append _ _

/-- A complete listing of a remote destination finds the objects of its bucket whose keys lie below
the prefix and do not end in a slash. -/
theorem Stage.Complete.mem_found_destination_iff (hg : g.Complete e o w) (hw : w.Proper)
    (h : Reaches e o c command w g) (hremote : e.destination.isRemote = true) {t : Entry} :
    t ∈ found g.listings.destination.entries ↔
      isFound t = true ∧ ∃ obj,
        w.store.object? e.destination.bucket (keyPrefix e.destination ++ t.relative) = some obj ∧
          t = RemoteListing.entryOf e.destination.bucket t.relative obj := by
  have hside : (listingLocation e.destination).isRemote = true := hremote
  rw [hg.found_destination h, standing, if_pos hside, found, List.mem_filter, and_comm,
    mem_available_iff hw hremote]
  refine and_congr_right fun hfound => ?_
  constructor
  · rintro ⟨r, obj, hobject, rfl⟩
    obtain ⟨b, -, hfind⟩ := Option.bind_eq_some_iff.mp hobject
    have hrelative := relative_entryOf hremote (Bucket.mem_of_object? hfind).2 hfound
    rw [hrelative]
    exact ⟨obj, hobject, rfl⟩
  · rintro ⟨obj, hobject, ht⟩
    exact ⟨t.relative, obj, hobject, ht⟩

theorem Stage.Complete.mem_select_destination_iff (hg : g.Complete e o w) (hw : w.Proper)
    (h : Reaches e o c command w g) (hremote : e.destination.isRemote = true) {t : Entry} :
    t ∈ select o.exclude g.listings.destination.entries ↔
      isEligible o.exclude t = true ∧ ∃ obj,
        w.store.object? e.destination.bucket (keyPrefix e.destination ++ t.relative) = some obj ∧
          t = RemoteListing.entryOf e.destination.bucket t.relative obj := by
  rw [select_eq_filter, List.mem_filter, hg.mem_found_destination_iff hw h hremote]
  constructor
  · rintro ⟨⟨-, hobject⟩, heligible⟩
    exact ⟨heligible, hobject⟩
  · rintro ⟨heligible, hobject⟩
    exact ⟨⟨isFound_of_isEligible heligible, hobject⟩, heligible⟩

end Destination

end Sync

end StoreSync
