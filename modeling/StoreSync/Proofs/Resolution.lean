import StoreSync.Proofs.CoveredKeys
import StoreSync.Proofs.Exclusion

/-!
A batch resolves relative paths below a remote destination, and the destination is listed by
relative paths. The two undo each other: what is resolved is reported under the path that it was
resolved from, and what is reported resolves to the place at which it was found. So different paths
have different places, and a counterpart that is listed lies where a new copy would have been put.
-/
namespace StoreSync.Sync

open ObjectStore Eligibility Plan RemoteListing

variable {d s s' : Location} {w : World} {client : Nat} {watch : Watch} {b : Bucket} {o : Object}
  {x : Entry}

section Resolving

theorem scheme_of_isRemote (hd : d.isRemote = true) : d.scheme = Location.remoteScheme := by
  simpa [Location.isRemote] using hd

/-- The place of a relative path is a key of the destination's bucket and nothing more. -/
theorem target_batch (s : Location) (hd : d.isRemote = true) :
    Placement.target s d true =
      ⟨Location.remoteScheme, d.bucket, keyPrefix d ++ s.relative, true, none⟩ := by
  have hplace : Placement.isExactKey d true = false := by simp [Placement.isExactKey]
  rw [← path_join hd, ← scheme_of_isRemote hd, Placement.target, hplace]
  rfl

theorem same_target_iff (hd : d.isRemote = true) :
    (Placement.target s d true).same (Placement.target s' d true) = true ↔
      s.relative = s'.relative := by
  rw [target_batch s hd, target_batch s' hd, Location.same_iff, String.append_right_inj]
  simp

end Resolving

section Reporting

def Reported (d : Location) (w : World) (client : Nat) (watch : Watch) (x : Entry) : Prop :=
  x ∈ ((RemoteListing.list client (listingLocation d) watch).run w).1.entries ∧ x.fault = none

/-- What is reported lies in the destination's bucket, at a key that begins with the prefix. -/
theorem Reported.object (h : Reported d w client watch x) (hd : d.isRemote = true) :
    ∃ o : Object, (keyPrefix d).toList <+: o.key.toList ∧
      x = listed (listingLocation d) (listingLocation d).listBase.length o := by
  obtain ⟨o, ho, hx⟩ := mem_list (expands_listingLocation hd) h.1 h.2
  refine ⟨o, ?_, hx⟩
  rw [← listBase_listingLocation hd]
  exact listBase_prefix_key (expands_listingLocation hd) ho

/-- A key that is not the prefix itself is the prefix with the relative path behind it. -/
theorem Reported.path (h : Reported d w client watch x) (hd : d.isRemote = true)
    (hne : x.location.path ≠ keyPrefix d) : x.location.path = keyPrefix d ++ x.relative := by
  obtain ⟨o, hstarts, rfl⟩ := h.object hd
  have hlonger : (keyPrefix d).toList.length < o.key.toList.length := by
    refine hstarts.length_le.lt_of_ne fun hlength => hne ?_
    exact String.toList_inj.mp (hstarts.eq_of_length hlength).symm
  rw [← listBase_listingLocation hd] at hstarts hlonger
  have hkey := key_of_longer hstarts hlonger
  rw [listBase_listingLocation hd, ← String.toList_append] at hkey
  rw [listBase_listingLocation hd]
  exact String.toList_inj.mp hkey

/-- An object that is no folder lies behind the prefix in any case. -/
theorem Reported.path_of_found (h : Reported d w client watch x) (hd : d.isRemote = true)
    (hfound : isFound x = true) : x.location.path = keyPrefix d ++ x.relative := by
  obtain ⟨o, hstarts, rfl⟩ := h.object hd
  rw [← listBase_listingLocation hd] at hstarts
  have hkey := key_of_listed hstarts hfound
  rw [listBase_listingLocation hd, ← String.toList_append] at hkey
  rw [listBase_listingLocation hd]
  exact String.toList_inj.mp hkey

/-- What is reported where a relative path is resolved has that relative path. -/
theorem Reported.relative_eq (h : Reported d w client watch x) (hd : d.isRemote = true)
    (hs : s.relative ≠ "") (hpath : x.location.path = (Placement.target s d true).path) :
    x.relative = s.relative := by
  rw [path_target s hd] at hpath
  have hlonger : x.location.path ≠ keyPrefix d := by
    rw [hpath]
    intro heq
    exact hs ((String.append_right_inj (keyPrefix d)).mp (heq.trans String.append_empty.symm))
  exact (String.append_right_inj _).mp ((h.path hd hlonger).symm.trans hpath)

/-- What lies behind the prefix lies where its relative path is resolved. -/
theorem Reported.same_target (h : Reported d w client watch x) (hd : d.isRemote = true)
    (hpath : x.location.path = keyPrefix d ++ x.relative) (hs : s.relative = x.relative) :
    (Placement.target s d true).same x.location = true := by
  obtain ⟨o, -, rfl⟩ := h.object hd
  rw [target_batch s hd, Location.same_iff, hs, ← hpath]
  exact ⟨rfl, rfl, rfl⟩

/-- Each object below the prefix is reported by a listing that meets no outage. -/
theorem reported_listed (hd : d.isRemote = true) (hb : w.store.bucket? d.bucket = some b)
    (hlist : .list ∉ w.store.outages.map Outage.point)
    (hpage : .page ∉ w.store.outages.map Outage.point) (ho : o ∈ b)
    (hstarts : (keyPrefix d).toList <+: o.key.toList) (client : Nat) :
    Reported d w client Watch.never
      (listed (listingLocation d) (listingLocation d).listBase.length o) := by
  have hcovers : RemoteListing.Covers (listingLocation d) o.key := by
    unfold RemoteListing.Covers
    rw [isWildcard_listingLocation, if_neg Bool.false_ne_true]
    exact hstarts
  have hmem : listed (listingLocation d) (listingLocation d).listBase.length o ∈
      (b.filter fun o => RemoteListing.Covers (listingLocation d) o.key).map
        (listed (listingLocation d) (listingLocation d).listBase.length) :=
    List.mem_map_of_mem (List.mem_filter.mpr ⟨ho, decide_eq_true hcovers⟩)
  refine ⟨?_, rfl⟩
  rw [list_undisturbed (l := listingLocation d) (expands_listingLocation hd) hb hlist hpage client]
  dsimp only
  rwa [if_neg (List.ne_nil_of_mem hmem)]

end Reporting

section Inverse

structure UndoEachOther (d : Location) : Prop where
  /-- A relative path is resolved to a key of the destination's bucket: the base of the listing
  with the path behind it. -/
  resolved : ∀ s : Location, Placement.target s d true =
    ⟨Location.remoteScheme, d.bucket,
      String.ofList ((listingLocation d).listBase ++ s.relative.toList), true, none⟩
  /-- An object at that key is reported, unless an outage hides it. -/
  reported : ∀ (w : World) (b : Bucket) (client : Nat) (s : Location), s.relative ≠ "" →
    w.store.bucket? d.bucket = some b → .list ∉ w.store.outages.map Outage.point →
      .page ∉ w.store.outages.map Outage.point →
        (∃ o ∈ b, o.key = (Placement.target s d true).path) →
          ∃ x, Reported d w client Watch.never x ∧
            x.location.same (Placement.target s d true) = true ∧ x.relative = s.relative
  /-- Whatever is reported at that key has the relative path again. -/
  named : ∀ (w : World) (client : Nat) (watch : Watch) (x : Entry) (s : Location),
    Reported d w client watch x → s.relative ≠ "" →
      x.location.path = (Placement.target s d true).path → x.relative = s.relative
  /-- Whatever is reported, at a key other than the base of the listing, is found again. -/
  found : ∀ (w : World) (client : Nat) (watch : Watch) (x : Entry) (s : Location),
    Reported d w client watch x → x.location.path.toList ≠ (listingLocation d).listBase →
      s.relative = x.relative → (Placement.target s d true).same x.location = true
  injective : ∀ s s' : Location,
    (Placement.target s d true).same (Placement.target s' d true) = true ↔
      s.relative = s'.relative
  /-- A counterpart lies where the source would have been copied if there were none. -/
  paired : ∀ (w : World) (client : Nat) (watch : Watch) (exclude : List String)
    (sources : List Entry),
    ∀ pair ∈ (eligibleDiff exclude sources
      ((RemoteListing.list client (listingLocation d) watch).run w).1.entries).common,
        (Placement.target pair.1.location d true).same pair.2.location = true

/-- Where a source is copied to at a remote destination, and what the listing of the destination
reports, undo each other: both put the base of that listing before the relative path. -/
theorem resolution_undoes_listing (hd : d.isRemote = true) : UndoEachOther d where
  resolved s := by
    rw [target_batch s hd, listBase_listingLocation hd, ← String.toList_append,
      String.ofList_toList]
  reported w b client s hs hb hlist hpage := by
    rintro ⟨o, ho, hkey⟩
    have hstarts : (keyPrefix d).toList <+: o.key.toList := by
      rw [hkey, path_target s hd, String.toList_append]
      exact List.prefix_append _ _
    have hreported := reported_listed hd hb hlist hpage ho hstarts client
    refine ⟨_, hreported, ?_, hreported.relative_eq hd hs hkey⟩
    rw [target_batch s hd] at hkey ⊢
    exact (Location.same_iff _).mpr ⟨rfl, rfl, hkey⟩
  named w client watch x s hx hs hpath := hx.relative_eq hd hs hpath
  found w client watch x s hx hne hs := by
    refine hx.same_target hd (hx.path hd fun hpath => hne ?_) hs
    rw [hpath, listBase_listingLocation hd]
  injective s s' := same_target_iff hd
  paired w client watch exclude sources pair hpair := by
    have hmem := (Diff.mem_of_mem_common hpair).2
    obtain ⟨hlisted, heligible⟩ := mem_select_iff.mp hmem
    have hfound := isFound_of_isEligible heligible
    have hx : Reported d w client watch pair.2 :=
      ⟨hlisted, by simpa [isFound] using (Bool.and_eq_true_iff.mp hfound).2⟩
    refine hx.same_target hd (hx.path_of_found hd hfound) ?_
    exact (Diff.partition_ofListings _ _).common_relative pair hpair

def bracketKey : Location := ⟨"s3", "b", "a[", false, none⟩

def bracketKeys : Bucket := [objectAt "a[/", objectAt "a[//x", objectAt "a[y"]

/-- The name that starts with a slash is resolved behind the slash of the folder, and is reported
there under the same name. -/
theorem resolution_undoes_listing_bracket :
    Location.parse "s3://b/a[" false = .ok bracketKey ∧ bracketKey.isRemote = true ∧
      let s : Location := ⟨"", "", "x", true, some "/x"⟩
      Placement.target s bracketKey true = ⟨"s3", "b", "a[//x", true, none⟩ ∧
        ∃ x, Reported bracketKey (twoBuckets [] bracketKeys) 0 Watch.never x ∧
          x.location.same (Placement.target s bracketKey true) = true ∧ x.relative = "/x" := by
  have hremote : bracketKey.isRemote = true := rfl
  have h := resolution_undoes_listing hremote
  refine ⟨rfl, hremote, h.resolved _, ?_⟩
  refine h.reported _ bracketKeys 0 _ (by decide) rfl (by decide) (by decide) ?_
  exact ⟨objectAt "a[//x", by simp [bracketKeys], rfl⟩

end Inverse

end StoreSync.Sync
