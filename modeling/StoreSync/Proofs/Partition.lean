import Mathlib.Data.List.Nodup
import StoreSync.Diff

/-!
The difference of two listings, seen one relative path at a time. The sort keeps the order of
the entries that share a path, and the merge pairs them from the front, so each side is left
with the tail behind the pairs. `SplitAt` says this of a single path and is kept by every step
of the merge; `Partition` collects it for all paths, together with the order of the results.
-/
namespace StoreSync.Diff

/-- The entries at one relative path, in the order of the listing. -/
def entriesAt (k : String) (es : List Entry) : List Entry := es.filter (·.relative = k)

def locationsAt (k : String) (ls : List Location) : List Location := ls.filter (·.relative = k)

def pairsAt (k : String) (ps : List (Entry × Entry)) : List (Entry × Entry) :=
  ps.filter (·.1.relative = k)

def Sorted (es : List Entry) : Prop := es.Pairwise fun a b => a.relative ≤ b.relative

def DistinctPaths (es : List Entry) : Prop := (es.map Entry.relative).Nodup

instance (es : List Entry) : Decidable (DistinctPaths es) :=
  inferInstanceAs (Decidable (es.map Entry.relative).Nodup)

/-- At one relative path the difference pairs the entries from the front and leaves the tails. -/
structure SplitAt (k : String) (ss ts : List Entry) (d : Diff) : Prop where
  common : pairsAt k d.common = (entriesAt k ss).zip (entriesAt k ts)
  onlySource : locationsAt k d.onlySource =
    ((entriesAt k ss).drop (entriesAt k ts).length).map Entry.location
  onlyDestination : locationsAt k d.onlyDestination =
    ((entriesAt k ts).drop (entriesAt k ss).length).map Entry.location

/-- The difference of two listings: it splits them at every relative path, loses and repeats
nothing, and stands in the order of the paths. -/
structure Partition (ss ts : List Entry) (d : Diff) : Prop where
  splitAt : ∀ k, SplitAt k ss ts d
  source_perm : (d.onlySource ++ d.common.map fun p => p.1.location).Perm (ss.map Entry.location)
  destination_perm :
    (d.onlyDestination ++ d.common.map fun p => p.2.location).Perm (ts.map Entry.location)
  common_relative : ∀ p ∈ d.common, p.1.relative = p.2.relative
  onlySource_sorted : d.onlySource.Pairwise fun a b => a.relative ≤ b.relative
  onlyDestination_sorted : d.onlyDestination.Pairwise fun a b => a.relative ≤ b.relative
  common_sorted : d.common.Pairwise fun p q => p.1.relative ≤ q.1.relative

variable {k : String} {s t : Entry} {ss ts : List Entry} {d : Diff}

theorem relative_location (e : Entry) : e.location.relative = e.relative := rfl

theorem locationsAt_map (k : String) (es : List Entry) :
    locationsAt k (es.map Entry.location) = (entriesAt k es).map Entry.location := by
  rw [locationsAt, List.filter_map]
  rfl

section Sorting

theorem inOrder_trans (a b c : Entry) (hab : inOrder a b = true) (hbc : inOrder b c = true) :
    inOrder a c = true := by
  simp only [inOrder, decide_eq_true_eq] at *
  exact String.le_trans hab hbc

theorem inOrder_total (a b : Entry) : (inOrder a b || inOrder b a) = true := by
  simp only [inOrder, Bool.or_eq_true, decide_eq_true_eq]
  exact String.le_total a.relative b.relative

theorem sorted_sort (es : List Entry) : Sorted (sort es) := by
  have h := List.pairwise_mergeSort inOrder_trans inOrder_total es
  simpa only [Sorted, sort, inOrder, decide_eq_true_eq] using h

theorem sort_perm (es : List Entry) : (sort es).Perm es := List.mergeSort_perm es inOrder

/-- The entries at one path are in order already, so the stable sort leaves them as they are. -/
theorem entriesAt_sort (k : String) (es : List Entry) :
    entriesAt k (sort es) = entriesAt k es := by
  have horder : (entriesAt k es).Pairwise fun a b => inOrder a b = true := by
    apply List.Pairwise.imp_of_mem (R := fun _ _ => True)
    · intro a b ha hb _
      have hak : a.relative = k := by simpa using (List.mem_filter.mp ha).2
      have hbk : b.relative = k := by simpa using (List.mem_filter.mp hb).2
      simp [inOrder, hak, hbk]
    · exact List.pairwise_of_forall (fun _ _ => trivial)
  have hsub : List.Sublist (entriesAt k es) (sort es) :=
    List.sublist_mergeSort inOrder_trans inOrder_total horder List.filter_sublist
  have hfilter := hsub.filter (fun e => decide (e.relative = k))
  simp only [entriesAt, List.filter_filter, Bool.and_self] at hfilter
  have hlength : (entriesAt k (sort es)).length = (entriesAt k es).length :=
    ((sort_perm es).filter _).length_eq
  exact (hfilter.eq_of_length hlength.symm).symm

/-- With distinct paths the sorted listing does not depend on the order of the listing. -/
theorem sort_eq_of_perm {es fs : List Entry} (h : es.Perm fs) (hes : DistinctPaths es) :
    sort es = sort fs := by
  have hperm : (sort es).Perm (sort fs) := (sort_perm es).trans (h.trans (sort_perm fs).symm)
  refine hperm.eq_of_pairwise ?_ (sorted_sort es) (sorted_sort fs)
  intro a b ha hb hab hba
  have hrel : a.relative = b.relative := String.le_antisymm hab hba
  have hb' : b ∈ sort es := hperm.mem_iff.mpr hb
  have hnodup : ((sort es).map Entry.relative).Nodup :=
    ((sort_perm es).map Entry.relative).nodup_iff.mpr hes
  exact List.inj_on_of_nodup_map hnodup ha (hperm.mem_iff.mpr hb) hrel

end Sorting

theorem length_entriesAt_le_one {es : List Entry} (hes : DistinctPaths es) (k : String) :
    (entriesAt k es).length ≤ 1 := by
  have hmap : (entriesAt k es).map Entry.relative = List.replicate (entriesAt k es).length k := by
    rw [List.eq_replicate_iff]
    refine ⟨List.length_map _, ?_⟩
    intro r hr
    obtain ⟨e, he, rfl⟩ := List.mem_map.mp hr
    simpa using (List.mem_filter.mp he).2
  have hnodup : ((entriesAt k es).map Entry.relative).Nodup :=
    hes.sublist (List.filter_sublist.map Entry.relative)
  rw [hmap] at hnodup
  exact List.nodup_replicate.mp hnodup

section Steps

/-- In a sorted listing nothing stands at a path below the first one. -/
theorem entriesAt_eq_nil (hs : Sorted (s :: ss)) (hk : k < s.relative) :
    entriesAt k (s :: ss) = [] := by
  rw [entriesAt, List.filter_eq_nil_iff]
  intro e he hrel
  have hrel : e.relative = k := by simpa using hrel
  have hle : s.relative ≤ e.relative := by
    rcases List.mem_cons.mp he with rfl | he
    · exact String.le_refl _
    · exact (List.pairwise_cons.mp hs).1 e he
  rw [hrel] at hle
  exact String.not_lt.mpr hle hk

theorem SplitAt.addPair (h : s.relative = t.relative) (hd : SplitAt k ss ts d) :
    SplitAt k (s :: ss) (t :: ts) (addPair s t d) := by
  by_cases hk : s.relative = k
  · have htk : t.relative = k := h ▸ hk
    constructor
    · simpa [pairsAt, entriesAt, Diff.addPair, hk, htk] using hd.common
    · simpa [locationsAt, entriesAt, Diff.addPair, hk, htk] using hd.onlySource
    · simpa [locationsAt, entriesAt, Diff.addPair, hk, htk] using hd.onlyDestination
  · have htk : t.relative ≠ k := h ▸ hk
    constructor
    · simpa [pairsAt, entriesAt, Diff.addPair, hk, htk] using hd.common
    · simpa [locationsAt, entriesAt, Diff.addPair, hk, htk] using hd.onlySource
    · simpa [locationsAt, entriesAt, Diff.addPair, hk, htk] using hd.onlyDestination

/-- A source whose path the other listing does not have comes to the source alone. -/
theorem SplitAt.addSource (h : entriesAt s.relative ts = []) (hd : SplitAt k ss ts d) :
    SplitAt k (s :: ss) ts (addSource s d) := by
  by_cases hk : s.relative = k
  · subst hk
    have hnil := h
    simp only [entriesAt] at hnil
    constructor
    · simpa [pairsAt, entriesAt, Diff.addSource, hnil] using hd.common
    · simpa [locationsAt, entriesAt, Diff.addSource, relative_location, hnil] using hd.onlySource
    · simpa [locationsAt, entriesAt, Diff.addSource, hnil] using hd.onlyDestination
  · constructor
    · simpa [pairsAt, entriesAt, Diff.addSource, hk] using hd.common
    · simpa [locationsAt, entriesAt, Diff.addSource, relative_location, hk] using hd.onlySource
    · simpa [locationsAt, entriesAt, Diff.addSource, hk] using hd.onlyDestination

theorem SplitAt.addDestination (h : entriesAt t.relative ss = []) (hd : SplitAt k ss ts d) :
    SplitAt k ss (t :: ts) (addDestination t d) := by
  by_cases hk : t.relative = k
  · subst hk
    have hnil := h
    simp only [entriesAt] at hnil
    constructor
    · simpa [pairsAt, entriesAt, Diff.addDestination, hnil] using hd.common
    · simpa [locationsAt, entriesAt, Diff.addDestination, hnil] using hd.onlySource
    · simpa [locationsAt, entriesAt, Diff.addDestination, relative_location, hnil]
        using hd.onlyDestination
  · constructor
    · simpa [pairsAt, entriesAt, Diff.addDestination, hk] using hd.common
    · simpa [locationsAt, entriesAt, Diff.addDestination, hk] using hd.onlySource
    · simpa [locationsAt, entriesAt, Diff.addDestination, relative_location, hk]
        using hd.onlyDestination

end Steps

section Merging

theorem lt_of_not_lt (h : s.relative ≠ t.relative) (hlt : ¬ t.relative < s.relative) :
    s.relative < t.relative :=
  String.not_le.mp fun hle => h (String.le_antisymm (String.not_lt.mp hlt) hle)

/-- The invariant of the merge: sorted listings are split at every path. -/
theorem splitAt_merge (k : String) (hs : Sorted ss) (ht : Sorted ts) :
    SplitAt k ss ts (merge ss ts) := by
  fun_induction merge ss ts with
  | case1 ts =>
    constructor
    · rfl
    · simp [locationsAt, entriesAt]
    · exact locationsAt_map k ts
  | case2 ss =>
    constructor
    · simp [pairsAt, entriesAt]
    · exact locationsAt_map k ss
    · simp [locationsAt, entriesAt]
  | case3 s ss t ts h ih =>
    exact SplitAt.addPair h (ih (List.pairwise_cons.mp hs).2 (List.pairwise_cons.mp ht).2)
  | case4 s ss t ts h hlt ih =>
    exact SplitAt.addDestination (entriesAt_eq_nil hs hlt) (ih hs (List.pairwise_cons.mp ht).2)
  | case5 s ss t ts h hlt ih =>
    have hst : s.relative < t.relative := lt_of_not_lt h hlt
    exact SplitAt.addSource (entriesAt_eq_nil ht hst) (ih (List.pairwise_cons.mp hs).2 ht)

theorem merge_source_perm (ss ts : List Entry) :
    ((merge ss ts).onlySource ++ (merge ss ts).common.map fun p => p.1.location).Perm
      (ss.map Entry.location) := by
  fun_induction merge ss ts with
  | case1 ts => simp
  | case2 ss => simp
  | case3 s ss t ts h ih => exact List.perm_middle.trans (ih.cons s.location)
  | case4 s ss t ts h hlt ih => exact ih
  | case5 s ss t ts h hlt ih => exact ih.cons s.location

theorem merge_destination_perm (ss ts : List Entry) :
    ((merge ss ts).onlyDestination ++ (merge ss ts).common.map fun p => p.2.location).Perm
      (ts.map Entry.location) := by
  fun_induction merge ss ts with
  | case1 ts => simp
  | case2 ss => simp
  | case3 s ss t ts h ih => exact List.perm_middle.trans (ih.cons t.location)
  | case4 s ss t ts h hlt ih => exact ih.cons t.location
  | case5 s ss t ts h hlt ih => exact ih

theorem merge_common_relative (ss ts : List Entry) :
    ∀ p ∈ (merge ss ts).common, p.1.relative = p.2.relative := by
  fun_induction merge ss ts with
  | case1 ts => simp
  | case2 ss => simp
  | case3 s ss t ts h ih =>
    intro p hp
    rcases List.mem_cons.mp hp with rfl | hp
    · exact h
    · exact ih p hp
  | case4 s ss t ts h hlt ih => exact ih
  | case5 s ss t ts h hlt ih => exact ih

/-! Each result is a part of its listing, in the same order. -/

theorem merge_onlySource_sublist (ss ts : List Entry) :
    List.Sublist (merge ss ts).onlySource (ss.map Entry.location) := by
  fun_induction merge ss ts with
  | case1 ts => exact List.Sublist.refl _
  | case2 ss => exact List.Sublist.refl _
  | case3 s ss t ts h ih => exact ih.cons s.location
  | case4 s ss t ts h hlt ih => exact ih
  | case5 s ss t ts h hlt ih => exact ih.cons_cons s.location

theorem merge_onlyDestination_sublist (ss ts : List Entry) :
    List.Sublist (merge ss ts).onlyDestination (ts.map Entry.location) := by
  fun_induction merge ss ts with
  | case1 ts => exact List.Sublist.refl _
  | case2 ss => exact List.nil_sublist _
  | case3 s ss t ts h ih => exact ih.cons t.location
  | case4 s ss t ts h hlt ih => exact ih.cons_cons t.location
  | case5 s ss t ts h hlt ih => exact ih

theorem merge_common_sublist (ss ts : List Entry) :
    List.Sublist ((merge ss ts).common.map Prod.fst) ss := by
  fun_induction merge ss ts with
  | case1 ts => exact List.Sublist.refl _
  | case2 ss => exact List.nil_sublist _
  | case3 s ss t ts h ih => exact ih.cons_cons s
  | case4 s ss t ts h hlt ih => exact ih
  | case5 s ss t ts h hlt ih => exact ih.cons s

theorem sorted_of_sublist_map {ls : List Location} (hs : Sorted ss)
    (h : List.Sublist ls (ss.map Entry.location)) :
    ls.Pairwise fun a b => a.relative ≤ b.relative := by
  have hmap : (ss.map Entry.location).Pairwise fun a b => a.relative ≤ b.relative :=
    List.pairwise_map.mpr hs
  exact hmap.sublist h

end Merging

section Results

variable (sources destinations : List Entry)

theorem splitAt_ofListings (k : String) :
    SplitAt k sources destinations (ofListings sources destinations) := by
  have h := splitAt_merge k (sorted_sort sources) (sorted_sort destinations)
  constructor
  · simpa only [entriesAt_sort, ofListings] using h.common
  · simpa only [entriesAt_sort, ofListings] using h.onlySource
  · simpa only [entriesAt_sort, ofListings] using h.onlyDestination

/-- The destination alone has something at a path if it has more entries there. -/
theorem exists_onlyDestination_iff (k : String) :
    (∃ l ∈ (ofListings sources destinations).onlyDestination, l.relative = k) ↔
      (entriesAt k sources).length < (entriesAt k destinations).length := by
  have hmem : (∃ l ∈ (ofListings sources destinations).onlyDestination, l.relative = k) ↔
      locationsAt k (ofListings sources destinations).onlyDestination ≠ [] := by
    simp [locationsAt, List.filter_eq_nil_iff]
  rw [hmem, (splitAt_ofListings sources destinations k).onlyDestination, ne_eq,
    List.map_eq_nil_iff, List.drop_eq_nil_iff]
  omega

/-- The difference is an exact partition of both listings. -/
theorem partition_ofListings :
    Partition sources destinations (ofListings sources destinations) where
  splitAt k := splitAt_ofListings sources destinations k
  source_perm := (merge_source_perm _ _).trans ((sort_perm sources).map Entry.location)
  destination_perm :=
    (merge_destination_perm _ _).trans ((sort_perm destinations).map Entry.location)
  common_relative := merge_common_relative _ _
  onlySource_sorted :=
    sorted_of_sublist_map (sorted_sort sources) (merge_onlySource_sublist _ _)
  onlyDestination_sorted :=
    sorted_of_sublist_map (sorted_sort destinations) (merge_onlyDestination_sublist _ _)
  common_sorted := by
    have h := (sorted_sort sources).sublist
      (merge_common_sublist (sort sources) (sort destinations))
    exact (List.pairwise_map (R := fun a b : Entry => a.relative ≤ b.relative)).mp h

/-- Every source is alone or in one pair. -/
theorem length_sources :
    (ofListings sources destinations).onlySource.length +
        (ofListings sources destinations).common.length = sources.length := by
  have hperm := (partition_ofListings sources destinations).source_perm.length_eq
  rwa [List.length_append, List.length_map, List.length_map] at hperm

/-- The difference is an exact partition of both listings, one relative path at a time. With
distinct paths on each side it does not depend on the order of the listings. -/
theorem ofListings_partition :
    Partition sources destinations (ofListings sources destinations) ∧
      ∀ sources' destinations' : List Entry, sources.Perm sources' →
        destinations.Perm destinations' → DistinctPaths sources → DistinctPaths destinations →
          ofListings sources destinations = ofListings sources' destinations' := by
  refine ⟨partition_ofListings sources destinations, ?_⟩
  intro sources' destinations' hs hd hsources hdestinations
  rw [ofListings, ofListings, sort_eq_of_perm hs hsources, sort_eq_of_perm hd hdestinations]

def fileAt (relative : String) (size : Int) : Entry :=
  ⟨⟨"", "", relative, true, some relative⟩, .file, size, none, none, none, none⟩

/-- Two sources in the other order against one destination give the same difference. -/
theorem ofListings_partition_swapped :
    DistinctPaths [fileAt "b" 1, fileAt "a" 2] ∧ DistinctPaths [fileAt "b" 3] ∧
      ofListings [fileAt "b" 1, fileAt "a" 2] [fileAt "b" 3] =
        ofListings [fileAt "a" 2, fileAt "b" 1] [fileAt "b" 3] := by
  have hs : DistinctPaths [fileAt "b" 1, fileAt "a" 2] := by decide
  have hd : DistinctPaths [fileAt "b" 3] := by decide
  exact ⟨hs, hd, (ofListings_partition _ _).2 _ _ (.swap _ _ _) (.refl _) hs hd⟩

end Results

/-! With distinct paths on each side an entry is paired with the one at its path, if there is one,
and belongs to its side alone otherwise. -/

section Distinct

variable {sources destinations : List Entry} {l : Location}

theorem entriesAt_of_mem {es : List Entry} (hes : DistinctPaths es) {e : Entry} (he : e ∈ es) :
    entriesAt e.relative es = [e] := by
  have hmem : e ∈ entriesAt e.relative es := List.mem_filter.mpr ⟨he, by simp⟩
  have hone := length_entriesAt_le_one hes e.relative
  rcases hentries : entriesAt e.relative es with _ | ⟨f, _ | ⟨g, rest⟩⟩
  · simp [hentries] at hmem
  · rw [hentries] at hmem
    rw [List.mem_singleton.mp hmem]
  · simp [hentries] at hone

theorem entriesAt_eq_nil_iff {es : List Entry} :
    entriesAt k es = [] ↔ ∀ e ∈ es, e.relative ≠ k := by
  simp [entriesAt, List.filter_eq_nil_iff]

/-- What is left of one listing behind the entries of another one at the same path. -/
theorem mem_tail_iff {es fs : List Entry} (hes : DistinctPaths es) :
    l ∈ ((entriesAt l.relative es).drop (entriesAt l.relative fs).length).map Entry.location ↔
      ∃ e ∈ es, e.location = l ∧ ∀ f ∈ fs, f.relative ≠ e.relative := by
  constructor
  · intro h
    obtain ⟨e, hdrop, rfl⟩ := List.mem_map.mp h
    have hentries : e ∈ entriesAt e.relative es := List.mem_of_mem_drop hdrop
    have he : e ∈ es := (List.mem_filter.mp hentries).1
    rw [relative_location, entriesAt_of_mem hes he] at hdrop
    refine ⟨e, he, rfl, entriesAt_eq_nil_iff.mp ?_⟩
    by_contra hne
    have hpos := List.length_pos_iff.mpr hne
    have hlength : [e].length ≤ (entriesAt e.relative fs).length := hpos
    rw [List.drop_of_length_le hlength] at hdrop
    exact List.not_mem_nil hdrop
  · rintro ⟨e, he, rfl, hnone⟩
    rw [relative_location, entriesAt_of_mem hes he, entriesAt_eq_nil_iff.mpr hnone]
    simp

theorem eq_of_relative_eq {es : List Entry} (hes : DistinctPaths es) {e f : Entry} (he : e ∈ es)
    (hf : f ∈ es) (hrel : e.relative = f.relative) : e = f := by
  have hentries := entriesAt_of_mem hes he
  rw [hrel, entriesAt_of_mem hes hf] at hentries
  exact (List.singleton_inj.mp hentries).symm

theorem mem_onlySource_iff (hs : DistinctPaths sources) :
    l ∈ (ofListings sources destinations).onlySource ↔
      ∃ s ∈ sources, s.location = l ∧ ∀ t ∈ destinations, t.relative ≠ s.relative := by
  rw [← mem_tail_iff hs, ← (splitAt_ofListings sources destinations l.relative).onlySource]
  simp [locationsAt]

theorem mem_onlyDestination_iff (ht : DistinctPaths destinations) :
    l ∈ (ofListings sources destinations).onlyDestination ↔
      ∃ t ∈ destinations, t.location = l ∧ ∀ s ∈ sources, s.relative ≠ t.relative := by
  rw [← mem_tail_iff ht, ← (splitAt_ofListings sources destinations l.relative).onlyDestination]
  simp [locationsAt]

theorem mem_common_iff (hs : DistinctPaths sources) (ht : DistinctPaths destinations) :
    (s, t) ∈ (ofListings sources destinations).common ↔
      s ∈ sources ∧ t ∈ destinations ∧ s.relative = t.relative := by
  have hmem : (s, t) ∈ (ofListings sources destinations).common ↔
      (s, t) ∈ (entriesAt s.relative sources).zip (entriesAt s.relative destinations) := by
    rw [← (splitAt_ofListings sources destinations s.relative).common]
    simp [pairsAt]
  rw [hmem]
  constructor
  · intro h
    obtain ⟨hleft, hright⟩ := List.of_mem_zip h
    have hrel : t.relative = s.relative := by simpa using (List.mem_filter.mp hright).2
    exact ⟨(List.mem_filter.mp hleft).1, (List.mem_filter.mp hright).1, hrel.symm⟩
  · rintro ⟨hsource, hdestination, hrel⟩
    rw [entriesAt_of_mem hs hsource, hrel, entriesAt_of_mem ht hdestination]
    simp

/-- The sources of a difference, alone or in pairs, have distinct paths if the listing has. -/
theorem nodup_relative_sources (destinations : List Entry) (hs : DistinctPaths sources) :
    (((ofListings sources destinations).onlySource ++
      (ofListings sources destinations).common.map fun p => p.1.location).map
        Location.relative).Nodup := by
  have hperm := (partition_ofListings sources destinations).source_perm.map Location.relative
  rw [hperm.nodup_iff, List.map_map]
  exact hs

end Distinct

end StoreSync.Diff
