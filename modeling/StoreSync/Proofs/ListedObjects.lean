import StoreSync.Proofs.Actions
import StoreSync.Proofs.EligibleEntries
import StoreSync.Proofs.KeyPaths
import StoreSync.RemoteListing

/-!
The entries of remote listings. A listing changes nothing that the world holds. What it finds are
objects of the bucket in their order, up to the page that meets a fault, and the key of each is
the base of the listing with the relative path behind it.
-/
namespace StoreSync.RemoteListing

open ObjectStore Text Eligibility World StoreSync.Action

variable {w w' : World} {client : Nat} {l : Location} {accepts : List Char → Bool}
  {base number : Nat} {p : Progress} {o : Object}

section Worlds

theorem alike_readPages (watch : Watch) (pages : List (List Object)) :
    Alike w ((readPages watch l accepts base number p pages).run w).2 := by
  induction pages generalizing w number p with
  | nil => exact Alike.refl w
  | cons page rest ih =>
    unfold readPages
    rw [run_state_bind]
    have hmeet := keeps_meet frame_alike .page (some l.bucket) (some (toString number)) w
    unfold Keeps at hmeet
    rcases hrun : (meet .page (some l.bucket) (some (toString number))).run.run w with ⟨f | u, w₁⟩
    · rw [hrun] at hmeet
      exact hmeet
    · rw [hrun] at hmeet
      dsimp only
      split
      · exact hmeet
      · exact Alike.trans hmeet ih

theorem keeps_request (client : Nat) (l : Location) (w : World) :
    (request client l).Keeps Alike w := by
  unfold request
  apply keeps_bind frame_alike (keeps_note frame_alike _ _ w)
  intro u w₁ _
  apply keeps_bind frame_alike (keeps_meet frame_alike _ _ _ w₁)
  intro v w₂ _
  apply keeps_bind frame_alike (keeps_bucket frame_alike _ _ w₂)
  intro b w₃ _
  apply keeps_get_bind frame_alike
  split <;> exact keeps_pure frame_alike _ w₃

theorem keeps_status (client : Nat) (l : Location) (w : World) :
    (status client l).Keeps Alike w := by
  unfold status
  apply keeps_bind frame_alike (keeps_note frame_alike _ _ w)
  intro u w₁ _
  apply keeps_tryCatch frame_alike
  · refine keeps_bind frame_alike ?_ fun o w₂ _ => keeps_pure frame_alike _ w₂
    apply keeps_bind frame_alike (keeps_meet frame_alike _ _ _ w₁)
    intro v w₂ _
    exact keeps_object frame_alike _ _ w₂
  · intro f w₂
    split_ifs <;> exact keeps_throw frame_alike _ w₂

/-- A listing changes nothing that the world holds. -/
theorem alike_list (client : Nat) (l : Location) (watch : Watch) (w : World) :
    Alike w ((list client l watch).run w).2 := by
  unfold list
  split_ifs
  · unfold ofKey
    rw [run_state_bind]
    have hstatus := keeps_status client l w
    unfold Keeps at hstatus
    rcases hrun : (status client l).run.run w with ⟨f | e, w₁⟩
    · rw [hrun] at hstatus
      exact hstatus
    · rw [hrun] at hstatus
      exact hstatus
  · rw [run_state_bind]
    have hrequest := keeps_request client l w
    unfold Keeps at hrequest
    rcases hrun : (request client l).run.run w with ⟨f | ps, w₁⟩
    · rw [hrun] at hrequest
      exact hrequest
    · rw [hrun] at hrequest
      exact Alike.trans hrequest (alike_readPages watch ps)

end Worlds

section Pages

def listed (l : Location) (base : Nat) (o : Object) : Entry :=
  entryOf l.bucket (String.ofList (o.key.toList.drop base)) o

/-- A listing that nobody watches reads its pages to the end. -/
theorem readPage_never (l : Location) (accepts : List Char → Bool) (base : Nat) (p : Progress)
    (page : List Object) :
    (readPage Watch.never l accepts base p page).ended = false ∧
      (readPage Watch.never l accepts base p page).entries =
        (page.filter fun o => accepts o.key.toList).map (listed l base) := by
  induction page generalizing p with
  | nil => exact ⟨rfl, rfl⟩
  | cons o rest ih =>
    unfold readPage
    rw [Watch.never, if_neg Bool.false_ne_true]
    cases haccepts : accepts o.key.toList with
    | true =>
      simp only [haccepts, if_true, List.filter_cons, List.map_cons]
      exact ⟨(ih _).1, congrArg _ (ih _).2⟩
    | false =>
      simp only [haccepts, Bool.false_eq_true, if_false, List.filter_cons]
      exact ih _

/-- Whoever watches, a page gives entries of its objects, and perhaps the note that it was
cancelled. -/
theorem mem_readPage {watch : Watch} {page : List Object} {e : Entry}
    (he : e ∈ (readPage watch l accepts base p page).entries) (hfault : e.fault = none) :
    ∃ o ∈ page, e = listed l base o := by
  induction page generalizing p with
  | nil => exact absurd he List.not_mem_nil
  | cons o rest ih =>
    unfold readPage at he
    split_ifs at he
    · obtain rfl := List.mem_singleton.mp he
      cases hfault
    · rcases List.mem_cons.mp he with rfl | he
      · exact ⟨o, List.mem_cons_self, rfl⟩
      · obtain ⟨o', ho', heq⟩ := ih he
        exact ⟨o', List.mem_cons_of_mem o ho', heq⟩
    · obtain ⟨o', ho', heq⟩ := ih he
      exact ⟨o', List.mem_cons_of_mem o ho', heq⟩

theorem not_mem_endedBy {e : Entry} {f : Fault} (hfault : e.fault = none) :
    e ∉ (endedBy l f).entries := by
  unfold endedBy
  split_ifs
  · intro he
    obtain rfl := List.mem_singleton.mp he
    cases hfault
  · exact List.not_mem_nil

theorem mem_readPages {watch : Watch} {pages : List (List Object)} {e : Entry}
    (he : e ∈ ((readPages watch l accepts base number p pages).run w).1.entries)
    (hfault : e.fault = none) : ∃ o ∈ pages.flatten, e = listed l base o := by
  induction pages generalizing w number p with
  | nil =>
    unfold readPages at he
    split_ifs at he
    · obtain rfl := List.mem_singleton.mp he
      cases hfault
    · exact absurd he List.not_mem_nil
  | cons page rest ih =>
    unfold readPages at he
    rw [run_state_bind] at he
    rcases hrun : (meet .page (some l.bucket) (some (toString number))).run.run w with ⟨f | u, w₁⟩
    · rw [hrun] at he
      exact absurd he (not_mem_endedBy hfault)
    · rw [hrun] at he
      have hpage : e ∈ (readPage watch l accepts base p page).entries → ∃ o ∈ (page :: rest).flatten,
          e = listed l base o := by
        intro hmem
        obtain ⟨o, ho, heq⟩ := mem_readPage hmem hfault
        exact ⟨o, List.mem_append_left _ ho, heq⟩
      dsimp only at he
      split_ifs at he
      · exact hpage he
      · rcases List.mem_append.mp he with he | he
        · exact hpage he
        · obtain ⟨o, ho, heq⟩ := ih he
          exact ⟨o, List.mem_append_right _ ho, heq⟩

theorem isFound_entryOf_iff {bucket relative : String} :
    isFound (entryOf bucket relative o) = true ↔ kindOf o.key = .file := by
  cases hkind : kindOf o.key <;> simp [isFound, Entry.isDirectory, entryOf, hkind]

theorem isFound_ofFault (l : Location) (f : Fault) : isFound (Entry.ofFault l f) = false := rfl

theorem found_endedBy (l : Location) (f : Fault) : found (endedBy l f).entries = [] := by
  unfold endedBy
  split_ifs <;> simp [Listing.single, Listing.failed, found, isFound_ofFault]

theorem found_readPages_sublist (pages : List (List Object)) :
    List.Sublist (found ((readPages Watch.never l accepts base number p pages).run w).1.entries)
      (found (pages.flatten.map (listed l base))) := by
  induction pages generalizing w number p with
  | nil =>
    have hnil :
        found ((readPages Watch.never l accepts base number p []).run w).1.entries = [] := by
      unfold readPages
      split_ifs <;> rfl
    exact hnil ▸ List.nil_sublist _
  | cons page rest ih =>
    unfold readPages
    rw [run_state_bind]
    rcases (meet .page (some l.bucket) (some (toString number))).run.run w with ⟨f | u, w₁⟩
    · change List.Sublist (found (endedBy l f).entries) _
      rw [found_endedBy]
      exact List.nil_sublist _
    · obtain ⟨hended, hentries⟩ := readPage_never l accepts base p page
      simp only [hended, Bool.false_eq_true, if_false, run_state_bind]
      rw [List.flatten_cons, List.map_append, found, found, List.filter_append]
      change List.Sublist (List.filter isFound (_ ++ _)) _
      rw [List.filter_append, hentries]
      exact ((List.filter_sublist.map _).filter _).append ih

end Pages

section Keys

/-- A key that is longer than the base of the listing is the base with the relative path behind
it. -/
theorem key_of_longer (hstarts : l.listBase <+: o.key.toList)
    (hlonger : l.listBase.length < o.key.toList.length) :
    o.key.toList = l.listBase ++ (listed l l.listBase.length o).relative.toList := by
  obtain ⟨rest, hrest⟩ := hstarts
  have hdrop : o.key.toList.drop l.listBase.length = rest := by
    rw [← hrest, List.drop_left]
  have hne : String.ofList rest ≠ "" := by
    intro hempty
    obtain rfl : rest = [] := by simpa using congrArg String.toList hempty
    rw [← hrest, List.append_nil] at hlonger
    exact Nat.lt_irrefl _ hlonger
  rw [listed, hdrop, ← hrest]
  simp [entryOf, Entry.relative, Location.relative, locationOf, hne]

/-- The key of an object that is found is the base of the listing with the relative path behind
it. A key that is the base itself is that of a folder, unless it is empty. -/
theorem key_of_listed (hstarts : l.listBase <+: o.key.toList)
    (hfound : isFound (listed l l.listBase.length o) = true) :
    o.key.toList = l.listBase ++ (listed l l.listBase.length o).relative.toList := by
  rcases hstarts.length_le.lt_or_eq with hlonger | hlength
  · exact key_of_longer hstarts hlonger
  · have hkey : l.listBase = o.key.toList := hstarts.eq_of_length hlength
    by_cases hbase : l.listBase = []
    · have hempty : o.key = "" := String.toList_eq_nil_iff.mp (hkey.symm.trans hbase)
      simp [hbase, hempty, listed, entryOf, Entry.relative, Location.relative, locationOf,
        Location.base, Slash.trimEnd, Slash.lastPart]
    · have hslash := Location.endsInSlash_listBase hbase
      rw [hkey] at hslash
      simp [listed, entryOf, isFound, Entry.isDirectory, kindOf, hslash] at hfound

theorem located_listed {items : List Object} (hremote : l.isRemote = true)
    (hstarts : ∀ o ∈ items, l.listBase <+: o.key.toList)
    (hkeys : (items.map Object.key).Nodup) :
    Located l (items.map (listed l l.listBase.length)) where
  distinct := by
    unfold Diff.DistinctPaths found
    refine List.pairwise_map.mpr (List.pairwise_filter.mpr (List.pairwise_map.mpr ?_))
    refine (List.pairwise_map.mp hkeys).imp_of_mem ?_
    intro o o' ho ho' hne hfound hfound' hrel
    apply hne
    apply String.toList_inj.mp
    rw [key_of_listed (hstarts o ho) hfound, key_of_listed (hstarts o' ho') hfound', hrel]
  literal e he := by
    obtain ⟨o, -, rfl⟩ := List.mem_map.mp (List.mem_filter.mp he).1
    rfl
  remote e he := by
    obtain ⟨o, -, rfl⟩ := List.mem_map.mp (List.mem_filter.mp he).1
    rw [hremote]
    rfl
  bucket e he _ := by
    obtain ⟨o, -, rfl⟩ := List.mem_map.mp (List.mem_filter.mp he).1
    rfl

end Keys

section Listings

theorem flatten_of_request {pages : List (List Object)}
    (h : (request client l).Gives w pages w') :
    ∃ b, w.store.bucket? l.bucket = some b ∧
      pages.flatten = startingWith b (String.ofList l.fixedPart) := by
  obtain ⟨w₁, halike, hrest⟩ := gives_of_request h
  obtain ⟨b, w₂, hbucket, hpages⟩ := gives_bind_iff.mp hrest
  obtain ⟨hb, rfl⟩ := gives_bucket_iff.mp hbucket
  refine ⟨b, halike.bucket? l.bucket ▸ hb, ?_⟩
  have hflat := flatten_pages w₂.store.pageSize
    (startingWith b (String.ofList l.fixedPart))
  have hgives := gives_get_bind_iff.mp hpages
  split at hgives
  · next hnil =>
    obtain ⟨rfl, -⟩ := gives_pure_iff.mp hgives
    rw [hnil] at hflat
    simpa using hflat
  · obtain ⟨rfl, -⟩ := gives_pure_iff.mp hgives
    exact hflat

/-- A listing of several objects finds some of those whose keys start with its fixed part. -/
theorem found_list_sublist (hexpands : l.Expands) (w : World) :
    List.Sublist (found ((list client l Watch.never).run w).1.entries)
      (found ((startingWith ((w.store.bucket? l.bucket).getD [])
        (String.ofList l.fixedPart)).map (listed l l.listBase.length))) := by
  unfold Location.Expands at hexpands
  unfold list
  rw [hexpands, Bool.not_true, if_neg Bool.false_ne_true, run_state_bind]
  rcases hrun : (request client l).run.run w with ⟨f | pages, w₁⟩
  · change List.Sublist (found (endedBy l f).entries) _
    rw [found_endedBy]
    exact List.nil_sublist _
  · obtain ⟨b, hb, hflat⟩ := flatten_of_request hrun
    rw [hb, Option.getD_some, ← hflat]
    exact found_readPages_sublist pages

variable {e : Entry}

/-- What a listing of several objects reports, cancelled or not, are objects of its bucket whose
keys begin with its fixed part. -/
theorem mem_list {watch : Watch} (hexpands : l.Expands)
    (he : e ∈ ((list client l watch).run w).1.entries) (hfault : e.fault = none) :
    ∃ o ∈ startingWith ((w.store.bucket? l.bucket).getD []) (String.ofList l.fixedPart),
      e = listed l l.listBase.length o := by
  unfold Location.Expands at hexpands
  unfold list at he
  rw [hexpands, Bool.not_true, if_neg Bool.false_ne_true, run_state_bind] at he
  rcases hrun : (request client l).run.run w with ⟨f | pages, w₁⟩
  · rw [hrun] at he
    exact absurd he (not_mem_endedBy hfault)
  · obtain ⟨b, hb, hflat⟩ := flatten_of_request hrun
    rw [hrun] at he
    rw [hb, Option.getD_some, ← hflat]
    exact mem_readPages he hfault

theorem listBase_prefix_key {b : Bucket} (hexpands : l.Expands)
    (ho : o ∈ startingWith b (String.ofList l.fixedPart)) : l.listBase <+: o.key.toList := by
  have hfixed : l.fixedPart <+: o.key.toList := by
    simpa [startingWith] using (List.mem_filter.mp ho).2
  exact (Location.fixedPart_startsWith_listBase hexpands).trans hfixed

/-- A remote listing finds objects of its own bucket, each at a relative path of its own. -/
theorem located_list (hremote : l.isRemote = true) (hexpands : l.Expands)
    (hkeys : (((w.store.bucket? l.bucket).getD []).map Object.key).Nodup) :
    Located l ((list client l Watch.never).run w).1.entries := by
  have hitems : ((startingWith ((w.store.bucket? l.bucket).getD [])
      (String.ofList l.fixedPart)).map Object.key).Nodup :=
    hkeys.sublist (List.filter_sublist.map Object.key)
  have hlocated := located_listed hremote (fun o ho => listBase_prefix_key hexpands ho) hitems
  exact hlocated.of_sublist (found_list_sublist hexpands w)

/-- What is found lies in the bucket of the listing. -/
theorem location_of_mem_found (hexpands : l.Expands)
    (he : e ∈ found ((list client l Watch.never).run w).1.entries) :
    ∃ key relative, e.location = locationOf l.bucket key relative := by
  have hmem := (found_list_sublist hexpands w).subset he
  obtain ⟨o, -, rfl⟩ := List.mem_map.mp (List.mem_filter.mp hmem).1
  exact ⟨o.key, _, rfl⟩

/-- What is found is in the store, at the base of the listing with the relative path behind it. -/
theorem object?_of_mem_found (hexpands : l.Expands)
    (he : e ∈ found ((list client l Watch.never).run w).1.entries) :
    e.location.path.toList = l.listBase ++ e.relative.toList ∧
      (w.store.object? l.bucket e.location.path).isSome = true := by
  have hmem := (found_list_sublist hexpands w).subset he
  obtain ⟨hlisted, hfound⟩ := List.mem_filter.mp hmem
  obtain ⟨o, ho, rfl⟩ := List.mem_map.mp hlisted
  refine ⟨key_of_listed (listBase_prefix_key hexpands ho) hfound, ?_⟩
  have hin : o ∈ (w.store.bucket? l.bucket).getD [] := (List.mem_filter.mp ho).1
  cases hb : w.store.bucket? l.bucket with
  | none => simp [hb] at hin
  | some b =>
    rw [hb, Option.getD_some] at hin
    rw [Store.object?, hb, Option.bind_some, Bucket.object?, List.find?_isSome]
    exact ⟨o, hin, decide_eq_true rfl⟩

end Listings

section SingleKey

variable {e : Entry}

theorem object?_of_status (h : (status client l).Gives w e w') :
    ∃ o, w.store.object? l.bucket l.path = some o ∧ e = entryOf l.bucket l.base o := by
  unfold status at h
  simp only [gives_bind_iff, gives_note_iff, gives_tryCatch_iff, gives_object_iff,
    gives_pure_iff] at h
  obtain ⟨_, w₁, rfl, ⟨o, w₂, ⟨_, w₃, hmeet, ho, -⟩, rfl, -⟩ | ⟨f, w₂, -, hthrow⟩⟩ := h
  · rw [(alike_of_meet hmeet).object?] at ho
    exact ⟨o, ho, rfl⟩
  · split_ifs at hthrow <;> exact absurd hthrow not_gives_throw

/-- The listing of a key finds its object or nothing. -/
theorem found_key (client : Nat) (hkey : ¬ l.Expands) (w : World) :
    found ((list client l Watch.never).run w).1.entries = [] ∨
      ∃ o, w.store.object? l.bucket l.path = some o ∧
        found ((list client l Watch.never).run w).1.entries =
          found [entryOf l.bucket l.base o] := by
  unfold Location.Expands at hkey
  rw [Bool.not_eq_true] at hkey
  unfold list ofKey
  rw [hkey, Bool.not_false, if_pos rfl, run_state_bind]
  rcases hrun : (status client l).run.run w with ⟨f | e, w₁⟩
  · left
    dsimp only
    split_ifs <;> rfl
  · obtain ⟨o, ho, rfl⟩ := object?_of_status hrun
    exact .inr ⟨o, ho, rfl⟩

theorem mem_found_key (hkey : ¬ l.Expands)
    (he : e ∈ found ((list client l Watch.never).run w).1.entries) :
    ∃ o, w.store.object? l.bucket l.path = some o ∧ e = entryOf l.bucket l.base o := by
  rcases found_key client hkey w with hnil | ⟨o, ho, hfound⟩
  · rw [hnil] at he
    exact absurd he List.not_mem_nil
  · rw [hfound] at he
    exact ⟨o, ho, List.mem_singleton.mp (List.mem_filter.mp he).1⟩

theorem length_found_key (client : Nat) (hkey : ¬ l.Expands) (w : World) :
    (found ((list client l Watch.never).run w).1.entries).length ≤ 1 := by
  rcases found_key client hkey w with hnil | ⟨o, ho, hfound⟩
  · simp [hnil]
  · rw [hfound]
    exact List.length_filter_le _ _

/-- The listing of a key finds the object at the key itself. -/
theorem located_key (hremote : l.isRemote = true) (hkey : ¬ l.Expands) :
    Located l ((list client l Watch.never).run w).1.entries where
  distinct := by
    have hlength := length_found_key client hkey w
    unfold Diff.DistinctPaths
    rcases hfound : found ((list client l Watch.never).run w).1.entries with _ | ⟨e, _ | ⟨f, es⟩⟩
    · exact List.nodup_nil
    · exact List.nodup_singleton _
    · simp [hfound] at hlength
  literal e he := by
    obtain ⟨o, -, rfl⟩ := mem_found_key hkey he
    rfl
  remote e he := by
    obtain ⟨o, -, rfl⟩ := mem_found_key hkey he
    rw [hremote]
    rfl
  bucket e he _ := by
    obtain ⟨o, -, rfl⟩ := mem_found_key hkey he
    rfl

end SingleKey

end StoreSync.RemoteListing
