import StoreSync.Proofs.Actions
import StoreSync.Transfer

/-!
What calls leave when they succeed. A copy to a bucket stores one object, made from the source as
the world has it; a removal from a bucket erases the keys that it names. Both are patches of one
bucket, so nothing else changes.
-/
namespace StoreSync.Transfer

open ObjectStore World StoreSync.Action

section Batches

variable {b key : String} {locations : List Location}

theorem mem_byBucket_iff {group : String × List String} :
    group ∈ byBucket locations ↔
      (∃ l ∈ locations, l.bucket = group.1) ∧
        group.2 = (locations.filter (·.bucket = group.1)).map Location.path := by
  unfold byBucket
  simp only [List.mem_map, List.mem_eraseDups]
  constructor
  · rintro ⟨b, ⟨l, hl, rfl⟩, rfl⟩
    exact ⟨⟨l, hl, rfl⟩, rfl⟩
  · rintro ⟨⟨l, hl, hb⟩, hkeys⟩
    exact ⟨group.1, ⟨l, hl, hb⟩, by rw [← hkeys]⟩

/-- The batches of a bucket name the keys of its locations. -/
theorem mem_batches_iff :
    (∃ batch ∈ batches locations, batch.1 = b ∧ key ∈ batch.2) ↔
      ∃ l ∈ locations, l.bucket = b ∧ l.path = key := by
  unfold batches
  constructor
  · rintro ⟨batch, hbatch, rfl, hkey⟩
    obtain ⟨group, hgroup, hpage⟩ := List.mem_flatMap.mp hbatch
    obtain ⟨keys, hkeys, rfl⟩ := List.mem_map.mp hpage
    have hflat : key ∈ group.2 := by
      rw [← flatten_pages batchSize group.2]
      exact List.mem_flatten.mpr ⟨keys, hkeys, hkey⟩
    rw [(mem_byBucket_iff.mp hgroup).2] at hflat
    obtain ⟨l, hl, hpath⟩ := List.mem_map.mp hflat
    exact ⟨l, (List.mem_filter.mp hl).1, by simpa using (List.mem_filter.mp hl).2, hpath⟩
  · rintro ⟨l, hl, rfl, rfl⟩
    have hgroup : (l.bucket, (locations.filter (·.bucket = l.bucket)).map Location.path) ∈
        byBucket locations := mem_byBucket_iff.mpr ⟨⟨l, hl, rfl⟩, rfl⟩
    have hflat : l.path ∈ (locations.filter (·.bucket = l.bucket)).map Location.path :=
      List.mem_map_of_mem (List.mem_filter.mpr ⟨hl, by simp⟩)
    rw [← flatten_pages batchSize ((locations.filter (·.bucket = l.bucket)).map _)] at hflat
    obtain ⟨keys, hkeys, hkey⟩ := List.mem_flatten.mp hflat
    exact ⟨(l.bucket, keys), List.mem_flatMap.mpr ⟨_, hgroup, List.mem_map_of_mem hkeys⟩, rfl, hkey⟩

/-- Locations of one bucket make batches of that bucket. -/
theorem bucket_of_mem_batches (h : ∀ l ∈ locations, l.bucket = b) {batch : String × List String}
    (hbatch : batch ∈ batches locations) : batch.1 = b := by
  obtain ⟨group, hgroup, hpage⟩ := List.mem_flatMap.mp hbatch
  obtain ⟨keys, -, rfl⟩ := List.mem_map.mp hpage
  obtain ⟨⟨l, hl, hb⟩, -⟩ := mem_byBucket_iff.mp hgroup
  exact hb ▸ h l hl

end Batches

section Removing

variable {w w' : World} {client : Nat} {bucket : String} {keys : List String}
  {tally tally' : Tally} {batch : String × List String}

theorem erasing_append (keys more : List String) (key : String) :
    (Patch.erasing more key).or (Patch.erasing keys key) = Patch.erasing (keys ++ more) key := by
  by_cases hkey : key ∈ keys <;> by_cases hmore : key ∈ more <;>
    simp [Patch.erasing, hkey, hmore]

/-- Keys of which none is reported as failed are erased. -/
theorem patched_eraseKeys (w : World) (s : Store) (h : (eraseKeys bucket keys s).1 = []) :
    Patched bucket (Patch.erasing keys) (w.setStore s)
      (w.setStore (eraseKeys bucket keys s).2) := by
  induction keys generalizing s with
  | nil => exact (Alike.refl _).patched bucket
  | cons key rest ih =>
    have halike := alike_meet (w.setStore s) .deleteKey (some bucket) (some key)
    have herase : ∀ next, Alike (w.setStore s) (w.setStore next) →
        (eraseKeys bucket rest
          (next.setBucket bucket (((next.bucket? bucket).getD []).erase key))).1 = [] →
        Patched bucket (Patch.erasing (key :: rest)) (w.setStore s)
          (w.setStore (eraseKeys bucket rest
            (next.setBucket bucket (((next.bucket? bucket).getD []).erase key))).2) := by
      intro next hnext hrest
      have hfirst := (patched_erase (w.setStore next) bucket key).of_alike hnext
      exact (hfirst.trans (ih _ hrest)).congr (erasing_append [key] rest)
    unfold eraseKeys at h ⊢
    rcases hmeet : s.meet .deleteKey (some bucket) (some key) with ⟨_ | f | report, next⟩
    · simp only [hmeet] at h ⊢
      exact herase next (by simpa [setStore, hmeet] using halike) h
    · simp only [hmeet] at h ⊢
      exact herase next (by simpa [setStore, hmeet] using halike) h
    · simp [hmeet] at h

theorem patched_of_deleteBatch (h : (deleteBatch client bucket keys).Gives w [] w') :
    Patched bucket (Patch.erasing keys) w w' := by
  obtain ⟨w₁, halike, hrest⟩ := gives_of_request h
  obtain ⟨c, w₂, hbucket, herase⟩ := gives_bind_iff.mp hrest
  obtain ⟨-, rfl⟩ := gives_bucket_iff.mp hbucket
  obtain ⟨u, w₃, hset, hpure⟩ := gives_bind_iff.mp (gives_get_bind_iff.mp herase)
  obtain ⟨hnil, rfl⟩ := gives_pure_iff.mp hpure
  have hw' := gives_set_iff.mp hset
  exact hw' ▸ (patched_eraseKeys w₂ w₂.store hnil.symm).of_alike halike

/-- Faults are only added, so a batch after which there are none had none before and succeeded. It
has counted all of its keys. -/
theorem deleteBatch_of_sendBatch (h : (sendBatch client tally batch).Gives w tally' w')
    (hfaults : tally'.faults = []) :
    tally.faults = [] ∧ tally'.deleted = tally.deleted + batch.2.length ∧
      (deleteBatch client batch.1 batch.2).Gives w [] w' := by
  rcases gives_tryCatch_iff.mp h with hsent | ⟨f, w₁, -, hcaught⟩
  · obtain ⟨failures, w₁, hdelete, hpure⟩ := gives_bind_iff.mp hsent
    obtain ⟨rfl, rfl⟩ := gives_pure_iff.mp hpure
    obtain ⟨htally, hmap⟩ := List.append_eq_nil_iff.mp hfaults
    obtain rfl : failures = [] := List.map_eq_nil_iff.mp hmap
    exact ⟨htally, by simp, hdelete⟩
  · by_cases hrequest : f.isRequest = true
    · rw [if_pos hrequest] at hcaught
      obtain ⟨rfl, -⟩ := gives_pure_iff.mp hcaught
      simp at hfaults
    · rw [if_neg hrequest] at hcaught
      exact absurd hcaught not_gives_throw

theorem patched_of_sendBatches {groups : List (String × List String)}
    (hbucket : ∀ batch ∈ groups, batch.1 = bucket)
    (h : (groups.foldlM (sendBatch client) tally).Gives w tally' w')
    (hfaults : tally'.faults = []) :
    tally.faults = [] ∧ Patched bucket (Patch.erasing (groups.flatMap Prod.snd)) w w' := by
  induction groups generalizing tally w with
  | nil =>
    obtain ⟨rfl, rfl⟩ := gives_pure_iff.mp h
    exact ⟨hfaults, (Alike.refl _).patched bucket⟩
  | cons batch rest ih =>
    obtain ⟨next, w₁, hsend, hrest⟩ := gives_bind_iff.mp h
    obtain ⟨hnext, hpatched⟩ := ih (fun b hb => hbucket b (List.mem_cons_of_mem batch hb)) hrest
    obtain ⟨htally, -, hdelete⟩ := deleteBatch_of_sendBatch hsend hnext
    have hfirst := patched_of_deleteBatch hdelete
    rw [hbucket batch List.mem_cons_self] at hfirst
    exact ⟨htally, (hfirst.trans hpatched).congr (erasing_append batch.2 _)⟩

/-- A removal from a bucket that succeeds erases the keys that it names, and nothing else. -/
theorem patched_of_removeRemote {locations : List Location} {count : Int}
    (hbucket : ∀ l ∈ locations, l.bucket = bucket)
    (h : (removeRemote client locations).Gives w count w') :
    Patched bucket (Patch.erasing (locations.map Location.path)) w w' := by
  obtain ⟨tally, w₁, hfold, hlast⟩ := gives_bind_iff.mp h
  have hsingle : tally.faults = [] ∧ w' = w₁ := by
    rcases hfaults : tally.faults with _ | ⟨f, _ | ⟨g, rest⟩⟩
    · simp only [hfaults, Fault.single?, gives_pure_iff] at hlast
      exact ⟨rfl, hlast.2⟩
    · simp only [hfaults, Fault.single?] at hlast
      exact absurd hlast not_gives_throw
    · simp only [hfaults, Fault.single?] at hlast
      exact absurd hlast not_gives_throw
  obtain ⟨hfaults, rfl⟩ := hsingle
  have hgroups : ∀ batch ∈ batches locations, batch.1 = bucket := fun batch hbatch =>
    bucket_of_mem_batches hbucket hbatch
  obtain ⟨-, hpatched⟩ := patched_of_sendBatches hgroups hfold hfaults
  refine hpatched.congr fun key => ?_
  have hmem : key ∈ (batches locations).flatMap Prod.snd ↔ key ∈ locations.map Location.path := by
    rw [List.mem_flatMap, List.mem_map]
    constructor
    · rintro ⟨batch, hbatch, hkey⟩
      obtain ⟨l, hl, -, hpath⟩ := mem_batches_iff.mp ⟨batch, hbatch, rfl, hkey⟩
      exact ⟨l, hl, hpath⟩
    · rintro ⟨l, hl, hpath⟩
      obtain ⟨batch, hbatch, -, hkey⟩ := mem_batches_iff.mpr ⟨l, hl, rfl, hpath⟩
      exact ⟨batch, hbatch, hkey⟩
  simp only [Patch.erasing, hmem]

end Removing

section Storing

variable {w w' : World} {client : Nat} {s d : Location} {extra : Extra} {u : Unit}

/-- What an upload leaves depends on the store through its time and its habits alone. -/
theorem uploaded_congr {t t' : Store} (hnow : t'.now = t.now) (hhabits : t'.habits = t.habits)
    (key : String) (data : ByteArray) (extra : Extra) :
    uploaded t' key data extra = uploaded t key data extra := by
  rw [uploaded, uploaded, hnow, hhabits]

theorem copied_congr {t t' : Store} (h : t'.now = t.now) (key : String) (o : Object)
    (extra : Extra) : copied t' key o extra = copied t key o extra := by
  rw [copied, copied, h]

theorem patched_of_store {bucket : String} {make : Store → Object}
    (h : (store bucket make).Gives w u w') :
    Patched bucket (Patch.storing (make w.store)) w w' := by
  obtain ⟨c, hc, rfl⟩ := gives_store_iff.mp h
  exact patched_put hc _

theorem patched_of_upload (h : (upload client s d extra).Gives w u w') :
    ∃ data modified, w.files.readFile s.path = .ok (data, modified) ∧
      Patched d.bucket (Patch.storing (uploaded w.store d.path data extra)) w w' := by
  obtain ⟨w₁, halike, hrest⟩ := gives_of_request h
  obtain ⟨⟨data, modified⟩, w₂, hlift, hstore⟩ := gives_bind_iff.mp (gives_get_bind_iff.mp hrest)
  obtain ⟨hread, rfl⟩ := gives_liftExcept_iff.mp hlift
  have hstored := (patched_of_store hstore).of_alike halike
  rw [uploaded_congr halike.now halike.habits] at hstored
  exact ⟨data, modified, halike.files ▸ hread, hstored⟩

theorem patched_of_copyRemote {reader : Option Nat}
    (h : (copyRemote client reader s d extra).Gives w u w') :
    ∃ o, w.store.object? s.bucket s.path = some o ∧
      Patched d.bucket (Patch.storing (copied w.store d.path o extra)) w w' := by
  obtain ⟨w₁, halike, hrest⟩ := gives_of_request h
  obtain ⟨o, w₂, hobject, hstore⟩ := gives_bind_iff.mp hrest
  obtain ⟨ho, rfl⟩ := gives_object_iff.mp hobject
  have hstored := (patched_of_store hstore).of_alike halike
  rw [copied_congr halike.now] at hstored
  exact ⟨o, halike.object? s.bucket s.path ▸ ho, hstored⟩

end Storing

end StoreSync.Transfer
