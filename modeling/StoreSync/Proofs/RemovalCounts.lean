import StoreSync.Proofs.Transfers
import StoreSync.Sync.Run

/-!
What a removal counts. The batches of a removal name each of its locations once, whatever buckets
they are in, and a removal that ends with faults does not succeed. So one that succeeds has
counted every location that it names, on either side of a run.
-/
namespace StoreSync.Transfer

open ObjectStore World StoreSync.Action

variable {locations : List Location} {client : Nat} {tally tally' : Tally} {w w' : World}
  {count : Int}

section Grouping

/-- The first location's bucket comes first, with all of its keys. -/
theorem byBucket_cons (l : Location) (ls : List Location) :
    byBucket (l :: ls) =
      (l.bucket, ((l :: ls).filter (·.bucket = l.bucket)).map Location.path) ::
        byBucket (ls.filter (·.bucket ≠ l.bucket)) := by
  unfold byBucket
  rw [List.map_cons, List.eraseDups_cons, List.map_cons]
  congr 1
  have hbuckets : (ls.map Location.bucket).filter (fun b => !b == l.bucket) =
      (ls.filter (·.bucket ≠ l.bucket)).map Location.bucket := by
    rw [List.filter_map]
    congr 1
    exact List.filter_congr fun m _ => by simp [beq_eq_decide]
  rw [hbuckets]
  refine List.map_congr_left fun b hb => ?_
  obtain ⟨m, hm, rfl⟩ := List.mem_map.mp (List.mem_eraseDups.mp hb)
  have hne : m.bucket ≠ l.bucket := by simpa using (List.mem_filter.mp hm).2
  rw [List.filter_cons_of_neg (by simpa using hne.symm), List.filter_filter]
  congr 2
  refine List.filter_congr fun k _ => ?_
  by_cases hk : k.bucket = m.bucket <;> simp [hk, hne]

/-- Bucket by bucket: behind the first location's bucket come those of the others. -/
@[elab_as_elim]
theorem bucket_induction {motive : List Location → Prop} (nil : motive [])
    (cons : ∀ l ls, motive (ls.filter (·.bucket ≠ l.bucket)) → motive (l :: ls))
    (ls : List Location) : motive ls := by
  induction h : ls.length using Nat.strongRecOn generalizing ls with
  | ind n ih =>
    subst h
    rcases ls with _ | ⟨l, ls⟩
    · exact nil
    · have hothers := List.length_filter_le (fun m => decide (m.bucket ≠ l.bucket)) ls
      exact cons l ls (ih _ (Nat.lt_succ_of_le hothers) _ rfl)

theorem length_keys_byBucket (ls : List Location) :
    ((byBucket ls).flatMap Prod.snd).length = ls.length := by
  induction ls using bucket_induction with
  | nil => rfl
  | cons l ls hrest =>
    have hsplit := List.length_eq_length_filter_add (l := ls) (fun m => m.bucket = l.bucket)
    rw [byBucket_cons, List.flatMap_cons, List.length_append, hrest]
    simp only [List.length_map, List.length_cons, decide_true, List.filter_cons_of_pos,
      ne_eq, decide_not]
    omega

theorem keys_batches (ls : List Location) :
    (batches ls).flatMap Prod.snd = (byBucket ls).flatMap Prod.snd := by
  unfold batches
  rw [List.flatMap_assoc]
  refine List.flatMap_congr fun group _ => ?_
  rw [List.flatMap_map]
  simpa [List.flatMap_def] using flatten_pages batchSize group.2

end Grouping

section Counting

/-- Without a fault at the end every batch has counted all of its keys. -/
theorem deleted_of_sendBatches {groups : List (String × List String)}
    (h : (groups.foldlM (sendBatch client) tally).Gives w tally' w') (hnone : tally'.faults = []) :
    tally.faults = [] ∧ tally'.deleted = tally.deleted + (groups.flatMap Prod.snd).length := by
  induction groups generalizing tally w with
  | nil =>
    obtain ⟨rfl, rfl⟩ := gives_pure_iff.mp h
    exact ⟨hnone, by simp⟩
  | cons batch rest ih =>
    obtain ⟨next, w₁, hsend, hrest⟩ := gives_bind_iff.mp h
    obtain ⟨hnext, hdeleted⟩ := ih hrest
    obtain ⟨htally, hbatch, -⟩ := deleteBatch_of_sendBatch hsend hnext
    refine ⟨htally, ?_⟩
    rw [hdeleted, hbatch, List.flatMap_cons, List.length_append, Int.natCast_add, Int.add_assoc]

theorem count_of_removeRemote (h : (removeRemote client locations).Gives w count w') :
    count = locations.length := by
  obtain ⟨tally, w₁, hfold, hlast⟩ := gives_bind_iff.mp h
  rcases hfaults : tally.faults with _ | ⟨f, _ | ⟨g, rest⟩⟩
  · obtain ⟨-, hdeleted⟩ := deleted_of_sendBatches hfold hfaults
    simp only [hfaults, Fault.single?, gives_pure_iff] at hlast
    rw [hlast.1, hdeleted, keys_batches, length_keys_byBucket]
    exact Int.zero_add _
  · simp only [hfaults, Fault.single?] at hlast
    exact absurd hlast not_gives_throw
  · simp only [hfaults, Fault.single?] at hlast
    exact absurd hlast not_gives_throw

theorem removeFile_cases {l : Location} (h : (removeFile tally l).Gives w tally' w') :
    tally' = { tally with deleted := tally.deleted + 1 } ∨
      ∃ f, tally' = { tally with faults := tally.faults ++ [f] } := by
  have hfile := gives_get_bind_iff.mp h
  cases hremove : w.files.removeFile l.path with
  | ok t =>
    simp only [hremove] at hfile
    obtain ⟨u, w₁, -, hpure⟩ := gives_bind_iff.mp hfile
    exact .inl (gives_pure_iff.mp hpure).1
  | error f =>
    simp only [hremove] at hfile
    by_cases hsystem : f.isSystem = true
    · rw [if_pos hsystem] at hfile
      exact .inr ⟨f, (gives_pure_iff.mp hfile).1⟩
    · rw [if_neg hsystem] at hfile
      exact absurd hfile not_gives_throw

theorem deleted_of_removeFiles (h : (locations.foldlM removeFile tally).Gives w tally' w')
    (hnone : tally'.faults = []) :
    tally.faults = [] ∧ tally'.deleted = tally.deleted + locations.length := by
  induction locations generalizing tally w with
  | nil =>
    obtain ⟨rfl, rfl⟩ := gives_pure_iff.mp h
    exact ⟨hnone, by simp⟩
  | cons l rest ih =>
    obtain ⟨next, w₁, hremove, hrest⟩ := gives_bind_iff.mp h
    obtain ⟨hnext, hdeleted⟩ := ih hrest
    rcases removeFile_cases hremove with rfl | ⟨f, rfl⟩
    · refine ⟨hnext, ?_⟩
      rw [hdeleted, List.length_cons]
      push_cast
      omega
    · simp at hnext

theorem count_of_removeLocal (h : (removeLocal locations).Gives w count w') :
    count = locations.length := by
  obtain ⟨tally, w₁, hfold, hlast⟩ := gives_bind_iff.mp h
  rcases hfaults : tally.faults with _ | ⟨f, _ | ⟨g, rest⟩⟩
  · obtain ⟨-, hdeleted⟩ := deleted_of_removeFiles hfold hfaults
    simp only [hfaults, gives_pure_iff] at hlast
    rw [hlast.1, hdeleted]
    exact Int.zero_add _
  · simp only [hfaults] at hlast
    exact absurd hlast not_gives_throw
  · simp only [hfaults] at hlast
    exact absurd hlast not_gives_throw

/-- A removal that succeeds counts each location that it names. -/
theorem count_of_remove {side : Side} (h : (remove side locations).Gives w count w') :
    count = locations.length := by
  cases side with
  | files => exact count_of_removeLocal h
  | client n => exact count_of_removeRemote h

end Counting

end StoreSync.Transfer
