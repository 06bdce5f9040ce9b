import StoreSync.Proofs.Reruns

/-!
Runs that converge. When a run of a batch has been carried out, a second one has nothing left to
do: every source is in sync, and nothing is left over if the run deletes. As no source has the empty
path, each copy below a folder has a key of its own, which the second listing finds.
-/
namespace StoreSync.Sync

open ObjectStore Transfer Eligibility World Diff Plan Text

variable {e : Ends} {o : Options} {w w' : World} {g g' : Stage}

/-- A run with nothing left to do: no command is planned, every source is in sync with its
counterpart, and the destination alone has nothing if the run deletes. -/
structure Settled (e : Ends) (o : Options) (g : Stage) : Prop where
  planned : (g.plan e o).fault = none
  idle : commands (g.plan e o).steps = []
  noneNew : (g.listings.diff o.exclude).onlySource = []
  inSync : ∀ s ∈ select o.exclude g.listings.source.entries,
    ∃ t reason, (s, t) ∈ (g.listings.diff o.exclude).common ∧
      Freshness.reason? o.strategy s t = .ok (some reason)
  noSurplus : o.delete = true → (g.listings.diff o.exclude).onlyDestination = []

section Planning

variable {batch : Bool} {sources destinations : List Entry} {s : Entry}

/-- A plan for sources that all have a counterpart in sync has no copies. -/
theorem ofDiff_of_inSync (h : Placed e batch sources destinations)
    (hall : ∀ s ∈ sources, ∃ t ∈ destinations, t.relative = s.relative ∧
      ∃ reason, Freshness.reason? o.strategy s t = .ok (some reason)) :
    (ofListings sources destinations).onlySource = [] ∧
      (ofDiff (planner e batch o) (ofListings sources destinations)).fault = none ∧
        copies (planner e batch o) (ofListings sources destinations) = [] := by
  have hnone : (ofListings sources destinations).onlySource = [] := by
    refine List.eq_nil_iff_forall_not_mem.mpr fun l hl => ?_
    obtain ⟨s, hs, -, hmissing⟩ := (mem_onlySource_iff h.distinctSources).mp hl
    obtain ⟨t, ht, hrel, -⟩ := hall s hs
    exact hmissing t ht hrel
  have hpairs : ∀ pair ∈ (ofListings sources destinations).common,
      ∃ reason, Freshness.reason? o.strategy pair.1 pair.2 = .ok (some reason) := by
    rintro ⟨s, t⟩ hpair
    obtain ⟨hs, ht, hrel⟩ :=
      (mem_common_iff h.distinctSources h.distinctDestinations).mp hpair
    obtain ⟨u, hu, hurel, hreason⟩ := hall s hs
    rwa [eq_of_relative_eq h.distinctDestinations hu ht (hurel.trans hrel)] at hreason
  obtain ⟨notes, -, hnotes⟩ := copyPairs_of_inSync (p := planner e batch o) hpairs
  refine ⟨hnone, ?_, ?_⟩
  · rw [ofDiff, hnotes]
  · rw [copies, hnone, hnotes]
    exact commands_skips notes

end Planning

section Batch

/-- What lies below a prefix under a path that does not end in a slash is listed, unless it is the
prefix itself. -/
theorem kindOf_below_iff {d : Location} {r : String} (hremote : d.isRemote = true)
    (hslash : Slash.endsInSlash r.toList = false) :
    RemoteListing.kindOf (keyPrefix d ++ r) = .file ↔ d.isBucket = true ∨ r ≠ "" := by
  have hkind : ∀ key : String, RemoteListing.kindOf key = .file ↔
      Slash.endsInSlash key.toList = false := by
    intro key
    cases hkey : Slash.endsInSlash key.toList <;> simp [RemoteListing.kindOf, hkey]
  rw [hkind]
  by_cases hempty : r = ""
  · subst hempty
    simp only [String.append_empty, ne_eq, not_true_eq_false, or_false]
    rw [keyPrefix_eq hremote]
    by_cases hpath : d.path = ""
    · simp [hpath, Location.isBucket, hremote, Slash.endsInSlash]
    · cases hfolder : Slash.endsInSlash d.path.toList with
      | true => simp [hpath, hfolder, Location.isBucket]
      | false => simp [hpath, Location.isBucket, Slash.endsInSlash]
  · have hne : r.toList ≠ [] := fun h => hempty (String.toList_eq_nil_iff.mp h)
    rw [String.toList_append, Slash.endsInSlash, List.getLast?_append_of_ne_nil _ hne]
    unfold Slash.endsInSlash at hslash
    simp [hempty, hslash]

/-- When every source has a counterpart in sync, the second run has nothing left to do. -/
theorem Rerun.settled (h : Rerun e o w w' g g')
    (hall : ∀ s ∈ select o.exclude g.listings.source.entries,
      ∃ t ∈ select o.exclude g'.listings.destination.entries, t.relative = s.relative ∧
        ∃ reason, Freshness.reason? o.strategy s t = .ok (some reason)) : Settled e o g' := by
  have hplaced := h.placedAfter
  obtain ⟨hnew, hfault, hcopies⟩ := ofDiff_of_inSync hplaced hall
  have hdiff : g'.listings.diff o.exclude =
      ofListings (select o.exclude g.listings.source.entries)
        (select o.exclude g'.listings.destination.entries) := by
    rw [Listings.diff, h.select_source]
  have hsurplus : o.delete = true → (g'.listings.diff o.exclude).onlyDestination = [] := by
    intro hdelete
    rw [hdiff]
    refine List.eq_nil_iff_forall_not_mem.mpr fun l hl => ?_
    obtain ⟨t, ht, -, hnone⟩ := (mem_onlyDestination_iff hplaced.distinctDestinations).mp hl
    obtain ⟨s, hs, hrel⟩ := h.exists_source hdelete ht
    exact hnone s hs hrel
  constructor
  · rwa [Stage.plan, h.same_batch, hdiff]
  · rw [Stage.plan, h.same_batch]
    refine List.eq_nil_iff_forall_not_mem.mpr fun c hc => ?_
    rcases mem_commands_ofDiff_iff.mp hc with hcopy | ⟨hremoval, -⟩
    · rw [hdiff, hcopies] at hcopy
      exact List.not_mem_nil hcopy
    · exact hremoval.nonempty (hsurplus hremoval.delete)
  · rwa [hdiff]
  · rw [h.select_source, hdiff]
    intro s hs
    obtain ⟨t, ht, hrel, reason, hreason⟩ := hall s hs
    have hpair := (mem_common_iff hplaced.distinctSources hplaced.distinctDestinations).mpr
      ⟨hs, ht, hrel.symm⟩
    exact ⟨t, reason, hpair, hreason⟩
  · exact hsurplus

/-- The second of two runs of a batch has nothing left to do. -/
theorem batch_rerun_settles (h : Rerun e o w w' g g') (hnamed : w.store.Named)
    (hbatch : g.batch = true) : Settled e o g' := by
  obtain ⟨k, command, hreach⟩ := h.first
  refine h.settled fun s hs => h.exists_counterpart hs ?_ ?_
  · refine landing_below_iff.mpr ⟨rfl, fun hexact => ?_⟩
    simp [Placement.isExactKey, hbatch] at hexact
  · have hfound := (select_sublist_found o.exclude g.listings.source.entries).subset hs
    have hslash := endsInSlash_of_found_source h.proper hreach hfound
    have hne := relative_ne_empty_of_found_source h.proper hnamed hreach hfound
    exact (kindOf_below_iff h.remote hslash).mpr (.inr hne)

/-! A run that copies one object and removes another one, and the run behind it. -/

def datedAt (key : String) : Object := { objectAt key with modified := some (.zoned 0) }

def intoFolder : Ends := ⟨⟨"s3", "a", "", false, none⟩, ⟨"s3", "b", "p/", false, none⟩⟩

def stageOf (e : Ends) (o : Options) (batch : Bool) (w : World) : Stage :=
  let opened := ((openSides e o .standard).run.run w).2
  let listed := (list e (.client 0) (.client 1) o "sync").run opened
  ⟨.client 0, .client 1, batch, listed.1, listed.2⟩

theorem proper_twoBuckets {a b : Bucket} (ha : (a.map Object.key).Nodup)
    (hb : (b.map Object.key).Nodup) : (twoBuckets a b).Proper where
  files := ⟨List.nodup_nil, by simp [twoBuckets]⟩
  keys := by simp [twoBuckets, ha, hb]

def datedEntry (bucket key relative : String) : Entry :=
  RemoteListing.entryOf bucket relative (datedAt key)

def beforeCopy : World := twoBuckets [datedAt "x"] [objectAt "p/y"]

def afterCopy : World := twoBuckets [datedAt "x"] [datedAt "p/x"]

def copyingStage : Stage := stageOf intoFolder deletingOptions true beforeCopy

theorem diff_copyingStage :
    copyingStage.listings.diff deletingOptions.exclude =
      ⟨[(datedEntry "a" "x" "x").location],
        [(RemoteListing.entryOf "b" "y" (objectAt "p/y")).location], []⟩ := by
  have hs : select deletingOptions.exclude copyingStage.listings.source.entries =
    [datedEntry "a" "x" "x"] := rfl
  have ht : select deletingOptions.exclude copyingStage.listings.destination.entries =
    [RemoteListing.entryOf "b" "y" (objectAt "p/y")] := rfl
  have hne : (datedEntry "a" "x" "x").relative ≠
    (RemoteListing.entryOf "b" "y" (objectAt "p/y")).relative := by decide
  have hlt : ¬ (RemoteListing.entryOf "b" "y" (objectAt "p/y")).relative <
    (datedEntry "a" "x" "x").relative := by decide
  rw [Listings.diff, hs, ht]
  simp [ofListings, Diff.sort, Diff.merge, hne, hlt, addSource]

theorem commands_copyingStage :
    commands (copyingStage.plan intoFolder deletingOptions).steps =
      [copyTo intoFolder deletingOptions (datedEntry "a" "x" "x").location
        ⟨"s3", "b", "p/x", true, none⟩,
        ⟨Command.removeOp, [(RemoteListing.entryOf "b" "y" (objectAt "p/y")).location],
          baseFlags⟩] := by
  rw [Stage.plan, diff_copyingStage]
  rfl

theorem rerun_copied :
    Rerun intoFolder deletingOptions beforeCopy afterCopy copyingStage
      (stageOf intoFolder deletingOptions true afterCopy) := by
  have hfirst : Reaches intoFolder deletingOptions .standard "sync" beforeCopy
      copyingStage := ⟨_, rfl, rfl, rfl⟩
  have hsecond : Reaches intoFolder deletingOptions .standard "sync" afterCopy
      (stageOf intoFolder deletingOptions true afterCopy) := ⟨_, rfl, rfl, rfl⟩
  refine ⟨rfl, fun _ hbucket => absurd hbucket (by decide), ?_, ?_, ⟨_, _, hfirst⟩,
    complete_of_reaches hfirst rfl, ?_, ?_, ?_, ⟨_, _, hsecond⟩, complete_of_reaches hsecond rfl⟩
  · exact proper_twoBuckets (by decide) (by decide)
  · exact proper_twoBuckets (by decide) (by decide)
  · rw [Stage.plan, diff_copyingStage]
    rfl
  · rw [commands_copyingStage]
    exact ⟨_, _, List.Perm.refl _, .cons (carries_of_fst .copy 1 rfl rfl rfl)
      (.cons (carries_of_fst .remove 1 rfl rfl rfl) (.nil _)), ⟨rfl, rfl⟩⟩
  · have hs : select deletingOptions.exclude copyingStage.listings.source.entries =
      [datedEntry "a" "x" "x"] := rfl
    rw [hs, commands_copyingStage]
    intro s hs l flags hc obj hobj
    obtain rfl := List.mem_singleton.mp hs
    rcases List.mem_cons.mp hc with hcopy | hremoval
    · obtain rfl : l = ⟨"s3", "b", "p/x", true, none⟩ :=
        Option.some.inj (congrArg Command.destination? hcopy)
      obtain rfl : datedAt "p/x" = obj := Option.some.inj hobj
      exact ⟨rfl, ⟨0, 0, rfl, rfl, Int.le_refl 0⟩, rfl⟩
    · have hne : Command.copyOp ≠ Command.removeOp := by decide
      exact absurd (congrArg Command.op (List.mem_singleton.mp hremoval)) hne

/-- Such a run settles. -/
theorem batch_rerun_settles_copied :
    Rerun intoFolder deletingOptions beforeCopy afterCopy copyingStage
        (stageOf intoFolder deletingOptions true afterCopy) ∧
      beforeCopy.store.Named ∧ copyingStage.batch = true ∧
      Settled intoFolder deletingOptions (stageOf intoFolder deletingOptions true afterCopy) := by
  have hnamed : beforeCopy.store.Named := by
    unfold Store.Named
    decide
  exact ⟨rerun_copied, hnamed, rfl, batch_rerun_settles rerun_copied hnamed rfl⟩

end Batch

end StoreSync.Sync
