import StoreSync.Proofs.Convergence
import StoreSync.Proofs.FailedListings

/-!
Runs of a single object. Its key at the destination is the exact key that is given there, but the
destination is listed as a folder all the same: a counterpart below the key takes the copy in
place of the key, and a copy on the key is not found again by the next run.
-/
namespace StoreSync.Sync

open ObjectStore Transfer Eligibility World Diff Plan

variable {e : Ends} {o : Options} {k : Connection} {command : String} {w w' : World}
  {g g' : Stage} {s t : Entry} {c : Command}

def changed (c : Command) : List Location :=
  if c.op = Command.copyOp then c.destination?.toList else c.locations

section ExactKey

theorem changed_copy (s d : Location) (flags : Flags) :
    changed ⟨Command.copyOp, [s, d], flags⟩ = [d] := by
  simp [changed, Command.destination?]

theorem changed_removalOf (d : Diff) : changed (removalOf d) = d.onlyDestination := by
  have hne : Command.removeOp ≠ Command.copyOp := by decide
  simp [changed, removalOf, hne]

def KeepsTo (d : Location) (c : Command) : Prop := ∃ l, changed c = [l] ∧ l.same d = true

theorem keepsTo_target {s d : Location} (hexact : Placement.isExactKey d false = true)
    (flags : Flags) :
    KeepsTo d ⟨Command.copyOp, [s, Placement.target s d false], flags⟩ := by
  refine ⟨_, changed_copy s _ flags, ?_⟩
  rw [Placement.target, hexact, if_pos rfl]
  exact d.same_refl

theorem isRemote_of_isExactKey {d : Location} (h : Placement.isExactKey d false = true) :
    d.isRemote = true := by
  simp only [Placement.isExactKey, Bool.and_eq_true] at h
  exact h.1

/-- What is listed for an exact key is not the key. -/
theorem not_same_of_found (h : Reaches e o k command w g)
    (hexact : Placement.isExactKey e.destination false = true)
    (ht : t ∈ found g.listings.destination.entries) :
    t.location.same e.destination = false := by
  have hremote := isRemote_of_isExactKey hexact
  have hpath := (object?_of_found_destination h hremote ht).1
  rw [← Bool.not_eq_true, Location.same_iff]
  rintro ⟨-, -, hsame⟩
  exact path_ne_below hexact t.relative (hsame.symm.trans hpath)

/-- A single object has one counterpart at most. -/
theorem length_common_le_one (hw : w.Proper) (h : Reaches e o k command w g)
    (hsingle : g.batch = false) : (g.listings.diff o.exclude).common.length ≤ 1 := by
  have hsum := length_sources (select o.exclude g.listings.source.entries)
    (select o.exclude g.listings.destination.entries)
  have hsources := (select_sublist_found o.exclude g.listings.source.entries).length_le
  have hfound := length_found_source hw h hsingle
  change (ofListings _ _).common.length ≤ 1
  omega

theorem planned_of_copied (hw : w.Proper) (h : Reaches e o k command w g)
    (hsingle : g.batch = false) (hpair : (s, t) ∈ (g.listings.diff o.exclude).common)
    (hreason : Freshness.reason? o.strategy s t = .ok none) : (g.plan e o).fault = none := by
  have hlength := length_common_le_one hw h hsingle
  obtain ⟨pair, hcommon⟩ := List.length_eq_one_iff.mp
    (Nat.le_antisymm hlength (List.length_pos_of_mem hpair))
  rw [hcommon, List.mem_singleton] at hpair
  subst hpair
  change (copyPairs _ (g.listings.diff o.exclude).common).fault = none
  rw [hcommon, copyPairs, copyPair]
  simp only [planner, hreason]
  rfl

/-- A command that changes what is listed for an exact key does not keep to the key. -/
theorem not_keepsTo_of_changed (h : Reaches e o k command w g)
    (hexact : Placement.isExactKey e.destination false = true)
    (ht : t ∈ select o.exclude g.listings.destination.entries) (hc : t.location ∈ changed c) :
    ¬ KeepsTo e.destination c := by
  rintro ⟨l, hchanged, hsame⟩
  rw [hchanged, List.mem_singleton] at hc
  have hfound := (select_sublist_found o.exclude g.listings.destination.entries).subset ht
  rw [← hc, not_same_of_found h hexact hfound] at hsame
  cases hsame

/-- A source that is copied to its counterpart is copied by a command of the plan. -/
theorem mem_commands_of_copied (hw : w.Proper) (h : Reaches e o k command w g)
    (hsingle : g.batch = false) (hremote : e.destination.isRemote = true)
    (hpair : (s, t) ∈ (g.listings.diff o.exclude).common)
    (hdiffer : s.location.same t.location = false)
    (hreason : Freshness.reason? o.strategy s t = .ok none) :
    ⟨Command.copyOp, [s.location, t.location], Plan.copyFlags (planner e g.batch o)⟩ ∈
      commands (g.plan e o).steps := by
  obtain ⟨hs, ht, -⟩ := (mem_common_iff ((located_source hw h).distinct_select o.exclude)
    ((located_destination hw h hremote).distinct_select o.exclude)).mp hpair
  have hsource := (located_source hw h).literal s (mem_found_of_mem_select hs)
  have hdestination := literal_of_found_destination h (mem_found_of_mem_select ht)
  have hcopy : copyPair? (planner e g.batch o) (s, t) = some
      ⟨Command.copyOp, [s.location, t.location], Plan.copyFlags (planner e g.batch o)⟩ :=
    copyPair?_iff.mpr ⟨hreason, hdiffer, Location.isWildcard_of_literal hsource,
      Location.isWildcard_of_literal hdestination, rfl⟩
  have hplan := planned_of_copied hw h hsingle hpair hreason
  exact mem_commands_ofDiff_iff.mpr (.inl (mem_copies_of_copyPair hplan hpair hcopy))

/-- What the destination alone has is removed by a command of the plan. -/
theorem removalOf_mem_commands (h : Reaches e o k command w g) (hdelete : o.delete = true)
    (hplan : (g.plan e o).fault = none)
    (ht : t.location ∈ (g.listings.diff o.exclude).onlyDestination) :
    removalOf (g.listings.diff o.exclude) ∈ commands (g.plan e o).steps := by
  have hremoval := comesToRemoval_of_ne_nil h hdelete hplan (List.ne_nil_of_mem ht)
  exact mem_commands_ofDiff_iff.mpr (.inr ⟨hremoval, rfl⟩)

/-- A run of a single object to an exact key changes that key alone, exactly when its listed
counterpart below the key does not take the copy and nothing below the key is removed. -/
theorem single_run_keeps_to_key_iff (hw : w.Proper) (h : Reaches e o k command w g)
    (hsingle : g.batch = false) (hexact : Placement.isExactKey e.destination false = true) :
    (∀ c ∈ commands (g.plan e o).steps, KeepsTo e.destination c) ↔
      (∀ s ∈ select o.exclude g.listings.source.entries,
        ∀ t ∈ select o.exclude g.listings.destination.entries, s.relative = t.relative →
          s.location.same t.location = false → Freshness.reason? o.strategy s t ≠ .ok none) ∧
      (o.delete = true → (g.plan e o).fault = none →
        ∀ t ∈ select o.exclude g.listings.destination.entries,
          ∃ s ∈ select o.exclude g.listings.source.entries, s.relative = t.relative) := by
  have hremote := isRemote_of_isExactKey hexact
  have hsources := (located_source hw h).distinct_select o.exclude
  have hdestinations := (located_destination hw h hremote).distinct_select o.exclude
  constructor
  · intro hall
    constructor
    · intro s hs t ht hrel hdiffer hreason
      have hpair : (s, t) ∈ (g.listings.diff o.exclude).common :=
        (mem_common_iff hsources hdestinations).mpr ⟨hs, ht, hrel⟩
      have hcommand := mem_commands_of_copied hw h hsingle hremote hpair hdiffer hreason
      refine not_keepsTo_of_changed h hexact ht ?_ (hall _ hcommand)
      rw [changed_copy]
      exact List.mem_singleton_self _
    · intro hdelete hplan t ht
      by_contra hnone
      have hl : t.location ∈ (g.listings.diff o.exclude).onlyDestination :=
        (mem_onlyDestination_iff hdestinations).mpr
          ⟨t, ht, rfl, fun s hs hrel => hnone ⟨s, hs, hrel⟩⟩
      have hcommand := removalOf_mem_commands h hdelete hplan hl
      refine not_keepsTo_of_changed h hexact ht ?_ (hall _ hcommand)
      rw [changed_removalOf]
      exact hl
  · rintro ⟨hcopied, hremoved⟩ c hc
    rcases mem_commands_ofDiff_iff.mp hc with hcopy | ⟨hremoval, rfl⟩
    · rcases mem_copies hcopy with ⟨l, -, hcommand⟩ | ⟨⟨s, t⟩, hpair, hcommand⟩
      · obtain ⟨-, -, rfl⟩ := copyNew_command?_iff.mp hcommand
        rw [hsingle]
        exact keepsTo_target hexact _
      · obtain ⟨hreason, hdiffer, -⟩ := copyPair?_iff.mp hcommand
        obtain ⟨hs, ht, hrel⟩ := (mem_common_iff hsources hdestinations).mp hpair
        exact absurd hreason (hcopied s hs t ht hrel hdiffer)
    · obtain ⟨l, hl⟩ := List.exists_mem_of_ne_nil _ hremoval.nonempty
      obtain ⟨t, ht, -, hnone⟩ := (mem_onlyDestination_iff hdestinations).mp hl
      obtain ⟨s, hs, hrel⟩ := hremoved hremoval.delete hremoval.fault t ht
      exact absurd hrel (hnone s hs)

/-! One object of the first bucket, and a place for it in the second one. -/

def oneInto (path : String) : Ends :=
  ⟨⟨"s3", "a", "x", false, none⟩, ⟨"s3", "b", path, false, none⟩⟩

def oneStage (path : String) (w : World) : Stage := stageOf (oneInto path) .standard false w

/-- Nothing lies below the key. -/
theorem single_run_keeps_to_free_key :
    (twoBuckets [objectAt "x"] [objectAt "k"]).Proper ∧
      Reaches (oneInto "k") .standard .standard "sync" (twoBuckets [objectAt "x"] [objectAt "k"])
        (oneStage "k" (twoBuckets [objectAt "x"] [objectAt "k"])) ∧
      Placement.isExactKey (oneInto "k").destination false = true ∧
      ∀ c ∈ commands ((oneStage "k" (twoBuckets [objectAt "x"] [objectAt "k"])).plan
        (oneInto "k") .standard).steps, KeepsTo (oneInto "k").destination c := by
  have hproper : (twoBuckets [objectAt "x"] [objectAt "k"]).Proper :=
    proper_twoBuckets (by decide) (by decide)
  have hreaches : Reaches (oneInto "k") .standard .standard "sync"
      (twoBuckets [objectAt "x"] [objectAt "k"])
      (oneStage "k" (twoBuckets [objectAt "x"] [objectAt "k"])) := ⟨_, rfl, rfl, rfl⟩
  have hnone : select Options.standard.exclude
      (oneStage "k" (twoBuckets [objectAt "x"] [objectAt "k"])).listings.destination.entries =
        [] := rfl
  refine ⟨hproper, hreaches, rfl, ?_⟩
  refine (single_run_keeps_to_key_iff hproper hreaches rfl rfl).mpr ⟨?_, fun _ _ => ?_⟩
  · rw [hnone]
    exact fun _ _ _ ht => absurd ht List.not_mem_nil
  · rw [hnone]
    exact fun _ ht => absurd ht List.not_mem_nil

/-- An object of the same name below the key is overwritten in place of the key. -/
theorem single_run_leaves_key :
    (twoBuckets [objectAt "x"] [objectAt "k/x"]).Proper ∧
      Reaches (oneInto "k") .standard .standard "sync"
        (twoBuckets [objectAt "x"] [objectAt "k/x"])
        (oneStage "k" (twoBuckets [objectAt "x"] [objectAt "k/x"])) ∧
      Placement.isExactKey (oneInto "k").destination false = true ∧ Apart (oneInto "k") ∧
      ∃ c ∈ commands ((oneStage "k" (twoBuckets [objectAt "x"] [objectAt "k/x"])).plan
        (oneInto "k") .standard).steps, changed c = [⟨"s3", "b", "k/x", true, some "x"⟩] := by
  have hs : select Options.standard.exclude
      (oneStage "k" (twoBuckets [objectAt "x"] [objectAt "k/x"])).listings.source.entries =
        [entryAt "a" "x"] := rfl
  have ht : select Options.standard.exclude
      (oneStage "k" (twoBuckets [objectAt "x"] [objectAt "k/x"])).listings.destination.entries =
        [RemoteListing.entryOf "b" "x" (objectAt "k/x")] := rfl
  have hrel : (entryAt "a" "x").relative =
    (RemoteListing.entryOf "b" "x" (objectAt "k/x")).relative := rfl
  have hdiff : (oneStage "k" (twoBuckets [objectAt "x"] [objectAt "k/x"])).listings.diff
      Options.standard.exclude =
        ⟨[], [], [(entryAt "a" "x", RemoteListing.entryOf "b" "x" (objectAt "k/x"))]⟩ := by
    rw [Listings.diff, hs, ht]
    simp [ofListings, Diff.sort, Diff.merge, hrel, addPair]
  refine ⟨proper_twoBuckets (by decide) (by decide), ⟨_, rfl, rfl, rfl⟩, rfl,
    fun _ hbucket => absurd hbucket (by decide), ?_⟩
  rw [Stage.plan, hdiff]
  exact ⟨_, List.mem_singleton_self _, rfl⟩

end ExactKey

section Rerunning

/-- The second of two runs of a single object copies nothing, exactly when the destination is no
exact key or the first run found a counterpart below that key. -/
theorem single_rerun_copies_nothing_iff (h : Rerun e o w w' g g') (hsingle : g.batch = false) :
    (∀ c ∈ commands (g'.plan e o).steps, c.op ≠ Command.copyOp) ↔
      (Placement.isExactKey e.destination false = true →
        ∀ s ∈ select o.exclude g.listings.source.entries,
          ∃ t ∈ select o.exclude g.listings.destination.entries, t.relative = s.relative) := by
  obtain ⟨k, command, hreach⟩ := h.first
  have hplaced := h.placedAfter
  constructor
  · intro hnocopy hexact s hs
    by_contra hnone
    have hmissing : ∀ t ∈ select o.exclude g'.listings.destination.entries,
        t.relative ≠ s.relative := by
      intro t ht hrel
      have hlands := (h.landing_of_counterpart hs ht hrel).1
      rw [hsingle, landing_below_iff] at hlands
      exact hnone (hlands.2 hexact)
    obtain ⟨c, hc, hcopyOf⟩ := exists_copy_of_missing (o := o) hplaced hs hmissing
    refine hnocopy c ?_ hcopyOf.op
    rw [Stage.plan, h.same_batch, Listings.diff, h.select_source]
    exact mem_commands_ofDiff_iff.mpr (.inl hc)
  · intro hcondition c hc
    have hsettled : Settled e o g' := by
      refine h.settled fun s hs => h.exists_counterpart hs ?_ ?_
      · rw [hsingle]
        exact landing_below_iff.mpr ⟨rfl, fun hexact => hcondition hexact s hs⟩
      · have hfound := (select_sublist_found o.exclude g.listings.source.entries).subset hs
        have hnamed := single_of_found_source hreach hsingle hfound
        refine (kindOf_below_iff h.remote
          (endsInSlash_of_found_source h.proper hreach hfound)).mpr (.inr ?_)
        rw [hnamed.relative]
        exact hnamed.named
    rw [hsettled.idle] at hc
    exact absurd hc List.not_mem_nil

/-! The copy into a folder is found again, the one onto a key is not. -/

theorem ofListings_other (key : String) :
    ofListings [datedEntry "a" "x" "x"] [datedEntry "b" key "y"] =
      ⟨[(datedEntry "a" "x" "x").location], [(datedEntry "b" key "y").location], []⟩ := by
  have hs : (datedEntry "a" "x" "x").relative = "x" := rfl
  have ht : (datedEntry "b" key "y").relative = "y" := rfl
  have hne : "x" ≠ "y" := by decide
  have hlt : ¬ "y" < "x" := by decide
  simp [ofListings, Diff.sort, Diff.merge, hs, ht, hne, hlt, addSource]

def besideFolder : World := twoBuckets [datedAt "x"] [datedAt "p/y"]

def inFolder : World := twoBuckets [datedAt "x"] [datedAt "p/y", datedAt "p/x"]

theorem rerun_inFolder :
    Rerun (oneInto "p/") .standard besideFolder inFolder (oneStage "p/" besideFolder)
      (oneStage "p/" inFolder) := by
  have hfirst : Reaches (oneInto "p/") .standard .standard "sync" besideFolder
      (oneStage "p/" besideFolder) := ⟨_, rfl, rfl, rfl⟩
  have hsecond : Reaches (oneInto "p/") .standard .standard "sync" inFolder
      (oneStage "p/" inFolder) := ⟨_, rfl, rfl, rfl⟩
  have hdiff : (oneStage "p/" besideFolder).listings.diff Options.standard.exclude =
      ofListings [datedEntry "a" "x" "x"] [datedEntry "b" "p/y" "y"] := rfl
  have hplanned : ((oneStage "p/" besideFolder).plan (oneInto "p/") .standard).fault = none := by
    rw [Stage.plan, hdiff, ofListings_other]
    rfl
  have hcommands : commands ((oneStage "p/" besideFolder).plan (oneInto "p/") .standard).steps =
      [⟨Command.copyOp, [(datedEntry "a" "x" "x").location, ⟨"s3", "b", "p/x", true, none⟩],
        Plan.copyFlags (planner (oneInto "p/") false .standard)⟩] := by
    rw [Stage.plan, hdiff, ofListings_other]
    rfl
  exact rerun_of_copy rfl (fun _ hbucket => absurd hbucket (by decide))
    (proper_twoBuckets (by decide) (by decide)) (proper_twoBuckets (by decide) (by decide))
    hfirst rfl hplanned rfl hcommands (carries_of_fst .copy 1 rfl rfl rfl) ⟨rfl, rfl⟩ rfl
    ⟨rfl, ⟨0, 0, rfl, rfl, Int.le_refl 0⟩, rfl⟩ hsecond rfl

theorem single_rerun_copies_nothing_inFolder :
    Rerun (oneInto "p/") .standard besideFolder inFolder (oneStage "p/" besideFolder)
        (oneStage "p/" inFolder) ∧
      (oneStage "p/" besideFolder).batch = false ∧
      ∀ c ∈ commands ((oneStage "p/" inFolder).plan (oneInto "p/") .standard).steps,
        c.op ≠ Command.copyOp := by
  refine ⟨rerun_inFolder, rfl, (single_rerun_copies_nothing_iff rerun_inFolder rfl).mpr ?_⟩
  exact fun hexact => absurd hexact (by decide)

def besideKey : World := twoBuckets [datedAt "x"] [datedAt "k/y"]

def onKey : World := twoBuckets [datedAt "x"] [datedAt "k/y", datedAt "k"]

theorem commands_onKey {w : World} (h : w = besideKey ∨ w = onKey) :
    ((oneStage "k" w).plan (oneInto "k") .standard).fault = none ∧
      commands ((oneStage "k" w).plan (oneInto "k") .standard).steps =
        [⟨Command.copyOp, [(datedEntry "a" "x" "x").location, ⟨"s3", "b", "k", true, none⟩],
          Plan.copyFlags (planner (oneInto "k") false .standard)⟩] := by
  have hdiff : (oneStage "k" w).listings.diff Options.standard.exclude =
      ofListings [datedEntry "a" "x" "x"] [datedEntry "b" "k/y" "y"] := by
    rcases h with rfl | rfl <;> rfl
  have hbatch : (oneStage "k" w).batch = false := rfl
  rw [Stage.plan, hdiff, hbatch, ofListings_other]
  exact ⟨rfl, rfl⟩

/-- Two runs as in the theorem above, of which the second one copies again. -/
theorem single_rerun_repeats_onKey :
    Rerun (oneInto "k") .standard besideKey onKey (oneStage "k" besideKey) (oneStage "k" onKey) ∧
      (oneStage "k" besideKey).batch = false ∧
      ∃ c ∈ commands ((oneStage "k" onKey).plan (oneInto "k") .standard).steps,
        c.op = Command.copyOp := by
  have hfirst : Reaches (oneInto "k") .standard .standard "sync" besideKey
      (oneStage "k" besideKey) := ⟨_, rfl, rfl, rfl⟩
  have hsecond : Reaches (oneInto "k") .standard .standard "sync" onKey
      (oneStage "k" onKey) := ⟨_, rfl, rfl, rfl⟩
  obtain ⟨hplanned, hcommands⟩ := commands_onKey (.inl rfl)
  refine ⟨?_, rfl, ?_⟩
  · exact rerun_of_copy rfl (fun _ hbucket => absurd hbucket (by decide))
      (proper_twoBuckets (by decide) (by decide)) (proper_twoBuckets (by decide) (by decide))
      hfirst rfl hplanned rfl hcommands (carries_of_fst .copy 1 rfl rfl rfl) ⟨rfl, rfl⟩ rfl
      ⟨rfl, ⟨0, 0, rfl, rfl, Int.le_refl 0⟩, rfl⟩ hsecond rfl
  · rw [(commands_onKey (.inr rfl)).2]
    exact ⟨_, List.mem_singleton_self _, rfl⟩

end Rerunning

end StoreSync.Sync
