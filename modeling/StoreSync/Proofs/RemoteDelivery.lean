import StoreSync.Proofs.Landings

/-!
What a run makes of a remote destination. The copies of a batch go to keys that differ in their
relative path, and the removal names other keys still, so the commands touch different keys and
may be carried out in any order. Afterwards every key holds what the comparison of the listings
says: the contents of a source, nothing, or what it held before.
-/
namespace StoreSync.Sync

open ObjectStore Transfer Eligibility World Diff Plan

def contents? (w : World) (l : Location) : Option ByteArray :=
  if l.isRemote then (w.store.object? l.bucket l.path).map Object.data
  else
    match w.files.readFile l.path with
    | .ok (data, _) => some data
    | .error _ => none

/-- The keys of the destination's bucket hold what the comparison of two listings says, and
nothing else has changed. -/
structure Delivered (e : Ends) (o : Options) (sources destinations : List Entry) (w w' : World) :
    Prop where
  beside : SameBeside e.destination.bucket w w'
  copied : ∀ s, ToCopy o sources destinations s →
    ∃ obj,
      w'.store.object? e.destination.bucket (keyPrefix e.destination ++ s.relative) = some obj ∧
      contents? w s.location = some obj.data
  removed : ∀ t, ToRemove o sources destinations t →
    w'.store.object? e.destination.bucket t.location.path = none
  kept : ∀ key,
    (∀ s, ToCopy o sources destinations s → keyPrefix e.destination ++ s.relative ≠ key) →
      (∀ t, ToRemove o sources destinations t → t.location.path ≠ key) →
        w'.store.object? e.destination.bucket key = w.store.object? e.destination.bucket key

/-- Listings as a run compares them that has a remote destination and its source elsewhere. -/
structure Comparable (e : Ends) (sources destinations : List Entry) : Prop where
  remote : e.destination.isRemote = true
  distinctSources : DistinctPaths sources
  distinctDestinations : DistinctPaths destinations
  sourceLiteral : ∀ s ∈ sources, s.location.isWildcard = false
  destinationLiteral : ∀ t ∈ destinations, t.location.isWildcard = false
  elsewhere : ∀ s ∈ sources, s.location.isRemote = true →
    s.location.bucket ≠ e.destination.bucket
  destinationRemote : ∀ t ∈ destinations, t.location.isRemote = true
  within : ∀ t ∈ destinations, t.location.bucket = e.destination.bucket
  path : ∀ t ∈ destinations, t.location.path = keyPrefix e.destination ++ t.relative

variable {e : Ends} {o : Options} {sources destinations : List Entry} {w w' : World}
  {c : Command} {s t : Entry}

theorem same_eq_false {l d : Location} (hd : d.isRemote = true)
    (hl : l.isRemote = true → l.bucket ≠ d.bucket) : l.same d = false := by
  rw [← Bool.not_eq_true, Location.same_iff]
  rintro ⟨hscheme, hbucket, -⟩
  have hremote : l.isRemote = true := by
    unfold Location.isRemote at hd ⊢
    rw [hscheme]
    exact hd
  exact hl hremote hbucket

section Planned

def copyTo (e : Ends) (o : Options) (l d : Location) : Command :=
  ⟨Command.copyOp, [l, d], Plan.copyFlags (planner e true o)⟩

variable (h : Comparable e sources destinations)

include h

/-- Such listings are placed: every source has a place of its own below the prefix. -/
theorem Comparable.placed : Placed e true sources destinations where
  remote := h.remote
  distinctSources := h.distinctSources
  distinctDestinations := h.distinctDestinations
  sourceLiteral := h.sourceLiteral
  destinationLiteral := h.destinationLiteral
  destinationRemote := h.destinationRemote
  within := h.within
  path := h.path
  place s _ := by
    have hplace : Placement.isExactKey e.destination true = false := by
      simp [Placement.isExactKey]
    rw [hplace, if_neg Bool.false_ne_true]
    exact path_target s.location h.remote
  apart s hs l hl hbucket _ :=
    same_eq_false hl fun hremote => hbucket ▸ h.elsewhere s hs hremote

theorem touched_copyNew {l : Location}
    (hl : l ∈ (ofListings sources destinations).onlySource)
    (hc : (copyNew (planner e true o) l).command? = some c) :
    touched c = [keyPrefix e.destination ++ l.relative] := by
  obtain ⟨s, hs, rfl, hnone⟩ := (mem_onlySource_iff h.distinctSources).mp hl
  rw [(h.placed.copyNew_iff hs).mp hc, (copyOf_new h.placed hs hnone).touched, landing_batch]
  rfl

theorem touched_copyPair {pair : Entry × Entry}
    (hpair : pair ∈ (ofListings sources destinations).common)
    (hc : copyPair? (planner e true o) pair = some c) :
    touched c = [keyPrefix e.destination ++ pair.1.relative] := by
  obtain ⟨hs, ht, hrel⟩ := (mem_common_iff h.distinctSources h.distinctDestinations).mp hpair
  rw [((h.placed.copyPair_iff hs ht).mp hc).2, (copyOf_pair h.placed ht hrel).touched,
    landing_batch]

theorem suits_of_mem_commands
    (hc : c ∈ commands (ofDiff (planner e true o) (ofListings sources destinations)).steps) :
    Suits e.destination.bucket c := by
  rcases mem_commands_ofDiff_iff.mp hc with hcopy | ⟨-, rfl⟩
  · obtain ⟨s, hs, hcopyOf⟩ := exists_copyOf h.placed hcopy
    exact hcopyOf.suits (h.elsewhere s hs.1)
  · refine .removal baseFlags fun l hl => ?_
    obtain ⟨t, ht, rfl, -⟩ := (mem_onlyDestination_iff h.distinctDestinations).mp hl
    exact h.within t ht

/-- No copy goes to a key that is removed. -/
theorem ne_of_toRemove (hs : ToCopy o sources destinations s)
    (ht : ToRemove o sources destinations t) :
    keyPrefix e.destination ++ s.relative ≠ t.location.path := by
  rw [h.path t ht.2.1]
  intro heq
  exact ht.2.2 s hs.1 ((String.append_right_inj _).mp heq)

/-- Copies of different sources go to different keys. -/
theorem pairwise_copies :
    (copies (planner e true o) (ofListings sources destinations)).Pairwise fun c c' =>
      List.Disjoint (touched c) (touched c') := by
  have hinjective : Function.Injective fun r => [keyPrefix e.destination ++ r] := by
    intro r r' heq
    exact (String.append_right_inj _).mp (List.singleton_inj.mp heq)
  have hnodup := nodup_places (p := planner e true o) touched hinjective h.distinctSources
    (fun l hl c hc => touched_copyNew h hl hc) (fun pair hpair c hc => touched_copyPair h hpair hc)
  refine (List.pairwise_map.mp hnodup).imp_of_mem ?_
  intro c c' hc hc' hne
  obtain ⟨s, -, hcopyOf⟩ := exists_copyOf h.placed hc
  obtain ⟨s', -, hcopyOf'⟩ := exists_copyOf h.placed hc'
  rw [hcopyOf.touched, hcopyOf'.touched] at hne ⊢
  rw [List.singleton_disjoint, List.mem_singleton]
  exact fun heq => hne (List.singleton_inj.mpr heq)

/-- The commands of a plan touch different keys. -/
theorem pairwise_commands :
    (commands (ofDiff (planner e true o) (ofListings sources destinations)).steps).Pairwise
      fun c c' => List.Disjoint (touched c) (touched c') := by
  by_cases hremoval : ComesToRemoval (planner e true o) (ofListings sources destinations)
  · rw [commands_of_comesToRemoval hremoval]
    refine List.pairwise_append.mpr ⟨pairwise_copies h, List.pairwise_singleton _ _, ?_⟩
    intro c hc c' hc' key hkey hkey'
    rw [List.mem_singleton.mp hc',
      mem_touched_removalOf h.distinctDestinations hremoval.delete] at hkey'
    obtain ⟨t, ht, rfl⟩ := hkey'
    obtain ⟨s, hs, hcopyOf⟩ := exists_copyOf h.placed hc
    rw [hcopyOf.touched, List.mem_singleton, landing_batch] at hkey
    exact ne_of_toRemove h hs ht hkey.symm
  · rw [commands_of_not_comesToRemoval hremoval]
    exact pairwise_copies h

end Planned

section Delivery

theorem contents?_of_arrival {s d : Location} {extra : Extra} {obj : Object}
    (h : arrival w s d extra = some obj) : contents? w s = some obj.data := by
  unfold arrival at h
  unfold contents?
  cases hremote : s.isRemote with
  | true =>
    rw [hremote, if_pos rfl] at h
    obtain ⟨found, hfound, rfl⟩ := Option.map_eq_some_iff.mp h
    rw [if_pos rfl, hfound]
    rfl
  | false =>
    rw [hremote, if_neg Bool.false_ne_true] at h
    rw [if_neg Bool.false_ne_true]
    cases hread : w.files.readFile s.path with
    | error f => simp [hread] at h
    | ok content =>
      rw [hread] at h
      obtain rfl := Option.some.inj h
      rfl

variable {source : Side} {client : Nat} {cmds cmds' : List Command} {w₁ w₂ : World}
  (h : Comparable e sources destinations)

include h

/-- Commands of a plan that complete in some order deliver what the comparison says. -/
theorem delivered_of_completes
    (hplan : (ofDiff (planner e true o) (ofListings sources destinations)).fault = none)
    (hperm : cmds.Perm
      (commands (ofDiff (planner e true o) (ofListings sources destinations)).steps))
    (hdone : Completes source (.client client) w cmds w') :
    Delivered e o sources destinations w w' := by
  obtain ⟨hbeside, hsome, hkeys⟩ := objects_of_completes_perm hperm
    (fun c hc => suits_of_mem_commands h hc) (pairwise_commands h) hdone
  refine ⟨hbeside, ?_, ?_, ?_⟩
  · intro s hs
    obtain ⟨c, hcopy, hcopyOf⟩ := exists_copy h.placed hplan hs
    have hc := mem_commands_ofDiff_iff.mpr (.inl hcopy)
    obtain ⟨obj, hobj⟩ := Option.isSome_iff_exists.mp (hsome c hc hcopyOf.op)
    have htouched : keyPrefix e.destination ++ s.relative ∈ touched c := by
      rw [hcopyOf.touched, landing_batch]
      exact List.mem_singleton_self _
    refine ⟨obj, ((hkeys _).1 c hc htouched).trans hobj, ?_⟩
    cases hcopyOf
    exact contents?_of_arrival hobj
  · intro t ht
    have hremoval := comesToRemoval_of_toRemove h.placed hplan ht
    have hc := mem_commands_ofDiff_iff.mpr (.inr ⟨hremoval, rfl⟩)
    exact (hkeys _).1 _ hc ((mem_touched_removalOf h.distinctDestinations ht.1).mpr ⟨t, ht, rfl⟩)
  · intro key hcopied hremoved
    refine (hkeys key).2 fun c hc hkey => ?_
    rcases touched_cases h.placed hc hkey with ⟨-, s, hs, hlands⟩ | ⟨-, t, ht, hpath⟩
    · rw [landing_batch] at hlands
      exact hcopied s hs hlands
    · exact hremoved t ht hpath

/-- Two orders in which the commands complete end with the same objects. -/
theorem same_objects_of_completes
    (hperm : cmds.Perm
      (commands (ofDiff (planner e true o) (ofListings sources destinations)).steps))
    (hperm' : cmds'.Perm
      (commands (ofDiff (planner e true o) (ofListings sources destinations)).steps))
    (hdone : Completes source (.client client) w cmds w₁)
    (hdone' : Completes source (.client client) w cmds' w₂) (key : String) :
    w₂.store.object? e.destination.bucket key = w₁.store.object? e.destination.bucket key := by
  have hsuits := fun c hc => suits_of_mem_commands (o := o) (c := c) h hc
  obtain ⟨-, -, hkeys⟩ :=
    objects_of_completes_perm hperm hsuits (pairwise_commands h) hdone
  obtain ⟨-, -, hkeys'⟩ :=
    objects_of_completes_perm hperm' hsuits (pairwise_commands h) hdone'
  by_cases htouched : ∃ c ∈ commands (ofDiff (planner e true o)
      (ofListings sources destinations)).steps, key ∈ touched c
  · obtain ⟨c, hc, hkey⟩ := htouched
    rw [(hkeys key).1 c hc hkey, (hkeys' key).1 c hc hkey]
  · have hnone := fun c hc hkey => htouched ⟨c, hc, hkey⟩
    rw [(hkeys key).2 hnone, (hkeys' key).2 hnone]

end Delivery

section Runs

variable {k : Connection} {command : String} {g : Stage} {w₁ : World}

theorem contents?_congr (h : Alike w w₁) (l : Location) : contents? w₁ l = contents? w l := by
  unfold contents?
  rw [h.object?, h.files]

theorem Delivered.of_alike (halike : Alike w w₁)
    (h : Delivered e o sources destinations w₁ w') : Delivered e o sources destinations w w' where
  beside := (halike.sameBeside _).trans h.beside
  copied s hs := by
    obtain ⟨obj, hobj, hcontents⟩ := h.copied s hs
    exact ⟨obj, hobj, contents?_congr halike s.location ▸ hcontents⟩
  removed := h.removed
  kept key hcopied hremoved := by
    rw [h.kept key hcopied hremoved, halike.object?]

/-- The eligible entries of both listings of a run can be compared. -/
theorem comparable_of_reaches (hw : w.Proper) (h : Reaches e o k command w g)
    (hremote : e.destination.isRemote = true)
    (helsewhere : e.source.isRemote = true → e.source.bucket ≠ e.destination.bucket) :
    Comparable e (select o.exclude g.listings.source.entries)
      (select o.exclude g.listings.destination.entries) := by
  have hsource := located_source hw h
  have hapart : Apart e := fun hside hbucket => absurd hbucket (helsewhere hside)
  have hplaced := placed_of_reaches (o := o) hw h hremote hapart
  refine ⟨hremote, hplaced.distinctSources, hplaced.distinctDestinations, hplaced.sourceLiteral,
    hplaced.destinationLiteral, fun s hs hside => ?_, hplaced.destinationRemote, hplaced.within,
    hplaced.path⟩
  have hfound := (select_sublist_found o.exclude g.listings.source.entries).subset hs
  rw [hsource.bucket s hfound hside]
  exact helsewhere (hsource.remote s hfound ▸ hside)

/-- A run of a batch to a remote destination whose plan raises nothing: in whatever order the
planned commands complete, the destination holds what the comparison of the eligible entries
says, and nothing else has changed; every other order ends with the same files and objects. The
execution in that order ends there, and so does the run itself if it takes the order of the
plan. -/
theorem remote_run_delivers (hw : w.Proper) (hreach : Reaches e o k command w g)
    (hbatch : g.batch = true) (hremote : e.destination.isRemote = true)
    (helsewhere : e.source.isRemote = true → e.source.bucket ≠ e.destination.bucket)
    (hplan : (g.plan e o).fault = none) {cmds : List Command}
    (hperm : cmds.Perm (commands (g.plan e o).steps))
    (hdone : Completes g.source g.destination g.world cmds w') :
    Delivered e o (select o.exclude g.listings.source.entries)
      (select o.exclude g.listings.destination.entries) w w' ∧
    (∀ cmds' w₂, cmds'.Perm (commands (g.plan e o).steps) →
      Completes g.source g.destination g.world cmds' w₂ →
        w₂.files = w'.files ∧
          ∀ bucket key, w₂.store.object? bucket key = w'.store.object? bucket key) ∧
    (execute g.source g.destination false command (.start g.world) cmds).world = w' ∧
    (o.trial = false → g.listings.fault? = none → 1 ≤ o.workers →
      cmds = commands (g.plan e o).steps →
        ∀ quiet, ((runBetween e o k command quiet).run w).2 = w') := by
  have hcompare := comparable_of_reaches hw hreach hremote helsewhere
  obtain ⟨-, hserves, halike, -⟩ := listings_of_reaches hreach
  obtain ⟨client, hclient⟩ : ∃ n, g.destination = .client n := by
    rcases hserves with ⟨hlocal, -⟩ | ⟨-, hside⟩
    · rw [hremote] at hlocal
      cases hlocal
    · exact hside
  have hexecute : (execute g.source g.destination false command
      (.start g.world) cmds).world = w' :=
    (execute_of_completes command rfl rfl hdone).1
  rw [Stage.plan, hbatch] at hplan hperm
  have hdone' := hdone
  rw [hclient] at hdone'
  have hdelivered := delivered_of_completes hcompare hplan hperm hdone'
  refine ⟨hdelivered.of_alike halike, ?_, hexecute, ?_⟩
  · intro cmds' w₂ hperm' hdone₂
    rw [Stage.plan, hbatch] at hperm'
    rw [hclient] at hdone₂
    have hdelivered₂ := delivered_of_completes hcompare hplan hperm' hdone₂
    refine ⟨hdelivered₂.beside.files.trans hdelivered.beside.files.symm, fun bucket key => ?_⟩
    by_cases hbucket : bucket = e.destination.bucket
    · rw [hbucket]
      exact same_objects_of_completes hcompare hperm hperm' hdone' hdone₂ key
    · rw [hdelivered₂.beside.object? hbucket, hdelivered.beside.object? hbucket]
  · intro htrial hfault hworkers hcmds quiet
    rw [world_of_reaches hreach hfault hworkers quiet, htrial, ← hcmds]
    exact hexecute

def swapped : Stage := acrossStage [objectAt "x"] [objectAt "y"]

theorem diff_swapped :
    swapped.listings.diff deletingOptions.exclude =
      ⟨[(entryAt "a" "x").location], [(entryAt "b" "y").location], []⟩ := by
  have hs : select deletingOptions.exclude swapped.listings.source.entries =
    [entryAt "a" "x"] := rfl
  have ht : select deletingOptions.exclude swapped.listings.destination.entries =
    [entryAt "b" "y"] := rfl
  have hne : (entryAt "a" "x").relative ≠ (entryAt "b" "y").relative := by decide
  have hlt : ¬ (entryAt "b" "y").relative < (entryAt "a" "x").relative := by decide
  rw [Listings.diff, hs, ht]
  simp [ofListings, Diff.sort, Diff.merge, hne, hlt, addSource]

/-- The plan copies the one object and removes the other one. -/
theorem commands_swapped :
    commands (swapped.plan acrossBuckets deletingOptions).steps =
      [copyTo acrossBuckets deletingOptions (entryAt "a" "x").location
        ⟨"s3", "b", "x", true, none⟩,
        ⟨Command.removeOp, [(entryAt "b" "y").location], baseFlags⟩] := by
  rw [Stage.plan, diff_swapped]
  rfl

/-- The commands of that plan complete in the other order as well and deliver the same. -/
theorem remote_run_delivers_reversed :
    (twoBuckets [objectAt "x"] [objectAt "y"]).Proper ∧
      Reaches acrossBuckets deletingOptions .standard "sync"
        (twoBuckets [objectAt "x"] [objectAt "y"]) swapped ∧
      ∃ cmds w', cmds.Perm (commands (swapped.plan acrossBuckets deletingOptions).steps) ∧
        Completes swapped.source swapped.destination swapped.world cmds w' ∧
        Delivered acrossBuckets deletingOptions
          (select deletingOptions.exclude swapped.listings.source.entries)
          (select deletingOptions.exclude swapped.listings.destination.entries)
          (twoBuckets [objectAt "x"] [objectAt "y"]) w' := by
  have hproper : (twoBuckets [objectAt "x"] [objectAt "y"]).Proper :=
    ⟨⟨List.nodup_nil, by simp [twoBuckets]⟩, by decide⟩
  have hreaches : Reaches acrossBuckets deletingOptions .standard "sync"
      (twoBuckets [objectAt "x"] [objectAt "y"]) swapped := ⟨_, rfl, rfl, rfl⟩
  have hplan : (swapped.plan acrossBuckets deletingOptions).fault = none := by
    rw [Stage.plan, diff_swapped]
    rfl
  have hperm : [⟨Command.removeOp, [(entryAt "b" "y").location], baseFlags⟩,
      copyTo acrossBuckets deletingOptions (entryAt "a" "x").location
        ⟨"s3", "b", "x", true, none⟩].Perm
      (commands (swapped.plan acrossBuckets deletingOptions).steps) := by
    rw [commands_swapped]
    exact List.Perm.swap _ _ []
  have hdone : ∃ w', Completes swapped.source swapped.destination swapped.world
      [⟨Command.removeOp, [(entryAt "b" "y").location], baseFlags⟩,
        copyTo acrossBuckets deletingOptions (entryAt "a" "x").location
          ⟨"s3", "b", "x", true, none⟩] w' :=
    ⟨_, .cons (carries_of_fst .remove 1 rfl rfl rfl)
      (.cons (carries_of_fst .copy 1 rfl rfl rfl) (.nil _))⟩
  obtain ⟨w', hdone⟩ := hdone
  exact ⟨hproper, hreaches, _, w', hperm, hdone,
    (remote_run_delivers hproper hreaches rfl rfl (fun _ => by decide) hplan hperm hdone).1⟩

end Runs

end StoreSync.Sync
