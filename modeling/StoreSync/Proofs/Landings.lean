import StoreSync.Proofs.CommandEffects
import StoreSync.Proofs.KeyPaths
import StoreSync.Proofs.Partition
import StoreSync.Proofs.PlanCommands
import StoreSync.Proofs.SourceNames

/-!
Where the copies of a plan land. A source that has a counterpart at the destination lands on it;
any other one lands at the prefix with its relative path behind it, or on the exact key that the
destination names, which lies above that prefix. A key at the destination is touched by the copy
of a source that lands on it, or by the removal of what stands there.
-/
namespace StoreSync.Sync

open ObjectStore Transfer Eligibility World Diff Plan Text

/-- The source is missing at the destination, or differs from its counterpart there. -/
def ToCopy (o : Options) (sources destinations : List Entry) (s : Entry) : Prop :=
  s ∈ sources ∧ ((∀ t ∈ destinations, t.relative ≠ s.relative) ∨
    ∃ t ∈ destinations, t.relative = s.relative ∧ Freshness.reason? o.strategy s t = .ok none)

/-- The entry of the destination has no counterpart, and those are to be deleted. -/
def ToRemove (o : Options) (sources destinations : List Entry) (t : Entry) : Prop :=
  o.delete = true ∧ t ∈ destinations ∧ ∀ s ∈ sources, s.relative ≠ t.relative

/-- The key on which a copy of the source lands. -/
def landing (e : Ends) (batch : Bool) (destinations : List Entry) (s : Entry) : String :=
  if Placement.isExactKey e.destination batch ∧ ∀ t ∈ destinations, t.relative ≠ s.relative then
    e.destination.path
  else keyPrefix e.destination ++ s.relative

/-- The source lies outside of what a run lists and writes at its destination. -/
def Apart (e : Ends) : Prop :=
  e.source.isRemote = true → e.source.bucket = e.destination.bucket →
    ¬ e.source.Expands ∧ e.source.path ≠ e.destination.path ∧
      ¬ (keyPrefix e.destination).toList <+: e.source.path.toList

/-- Listings as a run compares them that has a remote destination apart from its source. -/
structure Placed (e : Ends) (batch : Bool) (sources destinations : List Entry) : Prop where
  remote : e.destination.isRemote = true
  distinctSources : DistinctPaths sources
  distinctDestinations : DistinctPaths destinations
  sourceLiteral : ∀ s ∈ sources, s.location.isWildcard = false
  destinationLiteral : ∀ t ∈ destinations, t.location.isWildcard = false
  destinationRemote : ∀ t ∈ destinations, t.location.isRemote = true
  within : ∀ t ∈ destinations, t.location.bucket = e.destination.bucket
  path : ∀ t ∈ destinations, t.location.path = keyPrefix e.destination ++ t.relative
  place : ∀ s ∈ sources, (Placement.target s.location e.destination batch).path =
    if Placement.isExactKey e.destination batch then e.destination.path
    else keyPrefix e.destination ++ s.relative
  apart : ∀ s ∈ sources, ∀ l : Location, l.isRemote = true → l.bucket = e.destination.bucket →
    (l.path = e.destination.path ∨ (keyPrefix e.destination).toList <+: l.path.toList) →
      s.location.same l = false

variable {e : Ends} {o : Options} {batch : Bool} {sources destinations : List Entry}
  {c : Command} {s t : Entry} {key r : String}

/-- An exact key is not below the prefix that is listed for it. -/
theorem path_ne_below (hexact : Placement.isExactKey e.destination batch = true) (r : String) :
    e.destination.path ≠ keyPrefix e.destination ++ r := by
  simp only [Placement.isExactKey, Location.isFolder, Location.isBucket, Bool.and_eq_true,
    Bool.not_eq_true', Bool.or_eq_false_iff] at hexact
  obtain ⟨hremote, ⟨-, hslash⟩, hbucket⟩ := hexact
  have hne : e.destination.path ≠ "" := by simpa [hremote] using hbucket
  have hfile : Slash.endsInSlash e.destination.path.toList = false := by
    simpa [hremote] using hslash
  rw [keyPrefix_eq hremote, if_pos ⟨hne, hfile⟩]
  intro heq
  have hlength := congrArg (fun k => k.toList.length) heq
  simp at hlength

theorem landing_below_iff :
    landing e batch destinations s = keyPrefix e.destination ++ r ↔
      s.relative = r ∧ (Placement.isExactKey e.destination batch = true →
        ∃ t ∈ destinations, t.relative = s.relative) := by
  unfold landing
  split_ifs with h
  · constructor
    · intro heq
      exact absurd heq (path_ne_below h.1 r)
    · rintro ⟨-, hexists⟩
      obtain ⟨t, ht, hrel⟩ := hexists h.1
      exact absurd hrel (h.2 t ht)
  · rw [String.append_right_inj]
    refine ⟨fun heq => ⟨heq, fun hexact => ?_⟩, And.left⟩
    by_contra hnone
    exact h ⟨hexact, fun t ht hrel => hnone ⟨t, ht, hrel⟩⟩

/-- In a batch every source lands at the prefix with its relative path behind it. -/
theorem landing_batch (e : Ends) (destinations : List Entry) (s : Entry) :
    landing e true destinations s = keyPrefix e.destination ++ s.relative :=
  landing_below_iff.mpr ⟨rfl, fun hexact => by simp [Placement.isExactKey] at hexact⟩

/-- A source that the destination does not have is copied to its place. -/
theorem Placed.copyNew_iff (h : Placed e batch sources destinations) (hs : s ∈ sources) :
    (copyNew (planner e batch o) s.location).command? = some c ↔
      c = ⟨Command.copyOp, [s.location, Placement.target s.location e.destination batch],
        Plan.copyFlags (planner e batch o)⟩ := by
  obtain ⟨hremote, hbucket⟩ := isRemote_target s.location batch h.remote
  have hsame := h.apart s hs _ hremote hbucket (by
    rw [h.place s hs]
    split_ifs
    · exact .inl rfl
    · rw [String.toList_append]
      exact .inr (List.prefix_append _ _))
  rw [copyNew_command?_iff]
  constructor
  · rintro ⟨-, -, hc⟩
    exact hc
  · intro hc
    exact ⟨hsame, h.sourceLiteral s hs, hc⟩

/-- A pair is copied to the listed location when there is no reason to leave it. -/
theorem Placed.copyPair_iff (h : Placed e batch sources destinations) (hs : s ∈ sources)
    (ht : t ∈ destinations) :
    copyPair? (planner e batch o) (s, t) = some c ↔
      Freshness.reason? o.strategy s t = .ok none ∧
        c = ⟨Command.copyOp, [s.location, t.location], Plan.copyFlags (planner e batch o)⟩ := by
  have hsame := h.apart s hs t.location (h.destinationRemote t ht) (h.within t ht) (by
    rw [h.path t ht, String.toList_append]
    exact .inr (List.prefix_append _ _))
  rw [copyPair?_iff]
  constructor
  · rintro ⟨hreason, -, -, -, hc⟩
    exact ⟨hreason, hc⟩
  · rintro ⟨hreason, hc⟩
    exact ⟨hreason, hsame, h.sourceLiteral s hs, h.destinationLiteral t ht, hc⟩

section Places

theorem map_filterMap_sublist {α β γ : Type} {f : α → Option β} {g : β → γ} {h : α → γ}
    {xs : List α} (hf : ∀ x ∈ xs, ∀ y, f x = some y → g y = h x) :
    List.Sublist ((xs.filterMap f).map g) (xs.map h) := by
  induction xs with
  | nil => exact List.Sublist.refl _
  | cons x xs ih =>
    have htail := ih fun a ha => hf a (List.mem_cons_of_mem x ha)
    cases hx : f x with
    | none =>
      rw [List.filterMap_cons_none hx]
      exact htail.cons _
    | some y =>
      rw [List.filterMap_cons_some hx, List.map_cons, List.map_cons, hf x List.mem_cons_self y hx]
      exact htail.cons_cons _

/-- Copies have different places if the place of each is that of the relative path of its
source. -/
theorem nodup_places {α : Type} {p : Planner} (place : Command → α) {placeOf : String → α}
    (hinjective : Function.Injective placeOf) (hs : DistinctPaths sources)
    (hnew : ∀ l ∈ (ofListings sources destinations).onlySource, ∀ c,
      (copyNew p l).command? = some c → place c = placeOf l.relative)
    (hpair : ∀ pair ∈ (ofListings sources destinations).common, ∀ c,
      copyPair? p pair = some c → place c = placeOf pair.1.relative) :
    ((copies p (ofListings sources destinations)).map place).Nodup := by
  have hnodup := (nodup_relative_sources destinations hs).map hinjective
  rw [List.map_append, List.map_append, List.map_map, List.map_map, List.map_map] at hnodup
  refine hnodup.sublist (((copies_sublist p _).map place).trans ?_)
  rw [List.map_append]
  exact (map_filterMap_sublist hnew).append (map_filterMap_sublist hpair)

end Places

section Removed

theorem touched_removalOf (d : Diff) :
    touched (removalOf d) = d.onlyDestination.map Location.path := by
  have hne : Command.removeOp ≠ Command.copyOp := by decide
  simp [touched, removalOf, hne]

theorem mem_touched_removalOf {key : String} (hdistinct : DistinctPaths destinations)
    (hdelete : o.delete = true) :
    key ∈ touched (removalOf (ofListings sources destinations)) ↔
      ∃ t, ToRemove o sources destinations t ∧ t.location.path = key := by
  rw [touched_removalOf, List.mem_map]
  constructor
  · rintro ⟨l, hl, rfl⟩
    obtain ⟨t, ht, rfl, hnone⟩ := (mem_onlyDestination_iff hdistinct).mp hl
    exact ⟨t, ⟨hdelete, ht, hnone⟩, rfl⟩
  · rintro ⟨t, ⟨-, ht, hnone⟩, rfl⟩
    exact ⟨t.location, (mem_onlyDestination_iff hdistinct).mpr ⟨t, ht, rfl, hnone⟩, rfl⟩

/-- What is to be removed makes the plan come to a removal. -/
theorem comesToRemoval_of_toRemove {batch : Bool} (h : Placed e batch sources destinations)
    (hplan : (ofDiff (planner e batch o) (ofListings sources destinations)).fault = none)
    (ht : ToRemove o sources destinations t) :
    ComesToRemoval (planner e batch o) (ofListings sources destinations) where
  delete := ht.1
  fault := hplan
  nonempty := List.ne_nil_of_mem
    ((mem_onlyDestination_iff h.distinctDestinations).mpr ⟨t, ht.2.1, rfl, ht.2.2⟩)
  literal l hl := by
    obtain ⟨u, hu, rfl, -⟩ := (mem_onlyDestination_iff h.distinctDestinations).mp hl
    exact h.destinationLiteral u hu

end Removed

section Touching

inductive CopyOf (e : Ends) (o : Options) (batch : Bool) (destinations : List Entry) (s : Entry) :
    Command → Prop
  | intro {l : Location} (remote : l.isRemote = true) (within : l.bucket = e.destination.bucket)
      (lands : l.path = landing e batch destinations s) :
      CopyOf e o batch destinations s
        ⟨Command.copyOp, [s.location, l], Plan.copyFlags (planner e batch o)⟩

theorem CopyOf.op (h : CopyOf e o batch destinations s c) : c.op = Command.copyOp := by
  cases h
  rfl

theorem CopyOf.touched (h : CopyOf e o batch destinations s c) :
    touched c = [landing e batch destinations s] := by
  cases h with
  | intro _ _ lands => simp [Sync.touched, Command.destination?, lands]

theorem CopyOf.into (h : CopyOf e o batch destinations s c) : Into e.destination.bucket c := by
  cases h with
  | intro remote within _ => exact .copy _ remote within

theorem CopyOf.suits (h : CopyOf e o batch destinations s c)
    (helsewhere : s.location.isRemote = true → s.location.bucket ≠ e.destination.bucket) :
    Suits e.destination.bucket c := by
  cases h with
  | intro remote within _ => exact .copy _ remote within helsewhere

variable (h : Placed e batch sources destinations)

include h

theorem copyOf_new (hs : s ∈ sources) (hnone : ∀ t ∈ destinations, t.relative ≠ s.relative) :
    CopyOf e o batch destinations s
      ⟨Command.copyOp, [s.location, Placement.target s.location e.destination batch],
        Plan.copyFlags (planner e batch o)⟩ := by
  obtain ⟨hremote, hbucket⟩ := isRemote_target s.location batch h.remote
  refine .intro hremote hbucket ?_
  rw [h.place s hs, landing]
  split_ifs with hexact hlands hlands
  · rfl
  · exact absurd ⟨hexact, hnone⟩ hlands
  · exact absurd hlands.1 hexact
  · rfl

theorem copyOf_pair (ht : t ∈ destinations) (hrel : s.relative = t.relative) :
    CopyOf e o batch destinations s
      ⟨Command.copyOp, [s.location, t.location], Plan.copyFlags (planner e batch o)⟩ := by
  refine .intro (h.destinationRemote t ht) (h.within t ht) ?_
  rw [h.path t ht, ← hrel]
  exact (landing_below_iff.mpr ⟨rfl, fun _ => ⟨t, ht, hrel.symm⟩⟩).symm

/-- The copies of a plan are those of sources that are to be copied. -/
theorem exists_copyOf (hc : c ∈ copies (planner e batch o) (ofListings sources destinations)) :
    ∃ s, ToCopy o sources destinations s ∧ CopyOf e o batch destinations s c := by
  rcases mem_copies hc with ⟨l, hl, hcommand⟩ | ⟨⟨s, t⟩, hpair, hcommand⟩
  · obtain ⟨s, hs, rfl, hnone⟩ := (mem_onlySource_iff h.distinctSources).mp hl
    rw [(h.copyNew_iff hs).mp hcommand]
    exact ⟨s, ⟨hs, .inl hnone⟩, copyOf_new h hs hnone⟩
  · obtain ⟨hs, ht, hrel⟩ :=
      (mem_common_iff h.distinctSources h.distinctDestinations).mp hpair
    obtain ⟨hreason, rfl⟩ := (h.copyPair_iff hs ht).mp hcommand
    exact ⟨s, ⟨hs, .inr ⟨t, ht, hrel.symm, hreason⟩⟩, copyOf_pair h ht hrel⟩

/-- A source that the destination does not have is copied whatever becomes of the pairs. -/
theorem exists_copy_of_missing (hs : s ∈ sources)
    (hnone : ∀ t ∈ destinations, t.relative ≠ s.relative) :
    ∃ c ∈ copies (planner e batch o) (ofListings sources destinations),
      CopyOf e o batch destinations s c := by
  refine ⟨_, ?_, copyOf_new h hs hnone⟩
  have hl := (mem_onlySource_iff h.distinctSources).mpr ⟨s, hs, rfl, hnone⟩
  exact mem_copies_of_copyNew hl ((h.copyNew_iff hs).mpr rfl)

/-- When no pair ends the planning, every source that is to be copied is copied. -/
theorem exists_copy
    (hplan : (ofDiff (planner e batch o) (ofListings sources destinations)).fault = none)
    (hs : ToCopy o sources destinations s) :
    ∃ c ∈ copies (planner e batch o) (ofListings sources destinations),
      CopyOf e o batch destinations s c := by
  rcases hs with ⟨hs, hnone | ⟨t, ht, hrel, hreason⟩⟩
  · exact exists_copy_of_missing h hs hnone
  · refine ⟨_, ?_, copyOf_pair h ht hrel.symm⟩
    have hpair := (mem_common_iff h.distinctSources h.distinctDestinations).mpr
      ⟨hs, ht, hrel.symm⟩
    exact mem_copies_of_copyPair hplan hpair ((h.copyPair_iff hs ht).mpr ⟨hreason, rfl⟩)

/-- A key is touched by the copy that lands on it, or by the removal of what stands there. -/
theorem touched_cases
    (hc : c ∈ commands (ofDiff (planner e batch o) (ofListings sources destinations)).steps)
    (hkey : key ∈ touched c) :
    (c.op = Command.copyOp ∧
      ∃ s, ToCopy o sources destinations s ∧ landing e batch destinations s = key) ∨
    (c.op ≠ Command.copyOp ∧
      ∃ t, ToRemove o sources destinations t ∧ t.location.path = key) := by
  rcases mem_commands_ofDiff_iff.mp hc with hcopy | ⟨hremoval, rfl⟩
  · obtain ⟨s, hs, hcopyOf⟩ := exists_copyOf h hcopy
    rw [hcopyOf.touched, List.mem_singleton] at hkey
    exact .inl ⟨hcopyOf.op, s, hs, hkey.symm⟩
  · have hne : Command.removeOp ≠ Command.copyOp := by decide
    exact .inr ⟨hne, (mem_touched_removalOf h.distinctDestinations hremoval.delete).mp hkey⟩

theorem into_of_mem_commands
    (hc : c ∈ commands (ofDiff (planner e batch o) (ofListings sources destinations)).steps) :
    Into e.destination.bucket c := by
  rcases mem_commands_ofDiff_iff.mp hc with hcopy | ⟨-, rfl⟩
  · obtain ⟨s, -, hcopyOf⟩ := exists_copyOf h hcopy
    exact hcopyOf.into
  · refine .removal baseFlags fun l hl => ?_
    obtain ⟨t, ht, rfl, -⟩ := (mem_onlyDestination_iff h.distinctDestinations).mp hl
    exact h.within t ht

end Touching

section Placing

variable {k : Connection} {command : String} {g : Stage}

/-- The place of a source is the exact key, or the prefix with its relative path behind it: a
single object has its base name as its relative path. -/
theorem path_target_of_found_source (h : Reaches e o k command w g)
    (hremote : e.destination.isRemote = true) (hs : s ∈ found g.listings.source.entries) :
    (Placement.target s.location e.destination g.batch).path =
      if Placement.isExactKey e.destination g.batch then e.destination.path
      else keyPrefix e.destination ++ s.relative := by
  cases hbatch : g.batch with
  | true =>
    have hexact : Placement.isExactKey e.destination true = false := by
      simp [Placement.isExactKey]
    rw [hexact, if_neg Bool.false_ne_true]
    exact path_target s.location hremote
  | false =>
    have hsingle := single_of_found_source h hbatch hs
    rw [path_target_single s.location hremote, hsingle.base, hsingle.relative]

/-- A source that is apart from the destination is none of the locations that a run writes
there. -/
theorem not_same_of_found_source (hw : w.Proper) (h : Reaches e o k command w g)
    (hapart : Apart e) (hs : s ∈ found g.listings.source.entries) {l : Location}
    (hl : l.isRemote = true) (hbucket : l.bucket = e.destination.bucket)
    (hpath : l.path = e.destination.path ∨ (keyPrefix e.destination).toList <+: l.path.toList) :
    s.location.same l = false := by
  have hsource := located_source hw h
  rw [← Bool.not_eq_true, Location.same_iff]
  rintro ⟨hscheme, hsame, hkey⟩
  have hside : s.location.isRemote = true := by
    unfold Location.isRemote at hl ⊢
    rw [hscheme]
    exact hl
  have hsourceRemote := (hsource.remote s hs).symm.trans hside
  have hsourceBucket := (hsource.bucket s hs hside).symm.trans (hsame.trans hbucket)
  obtain ⟨hsingleKey, hne, hbelow⟩ := hapart hsourceRemote hsourceBucket
  obtain ⟨-, -, -, w₁, w₂, -, -, hbatch, -, -⟩ := listings_of_reaches h
  rw [expands_iff_batch hsourceRemote hbatch, Bool.not_eq_true] at hsingleKey
  have hsingle := single_of_found_source h hsingleKey hs
  rw [← hkey, hsingle.path] at hpath
  exact hpath.elim hne hbelow

/-- A run to a remote destination that is apart from its source compares listings that are
placed. -/
theorem placed_of_reaches (hw : w.Proper) (h : Reaches e o k command w g)
    (hremote : e.destination.isRemote = true) (hapart : Apart e) :
    Placed e g.batch (select o.exclude g.listings.source.entries)
      (select o.exclude g.listings.destination.entries) := by
  have hsource := located_source hw h
  have hdestination := located_destination hw h hremote
  have hfound := fun es : List Entry => (select_sublist_found o.exclude es).subset
  constructor
  · exact hremote
  · exact hsource.distinct_select o.exclude
  · exact hdestination.distinct_select o.exclude
  · intro s hs
    simp [Location.isWildcard, hsource.literal s (hfound _ hs)]
  · intro t ht
    simp [Location.isWildcard, hdestination.literal t (hfound _ ht)]
  · intro t ht
    exact (hdestination.remote t (hfound _ ht)).trans hremote
  · intro t ht
    have hside := (hdestination.remote t (hfound _ ht)).trans hremote
    exact hdestination.bucket t (hfound _ ht) hside
  · intro t ht
    exact (object?_of_found_destination h hremote (hfound _ ht)).1
  · intro s hs
    exact path_target_of_found_source h hremote (hfound _ hs)
  · intro s hs l
    exact not_same_of_found_source hw h hapart (hfound _ hs)

end Placing

end StoreSync.Sync
