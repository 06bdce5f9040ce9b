import StoreSync.Proofs.CompleteListings
import StoreSync.Proofs.RemoteDelivery

/-!
A run that follows on another one. The keys that the commands of the first one touch say what
stands below the prefix of the destination when the second one lists it, and so which sources
have a counterpart there. A source has one when its copy landed below the prefix under its own
relative path.
-/
namespace StoreSync.Sync

open ObjectStore Transfer Eligibility World Diff Plan

variable {e : Ends} {o : Options} {batch : Bool} {sources destinations : List Entry}
  {w w' : World} {c : Command} {cmds : List Command} {s t : Entry} {r : String}

section Below

variable (h : Placed e batch sources destinations)
  (hplan : (ofDiff (planner e batch o) (ofListings sources destinations)).fault = none)
  (hdone : Aftermath e.destination.bucket
    (commands (ofDiff (planner e batch o) (ofListings sources destinations)).steps) w w')

include h hplan hdone

/-- Below the prefix stands the copy of each source that lands there. -/
theorem stored_below (hs : ToCopy o sources destinations s)
    (hlands : landing e batch destinations s = keyPrefix e.destination ++ s.relative) :
    (w'.store.object? e.destination.bucket
      (keyPrefix e.destination ++ s.relative)).isSome = true := by
  obtain ⟨c, hc, hcopyOf⟩ := exists_copy h hplan hs
  refine hdone.stored _ ⟨c, mem_commands_ofDiff_iff.mpr (.inl hc), ?_⟩ fun d hd hkey => ?_
  · rw [hcopyOf.touched, hlands]
    exact List.mem_singleton_self _
  · rcases touched_cases h hd hkey with ⟨hop, -⟩ | ⟨-, t, ht, hpath⟩
    · exact hop
    · rw [h.path t ht.2.1, String.append_right_inj] at hpath
      exact absurd hpath.symm (ht.2.2 s hs.1)

/-- Nothing stands where something was removed. -/
theorem erased_below (ht : ToRemove o sources destinations t) :
    w'.store.object? e.destination.bucket (keyPrefix e.destination ++ t.relative) = none := by
  have hremoval := comesToRemoval_of_toRemove h hplan ht
  have hc := mem_commands_ofDiff_iff.mpr (.inr ⟨hremoval, rfl⟩)
  rw [← h.path t ht.2.1]
  refine hdone.erased _ ⟨_, hc, ?_⟩ fun d hd hkey => ?_
  · exact (mem_touched_removalOf h.distinctDestinations ht.1).mpr ⟨t, ht, rfl⟩
  · rcases touched_cases h hd hkey with ⟨-, s, hs, hlands⟩ | ⟨hop, -⟩
    · rw [h.path t ht.2.1] at hlands
      exact absurd (landing_below_iff.mp hlands).1 (ht.2.2 s hs.1)
    · exact hop

omit hplan in
/-- All else below the prefix is as it was. -/
theorem kept_below
    (hcopied : ∀ s, ToCopy o sources destinations s →
      landing e batch destinations s ≠ keyPrefix e.destination ++ r)
    (hremoved : ∀ t, ToRemove o sources destinations t → t.relative ≠ r) :
    w'.store.object? e.destination.bucket (keyPrefix e.destination ++ r) =
      w.store.object? e.destination.bucket (keyPrefix e.destination ++ r) := by
  refine hdone.kept _ fun c hc hkey => ?_
  rcases touched_cases h hc hkey with ⟨-, s, hs, hlands⟩ | ⟨-, t, ht, hpath⟩
  · exact hcopied s hs hlands
  · rw [h.path t ht.2.1, String.append_right_inj] at hpath
    exact hremoved t ht hpath

end Below

section Second

/-- A listed object is a replica of a source: it has the same size, is not older, and can be
read. -/
structure Replica (s t : Entry) : Prop where
  size : s.size = t.size
  times : ∃ a b, s.modified = some (.zoned a) ∧ t.modified = some (.zoned b) ∧ a ≤ b
  readable : isWithheld t = false

/-- Under either strategy a replica is in sync. -/
theorem Replica.inSync (h : Replica s t) (strategy : Strategy) :
    ∃ reason, Freshness.reason? strategy s t = .ok (some reason) := by
  obtain ⟨a, b, hs, ht, hab⟩ := h.times
  have hnewer : Freshness.notOlder s.modified t.modified = .ok true := by
    simp [Freshness.notOlder, hs, ht, Moment.before?, hab]
  cases strategy with
  | sizeOnly => exact ⟨.sizes, by simp [Freshness.reason?, h.size]⟩
  | sizeAndTime => exact ⟨.newer, by simp [Freshness.reason?, h.size, hnewer]⟩

/-- Two runs to a remote destination with the same ends and options. The listings of both are
complete, the plan of the first one raises nothing and is carried out, each of its copies leaves
a replica, and the second run starts with the files and objects that it leaves. -/
structure Rerun (e : Ends) (o : Options) (w w' : World) (g g' : Stage) : Prop where
  remote : e.destination.isRemote = true
  apart : Apart e
  proper : w.Proper
  properAfter : w'.Proper
  first : ∃ k command, Reaches e o k command w g
  complete : g.Complete e o w
  planned : (g.plan e o).fault = none
  carried : ∃ cmds w₁, cmds.Perm (commands (g.plan e o).steps) ∧
    Completes g.source g.destination g.world cmds w₁ ∧ SameContents w₁ w'
  replicas : ∀ s ∈ select o.exclude g.listings.source.entries, ∀ (l : Location) (flags : Flags),
    ⟨Command.copyOp, [s.location, l], flags⟩ ∈ commands (g.plan e o).steps →
      ∀ obj, w'.store.object? l.bucket l.path = some obj →
        Replica s (RemoteListing.entryOf l.bucket s.relative obj)
  second : ∃ k command, Reaches e o k command w' g'
  completeAfter : g'.Complete e o w'

variable {g g' : Stage}

/-- Two runs without outages of which the first one plans a single copy. -/
theorem rerun_of_copy {k : Connection} {command : String} {l : Location} {flags : Flags}
    {obj : Object} {w₁ : World} (remote : e.destination.isRemote = true) (apart : Apart e)
    (proper : w.Proper) (properAfter : w'.Proper) (first : Reaches e o k command w g)
    (calm : w.store.outages = []) (planned : (g.plan e o).fault = none)
    (hsource : select o.exclude g.listings.source.entries = [s])
    (hcommands : commands (g.plan e o).steps = [⟨Command.copyOp, [s.location, l], flags⟩])
    (hdone : Carries g.source g.destination ⟨Command.copyOp, [s.location, l], flags⟩ g.world w₁)
    (hsame : SameContents w₁ w') (hobj : w'.store.object? l.bucket l.path = some obj)
    (hreplica : Replica s (RemoteListing.entryOf l.bucket s.relative obj))
    (second : Reaches e o k command w' g') (calmAfter : w'.store.outages = []) :
    Rerun e o w w' g g' where
  remote := remote
  apart := apart
  proper := proper
  properAfter := properAfter
  first := ⟨k, command, first⟩
  complete := complete_of_reaches first calm
  planned := planned
  carried := ⟨_, w₁, List.Perm.refl _, hcommands ▸ .cons hdone (.nil w₁), hsame⟩
  replicas := by
    rw [hsource, hcommands]
    intro s' hs' l' flags' hc obj' hobj'
    obtain rfl := List.mem_singleton.mp hs'
    obtain rfl : l' = l :=
      Option.some.inj (congrArg Command.destination? (List.mem_singleton.mp hc))
    obtain rfl := Option.some.inj (hobj'.symm.trans hobj)
    exact hreplica
  second := ⟨k, command, second⟩
  completeAfter := complete_of_reaches second calmAfter

variable (h : Rerun e o w w' g g')

include h

theorem Rerun.placed :
    Placed e g.batch (select o.exclude g.listings.source.entries)
      (select o.exclude g.listings.destination.entries) := by
  obtain ⟨k, command, hreach⟩ := h.first
  exact placed_of_reaches h.proper hreach h.remote h.apart

theorem Rerun.aftermath :
    ∃ w₁, Aftermath e.destination.bucket (commands (g.plan e o).steps) w w₁ ∧
      SameContents w₁ w' := by
  obtain ⟨k, command, hreach⟩ := h.first
  obtain ⟨cmds, w₁, hperm, hdone, hsame⟩ := h.carried
  obtain ⟨-, hserves, halike, -⟩ := listings_of_reaches hreach
  obtain ⟨n, hclient⟩ : ∃ n, g.destination = .client n := by
    rcases hserves with ⟨hlocal, -⟩ | ⟨-, hside⟩
    · rw [h.remote] at hlocal
      cases hlocal
    · exact hside
  rw [hclient] at hdone
  have hinto : ∀ c ∈ cmds, Into e.destination.bucket c := fun c hc =>
    into_of_mem_commands h.placed (hperm.mem_iff.mp hc)
  exact ⟨w₁, ((aftermath_of_completes hinto hdone).of_perm hperm).of_alike halike, hsame⟩

/-- The second run finds the source as the first one did. -/
theorem Rerun.found_source :
    found g'.listings.source.entries = found g.listings.source.entries := by
  obtain ⟨w₁, hdone, hsame⟩ := h.aftermath
  obtain ⟨k, command, hreach⟩ := h.first
  obtain ⟨k', command', hreach'⟩ := h.second
  rw [h.completeAfter.found_source hreach', h.complete.found_source hreach, standing, standing]
  have hfiles : w'.files = w.files := hsame.files.trans hdone.beside.files
  split_ifs with hremote
  · by_cases hbucket : e.source.bucket = e.destination.bucket
    · obtain ⟨hsingleKey, hne, hbelow⟩ := h.apart hremote hbucket
      rw [RemoteListing.available_of_object? hsingleKey]
      rw [hsame.object?, hbucket]
      refine hdone.kept _ fun c hc hkey => ?_
      rcases touched_cases h.placed hc hkey with ⟨-, s, hs, hlands⟩ | ⟨-, t, ht, hpath⟩
      · rw [← hlands, landing] at hne hbelow
        split_ifs at hne hbelow
        · exact hne rfl
        · rw [String.toList_append] at hbelow
          exact hbelow (List.prefix_append _ _)
      · rw [← hpath, h.placed.path t ht.2.1, String.toList_append] at hbelow
        exact hbelow (List.prefix_append _ _)
    · rw [RemoteListing.available_of_bucket?]
      rw [hsame.bucket?, hdone.beside.others _ hbucket]
  · rw [hfiles]

theorem Rerun.select_source :
    select o.exclude g'.listings.source.entries = select o.exclude g.listings.source.entries := by
  rw [select_eq_filter, select_eq_filter, h.found_source]

theorem Rerun.same_batch : g'.batch = g.batch := by
  obtain ⟨w₁, hdone, hsame⟩ := h.aftermath
  obtain ⟨k, command, hreach⟩ := h.first
  obtain ⟨k', command', hreach'⟩ := h.second
  obtain ⟨-, -, -, _, _, -, -, hbatch, -⟩ := listings_of_reaches hreach
  obtain ⟨-, -, -, _, _, -, -, hbatch', -⟩ := listings_of_reaches hreach'
  rw [hsame.files, hdone.beside.files, hbatch] at hbatch'
  exact (Except.ok.inj hbatch').symm

theorem Rerun.placedAfter :
    Placed e g.batch (select o.exclude g.listings.source.entries)
      (select o.exclude g'.listings.destination.entries) := by
  obtain ⟨k, command, hreach⟩ := h.second
  have hplaced := placed_of_reaches h.properAfter hreach h.remote h.apart
  rwa [h.same_batch, h.select_source] at hplaced

/-- Where nothing was copied or removed, the second run finds what the first one found. -/
theorem Rerun.mem_destination_iff
    (hcopied : ∀ s, ToCopy o (select o.exclude g.listings.source.entries)
      (select o.exclude g.listings.destination.entries) s →
        landing e g.batch (select o.exclude g.listings.destination.entries) s ≠
          keyPrefix e.destination ++ t.relative)
    (hremoved : ∀ u, ToRemove o (select o.exclude g.listings.source.entries)
      (select o.exclude g.listings.destination.entries) u → u.relative ≠ t.relative) :
    t ∈ select o.exclude g'.listings.destination.entries ↔
      t ∈ select o.exclude g.listings.destination.entries := by
  obtain ⟨w₁, hdone, hsame⟩ := h.aftermath
  obtain ⟨k, command, hreach⟩ := h.first
  obtain ⟨k', command', hreach'⟩ := h.second
  rw [h.completeAfter.mem_select_destination_iff h.properAfter hreach' h.remote,
    h.complete.mem_select_destination_iff h.proper hreach h.remote, hsame.object?,
    kept_below h.placed hdone hcopied hremoved]

/-- A source that was copied below the prefix is found there by the second run. -/
theorem Rerun.exists_replica
    (hcopy : ToCopy o (select o.exclude g.listings.source.entries)
      (select o.exclude g.listings.destination.entries) s)
    (hlands : landing e g.batch (select o.exclude g.listings.destination.entries) s =
      keyPrefix e.destination ++ s.relative)
    (hfile : RemoteListing.kindOf (keyPrefix e.destination ++ s.relative) = .file) :
    ∃ t ∈ select o.exclude g'.listings.destination.entries, t.relative = s.relative ∧
      Replica s t := by
  obtain ⟨w₁, hdone, hsame⟩ := h.aftermath
  obtain ⟨k', command', hreach'⟩ := h.second
  have hsome := stored_below h.placed h.planned hdone hcopy hlands
  rw [← hsame.object?] at hsome
  obtain ⟨obj, hobj⟩ := Option.isSome_iff_exists.mp hsome
  obtain ⟨_, hc, ⟨remote, within, lands⟩⟩ := exists_copy h.placed h.planned hcopy
  have hreplica := h.replicas s hcopy.1 _ _ (mem_commands_ofDiff_iff.mpr (.inl hc)) obj
    (by rw [within, lands, hlands]; exact hobj)
  rw [within] at hreplica
  obtain ⟨b, -, hfind⟩ := Option.bind_eq_some_iff.mp hobj
  have hkey := (Bucket.mem_of_object? hfind).2
  have hfound : isFound (RemoteListing.entryOf e.destination.bucket s.relative obj) = true :=
    RemoteListing.isFound_entryOf_iff.mpr (hkey ▸ hfile)
  have hrel := relative_entryOf h.remote hkey hfound
  have heligible := isEligible_of_relative_eq (mem_select_iff.mp hcopy.1).2 hrel
    (isDirectory_of_isFound hfound) hreplica.readable
  refine ⟨_, (h.completeAfter.mem_select_destination_iff h.properAfter hreach' h.remote).mpr
    ⟨heligible, obj, ?_⟩, hrel, hreplica⟩
  rw [hrel]
  exact ⟨hobj, rfl⟩

/-- A source whose copy lands below the prefix has a counterpart in the second run, which is in
sync with it. -/
theorem Rerun.exists_counterpart (hs : s ∈ select o.exclude g.listings.source.entries)
    (hlands : landing e g.batch (select o.exclude g.listings.destination.entries) s =
      keyPrefix e.destination ++ s.relative)
    (hfile : RemoteListing.kindOf (keyPrefix e.destination ++ s.relative) = .file) :
    ∃ t ∈ select o.exclude g'.listings.destination.entries, t.relative = s.relative ∧
      ∃ reason, Freshness.reason? o.strategy s t = .ok (some reason) := by
  have hplaced := h.placed
  by_cases hcopy : ToCopy o (select o.exclude g.listings.source.entries)
      (select o.exclude g.listings.destination.entries) s
  · obtain ⟨t, ht, hrel, hreplica⟩ := h.exists_replica hcopy hlands hfile
    exact ⟨t, ht, hrel, hreplica.inSync o.strategy⟩
  · obtain ⟨t, ht, hrel⟩ : ∃ t ∈ select o.exclude g.listings.destination.entries,
        t.relative = s.relative := by
      by_contra hnone
      exact hcopy ⟨hs, .inl fun t ht hrel => hnone ⟨t, ht, hrel⟩⟩
    have hpair := (mem_common_iff hplaced.distinctSources hplaced.distinctDestinations).mpr
      ⟨hs, ht, hrel.symm⟩
    obtain ⟨reason, hreason⟩ := exists_reason h.planned hpair
    cases reason with
    | none => exact absurd ⟨hs, .inr ⟨t, ht, hrel, hreason⟩⟩ hcopy
    | some reason =>
      refine ⟨t, (h.mem_destination_iff ?_ ?_).mpr ht, hrel, reason, hreason⟩
      · intro s' hs' hlanded
        have hsource := (landing_below_iff.mp hlanded).1.trans hrel
        exact hcopy (eq_of_relative_eq hplaced.distinctSources hs'.1 hs hsource ▸ hs')
      · intro u hu heq
        exact hu.2.2 s hs (heq.trans hrel).symm

/-- Only such a source has a counterpart in the second run. -/
theorem Rerun.landing_of_counterpart (hs : s ∈ select o.exclude g.listings.source.entries)
    (ht : t ∈ select o.exclude g'.listings.destination.entries) (hrel : t.relative = s.relative) :
    landing e g.batch (select o.exclude g.listings.destination.entries) s =
        keyPrefix e.destination ++ s.relative ∧
      RemoteListing.kindOf (keyPrefix e.destination ++ s.relative) = .file := by
  constructor
  · by_contra hlands
    rw [landing_below_iff, and_iff_right rfl, Classical.not_imp] at hlands
    obtain ⟨hexact, hnone⟩ := hlands
    refine hnone ⟨t, (h.mem_destination_iff ?_ ?_).mp ht, hrel⟩
    · intro s' hs' hlanded
      obtain ⟨hsource, hcounterpart⟩ := landing_below_iff.mp hlanded
      obtain ⟨u, hu, huRel⟩ := hcounterpart hexact
      exact hnone ⟨u, hu, huRel.trans (hsource.trans hrel)⟩
    · intro u hu heq
      exact hu.2.2 s hs (heq.trans hrel).symm
  · obtain ⟨k', command', hreach'⟩ := h.second
    obtain ⟨heligible, obj, hobj, hentry⟩ :=
      (h.completeAfter.mem_select_destination_iff h.properAfter hreach' h.remote).mp ht
    obtain ⟨b, -, hfind⟩ := Option.bind_eq_some_iff.mp hobj
    have hkey := (Bucket.mem_of_object? hfind).2
    have hfound := isFound_of_isEligible heligible
    rw [hentry, RemoteListing.isFound_entryOf_iff, hkey, hrel] at hfound
    exact hfound

/-- A run that deletes leaves nothing without a source for the second one to find. -/
theorem Rerun.exists_source (hdelete : o.delete = true)
    (ht : t ∈ select o.exclude g'.listings.destination.entries) :
    ∃ s ∈ select o.exclude g.listings.source.entries, s.relative = t.relative := by
  by_contra hnone
  have hmissing : ∀ s ∈ select o.exclude g.listings.source.entries, s.relative ≠ t.relative :=
    fun s hs hrel => hnone ⟨s, hs, hrel⟩
  have hkept : ∀ u ∈ select o.exclude g.listings.destination.entries,
      u.relative ≠ t.relative := by
    intro u hu hrel
    obtain ⟨w₁, hdone, hsame⟩ := h.aftermath
    obtain ⟨k', command', hreach'⟩ := h.second
    obtain ⟨-, obj, hobj, -⟩ :=
      (h.completeAfter.mem_select_destination_iff h.properAfter hreach' h.remote).mp ht
    have herased := erased_below h.placed h.planned hdone
      ⟨hdelete, hu, fun s hs => hrel ▸ hmissing s hs⟩
    rw [hrel, ← hsame.object?, hobj] at herased
    cases herased
  refine hkept t ((h.mem_destination_iff ?_ ?_).mp ht) rfl
  · intro s hs hlanded
    exact hmissing s hs.1 (landing_below_iff.mp hlanded).1
  · intro u hu
    exact hkept u hu.2.1

end Second

end StoreSync.Sync
