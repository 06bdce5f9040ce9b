import StoreSync.Proofs.ListedFiles
import StoreSync.Proofs.ListedObjects
import StoreSync.Sync.Run

/-!
How far a run comes before it carries out a plan: it opens both sides and lists them. Up to there
nothing that the world holds has changed, and both listings find one entry at each relative path.
-/
namespace StoreSync

open ObjectStore Transfer Eligibility World StoreSync.Action

/-- No key stands twice in a bucket, and the files form a tree of names. -/
structure World.Proper (w : World) : Prop where
  files : w.files.Proper
  keys : ∀ e ∈ w.store.buckets, (e.2.map Object.key).Nodup

theorem World.Proper.of_alike {w w' : World} (h : w.Proper) (halike : Alike w w') :
    w'.Proper where
  files := halike.files ▸ h.files
  keys := halike.buckets ▸ h.keys

theorem World.Proper.nodup_keys {w : World} (h : w.Proper) (name : String) :
    (((w.store.bucket? name).getD []).map Object.key).Nodup := by
  cases hb : w.store.bucket? name with
  | none => exact List.nodup_nil
  | some b =>
    obtain ⟨before, after, hbuckets, -⟩ := List.lookup_eq_some_iff.mp hb
    exact h.keys (name, b) (hbuckets ▸ List.mem_append_right before List.mem_cons_self)

namespace Sync

/-- Where a run stands when it has listed both sides. -/
structure Stage where
  source : Side
  destination : Side
  batch : Bool
  listings : Listings
  world : World

def Stage.plan (g : Stage) (e : Ends) (o : Options) : Plan.Outcome :=
  Plan.ofDiff (planner e g.batch o) (g.listings.diff o.exclude)

/-- A run that starts in a world opens both sides and lists them. -/
def Reaches (e : Ends) (o : Options) (c : Connection) (command : String) (w : World)
    (g : Stage) : Prop :=
  ∃ w₁, (openSides e o c).Gives w (g.source, g.destination) w₁ ∧
    sourceIsBatch w₁.files e.source = .ok g.batch ∧
    (list e g.source g.destination o command).run w₁ = (g.listings, g.world)

variable {e : Ends} {o : Options} {c : Connection} {command : String} {w w' : World} {g : Stage}

/-- A run whose sides are open goes on where they were opened. -/
theorem runBetween_of_gives {sides : Side × Side} {w₁ : World}
    (h : (openSides e o c).Gives w sides w₁) (quiet : Bool) :
    (runBetween e o c command quiet).run w =
      match sourceIsBatch w₁.files e.source with
      | .error f => (.ofFault f [], w₁)
      | .ok batch =>
          let listed := (list e sides.1 sides.2 o command).run w₁
          match listed.1.fault? with
          | some f => (.ofFault f listed.1.notices, listed.2)
          | none =>
              if o.workers < 1 then (.ofFault tooFewWorkers listed.1.notices, listed.2)
              else (finish e sides.1 sides.2 batch o command quiet listed.1).run listed.2 := by
  unfold Gives at h
  unfold runBetween
  rw [run_state_bind, h]
  dsimp only
  rw [run_state_bind]
  change ((match sourceIsBatch w₁.files e.source with
    | .error f => pure (.ofFault f [])
    | .ok batch => _ : StateM World Outcome).run w₁) = _
  cases sourceIsBatch w₁.files e.source with
  | error f => rfl
  | ok batch =>
    dsimp only
    rw [run_state_bind]
    cases ((list e sides.1 sides.2 o command).run w₁).1.fault? with
    | some f => rfl
    | none =>
      dsimp only
      split_ifs <;> rfl

theorem runBetween_of_reaches (h : Reaches e o c command w g) (quiet : Bool) :
    (runBetween e o c command quiet).run w =
      match g.listings.fault? with
      | some f => (.ofFault f g.listings.notices, g.world)
      | none =>
          if o.workers < 1 then (.ofFault tooFewWorkers g.listings.notices, g.world)
          else
            (finish e g.source g.destination g.batch o command quiet g.listings).run g.world := by
  obtain ⟨w₁, hopen, hbatch, hlist⟩ := h
  rw [runBetween_of_gives hopen quiet, hbatch]
  dsimp only
  rw [hlist]

/-- The world after a plan is the one that its commands leave; reports do not touch it. -/
theorem world_of_finish (source destination : Side) (batch quiet : Bool) (l : Listings)
    (w : World) :
    ((finish e source destination batch o command quiet l).run w).2 =
      (execute source destination o.trial command (.start w)
        (Plan.commands (Plan.ofDiff (planner e batch o) (l.diff o.exclude)).steps)).world := by
  unfold finish carryOut
  simp only [run_state_bind]
  cases (Plan.ofDiff (planner e batch o) (l.diff o.exclude)).fault with
  | none =>
    dsimp only
    split <;> rfl
  | some f =>
    dsimp only
    split <;> rfl

theorem world_of_reaches (h : Reaches e o c command w g) (hfault : g.listings.fault? = none)
    (hworkers : 1 ≤ o.workers) (quiet : Bool) :
    ((runBetween e o c command quiet).run w).2 =
      (execute g.source g.destination o.trial command (.start g.world)
        (Plan.commands (g.plan e o).steps)).world := by
  have hnot : ¬ o.workers < 1 := by omega
  rw [runBetween_of_reaches h quiet, hfault]
  dsimp only
  rw [if_neg hnot]
  exact world_of_finish g.source g.destination g.batch quiet g.listings g.world

section Opening

def Serves (side : Side) (l : Location) : Prop :=
  (l.isRemote = false ∧ side = .files) ∨ (l.isRemote = true ∧ ∃ n, side = .client n)

theorem gives_connect {l : Location} {k : Connection} {side : Side}
    (h : (connect l k).Gives w side w') : Alike w w' ∧ Serves side l := by
  unfold connect at h
  cases hremote : l.isRemote with
  | false =>
    rw [hremote, if_neg Bool.false_ne_true] at h
    obtain ⟨hside, rfl⟩ := gives_pure_iff.mp h
    exact ⟨Alike.refl w', .inl ⟨hremote, hside⟩⟩
  | true =>
    rw [hremote, if_pos rfl] at h
    obtain ⟨_, w₁, hcheck, hnext⟩ := gives_bind_iff.mp h
    obtain ⟨-, rfl⟩ := gives_liftExcept_iff.mp hcheck
    obtain ⟨_, w₂, hmeet, hlast⟩ := gives_bind_iff.mp hnext
    obtain ⟨_, w₃, hset, hpure⟩ := gives_bind_iff.mp (gives_get_bind_iff.mp hlast)
    obtain ⟨hside, rfl⟩ := gives_pure_iff.mp hpure
    have hw₃ := gives_set_iff.mp hset
    exact ⟨(alike_of_meet hmeet).trans (hw₃ ▸ alike_addClient w₂ k), .inr ⟨hremote, _, hside⟩⟩

theorem gives_openSides {sides : Side × Side} (h : (openSides e o c).Gives w sides w') :
    Alike w w' ∧ Serves sides.1 e.source ∧ Serves sides.2 e.destination := by
  obtain ⟨s, w₁, hs, hrest⟩ := gives_bind_iff.mp h
  obtain ⟨d, w₂, hd, hpure⟩ := gives_bind_iff.mp hrest
  obtain ⟨rfl, rfl⟩ := gives_pure_iff.mp hpure
  obtain ⟨hfirst, hsource⟩ := gives_connect hs
  obtain ⟨hsecond, hdestination⟩ := gives_connect hd
  exact ⟨hfirst.trans hsecond, hsource, hdestination⟩

theorem alike_listSide (side : Side) (l : Location) (followLinks : Bool) (watch : Watch)
    (w : World) : Alike w ((listSide side l followLinks watch).run w).2 := by
  cases side with
  | files => exact Alike.refl w
  | client n => exact RemoteListing.alike_list n l watch w

/-- The two listings of a run, each in a world that holds what the first one held. -/
theorem listings_of_reaches (h : Reaches e o c command w g) :
    Serves g.source e.source ∧ Serves g.destination e.destination ∧ Alike w g.world ∧
      ∃ w₁ w₂, Alike w w₁ ∧ Alike w w₂ ∧ sourceIsBatch w.files e.source = .ok g.batch ∧
        g.listings.source = ((listSide g.source e.source o.followLinks Watch.never).run w₁).1 ∧
        g.listings.destination =
          ((listSide g.destination (listingLocation e.destination) false
            Watch.never).run w₂).1 := by
  obtain ⟨w₁, hopen, hbatch, hlist⟩ := h
  obtain ⟨halike, hsource, hdestination⟩ := gives_openSides hopen
  have hfirst := halike.trans (alike_listSide g.source e.source o.followLinks Watch.never w₁)
  have hsecond := hfirst.trans
    (alike_listSide g.destination (listingLocation e.destination) false Watch.never _)
  obtain ⟨hlistings, hworld⟩ := Prod.mk.inj hlist
  refine ⟨hsource, hdestination, hworld ▸ hsecond, w₁, _, halike, hfirst, ?_, ?_, ?_⟩
  · exact halike.files ▸ hbatch
  · exact hlistings ▸ rfl
  · exact hlistings ▸ rfl

end Opening

section Listing

/-- A remote source is a batch when it stands for several objects. -/
theorem expands_iff_batch {t : Files.Tree} {l : Location} {batch : Bool}
    (hremote : l.isRemote = true) (h : sourceIsBatch t l = .ok batch) :
    l.Expands ↔ batch = true := by
  have hbatch : Placement.isBatch l none = batch := by
    simpa [sourceIsBatch, hremote] using h
  rw [← hbatch]
  unfold Location.Expands
  cases hwild : l.isWildcard <;> simp [Placement.isBatch, hwild, hremote]

theorem located_source (hw : w.Proper) (h : Reaches e o c command w g) :
    Located e.source g.listings.source.entries := by
  obtain ⟨hserves, -, -, w₁, w₂, halike, -, -, hlisting, -⟩ := listings_of_reaches h
  rw [hlisting]
  have hproper := hw.of_alike halike
  rcases hserves with ⟨hlocal, hside⟩ | ⟨hremote, n, hside⟩
  · rw [hside]
    exact LocalListing.located_list hproper.files hlocal o.followLinks
  · rw [hside]
    by_cases hexpands : e.source.Expands
    · exact RemoteListing.located_list hremote hexpands (hproper.nodup_keys _)
    · exact RemoteListing.located_key hremote hexpands

theorem located_destination (hw : w.Proper) (h : Reaches e o c command w g)
    (hremote : e.destination.isRemote = true) :
    Located (listingLocation e.destination) g.listings.destination.entries := by
  obtain ⟨-, hserves, -, w₁, w₂, -, halike, -, -, hlisting⟩ := listings_of_reaches h
  rcases hserves with ⟨hlocal, -⟩ | ⟨-, n, hside⟩
  · rw [hremote] at hlocal
    cases hlocal
  · rw [hlisting, hside]
    exact RemoteListing.located_list hremote (expands_listingLocation hremote)
      ((hw.of_alike halike).nodup_keys _)

/-- What a run finds at a remote destination is in the store, at the prefix with the relative path
behind it. -/
theorem object?_of_found_destination (h : Reaches e o c command w g)
    (hremote : e.destination.isRemote = true) {t : Entry}
    (ht : t ∈ found g.listings.destination.entries) :
    t.location.path = keyPrefix e.destination ++ t.relative ∧
      (w.store.object? e.destination.bucket t.location.path).isSome = true := by
  obtain ⟨-, hserves, -, w₁, w₂, -, halike, -, -, hlisting⟩ := listings_of_reaches h
  rcases hserves with ⟨hlocal, -⟩ | ⟨-, n, hside⟩
  · rw [hremote] at hlocal
    cases hlocal
  · rw [hlisting, hside] at ht
    obtain ⟨hpath, hobject⟩ :=
      RemoteListing.object?_of_mem_found (expands_listingLocation hremote) ht
    rw [halike.object?] at hobject
    refine ⟨String.toList_inj.mp ?_, hobject⟩
    rw [hpath, listBase_listingLocation hremote, String.toList_append]

theorem location_of_found_destination (h : Reaches e o c command w g)
    (hremote : e.destination.isRemote = true) {t : Entry}
    (ht : t ∈ found g.listings.destination.entries) :
    ∃ key relative, t.location = RemoteListing.locationOf e.destination.bucket key relative := by
  obtain ⟨-, hserves, -, w₁, w₂, -, -, -, -, hlisting⟩ := listings_of_reaches h
  rcases hserves with ⟨hlocal, -⟩ | ⟨-, n, hside⟩
  · rw [hremote] at hlocal
    cases hlocal
  · rw [hlisting, hside] at ht
    exact RemoteListing.location_of_mem_found (l := listingLocation e.destination)
      (expands_listingLocation hremote) ht

/-- What a run finds at a local destination stands in the tree. -/
theorem stands_of_found_destination (h : Reaches e o c command w g)
    (hlocal : e.destination.isRemote = false) {t : Entry}
    (ht : t ∈ found g.listings.destination.entries) : LocalListing.Stands w.files t := by
  obtain ⟨-, hserves, -, w₁, w₂, -, halike, -, -, hlisting⟩ := listings_of_reaches h
  rcases hserves with ⟨-, hside⟩ | ⟨hremote, -⟩
  · rw [hlisting, hside] at ht
    exact halike.files ▸ LocalListing.stands_of_mem_found ht
  · rw [hremote] at hlocal
    cases hlocal

theorem literal_of_found_destination (h : Reaches e o c command w g) {t : Entry}
    (ht : t ∈ found g.listings.destination.entries) : t.location.literal = true := by
  cases hremote : e.destination.isRemote with
  | true =>
    obtain ⟨key, relative, hlocation⟩ := location_of_found_destination h hremote ht
    rw [hlocation]
    rfl
  | false => exact (stands_of_found_destination h hremote ht).literal

end Listing

/-! A run from one bucket to another one, for the tests. -/

section Across

def objectAt (key : String) : Object := ⟨key, ⟨#[1]⟩, none, none, none, none, true⟩

def entryAt (bucket key : String) : Entry := RemoteListing.entryOf bucket key (objectAt key)

def twoBuckets (a b : Bucket) : World :=
  ⟨.ofNodes [] [], ⟨[("a", a), ("b", b)], [], 1000, 0, .plain⟩, []⟩

def acrossBuckets : Ends := ⟨⟨"s3", "a", "", false, none⟩, ⟨"s3", "b", "", false, none⟩⟩

def deletingOptions : Options := { Options.standard with delete := true }

def acrossStage (a b : Bucket) : Stage :=
  let opened := ((openSides acrossBuckets deletingOptions .standard).run.run (twoBuckets a b)).2
  let listed := (list acrossBuckets (.client 0) (.client 1) deletingOptions "sync").run opened
  ⟨.client 0, .client 1, true, listed.1, listed.2⟩

end Across

end Sync

end StoreSync
