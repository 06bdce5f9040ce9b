import StoreSync.Proofs.PlanCommands
import StoreSync.Proofs.Retention
import StoreSync.Proofs.Runs

/-!
What a run takes away when its source listing fails. A fault in a listing is one entry among the
others, and what the listing leaves out behind it counts as absent from the source. A run that
removes what is absent thus empties a destination whose source cannot be listed.
-/
namespace StoreSync.Sync

open ObjectStore Transfer Eligibility Diff Plan World StoreSync.Action

def Lost (l : Location) (w w' : World) : Prop :=
  if l.isRemote then
    (w.store.object? l.bucket l.path).isSome = true ∧ w'.store.object? l.bucket l.path = none
  else ∃ q, w.files.HoldsAt l.path q ∧ w'.files.node? q = none

variable {e : Ends} {o : Options} {c : Connection} {command : String} {w w' : World} {g : Stage}
  {l : Location}

theorem Lost.not_retains (h : Lost l w w') : ¬ Retains w w' := by
  intro hretains
  unfold Lost at h
  split_ifs at h
  · obtain ⟨hsome, hnone⟩ := h
    have hkept := hretains.objects _ _ hsome
    rw [hnone] at hkept
    cases hkept
  · obtain ⟨q, hq, hnone⟩ := h
    have hkept := hretains.nodes q hq.node?.2
    rw [hnone] at hkept
    cases hkept

section Removal

/-- What the destination alone has is listed there and eligible. -/
theorem exists_of_mem_onlyDestination (h : l ∈ (g.listings.diff o.exclude).onlyDestination) :
    ∃ t ∈ select o.exclude g.listings.destination.entries, t.location = l := by
  have hperm := (partition_ofListings (select o.exclude g.listings.source.entries)
    (select o.exclude g.listings.destination.entries)).destination_perm
  exact List.mem_map.mp (hperm.subset (List.mem_append_left _ h))

/-- The locations of a removal were listed, so they are taken literally. -/
theorem comesToRemoval_of_ne_nil (h : Reaches e o c command w g) (hdelete : o.delete = true)
    (hfault : (g.plan e o).fault = none)
    (hne : (g.listings.diff o.exclude).onlyDestination ≠ []) :
    ComesToRemoval (planner e g.batch o) (g.listings.diff o.exclude) where
  delete := hdelete
  fault := hfault
  nonempty := hne
  literal l hl := by
    obtain ⟨t, ht, rfl⟩ := exists_of_mem_onlyDestination hl
    exact Location.isWildcard_of_literal
      (literal_of_found_destination h (mem_found_of_mem_select ht))

end Removal

section Copying

theorem ne_remove_of_copyCall {command : Command} {request : Call}
    (h : Execution.copyCall command = .ok request) (ls : List Location) : request ≠ .remove ls := by
  unfold Execution.copyCall at h
  rintro rfl
  split at h
  · split at h <;> cases h
  · cases h

end Copying

section Sweeping

def unsourced : Stage := acrossStage [] [objectAt "y"]

end Sweeping

end StoreSync.Sync
