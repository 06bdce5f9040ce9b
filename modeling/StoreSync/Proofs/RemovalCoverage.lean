import StoreSync.Proofs.EligibleEntries
import StoreSync.Proofs.Partition
import StoreSync.Proofs.PlanCommands

/-!
Which listed sources a removal spares. The entries that take part in the comparison are chosen
on each side by itself, so a withheld source can be absent from the comparison while the object
at its path takes part. The removal leaves the paths of all listed sources alone exactly when the
eligible entries of the source cover those of the destination.
-/
namespace StoreSync.Plan

open Eligibility Diff

def eligibleDiff (exclude : List String) (sources destinations : List Entry) : Diff :=
  ofListings (select exclude sources) (select exclude destinations)

/-- At the path of each listed source that is no directory, the destination has no more eligible
entries than the source. -/
def Covers (exclude : List String) (sources destinations : List Entry) : Prop :=
  ∀ e ∈ sources, e.isDirectory = false →
    (entriesAt e.relative (select exclude destinations)).length ≤
      (entriesAt e.relative (select exclude sources)).length

variable {exclude : List String} {sources destinations : List Entry}

theorem covers_iff_onlyDestination :
    Covers exclude sources destinations ↔
      ∀ e ∈ sources, e.isDirectory = false →
        ∀ l ∈ (eligibleDiff exclude sources destinations).onlyDestination,
          l.relative ≠ e.relative := by
  unfold Covers eligibleDiff
  refine forall_congr' fun e => forall_congr' fun _ => forall_congr' fun _ => ?_
  rw [← Nat.not_lt, ← exists_onlyDestination_iff]
  simp

theorem exists_entryAt_iff {k : String} {es : List Entry} :
    (∃ e ∈ es, e.relative = k) ↔ 0 < (entriesAt k es).length := by
  rw [List.length_pos_iff, entriesAt, ne_eq, List.filter_eq_nil_iff]
  simp

/-- With distinct paths at the destination only withheld sources can be uncovered: one that is
eligible covers its path, and one that is excluded faces no eligible entry. -/
theorem covers_iff_withheld (hdistinct : DistinctPaths (select exclude destinations)) :
    Covers exclude sources destinations ↔
      ∀ e ∈ sources, e.isDirectory = false → isWithheld e = true →
        (∃ t ∈ select exclude destinations, t.relative = e.relative) →
          ∃ s ∈ select exclude sources, s.relative = e.relative := by
  constructor
  · intro h e he hdir _ ht
    have hle := h e he hdir
    have hpos := exists_entryAt_iff.mp ht
    exact exists_entryAt_iff.mpr (by omega)
  · intro h e he hdir
    have hone := length_entriesAt_le_one hdistinct e.relative
    by_cases ht : ∃ t ∈ select exclude destinations, t.relative = e.relative
    · have hs : ∃ s ∈ select exclude sources, s.relative = e.relative := by
        cases hheld : isWithheld e with
        | true => exact h e he hdir hheld ht
        | false =>
          obtain ⟨t, ht, hrel⟩ := ht
          have heligible := isEligible_of_relative_eq (mem_select_iff.mp ht).2 hrel.symm hdir hheld
          exact ⟨e, mem_select_iff.mpr ⟨he, heligible⟩, rfl⟩
      have hpos := exists_entryAt_iff.mp hs
      omega
    · have hzero : ¬ 0 < (entriesAt e.relative (select exclude destinations)).length :=
        fun hpos => ht (exists_entryAt_iff.mpr hpos)
      omega

/-- A plan that comes to a removal leaves alone the paths of all listed sources exactly when the
eligible sources cover the eligible destinations. With distinct paths at the destination this
means that a withheld source with an eligible counterpart has an eligible namesake. -/
theorem removal_spares_sources_iff (p : Planner) (exclude : List String)
    (sources destinations : List Entry) :
    ((∀ e ∈ sources, e.isDirectory = false →
        ∀ l, Removes p (eligibleDiff exclude sources destinations) l →
          l.relative ≠ e.relative) ↔
      (ComesToRemoval p (eligibleDiff exclude sources destinations) →
        Covers exclude sources destinations)) ∧
    (DistinctPaths (select exclude destinations) →
      (Covers exclude sources destinations ↔
        ∀ e ∈ sources, e.isDirectory = false → isWithheld e = true →
          (∃ t ∈ select exclude destinations, t.relative = e.relative) →
            ∃ s ∈ select exclude sources, s.relative = e.relative)) := by
  refine ⟨?_, covers_iff_withheld⟩
  rw [covers_iff_onlyDestination]
  simp only [removes_iff]
  constructor
  · intro h hremoval e he hdir l hl
    exact h e he hdir l ⟨hremoval, hl⟩
  · intro h e he hdir l hl
    exact h hl.1 e he hdir l hl.2

def deleting : Planner := ⟨⟨"s3", "b", "", false, none⟩, .sizeOnly, true, true, [], "sync"⟩

def archivedAt (relative : String) (size : Int) : Entry :=
  { fileAt relative size with storageClass := some .glacier }

theorem eligibleDiff_archived :
    eligibleDiff [] [archivedAt "a" 1] [fileAt "a" 1] = ⟨[], [(fileAt "a" 1).location], []⟩ := by
  have hs : select [] [archivedAt "a" 1] = [] := rfl
  have ht : select [] [fileAt "a" 1] = [fileAt "a" 1] := rfl
  rw [eligibleDiff, hs, ht]
  simp [ofListings, Diff.sort, Diff.merge]

/-- An archived source leaves its path uncovered. -/
theorem not_covers_archived :
    DistinctPaths (select [] [fileAt "a" 1]) ∧ ¬ Covers [] [archivedAt "a" 1] [fileAt "a" 1] := by
  have hdistinct : DistinctPaths (select [] [fileAt "a" 1]) := by decide
  refine ⟨hdistinct, fun hcovers => ?_⟩
  have hwithheld := ((removal_spares_sources_iff deleting [] _ _).2 hdistinct).mp hcovers
  obtain ⟨s, hs, -⟩ := hwithheld (archivedAt "a" 1) (List.mem_singleton_self _) rfl rfl
    ⟨fileAt "a" 1, List.mem_singleton_self _, rfl⟩
  exact List.not_mem_nil hs

/-- An archived source does not save the object at its path. -/
theorem removal_takes_archived :
    ¬ ∀ (p : Planner) (exclude : List String) (sources destinations : List Entry),
      p.delete = true → ∀ e ∈ sources, e.isDirectory = false →
        ∀ l, Removes p (eligibleDiff exclude sources destinations) l →
          l.relative ≠ e.relative := by
  intro h
  have hremoval : ComesToRemoval deleting
      (eligibleDiff [] [archivedAt "a" 1] [fileAt "a" 1]) := by
    rw [eligibleDiff_archived]
    exact ⟨rfl, rfl, by simp, by simp [fileAt, Location.isWildcard]⟩
  have hmem : (fileAt "a" 1).location ∈
      (eligibleDiff [] [archivedAt "a" 1] [fileAt "a" 1]).onlyDestination := by
    rw [eligibleDiff_archived]
    exact List.mem_singleton_self _
  exact h deleting [] [archivedAt "a" 1] [fileAt "a" 1] rfl (archivedAt "a" 1)
    (List.mem_singleton_self _) rfl _ (removes_iff.mpr ⟨hremoval, hmem⟩) rfl

end StoreSync.Plan
