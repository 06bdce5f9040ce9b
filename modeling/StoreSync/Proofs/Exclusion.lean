import StoreSync.Proofs.PlanCommands
import StoreSync.Proofs.RemovalCoverage

/-!
What exclusion does to a difference. A pattern strikes a relative path on both sides or on
neither, so at each path the two listings split as before or not at all. A difference is known by
what it has at each path and by its order; so the one of the filtered listings is the one of the
whole listings without the struck paths. The commands of a plan name no struck path.
-/
namespace StoreSync

namespace Diff

def restrict (keeps : String → Bool) (d : Diff) : Diff :=
  ⟨d.onlySource.filter fun l => keeps l.relative,
    d.onlyDestination.filter fun l => keeps l.relative,
    d.common.filter fun p => keeps p.1.relative⟩

structure Ordered (d : Diff) : Prop where
  onlySource : d.onlySource.Pairwise fun a b => a.relative ≤ b.relative
  onlyDestination : d.onlyDestination.Pairwise fun a b => a.relative ≤ b.relative
  common : d.common.Pairwise fun p q => p.1.relative ≤ q.1.relative

variable {keeps : String → Bool} {k : String} {ss ts : List Entry} {d d' : Diff}

section Keys

variable {α : Type} (key : α → String)

/-- The first of a sorted list has the least key of all. -/
theorem key_le_of_mem {x y : α} {xs : List α}
    (h : (x :: xs).Pairwise fun a b => key a ≤ key b) (hy : y ∈ x :: xs) : key x ≤ key y := by
  rcases List.mem_cons.mp hy with rfl | hy
  · exact String.le_refl _
  · exact (List.pairwise_cons.mp h).1 y hy

theorem mem_of_filter_eq {x : α} {xs ys : List α} (hx : x ∈ xs)
    (h : ∀ k, xs.filter (fun a => key a = k) = ys.filter fun a => key a = k) : x ∈ ys := by
  have hmem : x ∈ xs.filter fun a => key a = key x := List.mem_filter.mpr ⟨hx, by simp⟩
  rw [h] at hmem
  exact List.mem_of_mem_filter hmem

/-- Sorted lists that agree at every key are equal. -/
theorem eq_of_filter_eq {xs ys : List α} (hxs : xs.Pairwise fun a b => key a ≤ key b)
    (hys : ys.Pairwise fun a b => key a ≤ key b)
    (h : ∀ k, xs.filter (fun a => key a = k) = ys.filter fun a => key a = k) : xs = ys := by
  induction xs generalizing ys with
  | nil =>
    rcases ys with _ | ⟨y, ys⟩
    · rfl
    · exact absurd (mem_of_filter_eq key List.mem_cons_self fun k => (h k).symm) List.not_mem_nil
  | cons x xs ih =>
    rcases ys with _ | ⟨y, ys⟩
    · exact absurd (mem_of_filter_eq key List.mem_cons_self h) List.not_mem_nil
    · -- both heads have the least key, so both stand first at that key
      have hxy : key x ≤ key y :=
        key_le_of_mem key hxs (mem_of_filter_eq key List.mem_cons_self fun k => (h k).symm)
      have hyx : key y ≤ key x := key_le_of_mem key hys (mem_of_filter_eq key List.mem_cons_self h)
      have hkey : key x = key y := String.le_antisymm hxy hyx
      have hhead := h (key y)
      rw [List.filter_cons_of_pos (by simpa using hkey), List.filter_cons_of_pos (by simp)] at hhead
      obtain rfl : x = y := (List.cons.inj hhead).1
      refine congrArg (x :: ·) (ih (List.pairwise_cons.mp hxs).2 (List.pairwise_cons.mp hys).2 ?_)
      intro k
      have hk := h k
      by_cases hx : key x = k
      · rw [List.filter_cons_of_pos (by simpa using hx),
          List.filter_cons_of_pos (by simpa using hx)] at hk
        exact (List.cons.inj hk).2
      · rwa [List.filter_cons_of_neg (by simpa using hx),
          List.filter_cons_of_neg (by simpa using hx)] at hk

/-- At a key a filter by keys leaves all or nothing. -/
theorem filter_key_filter (keeps : String → Bool) (k : String) (xs : List α) :
    (xs.filter fun a => keeps (key a)).filter (fun a => key a = k) =
      if keeps k then xs.filter fun a => key a = k else [] := by
  rw [List.filter_filter]
  split_ifs with hk
  · refine List.filter_congr fun a _ => ?_
    by_cases ha : key a = k <;> simp [ha, hk]
  · refine List.filter_eq_nil_iff.mpr fun a _ => ?_
    by_cases ha : key a = k <;> simp [ha, hk]

end Keys

section Restricting

theorem entriesAt_filter (keeps : String → Bool) (k : String) (es : List Entry) :
    entriesAt k (es.filter fun e => keeps e.relative) = if keeps k then entriesAt k es else [] :=
  filter_key_filter Entry.relative keeps k es

theorem locationsAt_filter (keeps : String → Bool) (k : String) (ls : List Location) :
    locationsAt k (ls.filter fun l => keeps l.relative) =
      if keeps k then locationsAt k ls else [] :=
  filter_key_filter Location.relative keeps k ls

theorem pairsAt_filter (keeps : String → Bool) (k : String) (ps : List (Entry × Entry)) :
    pairsAt k (ps.filter fun p => keeps p.1.relative) = if keeps k then pairsAt k ps else [] :=
  filter_key_filter (fun p : Entry × Entry => p.1.relative) keeps k ps

theorem SplitAt.restrict (keeps : String → Bool) (h : SplitAt k ss ts d) :
    SplitAt k (ss.filter fun e => keeps e.relative) (ts.filter fun e => keeps e.relative)
      (d.restrict keeps) := by
  constructor
  · rw [Diff.restrict, pairsAt_filter, entriesAt_filter, entriesAt_filter]
    split_ifs
    · exact h.common
    · rfl
  · rw [Diff.restrict, locationsAt_filter, entriesAt_filter, entriesAt_filter]
    split_ifs
    · exact h.onlySource
    · rfl
  · rw [Diff.restrict, locationsAt_filter, entriesAt_filter, entriesAt_filter]
    split_ifs
    · exact h.onlyDestination
    · rfl

theorem Ordered.restrict (keeps : String → Bool) (h : Ordered d) : Ordered (d.restrict keeps) :=
  ⟨h.onlySource.filter _, h.onlyDestination.filter _, h.common.filter _⟩

theorem ordered_ofListings (sources destinations : List Entry) :
    Ordered (ofListings sources destinations) :=
  have h := partition_ofListings sources destinations
  ⟨h.onlySource_sorted, h.onlyDestination_sorted, h.common_sorted⟩

/-- Listings split in one way only. -/
theorem eq_of_splitAt (hd : Ordered d) (hd' : Ordered d') (h : ∀ k, SplitAt k ss ts d)
    (h' : ∀ k, SplitAt k ss ts d') : d = d' := by
  have hsource : d.onlySource = d'.onlySource :=
    eq_of_filter_eq Location.relative hd.onlySource hd'.onlySource fun k =>
      (h k).onlySource.trans (h' k).onlySource.symm
  have hdestination : d.onlyDestination = d'.onlyDestination :=
    eq_of_filter_eq Location.relative hd.onlyDestination hd'.onlyDestination fun k =>
      (h k).onlyDestination.trans (h' k).onlyDestination.symm
  have hcommon : d.common = d'.common :=
    eq_of_filter_eq (fun p : Entry × Entry => p.1.relative) hd.common hd'.common fun k =>
      (h k).common.trans (h' k).common.symm
  cases d
  cases d'
  simp_all only

/-- To filter both listings by their paths is to filter the difference. -/
theorem ofListings_filter (keeps : String → Bool) (sources destinations : List Entry) :
    ofListings (sources.filter fun e => keeps e.relative)
        (destinations.filter fun e => keeps e.relative) =
      (ofListings sources destinations).restrict keeps :=
  eq_of_splitAt (ordered_ofListings _ _) ((ordered_ofListings _ _).restrict keeps)
    (splitAt_ofListings _ _) fun k => (splitAt_ofListings sources destinations k).restrict keeps

/-- Each entry of a pair comes from its listing. -/
theorem mem_of_mem_common {p : Entry × Entry} (h : p ∈ (ofListings ss ts).common) :
    p.1 ∈ ss ∧ p.2 ∈ ts := by
  have hat : p ∈ pairsAt p.1.relative (ofListings ss ts).common :=
    List.mem_filter.mpr ⟨h, by simp⟩
  rw [(splitAt_ofListings ss ts p.1.relative).common] at hat
  obtain ⟨hs, ht⟩ := List.of_mem_zip (a := p.1) (b := p.2) hat
  exact ⟨List.mem_of_mem_filter hs, List.mem_of_mem_filter ht⟩

end Restricting

end Diff

namespace Plan

open Eligibility Diff Command

def spares (exclude : List String) (path : String) : Bool := !Glob.matchesAny exclude path

/-- The location to which a batch copies a relative path: its place at the destination, or the
location of an entry that is listed there. -/
inductive WrittenAs (destination : Location) (listed : List Entry) (l : Location)
    (path : String) : Prop
  | placed (place : l = (destination.join path).setLiteral true)
  | listed {e : Entry} (mem : e ∈ listed) (location : l = e.location) (relative : e.relative = path)

variable {exclude : List String} {sources destinations : List Entry} {p : Planner} {c : Command}

/-- Patterns only take away from what is eligible without them. -/
theorem select_eq_filter_spares (exclude : List String) (es : List Entry) :
    select exclude es = (select [] es).filter fun e => spares exclude e.relative := by
  rw [select, select, List.filter_filter]
  refine List.filter_congr fun e _ => ?_
  rw [Bool.eq_iff_iff, Bool.and_eq_true, isEligible_iff, isEligible_iff, spares,
    Bool.not_eq_true']
  have hnone : Glob.matchesAny [] e.relative = false := rfl
  tauto

theorem eligibleDiff_eq_restrict (exclude : List String) (sources destinations : List Entry) :
    eligibleDiff exclude sources destinations =
      (eligibleDiff [] sources destinations).restrict (spares exclude) := by
  unfold eligibleDiff
  rw [select_eq_filter_spares exclude sources, select_eq_filter_spares exclude destinations,
    ofListings_filter]

theorem spares_of_mem_common {pair : Entry × Entry}
    (h : pair ∈ (eligibleDiff exclude sources destinations).common) :
    spares exclude pair.1.relative = true := by
  rw [eligibleDiff_eq_restrict] at h
  exact (List.mem_filter.mp h).2

theorem spares_of_mem_onlySource {l : Location}
    (h : l ∈ (eligibleDiff exclude sources destinations).onlySource) :
    spares exclude l.relative = true := by
  rw [eligibleDiff_eq_restrict] at h
  exact (List.mem_filter.mp h).2

theorem spares_of_mem_onlyDestination {l : Location}
    (h : l ∈ (eligibleDiff exclude sources destinations).onlyDestination) :
    spares exclude l.relative = true := by
  rw [eligibleDiff_eq_restrict] at h
  exact (List.mem_filter.mp h).2

/-- A batch copies spared paths only, each to where it belongs. -/
theorem copy_of_mem_copies (hbatch : p.batch = true)
    (h : c ∈ copies p (eligibleDiff exclude sources destinations)) :
    ∃ s t path, c.locations = [s, t] ∧ spares exclude path = true ∧ s.relative = path ∧
      WrittenAs p.destination (select exclude destinations) t path := by
  rcases mem_copies h with ⟨l, hl, hc⟩ | ⟨pair, hpair, hc⟩
  · obtain ⟨-, -, rfl⟩ := copyNew_command?_iff.mp hc
    refine ⟨l, _, l.relative, rfl, spares_of_mem_onlySource hl, rfl, .placed ?_⟩
    simp [Placement.target, Placement.isExactKey, hbatch]
  · obtain ⟨-, -, -, -, rfl⟩ := copyPair?_iff.mp hc
    have hrelative := (partition_ofListings _ _).common_relative pair hpair
    exact ⟨_, _, _, rfl, spares_of_mem_common hpair, rfl,
      .listed (mem_of_mem_common hpair).2 rfl hrelative.symm⟩

/-- Exclusion restricts a difference to the paths that no pattern matches: with the patterns both
sides give the same results in the same order, less the paths that are struck. At every other path
nothing is classified or paired in another way. In a batch no command of the plan reads, writes or
removes what lies at a struck path. -/
theorem exclusion_restricts_diff (exclude : List String) (sources destinations : List Entry) :
    eligibleDiff exclude sources destinations =
        (eligibleDiff [] sources destinations).restrict (spares exclude) ∧
      (∀ k, spares exclude k = true →
        let without := eligibleDiff [] sources destinations
        let d := eligibleDiff exclude sources destinations
        locationsAt k d.onlySource = locationsAt k without.onlySource ∧
          locationsAt k d.onlyDestination = locationsAt k without.onlyDestination ∧
          pairsAt k d.common = pairsAt k without.common) ∧
      ∀ p : Planner, p.batch = true →
        ∀ c ∈ commands (ofDiff p (eligibleDiff exclude sources destinations)).steps,
          (c.op = copyOp → ∃ s t path, c.locations = [s, t] ∧ spares exclude path = true ∧
            s.relative = path ∧
            WrittenAs p.destination (select exclude destinations) t path) ∧
          (c.op = removeOp → ∀ l ∈ c.locations, spares exclude l.relative = true) := by
  refine ⟨eligibleDiff_eq_restrict exclude sources destinations, ?_, ?_⟩
  · intro k hk
    dsimp only
    rw [eligibleDiff_eq_restrict exclude, Diff.restrict, locationsAt_filter, locationsAt_filter,
      pairsAt_filter]
    simp only [hk, if_true, and_self]
  · intro p hbatch c hc
    have hne : copyOp ≠ removeOp := by decide
    rcases mem_commands_ofDiff_iff.mp hc with hcopy | ⟨hremoval, rfl⟩
    · refine ⟨fun _ => copy_of_mem_copies hbatch hcopy, fun hop => ?_⟩
      exact absurd ((op_of_mem_copies hcopy).symm.trans hop) hne
    · refine ⟨fun hop => absurd hop.symm hne, fun _ l hl => ?_⟩
      exact spares_of_mem_onlyDestination hl

theorem eligibleDiff_logs :
    eligibleDiff ["*.log"] [fileAt "x.log" 1, fileAt "b" 2] [fileAt "y.log" 3, fileAt "c" 4] =
      ⟨[(fileAt "b" 2).location], [(fileAt "c" 4).location], []⟩ := by
  have hs : select ["*.log"] [fileAt "x.log" 1, fileAt "b" 2] = [fileAt "b" 2] := rfl
  have ht : select ["*.log"] [fileAt "y.log" 3, fileAt "c" 4] = [fileAt "c" 4] := rfl
  have hne : (fileAt "b" 2).relative ≠ (fileAt "c" 4).relative := by decide
  have hlt : ¬ (fileAt "c" 4).relative < (fileAt "b" 2).relative := by decide
  rw [eligibleDiff, hs, ht]
  simp [ofListings, Diff.sort, Diff.merge, hne, hlt, addSource]

/-- The logs on both sides take no part: the plan copies one file and removes the other one. -/
theorem exclusion_restricts_diff_logs :
    let sources := [fileAt "x.log" 1, fileAt "b" 2]
    let destinations := [fileAt "y.log" 3, fileAt "c" 4]
    let d := eligibleDiff ["*.log"] sources destinations
    spares ["*.log"] "b" = true ∧ deleting.batch = true ∧
      locationsAt "b" d.onlySource =
        locationsAt "b" (eligibleDiff [] sources destinations).onlySource ∧
      ∃ copy removal, commands (ofDiff deleting d).steps = [copy, removal] ∧
        copy.op = copyOp ∧ removal.op = removeOp ∧
        (∃ s t path, copy.locations = [s, t] ∧ spares ["*.log"] path = true ∧ s.relative = path ∧
          WrittenAs deleting.destination (select ["*.log"] destinations) t path) ∧
        ∀ l ∈ removal.locations, spares ["*.log"] l.relative = true := by
  intro sources destinations d
  have hspares : spares ["*.log"] "b" = true := rfl
  obtain ⟨-, hat, hcommands⟩ := exclusion_restricts_diff ["*.log"] sources destinations
  have hlist : commands (ofDiff deleting d).steps =
      [⟨copyOp, [(fileAt "b" 2).location, ⟨"s3", "b", "b", true, none⟩], baseFlags⟩,
        ⟨removeOp, [(fileAt "c" 4).location], baseFlags⟩] := by
    simp only [d, sources, destinations, eligibleDiff_logs]
    rfl
  have hcopy := hcommands deleting rfl _ (hlist ▸ List.mem_cons_self)
  have hremoval := hcommands deleting rfl _
    (hlist ▸ List.mem_cons_of_mem _ (List.mem_singleton_self _))
  exact ⟨hspares, rfl, (hat "b" hspares).1, _, _, hlist, rfl, rfl, hcopy.1 rfl, hremoval.2 rfl⟩

end Plan

end StoreSync
