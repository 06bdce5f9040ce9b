import StoreSync.Eligibility
import StoreSync.Proofs.Partition

/-!
Eligible entries: no directory, neither withheld nor excluded. Exclusion looks at the relative
path alone and so strikes both sides alike; what is withheld is a matter of one side. Every
eligible entry is found, that is, it stands for a file or an object and not for a fault.
-/
namespace StoreSync.Eligibility

def isWithheld (e : Entry) : Bool := e.fault.isSome || e.storageClass.any StorageClass.isArchival

variable {exclude : List String} {e : Entry}

theorem isEligible_iff :
    isEligible exclude e = true ↔
      e.isDirectory = false ∧ isWithheld e = false ∧
        Glob.matchesAny exclude e.relative = false := by
  unfold isEligible judge isWithheld
  cases hdir : e.isDirectory with
  | true => simp
  | false =>
    cases hfault : e.fault with
    | some f => cases hcancel : f.isCancellation <;> simp [hcancel]
    | none =>
      cases harchived : e.storageClass.any StorageClass.isArchival <;>
        cases hexcluded : Glob.matchesAny exclude e.relative <;> simp

theorem mem_select_iff {es : List Entry} :
    e ∈ select exclude es ↔ e ∈ es ∧ isEligible exclude e = true := List.mem_filter

/-- Exclusion strikes both sides alike: an entry that is not withheld is eligible if another
entry at its path is. -/
theorem isEligible_of_relative_eq {t : Entry} (ht : isEligible exclude t = true)
    (hrel : e.relative = t.relative) (hdir : e.isDirectory = false)
    (hheld : isWithheld e = false) : isEligible exclude e = true := by
  have hexcluded := (isEligible_iff.mp ht).2.2
  exact isEligible_iff.mpr ⟨hdir, hheld, hrel ▸ hexcluded⟩

section Found

def isFound (e : Entry) : Bool := !e.isDirectory && e.fault.isNone

/-- The entries of a listing that stand for a file or an object. -/
def found (es : List Entry) : List Entry := es.filter isFound

/-- The entries that a listing of a location finds lie on the side of the location, one at each
relative path, and are taken literally. -/
structure Located (l : Location) (es : List Entry) : Prop where
  distinct : Diff.DistinctPaths (found es)
  literal : ∀ e ∈ found es, e.location.literal = true
  remote : ∀ e ∈ found es, e.location.isRemote = l.isRemote
  bucket : ∀ e ∈ found es, e.location.isRemote = true → e.location.bucket = l.bucket

theorem isFound_of_isEligible (h : isEligible exclude e = true) : isFound e = true := by
  obtain ⟨hdir, hheld, -⟩ := isEligible_iff.mp h
  simp only [isWithheld, Bool.or_eq_false_iff, Option.isSome_eq_false_iff] at hheld
  simp [isFound, hdir, hheld.1]

theorem isDirectory_of_isFound (h : isFound e = true) : e.isDirectory = false := by
  simp only [isFound, Bool.and_eq_true, Bool.not_eq_true'] at h
  exact h.1

/-- What is eligible is chosen among what is found. -/
theorem select_eq_filter (exclude : List String) (es : List Entry) :
    select exclude es = (found es).filter (isEligible exclude) := by
  unfold select found
  rw [List.filter_filter]
  apply List.filter_congr
  intro e _
  cases heligible : isEligible exclude e with
  | true => simp [isFound_of_isEligible heligible]
  | false => simp

theorem select_sublist_found (exclude : List String) (es : List Entry) :
    List.Sublist (select exclude es) (found es) :=
  select_eq_filter exclude es ▸ List.filter_sublist

variable {l : Location} {es gs : List Entry}

theorem mem_found_of_mem_select (h : e ∈ select exclude es) : e ∈ found es :=
  (select_sublist_found exclude es).subset h

/-- A listing that breaks off still finds some of the entries of the whole one. -/
theorem Located.of_sublist (h : Located l gs) (hsub : List.Sublist (found es) (found gs)) :
    Located l es where
  distinct := h.distinct.sublist (hsub.map Entry.relative)
  literal e he := h.literal e (hsub.subset he)
  remote e he := h.remote e (hsub.subset he)
  bucket e he := h.bucket e (hsub.subset he)

theorem Located.distinct_select (h : Located l es) (exclude : List String) :
    Diff.DistinctPaths (select exclude es) :=
  h.distinct.sublist ((select_sublist_found exclude es).map Entry.relative)

end Found

end StoreSync.Eligibility
