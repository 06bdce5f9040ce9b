import StoreSync.Glob.FixedPart
import StoreSync.Proofs.ReachedFiles

/-!
The files that a local pattern stands for: those whose path, with the base of the pattern at its
beginning, matches the pattern as a whole. Only what lies below the base is walked through, and no
match is lost by that. A listing gives out one entry for each match, with the size and the time of
the file or with what the system says of it.
-/
namespace StoreSync.LocalListing

open Files Text

variable {t : Tree} {l : Location} {path relative : String} {e : Entry} {p : Files.Path}
  {followLinks : Bool} {names : List String}

section Making

end Making

section Matching

def walkRoot (l : Location) : String :=
  if l.listBase = [] then "." else String.ofList l.listBase

/-- The path of a file below a pattern, with the base of the pattern at its beginning. -/
def spelled (l : Location) (names : List String) : String :=
  String.ofList (l.listBase ++ (String.intercalate "/" names).toList)

/-- The names lead to a file below the base, and its path matches the whole pattern. -/
structure Matched (t : Tree) (l : Location) (names : List String) : Prop where
  lies : ∃ p, t.find .target (walkRoot l) = .ok (p, .directory) ∧ t.FileBelow p names
  fits : Glob.Matches (Glob.read l.path) (spelled l names).toList

variable (ht : t.Solid)

include ht

/-- The path of a match is one that the system can be asked about. -/
theorem Matched.holdsZero (h : Matched t l names) : holdsZero (spelled l names) = false := by
  obtain ⟨p, hfind, hfile⟩ := h.lies
  have hnames := holdsZero_intercalate fun name hname =>
    (ht.names_of_fileBelow hfile name hname).2
  have hbase : '\x00' ∉ l.listBase := by
    by_cases hnil : l.listBase = []
    · simp [hnil]
    · have htext := (ht.find_iff.mp hfind).1
      rw [walkRoot, if_neg hnil] at htext
      unfold Tree.textRefusal? at htext
      split_ifs at htext with hzero
      simpa [holdsZero_eq_false_iff] using hzero
  rw [holdsZero_eq_false_iff] at hnames ⊢
  rw [spelled, String.toList_ofList, List.mem_append]
  exact not_or.mpr ⟨hbase, hnames⟩

end Matching

section Listing

variable (ht : t.Solid)

include ht

end Listing

section Shelf

end Shelf

end StoreSync.LocalListing
