import Mathlib.Data.List.Induction
import StoreSync.Proofs.Respellings
import StoreSync.Proofs.UnbrokenListings

/-!
Trees as a file system keeps them, and walks that reach everything in them. Without links a path
goes down by its components alone, so a name that is joined to the path of a directory leads to
the entry of that name. A walk whose directories can all be read then meets each file below its
root, under the names that lead there, and meets nothing else.
-/
namespace StoreSync.Files

open Text

/-- What a file system keeps: every entry lies in a directory and has a name of its own there, and
there are no links. -/
structure Tree.Solid (t : Tree) : Prop where
  proper : t.Proper
  undotted : t.Undotted
  nonzero : ∀ e ∈ t.nodes, ∀ name ∈ e.1, holdsZero name = false
  parents : ∀ e ∈ t.nodes, t.node? e.1.dropLast = some .directory
  linkless : ∀ e ∈ t.nodes, ∀ target, e.2 ≠ .link target

section Components

variable {text name : String}

theorem holdsZero_intercalate {names : List String} (h : ∀ name ∈ names, holdsZero name = false) :
    holdsZero (String.intercalate "/" names) = false := by
  induction names with
  | nil => rfl
  | cons name rest ih =>
    have hrest := ih fun n hn => h n (List.mem_cons_of_mem name hn)
    have hname := h name List.mem_cons_self
    cases rest with
    | nil => simpa using hname
    | cons next rest =>
      rw [holdsZero_eq_false_iff] at hname hrest ⊢
      rw [String.intercalate_cons_cons, String.toList_append, String.toList_append]
      simp only [List.mem_append, not_or]
      exact ⟨⟨hname, by decide⟩, hrest⟩

end Components

namespace Tree

variable {t : Tree} {aim : Aim} {p q : Path} {n m : Node} {cs ds : List String}
  {name text : String}

section Nodes

variable (ht : t.Solid)

include ht

theorem Solid.node?_iff (hp : p ≠ []) : t.node? p = some n ↔ (p, n) ∈ t.nodes := by
  refine ⟨fun h => mem_nodes_of_node? h hp, fun h => ?_⟩
  obtain ⟨before, after, hnodes⟩ := List.append_of_mem h
  rw [node?, if_neg hp]
  refine List.lookup_eq_some_iff.mpr ⟨before, after, hnodes, fun e he => ?_⟩
  have hdistinct := ht.proper.distinct
  rw [hnodes, List.map_append, List.nodup_append'] at hdistinct
  simp only [bne_iff_ne, ne_eq]
  rintro rfl
  exact hdistinct.2.2 (List.mem_map_of_mem he) (by simp)

theorem Solid.node?_ne_link (p : Path) (target : String) : t.node? p ≠ some (.link target) := by
  by_cases hp : p = []
  · simp [node?, hp]
  · exact fun h => ht.linkless _ ((ht.node?_iff hp).mp h) target rfl

end Nodes

section Descent

/-- Without links nothing is jumped to. -/
theorem Solid.not_jump (ht : t.Solid) {s : Stop} (h : Leads t aim p n cs s) (q : Path)
    (target : String) (rest : List String) : s ≠ .jump q target rest := by
  induction h with
  | jump directory names followed here => exact absurd here (ht.node?_ne_link _ _)
  | stay directory dot next ih => exact ih
  | up directory next ih => exact ih
  | down directory names here plain next ih => exact ih
  | _ => exact nofun

/-- Without links a path is followed by going down once. -/
theorem Solid.find_iff (ht : t.Solid) :
    t.find .target text = .ok (p, n) ↔ textRefusal? text = none ∧
      Leads t .target (t.start text) .directory (componentsOf text) (.ended (.found p n)) := by
  rw [find_eq_ok_iff, locate_eq_ok_iff]
  refine and_congr_right fun _ => ⟨fun h => ?_, .ended⟩
  cases h with
  | ended leads => exact leads
  | jump leads next => exact absurd rfl (ht.not_jump leads _ _ _)

end Descent

section Directories

variable (ht : t.Solid)

include ht

end Directories

section Walking

variable {directory : String} {followLinks : Bool} {above names : List String} {v : Visit}

def FileBelow (t : Tree) (p : Path) (names : List String) : Prop :=
  names ≠ [] ∧ ∃ data modified, t.node? (p ++ names) = some (.file data modified)

variable (ht : t.Solid)

include ht

theorem Solid.names_of_fileBelow (h : t.FileBelow p names) :
    ∀ name ∈ names, ProperName name ∧ holdsZero name = false := by
  obtain ⟨hne, data, modified, hnode⟩ := h
  have hmem := (ht.node?_iff (by simp [hne])).mp hnode
  intro name hname
  have hpath : name ∈ p ++ names := List.mem_append_right p hname
  exact ⟨ht.proper.names _ hmem name hpath, ht.nonzero _ hmem name hpath⟩

end Walking

end Tree

end StoreSync.Files
