import Mathlib.Data.List.TakeWhile
import Mathlib.Tactic.SplitIfs
import StoreSync.Placement
import StoreSync.Sync.Run

/-!
The keys that relative paths stand for. A remote destination has a prefix that is empty or ends
in a slash: its objects are listed by what follows the prefix, and a batch puts its objects at
the prefix with their relative path behind it.
-/
namespace StoreSync

open Text

namespace Text.Slash

theorem endsInSlash_directoryPart {cs : List Char} (h : directoryPart cs ≠ []) :
    endsInSlash (directoryPart cs) = true := by
  unfold directoryPart at h ⊢
  have hne : cs.reverse.dropWhile (· ≠ '/') ≠ [] := fun hnil => h (by rw [hnil]; rfl)
  have hhead := List.head_dropWhile_not (fun c : Char => decide (c ≠ '/')) hne
  rw [endsInSlash, List.getLast?_reverse, List.head?_eq_some_head hne]
  simpa using hhead

theorem directoryPart_of_endsInSlash {cs : List Char} (h : cs = [] ∨ endsInSlash cs = true) :
    directoryPart cs = cs := by
  rcases h with rfl | h
  · rfl
  · have hlast : cs.reverse.head? = some '/' := by
      simpa [endsInSlash, List.head?_reverse] using h
    obtain ⟨rest, hrest⟩ := List.head?_eq_some_iff.mp hlast
    rw [directoryPart, hrest, List.dropWhile_cons_of_neg (by simp), ← hrest, List.reverse_reverse]

theorem not_mem_lastPart (cs : List Char) : '/' ∉ lastPart cs := by
  intro h
  have hslash := List.mem_takeWhile_imp (List.mem_reverse.mp h)
  simp at hslash

theorem endsInSlash_of_not_mem {cs : List Char} (h : '/' ∉ cs) : endsInSlash cs = false := by
  rw [endsInSlash, decide_eq_false_iff_not]
  exact fun hlast => h (List.mem_of_getLast? hlast)

theorem lastPart_ne_nil {cs : List Char} (hne : cs ≠ []) (h : endsInSlash cs = false) :
    lastPart cs ≠ [] := by
  have hlast : cs.reverse.head? ≠ some '/' := by
    simpa [endsInSlash, List.head?_reverse] using h
  unfold lastPart
  cases hreverse : cs.reverse with
  | nil => exact absurd (List.reverse_eq_nil_iff.mp hreverse) hne
  | cons c rest =>
    have hc : c ≠ '/' := by simpa [hreverse] using hlast
    simp [hc]

theorem startsWith_directoryPart (cs : List Char) : directoryPart cs <+: cs :=
  ⟨lastPart cs, directoryPart_append_lastPart cs⟩

end Text.Slash

namespace Location

variable {l : Location}

/-- What is taken literally is no pattern. -/
theorem isWildcard_of_literal (h : l.literal = true) : l.isWildcard = false := by
  simp [isWildcard, h]

theorem endsInSlash_base (l : Location) : Slash.endsInSlash l.base.toList = false := by
  rw [base, String.toList_ofList]
  exact Slash.endsInSlash_of_not_mem (Slash.not_mem_lastPart _)

/-- A path that names a file has a last component. -/
theorem base_ne_empty (hne : l.path ≠ "") (hslash : Slash.endsInSlash l.path.toList = false) :
    l.base ≠ "" := by
  intro hempty
  have hnil : l.path.toList ≠ [] := fun h => hne (String.toList_eq_nil_iff.mp h)
  rw [base, Slash.trimEnd_of_not_endsInSlash hslash] at hempty
  exact Slash.lastPart_ne_nil hnil hslash (by simpa using congrArg String.toList hempty)

def Expands (l : Location) : Prop := (l.isWildcard || l.isFolder || l.isBucket) = true

theorem listBase_of_expands (h : l.Expands) : l.listBase = Slash.directoryPart l.fixedPart := by
  unfold Location.Expands at h
  rw [listBase, if_pos h]

/-- The base of a listing is empty or ends in a slash, and every key that it covers starts with
it. -/
theorem fixedPart_startsWith_listBase (h : l.Expands) : l.listBase <+: l.fixedPart :=
  listBase_of_expands h ▸ Slash.startsWith_directoryPart l.fixedPart

theorem endsInSlash_listBase (hne : l.listBase ≠ []) : Slash.endsInSlash l.listBase = true :=
  Slash.endsInSlash_directoryPart hne

end Location

namespace Sync

variable {d : Location}

def keyPrefix (d : Location) : String := (listingLocation d).path

theorem isRemote_listingLocation (d : Location) :
    (listingLocation d).isRemote = d.isRemote := rfl

theorem isWildcard_listingLocation (d : Location) : (listingLocation d).isWildcard = false := rfl

theorem keyPrefix_eq (hd : d.isRemote = true) :
    keyPrefix d =
      if d.path ≠ "" ∧ Slash.endsInSlash d.path.toList = false then d.path ++ "/" else d.path := by
  simp [keyPrefix, listingLocation, hd]

theorem slash_keyPrefix (hd : d.isRemote = true) :
    (keyPrefix d).toList = [] ∨ Slash.endsInSlash (keyPrefix d).toList = true := by
  rw [keyPrefix_eq hd]
  split_ifs with h
  · exact .inr (by simp [Slash.endsInSlash])
  · by_cases hempty : d.path = ""
    · exact .inl (by simp [hempty])
    · exact .inr (by simpa [hempty] using h)

theorem expands_listingLocation (hd : d.isRemote = true) : (listingLocation d).Expands := by
  have hremote := isRemote_listingLocation d
  unfold Location.Expands
  rcases slash_keyPrefix hd with hempty | hslash
  · have hpath : (listingLocation d).path = "" := String.toList_eq_nil_iff.mp hempty
    simp [Location.isBucket, hpath, hremote, hd]
  · have hfolder : Slash.endsInSlash (listingLocation d).path.toList = true := hslash
    simp [Location.isFolder, hfolder, hremote, hd]

/-- The listing of a remote destination names its objects by what follows the prefix. -/
theorem listBase_listingLocation (hd : d.isRemote = true) :
    (listingLocation d).listBase = (keyPrefix d).toList := by
  have hfixed : (listingLocation d).fixedPart = (keyPrefix d).toList := by
    simp [Location.fixedPart, isWildcard_listingLocation, keyPrefix]
  rw [Location.listBase_of_expands (expands_listingLocation hd), hfixed,
    Slash.directoryPart_of_endsInSlash (slash_keyPrefix hd)]

/-- A name below a remote location is the prefix with the name behind it. -/
theorem path_join (hd : d.isRemote = true) (name : String) :
    (d.join name).path = keyPrefix d ++ name := by
  rw [keyPrefix_eq hd]
  simp only [Location.join, hd, if_true]
  apply String.toList_inj.mp
  by_cases hempty : d.path = ""
  · simp [hempty]
  · cases Slash.endsInSlash d.path.toList <;> simp [hempty]

/-- A batch puts an object at the prefix with its relative path behind it. -/
theorem path_target (s : Location) (hd : d.isRemote = true) :
    (Placement.target s d true).path = keyPrefix d ++ s.relative := by
  have hplace : Placement.isExactKey d true = false := by simp [Placement.isExactKey]
  rw [Placement.target, hplace]
  exact path_join hd s.relative

/-- A single object goes to the exact key, or to the prefix with its base name behind it. -/
theorem path_target_single (s : Location) (hd : d.isRemote = true) :
    (Placement.target s d false).path =
      if Placement.isExactKey d false then d.path else keyPrefix d ++ s.base := by
  rw [Placement.target, if_neg Bool.false_ne_true]
  dsimp only [Location.setLiteral]
  split_ifs
  · rfl
  · exact path_join hd s.base

theorem isRemote_target (s : Location) (batch : Bool) (hd : d.isRemote = true) :
    (Placement.target s d batch).isRemote = true ∧
      (Placement.target s d batch).bucket = d.bucket := by
  unfold Placement.target
  dsimp only
  split_ifs <;> exact ⟨hd, rfl⟩

end Sync

end StoreSync
