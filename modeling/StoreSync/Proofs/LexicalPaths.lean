import StoreSync.Proofs.WalkedFiles

/-!
Paths by their text alone, without the tree that they are followed in: empty components and single
dots count for nothing, double dots take away the name before them. A name that is joined to a
directory lies below it, whatever the directory is, exactly when the name descends by itself.
-/
namespace StoreSync.Files

open Text

section Climbing

/-- One more component of a path whose names are kept in reverse. Nothing lies above the root;
at the start of a relative path double dots stay. -/
def climb (absolute : Bool) (names : List String) (c : String) : List String :=
  if c = "" ∨ c = "." then names
  else if c = ".." then
    match names with
    | [] => if absolute then [] else [".."]
    | top :: rest => if top = ".." then ".." :: top :: rest else rest
  else c :: names

variable {absolute : Bool} {names below cs : List String} {c : String}

theorem mem_climb (h : ".." ∈ names) : ".." ∈ climb false names c := by
  unfold climb
  split
  · exact h
  · split
    · cases names with
      | nil => exact absurd h List.not_mem_nil
      | cons top rest =>
        by_cases htop : top = ".."
        · simp [htop]
        · have hrest : ".." ∈ rest := (List.mem_cons.mp h).resolve_left (Ne.symm htop)
          simpa [htop] using hrest
    · exact List.mem_cons_of_mem c h

/-- Double dots at the start of a relative path are never taken away. -/
theorem mem_foldl_climb (h : ".." ∈ names) : ".." ∈ cs.foldl (climb false) names := by
  induction cs generalizing names with
  | nil => exact h
  | cons c cs ih => exact ih (mem_climb h)

theorem climb_append (h : ".." ∉ climb false names c) :
    climb absolute (names ++ below) c = climb false names c ++ below := by
  unfold climb at h ⊢
  by_cases hstay : c = "" ∨ c = "."
  · rw [if_pos hstay, if_pos hstay]
  rw [if_neg hstay] at h
  rw [if_neg hstay, if_neg hstay]
  by_cases hup : c = ".."
  · rw [if_pos hup] at h
    rw [if_pos hup, if_pos hup]
    cases names with
    | nil => simp at h
    | cons top rest =>
      have htop : top ≠ ".." := fun heq => by simp [heq] at h
      simp [htop]
  · rw [if_neg hup, if_neg hup, List.cons_append]

/-- Components that lead nowhere above their start leave alone what lies above it. -/
theorem foldl_climb_append (h : ".." ∉ cs.foldl (climb false) names) :
    cs.foldl (climb absolute) (names ++ below) = cs.foldl (climb false) names ++ below := by
  induction cs generalizing names with
  | nil => rfl
  | cons c cs ih =>
    rw [List.foldl_cons] at h
    have hc : ".." ∉ climb false names c := fun hmem => h (mem_foldl_climb hmem)
    rw [List.foldl_cons, List.foldl_cons, climb_append hc]
    exact ih h

end Climbing

/-- A path without empty components and single dots, and with double dots only at the start of a
relative one. -/
structure NormalPath where
  absolute : Bool
  names : List String
  deriving DecidableEq

def normal (text : String) : NormalPath :=
  ⟨isAbsolute text, ((componentsOf text).foldl (climb (isAbsolute text)) []).reverse⟩

def Inside (directory path : String) : Prop :=
  (normal path).absolute = (normal directory).absolute ∧
    ∃ rest : List String, rest ≠ [] ∧ ".." ∉ rest ∧
      (normal path).names = (normal directory).names ++ rest

def Descends (name : String) : Prop :=
  isAbsolute name = false ∧ (normal name).names ≠ [] ∧ ".." ∉ (normal name).names

instance (name : String) : Decidable (Descends name) := inferInstanceAs (Decidable (_ ∧ _))

variable {directory name : String}

section Joining

theorem joinPath_of_isAbsolute (h : isAbsolute name = true) : joinPath directory name = name := by
  rw [joinPath, Slash.join, if_pos (of_decide_eq_true h), String.ofList_toList]

theorem isAbsolute_joinPath (h : isAbsolute name = false) :
    isAbsolute (joinPath directory name) = isAbsolute directory := by
  rw [isAbsolute, joinPath_toList directory h, slashed]
  cases hd : directory.toList with
  | nil => simpa [isAbsolute, hd] using h
  | cons c rest => split <;> simp [isAbsolute, hd]

/-- A joined path has the components of both parts one after the other, with at most an empty one
in between. -/
theorem foldl_componentsOf_joinPath (h : isAbsolute name = false) (absolute : Bool) :
    (componentsOf (joinPath directory name)).foldl (climb absolute) [] =
      (componentsOf name).foldl (climb absolute)
        ((componentsOf directory).foldl (climb absolute) []) := by
  rw [componentsOf, joinPath_toList directory h, slashed]
  split
  next hplain =>
    rcases Bool.or_eq_true_iff.mp hplain with hempty | hslash
    · have hnil : directory.toList = [] := List.isEmpty_iff.mp hempty
      simp [componentsOf, hnil, components, climb]
    · -- The empty component behind the last slash of the directory counts for nothing.
      obtain ⟨cs, hcs⟩ := List.getLast?_eq_some_iff.mp (of_decide_eq_true hslash)
      simp [componentsOf, hcs, components_append, components, climb]
  · simp [componentsOf, components_append]

/-- Spellings of one directory give a name different paths. -/
theorem joinPath_dot_ne (h : isAbsolute name = false) :
    joinPath "." name ≠ joinPath "./." name := by
  intro heq
  have hlength := congrArg (fun path => path.toList.length) heq
  simp [joinPath_toList _ h, slashed, Slash.endsInSlash] at hlength

end Joining

/-- A name that descends leads strictly below every directory. -/
theorem Descends.inside (h : Descends name) (directory : String) :
    Inside directory (joinPath directory name) := by
  obtain ⟨hrelative, hne, hup⟩ := h
  have habsolute : isAbsolute (joinPath directory name) = isAbsolute directory :=
    isAbsolute_joinPath hrelative
  have hnames : (normal name).names = ((componentsOf name).foldl (climb false) []).reverse := by
    rw [normal, hrelative]
  have hclean : ".." ∉ (componentsOf name).foldl (climb false) [] := by
    rwa [hnames, List.mem_reverse] at hup
  refine ⟨habsolute, (normal name).names, hne, hup, ?_⟩
  rw [hnames]
  dsimp only [normal]
  rw [habsolute, foldl_componentsOf_joinPath hrelative, ← List.reverse_append]
  congr 1
  exact foldl_climb_append hclean

/-- Below the directory where relative paths start, names descend by themselves. -/
theorem descends_of_inside (hdirectory : normal directory = ⟨false, []⟩)
    (h : Inside directory (joinPath directory name)) : Descends name := by
  obtain ⟨habsolute, rest, hne, hup, hnames⟩ := h
  rw [hdirectory] at habsolute hnames
  have hrelative : isAbsolute name = false := by
    cases hname : isAbsolute name with
    | false => rfl
    | true =>
      rw [joinPath_of_isAbsolute hname] at habsolute
      exact absurd (hname.symm.trans habsolute) (by decide)
  have hstart : isAbsolute directory = false := congrArg NormalPath.absolute hdirectory
  have hempty : (componentsOf directory).foldl (climb false) [] = [] := by
    have h := congrArg NormalPath.names hdirectory
    rw [normal, hstart] at h
    exact List.reverse_eq_nil_iff.mp h
  have heq : (normal name).names = rest := by
    rw [List.nil_append] at hnames
    rw [← hnames]
    dsimp only [normal]
    rw [isAbsolute_joinPath hrelative, hstart, foldl_componentsOf_joinPath hrelative, hempty,
      hrelative]
  rw [← heq] at hne hup
  exact ⟨hrelative, hne, hup⟩

theorem descends_iff_inside :
    Descends name ↔ ∀ directory, Inside directory (joinPath directory name) :=
  ⟨Descends.inside, fun h => descends_of_inside (by decide) (h ".")⟩

example : Descends "a//./b/../c" := by decide

example : ¬ Descends "a/../../b" := by decide

end StoreSync.Files
