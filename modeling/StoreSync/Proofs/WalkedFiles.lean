import Mathlib.Data.List.Nodup
import StoreSync.Files.Walk

/-!
The files that a walk meets. Each is met under names of its own, which lead from the root to it,
and under the path that these names give when they are joined with slashes. This needs a tree in
which no path stands twice and no name holds a slash.
-/
namespace StoreSync.Files

open Text

def ProperName (name : String) : Prop := name ≠ "" ∧ '/' ∉ name.toList

instance (name : String) : Decidable (ProperName name) :=
  inferInstanceAs (Decidable (_ ∧ _))

/-- No path stands twice in the table, and every path consists of names. -/
structure Tree.Proper (t : Tree) : Prop where
  distinct : (t.nodes.map Prod.fst).Nodup
  names : ∀ e ∈ t.nodes, ∀ name ∈ e.1, ProperName name

section Joining

variable {name : String} {names : List String}

/-- Names that are joined with slashes can be told apart again. -/
theorem componentsOf_intercalate (hne : names ≠ []) (h : ∀ name ∈ names, '/' ∉ name.toList) :
    componentsOf (String.intercalate "/" names) = names := by
  induction names with
  | nil => exact absurd rfl hne
  | cons name rest ih =>
    have hname : '/' ∉ name.toList := h name List.mem_cons_self
    cases rest with
    | nil => simp [componentsOf, components_of_not_mem hname]
    | cons next rest =>
      have hrest := ih (List.cons_ne_nil next rest) fun n hn => h n (List.mem_cons_of_mem name hn)
      rw [String.intercalate_cons_cons]
      have hsplit : (name ++ "/" ++ String.intercalate "/" (next :: rest)).toList =
          name.toList ++ '/' :: (String.intercalate "/" (next :: rest)).toList := by simp
      rw [componentsOf, hsplit, components_append, components_of_not_mem hname,
        List.singleton_append, List.map_cons, String.ofList_toList]
      rw [componentsOf] at hrest
      rw [hrest]

theorem intercalate_ne_empty (hne : names ≠ []) (h : ∀ name ∈ names, ProperName name) :
    String.intercalate "/" names ≠ "" := by
  intro hempty
  have hnames := componentsOf_intercalate hne fun n hn => (h n hn).2
  rw [hempty] at hnames
  have hmem : "" ∈ names := hnames ▸ List.mem_singleton_self ""
  exact (h "" hmem).1 rfl

theorem endsInSlash_intercalate (hne : names ≠ []) (h : ∀ name ∈ names, ProperName name) :
    Slash.endsInSlash (String.intercalate "/" names).toList = false := by
  induction names with
  | nil => exact absurd rfl hne
  | cons name rest ih =>
    obtain ⟨hname, hslash⟩ := h name List.mem_cons_self
    cases rest with
    | nil =>
      rw [String.intercalate_singleton, Slash.endsInSlash, decide_eq_false_iff_not]
      exact fun hlast => hslash (List.mem_of_getLast? hlast)
    | cons next rest =>
      have hproper : ∀ n ∈ next :: rest, ProperName n := fun n hn =>
        h n (List.mem_cons_of_mem name hn)
      have hrest := ih (List.cons_ne_nil next rest) hproper
      have hnonempty : (String.intercalate "/" (next :: rest)).toList ≠ [] := fun hnil =>
        intercalate_ne_empty (List.cons_ne_nil next rest) hproper (String.toList_eq_nil_iff.mp hnil)
      rw [Slash.endsInSlash] at hrest ⊢
      rw [String.intercalate_cons_cons, String.toList_append,
        List.getLast?_append_of_ne_nil _ hnonempty]
      exact hrest

/-- Joined names are the same only if they are the same one by one. -/
theorem eq_of_intercalate_eq {names' : List String} (hne : names ≠ [])
    (h : ∀ name ∈ names, ProperName name) (hne' : names' ≠ [])
    (h' : ∀ name ∈ names', ProperName name)
    (heq : String.intercalate "/" names = String.intercalate "/" names') : names = names' := by
  rw [← componentsOf_intercalate hne fun n hn => (h n hn).2, heq,
    componentsOf_intercalate hne' fun n hn => (h' n hn).2]

def slashed (cs : List Char) : List Char :=
  if cs.isEmpty || Slash.endsInSlash cs then cs else cs ++ ['/']

theorem joinPath_toList (path : String) (hname : isAbsolute name = false) :
    (joinPath path name).toList = slashed path.toList ++ name.toList := by
  unfold joinPath Slash.join slashed
  rw [if_neg (of_decide_eq_false hname), String.toList_ofList]
  split_ifs <;> simp

theorem ProperName.isRelative (hname : ProperName name) : isAbsolute name = false :=
  decide_eq_false fun h => hname.2 (List.mem_of_mem_head? h)

/-- A path that ends with a name needs a slash before the next one. -/
theorem slashed_joinPath (path : String) (hname : ProperName name) :
    slashed (joinPath path name).toList = slashed path.toList ++ name.toList ++ ['/'] := by
  have hne : name.toList ≠ [] := fun h => hname.1 (String.toList_eq_nil_iff.mp h)
  rw [joinPath_toList path hname.isRelative]
  have hlast : Slash.endsInSlash (slashed path.toList ++ name.toList) = false := by
    unfold Slash.endsInSlash
    rw [List.getLast?_append_of_ne_nil _ hne, decide_eq_false_iff_not]
    exact fun h => hname.2 (List.mem_of_getLast? h)
  rw [slashed, hlast]
  simp [hne]

end Joining

section Entries

variable {t : Tree} (ht : t.Proper) {p : Path}

include ht

theorem properName_of_mem_entries {e : String × Node} (he : e ∈ t.entries p) :
    ProperName e.1 := by
  obtain ⟨f, hf, hfe⟩ := List.mem_filterMap.mp he
  have hmem : f ∈ t.nodes := List.mem_reverse.mp hf
  split_ifs at hfe with hp
  obtain ⟨name, hname, rfl⟩ := Option.map_eq_some_iff.mp hfe
  exact ht.names f hmem name (List.mem_of_getLast? hname)

/-- A directory holds each name once. -/
theorem nodup_entries (p : Path) : ((t.entries p).map Prod.fst).Nodup := by
  unfold Tree.entries
  rw [List.map_filterMap]
  have hpaths : (t.nodes.reverse.map Prod.fst).Nodup := by
    rw [List.map_reverse]
    exact List.nodup_reverse.mpr ht.distinct
  have hpairwise := List.pairwise_map.mp hpaths
  refine List.pairwise_filterMap.mpr (hpairwise.imp ?_)
  intro e f hne name hname other hother heq
  subst heq
  split_ifs at hname hother with he hf <;> simp at hname hother
  apply hne
  rw [← List.dropLast_append_getLast? name hname, ← List.dropLast_append_getLast? name hother,
    he, hf]

end Entries

section Walking

def Visit.names? : Visit → Option (List String)
  | .file _ names => some names
  | .unreadable _ => none

variable {t : Tree} (ht : t.Proper) {followLinks : Bool}

theorem mem_visitFiles_iff {directory path : String} {above names : List String}
    {entries : List (String × Node)} :
    .file path names ∈ t.visitFiles followLinks directory above entries ↔
      ∃ e ∈ entries, t.entersAt (joinPath directory e.1) e.2 = false ∧
        ¬ (followLinks = false ∧ t.isLinkAt (joinPath directory e.1) = true) ∧
          path = joinPath directory e.1 ∧ names = above ++ [e.1] := by
  simp only [Tree.visitFiles, List.mem_filterMap]
  refine exists_congr fun e => and_congr_right fun _ => ?_
  split_ifs with henters hlink
  · simp [henters]
  · simp [hlink]
  · simp only [Bool.not_eq_true] at henters
    simp only [Option.some.injEq, Visit.file.injEq, henters, hlink, not_false_eq_true, true_and]
    exact and_congr eq_comm eq_comm

include ht

/-- A file is met below the root, under the path that its names give. -/
theorem file_of_mem_walkWithin {depth : Nat} {directory path : String}
    {above names : List String}
    (h : .file path names ∈ t.walkWithin followLinks depth directory above) :
    ∃ below, below ≠ [] ∧ (∀ name ∈ below, ProperName name) ∧ names = above ++ below ∧
      path.toList = slashed directory.toList ++ (String.intercalate "/" below).toList := by
  induction depth generalizing directory above with
  | zero => exact absurd h List.not_mem_nil
  | succ depth ih =>
    unfold Tree.walkWithin at h
    cases hentries : t.entriesAt directory with
    | error r => simp [hentries] at h
    | ok entries =>
      have hproper : ∀ e ∈ entries, ProperName e.1 := by
        intro e he
        unfold Tree.entriesAt at hentries
        split at hentries <;> cases hentries
        exact properName_of_mem_entries ht he
      simp only [hentries, List.mem_append, List.mem_flatMap] at h
      rcases h with hfile | ⟨e, he, hbelow⟩
      · obtain ⟨e, he, -, -, rfl, rfl⟩ := mem_visitFiles_iff.mp hfile
        refine ⟨[e.1], List.cons_ne_nil _ _, ?_, rfl, ?_⟩
        · simpa using hproper e he
        · rw [String.intercalate_singleton, joinPath_toList _ (hproper e he).isRelative]
      · split_ifs at hbelow with henters
        · obtain ⟨below, hne, hnames, rfl, hpath⟩ := ih hbelow
          refine ⟨e.1 :: below, List.cons_ne_nil _ _, ?_, by simp, ?_⟩
          · intro name hname
            rcases List.mem_cons.mp hname with rfl | hname
            · exact hproper e he
            · exact hnames name hname
          · rw [hpath, slashed_joinPath _ (hproper e he),
              String.intercalate_cons_of_ne_nil hne]
            simp
        · exact absurd hbelow List.not_mem_nil

omit ht in
theorem nodup_visitFiles {directory : String} {above : List String}
    {entries : List (String × Node)} (h : entries.Pairwise fun e f => e.1 ≠ f.1) :
    ((t.visitFiles followLinks directory above entries).filterMap Visit.names?).Nodup := by
  refine List.pairwise_filterMap.mpr (List.pairwise_filterMap.mpr (h.imp ?_))
  intro e f hne v hv u hu names hnames other hother heq
  dsimp only at hv hu
  split_ifs at hv hu
  simp only [Option.some.injEq] at hv hu
  subst hv hu heq
  simp only [Visit.names?, Option.some.injEq] at hnames hother
  apply hne
  simpa using hnames.trans hother.symm

/-- What is met in a subdirectory has its name among those that lead there. -/
theorem below_of_mem_branch {depth : Nat} {directory name : String} {above names : List String}
    {enters : Bool}
    (h : names ∈ (if enters then
      t.walkWithin followLinks depth directory (above ++ [name]) else []).filterMap Visit.names?) :
    ∃ below, below ≠ [] ∧ names = above ++ name :: below := by
  split_ifs at h
  · obtain ⟨v, hv, hnames⟩ := List.mem_filterMap.mp h
    cases v with
    | unreadable f => simp [Visit.names?] at hnames
    | file path ns =>
      obtain rfl : ns = names := by simpa [Visit.names?] using hnames
      obtain ⟨below, hne, -, rfl, -⟩ := file_of_mem_walkWithin ht hv
      exact ⟨below, hne, by simp⟩
  · exact absurd h List.not_mem_nil

/-- No two files are met under the same names: those of a directory differ in the last name, those
of two subdirectories in the name of the subdirectory. -/
theorem nodup_walkWithin (depth : Nat) (directory : String) (above : List String) :
    ((t.walkWithin followLinks depth directory above).filterMap Visit.names?).Nodup := by
  induction depth generalizing directory above with
  | zero => exact List.nodup_nil
  | succ depth ih =>
    unfold Tree.walkWithin
    cases hentries : t.entriesAt directory with
    | error r => exact List.nodup_nil
    | ok entries =>
      have hdistinct : entries.Pairwise fun e f => e.1 ≠ f.1 := by
        unfold Tree.entriesAt at hentries
        split at hentries <;> cases hentries
        exact List.pairwise_map.mp (nodup_entries ht _)
      simp only [List.filterMap_append, List.filterMap_flatMap]
      refine List.nodup_append'.mpr ⟨nodup_visitFiles hdistinct, ?_, ?_⟩
      · refine List.nodup_flatMap.mpr ⟨?_, ?_⟩
        · intro e _
          split_ifs
          · exact ih _ _
          · exact List.nodup_nil
        · refine hdistinct.imp ?_
          intro e f hne names he hf
          obtain ⟨below, -, rfl⟩ := below_of_mem_branch ht he
          obtain ⟨other, -, heq⟩ := below_of_mem_branch ht hf
          exact hne (List.cons.inj (List.append_cancel_left heq)).1
      · intro names hfile hbranch
        obtain ⟨v, hv, hnames⟩ := List.mem_filterMap.mp hfile
        obtain ⟨e, -, hbranch⟩ := List.mem_flatMap.mp hbranch
        obtain ⟨below, hne, rfl⟩ := below_of_mem_branch ht hbranch
        cases v with
        | unreadable f => simp [Visit.names?] at hnames
        | file path ns =>
          obtain ⟨f, -, -, -, -, rfl⟩ := mem_visitFiles_iff.mp hv
          have hlast : [f.1] = e.1 :: below :=
            List.append_cancel_left (Option.some.inj hnames)
          exact hne (List.cons.inj hlast).2.symm

end Walking

end StoreSync.Files
