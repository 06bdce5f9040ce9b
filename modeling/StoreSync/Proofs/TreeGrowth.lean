import StoreSync.Files.Change
import StoreSync.Proofs.FollowedPaths

/-!
Trees that grow: nodes are added and files take the place of files, but nothing disappears and
nothing changes its kind. Whatever a path leads to is still there in a tree that has grown, and
every operation that copies makes a tree grow.
-/
namespace StoreSync.Files

/-- The same node, or a file in place of a file. -/
inductive Node.SameKind : Node → Node → Prop
  | file (data data' : ByteArray) (modified modified' : Int) :
      SameKind (.file data modified) (.file data' modified')
  | directory : SameKind .directory .directory
  | link (target : String) : SameKind (.link target) (.link target)

theorem Node.SameKind.refl (n : Node) : n.SameKind n := by
  cases n with
  | file data modified => exact .file data data modified modified
  | directory => exact .directory
  | link target => exact .link target

theorem Node.SameKind.trans {n m k : Node} (h : n.SameKind m) (h' : m.SameKind k) :
    n.SameKind k := by
  cases h with
  | file data _ modified _ =>
    cases h' with
    | file _ data' _ modified' => exact .file data data' modified modified'
  | directory => exact h'
  | link => exact h'

theorem Node.SameKind.isDirectory {n m : Node} (h : n.SameKind m) :
    m.isDirectory = n.isDirectory := by
  cases h <;> rfl

namespace Tree

/-- The second tree holds at every path what the first one holds there, or another file. -/
structure Grows (t t' : Tree) : Prop where
  current : t'.current = t.current
  kept : ∀ p n, t.node? p = some n → ∃ n', t'.node? p = some n' ∧ n.SameKind n'

variable {t t' t'' : Tree} {aim : Aim} {p q : Path} {n n' m : Node} {cs : List String}
  {text : String}

theorem Grows.refl (t : Tree) : t.Grows t := ⟨rfl, fun _ n hn => ⟨n, hn, .refl n⟩⟩

theorem Grows.trans (h : t.Grows t') (h' : t'.Grows t'') : t.Grows t'' where
  current := h'.current.trans h.current
  kept p n hn := by
    obtain ⟨n', hn', hkind⟩ := h.kept p n hn
    obtain ⟨n'', hn'', hkind'⟩ := h'.kept p n' hn'
    exact ⟨n'', hn'', hkind.trans hkind'⟩

section Nodes

theorem lookup_filter (p q : Path) (nodes : List (Path × Node)) :
    (nodes.filter (·.1 ≠ p)).lookup q = if q = p then none else nodes.lookup q := by
  induction nodes with
  | nil => simp
  | cons e rest ih =>
    obtain ⟨r, n⟩ := e
    by_cases hr : r = p
    · subst hr
      by_cases hq : q = r
      · simpa [hq] using ih
      · have hne : (q == r) = false := by simpa using hq
        simpa [hq, List.lookup_cons, hne] using ih
    · by_cases hq : q = r
      · subst hq
        simp [hr]
      · have hne : (q == r) = false := by simpa using hq
        simpa [hr, List.lookup_cons, hne] using ih

theorem node?_erase (t : Tree) (hp : p ≠ []) :
    (t.erase p).node? q = if q = p then none else t.node? q := by
  unfold erase node?
  by_cases hq : q = []
  · rw [if_pos hq, if_neg (hq ▸ Ne.symm hp), if_pos hq]
  · rw [if_neg hq, if_neg hq]
    exact lookup_filter p q t.nodes

theorem lookup_map (p q : Path) (n : Node) (nodes : List (Path × Node)) :
    (nodes.map fun e => if e.1 = p then (p, n) else e).lookup q =
      if q = p then (if nodes.any (·.1 = p) then some n else none) else nodes.lookup q := by
  induction nodes with
  | nil => simp
  | cons e rest ih =>
    obtain ⟨r, m⟩ := e
    by_cases hr : r = p
    · subst hr
      by_cases hq : q = r
      · simp [hq]
      · have hne : (q == r) = false := by simpa using hq
        simpa [hq, List.lookup_cons, hne] using ih
    · by_cases hq : q = r
      · subst hq
        simp [hr]
      · have hne : (q == r) = false := by simpa using hq
        have hdecide : decide (r = p) = false := decide_eq_false hr
        simpa only [List.map_cons, if_neg hr, List.lookup_cons, hne, List.any_cons, hdecide,
          Bool.false_or] using ih

theorem node?_put (t : Tree) (n : Node) (hp : p ≠ []) :
    (t.put p n).node? q = if q = p then some n else t.node? q := by
  unfold put node?
  by_cases hq : q = []
  · rw [if_pos hq, if_neg (hq ▸ Ne.symm hp), if_pos hq]
  · rw [if_neg hq, if_neg hq]
    cases hany : t.nodes.any (·.1 = p) with
    | true =>
      rw [if_pos rfl]
      simpa only [hany, if_true] using lookup_map p q n t.nodes
    | false =>
      rw [if_neg Bool.false_ne_true, List.lookup_append]
      by_cases hqp : q = p
      · subst hqp
        have hnone : t.nodes.lookup q = none := by
          rw [List.lookup_eq_none_iff]
          intro e he
          have hne : e.1 ≠ q := by simpa using List.any_eq_false.mp hany e he
          simpa using hne.symm
        simp [hnone]
      · have hne : (q == p) = false := by simpa using hqp
        simp [hqp, List.lookup_cons, hne]

end Nodes

section Growing

inductive Stop.SameKind : Stop → Stop → Prop
  | found (q : Path) {n n' : Node} (kind : n.SameKind n') :
      SameKind (.ended (.found q n)) (.ended (.found q n'))
  | jump (directory : Path) (target : String) (rest : List String) :
      SameKind (.jump directory target rest) (.jump directory target rest)

theorem Leads.grows (h : t.Grows t') {s : Stop} (hs : Leads t aim p n cs s)
    (hn : n.SameKind n') (hvacant : ∀ q, s ≠ .ended (.vacant q)) :
    ∃ s', Leads t' aim p n' cs s' ∧ s.SameKind s' := by
  induction hs generalizing n' with
  | ended p n => exact ⟨_, .ended p n', .found p hn⟩
  | stay directory dot next ih =>
    obtain ⟨s', hs', hkind⟩ := ih hn hvacant
    exact ⟨s', .stay (hn.isDirectory.trans directory) dot hs', hkind⟩
  | up directory next ih =>
    obtain ⟨s', hs', hkind⟩ := ih .directory hvacant
    exact ⟨s', .up (hn.isDirectory.trans directory) hs', hkind⟩
  | vacant => exact absurd rfl (hvacant _)
  | @link p n c target directory names entry here =>
    obtain ⟨m', hm', hkind⟩ := h.kept _ _ here
    cases hkind
    exact ⟨_, .link (hn.isDirectory.trans directory) names entry hm', .found _ (.link target)⟩
  | @jump p n c target rest directory names followed here =>
    obtain ⟨m', hm', hkind⟩ := h.kept _ _ here
    cases hkind
    exact ⟨_, .jump (hn.isDirectory.trans directory) names followed hm', .jump p target rest⟩
  | @down p n m c rest s directory names here plain next ih =>
    obtain ⟨m', hm', hkind⟩ := h.kept _ _ here
    obtain ⟨s', hs', hstop⟩ := ih hkind hvacant
    have hplain : ∀ target, m' ≠ .link target := by
      rintro target rfl
      cases hkind
      exact plain target rfl
    exact ⟨s', .down (hn.isDirectory.trans directory) names hm' hplain hs', hstop⟩

/-- What is found stays where it is when a tree grows. -/
theorem Finds.grows (h : t.Grows t') {links : Nat} {place : Place}
    (hf : Finds t aim links p cs place) (hplace : place = .found q m) :
    ∃ m', Finds t' aim links p cs (.found q m') ∧ m.SameKind m' := by
  induction hf with
  | ended leads =>
    subst hplace
    obtain ⟨s', hs', hkind⟩ := leads.grows h .directory (by simp)
    cases hkind with
    | found _ kind => exact ⟨_, .ended hs', kind⟩
  | jump leads next ih =>
    obtain ⟨m', hm', hkind⟩ := ih hplace
    obtain ⟨s', hs', hstop⟩ := leads.grows h .directory (by simp)
    cases hstop
    exact ⟨m', .jump hs' hm', hkind⟩

end Growing

section Locating

theorem locate_eq_ok_iff {place : Place} :
    t.locate aim text = .ok place ↔
      textRefusal? text = none ∧
        Finds t aim linkLimit (t.start text) (componentsOf text) place := by
  unfold locate
  cases textRefusal? text with
  | some r => simp
  | none => simp [follow_eq_ok_iff]

theorem locateTrimmed_eq_ok_iff {place : Place} :
    t.locateTrimmed text = .ok place ↔
      textRefusal? text = none ∧
        Finds t .entry linkLimit (t.start text) (componentsOf (trimSlashes text)) place := by
  unfold locateTrimmed
  cases textRefusal? text with
  | some r => simp
  | none => simp [follow_eq_ok_iff]

theorem find_eq_ok_iff : t.find aim text = .ok (p, n) ↔ t.locate aim text = .ok (.found p n) := by
  unfold find
  cases t.locate aim text with
  | error r => simp
  | ok place => cases place <;> simp

/-- What is found and is no link is found when links are followed. -/
theorem find_target (h : t.find .entry text = .ok (p, n)) (hn : ∀ target, n ≠ .link target) :
    t.find .target text = .ok (p, n) := by
  obtain ⟨htext, hfinds⟩ := locate_eq_ok_iff.mp (find_eq_ok_iff.mp h)
  refine find_eq_ok_iff.mpr (locate_eq_ok_iff.mpr ⟨htext, hfinds.target fun q target hplace => ?_⟩)
  cases hplace
  exact hn target rfl

end Locating

section Copying

theorem current_put (t : Tree) (p : Path) (n : Node) : (t.put p n).current = t.current := by
  unfold put
  split_ifs <;> rfl

theorem grows_put_vacant (hp : p ≠ []) (h : t.node? p = none) : t.Grows (t.put p n) where
  current := current_put t p n
  kept q m hm := by
    have hq : q ≠ p := by
      rintro rfl
      rw [h] at hm
      cases hm
    exact ⟨m, by rw [node?_put t n hp, if_neg hq, hm], .refl m⟩

theorem grows_put_file {data data' : ByteArray} {modified modified' : Int}
    (h : t.node? p = some (.file data modified)) : t.Grows (t.put p (.file data' modified')) where
  current := current_put t p _
  kept q m hm := by
    have hp : p ≠ [] := by
      rintro rfl
      cases h
    rw [node?_put t _ hp]
    by_cases hq : q = p
    · rw [hq, h] at hm
      cases hm
      exact ⟨_, if_pos hq, .file data data' modified modified'⟩
    · exact ⟨m, by rw [if_neg hq, hm], .refl m⟩

theorem grows_makeDirectory {u : Tree} (h : t.makeDirectory text = .ok u) : t.Grows u := by
  unfold makeDirectory at h
  split at h
  · cases h
  · cases h
  · next hvacant =>
    obtain rfl := Except.ok.inj h
    obtain ⟨hfree, hne⟩ := (locateTrimmed_eq_ok_iff.mp hvacant).2.node?_vacant rfl
    exact grows_put_vacant hne hfree

/-- The directories above are made first, and those that could be made stay. -/
theorem grows_above {above : Prop} [Decidable above] {made pair : Tree × Option Fault}
    (hmade : t.Grows made.1)
    (h : (if above then
      match made with
      | (u, some f) => if isExistsFault f = true then (u, none) else (u, some f)
      | result => result
      else (t, none)) = pair) : t.Grows pair.1 := by
  subst h
  split_ifs
  · split
    · split_ifs <;> exact hmade
    · exact hmade
  · exact Grows.refl t

theorem grows_makeDirectoriesWithin (fuel : Nat) (text : String) :
    t.Grows (t.makeDirectoriesWithin fuel text).1 := by
  fun_induction t.makeDirectoriesWithin fuel text with
  | case1 => exact Grows.refl t
  | case2 fuel text head tail _ above f habove ih => exact grows_above ih habove
  | case3 fuel text head tail _ above _ habove ih => exact grows_above ih habove
  | case4 fuel text head tail _ above _ u hmade habove ih =>
    exact (grows_above ih habove).trans (grows_makeDirectory hmade)
  | case5 fuel text head tail _ above _ f _ habove ih =>
    have hgrows := grows_above ih habove
    exact hgrows

theorem grows_makeParent (t : Tree) (text : String) : t.Grows (t.makeParent text).1 := by
  unfold makeParent makeDirectories
  dsimp only
  split_ifs
  · exact Grows.refl t
  · exact grows_makeDirectoriesWithin _ _

theorem grows_writeFile {data : ByteArray} {modified : Int} {u : Tree}
    (h : t.writeFile text data modified = .ok u) : t.Grows u := by
  unfold writeFile at h
  split at h
  · cases h
  · next hfound =>
    obtain rfl := Except.ok.inj h
    exact grows_put_file ((locate_eq_ok_iff.mp hfound).2.node? rfl rfl)
  · cases h
  · next hvacant =>
    obtain rfl := Except.ok.inj h
    obtain ⟨hfree, hne⟩ := (locate_eq_ok_iff.mp hvacant).2.node?_vacant rfl
    exact grows_put_vacant hne hfree

theorem grows_copyFile {source target : String} {u : Tree}
    (h : t.copyFile source target = .ok u) : t.Grows u := by
  unfold copyFile at h
  dsimp only at h
  generalize (if t.isDirectoryAt target then joinPath target (nameOf source) else target) = place
    at h
  split_ifs at h
  split at h
  · cases h
  · split at h
    · next hwritten =>
      obtain rfl := Except.ok.inj h
      exact grows_writeFile hwritten
    · cases h

end Copying

section Removing

/-- A path leads to a file or to a link, itself not followed. -/
def HoldsAt (t : Tree) (text : String) (q : Path) : Prop :=
  ∃ m, t.locate .entry text = .ok (.found q m) ∧ m.isDirectory = false

theorem HoldsAt.node? (h : t.HoldsAt text q) : q ≠ [] ∧ (t.node? q).isSome = true := by
  obtain ⟨m, hlocate, hm⟩ := h
  have hnode := (locate_eq_ok_iff.mp hlocate).2.node? rfl hm
  refine ⟨?_, by rw [hnode]; rfl⟩
  rintro rfl
  cases hnode
  cases hm

theorem holdsAt_of_find (h : t.find .target text = .ok (p, n)) (hn : n.isDirectory = false) :
    ∃ q, t.HoldsAt text q := by
  obtain ⟨htext, hfinds⟩ := locate_eq_ok_iff.mp (find_eq_ok_iff.mp h)
  obtain ⟨q, m, hentry, hm⟩ := hfinds.entry rfl hn
  exact ⟨q, m, locate_eq_ok_iff.mpr ⟨htext, hentry⟩, hm⟩

theorem HoldsAt.grows (hgrows : t.Grows t') (h : t.HoldsAt text q) : t'.HoldsAt text q := by
  obtain ⟨m, hlocate, hm⟩ := h
  obtain ⟨htext, hfinds⟩ := locate_eq_ok_iff.mp hlocate
  obtain ⟨m', hfinds', hkind⟩ := hfinds.grows hgrows rfl
  have hstart : t'.start text = t.start text := by
    rw [start, start, hgrows.current]
  refine ⟨m', locate_eq_ok_iff.mpr ⟨htext, hstart ▸ hfinds'⟩, ?_⟩
  rw [hkind.isDirectory, hm]

/-- The last component of such a path names an entry. -/
theorem HoldsAt.last (h : t.HoldsAt text q) {c : String}
    (hc : (componentsOf text).getLast? = some c) : c ≠ "" ∧ c ≠ "." ∧ c ≠ ".." := by
  obtain ⟨m, hlocate, hm⟩ := h
  obtain ⟨-, hfinds⟩ := locate_eq_ok_iff.mp hlocate
  refine Decidable.byContradiction fun hlast => ?_
  rw [hfinds.unnamed hc hlast rfl] at hm
  cases hm

/-- Such a path does not end in a slash. -/
theorem HoldsAt.endsInSlash (h : t.HoldsAt text q) : endsInSlash text = false := by
  cases hslash : Files.endsInSlash text with
  | false => rfl
  | true =>
    have hlast : text.toList.getLast? = some '/' := by
      simpa [Files.endsInSlash, Text.Slash.endsInSlash] using hslash
    obtain ⟨cs, hcs⟩ := List.getLast?_eq_some_iff.mp hlast
    have hcomponents : (componentsOf text).getLast? = some "" := by
      simp [componentsOf, hcs, components_append, components]
    exact absurd rfl (h.last hcomponents).1

theorem trimSlashes_eq_self (h : Files.endsInSlash text = false) : trimSlashes text = text := by
  rw [trimSlashes, Text.Slash.trimEnd_of_not_endsInSlash h, String.ofList_toList]

theorem HoldsAt.unique (h : t.HoldsAt text p) (h' : t.HoldsAt text q) : p = q := by
  obtain ⟨m, hm, -⟩ := h
  obtain ⟨m', hm', -⟩ := h'
  rw [hm] at hm'
  injection hm' with hplace
  injection hplace

/-- A removal that succeeds erases the file or link that its path leads to. -/
theorem holdsAt_of_removeFile {u : Tree} (h : t.removeFile text = .ok u) :
    ∃ q, t.HoldsAt text q ∧ u = t.erase q := by
  unfold removeFile at h
  split at h
  · cases h
  · cases h
  · cases h
  · next p m hdirectory hfound =>
    split_ifs at h with hslash
    have hslash : Files.endsInSlash text = false := by simpa using hslash
    rw [locateTrimmed_eq_ok_iff, trimSlashes_eq_self hslash] at hfound
    refine ⟨p, ⟨m, locate_eq_ok_iff.mpr hfound, ?_⟩, (Except.ok.inj h).symm⟩
    cases m with
    | directory => exact absurd rfl hdirectory
    | file data modified => rfl
    | link target => rfl

/-- Seen backwards, a removal makes a tree grow. -/
theorem HoldsAt.grows_erase (h : t.HoldsAt text q) : (t.erase q).Grows t where
  current := rfl
  kept p n hn := by
    rw [node?_erase t h.node?.1] at hn
    split_ifs at hn
    exact ⟨n, hn, .refl n⟩

/-- Removals bring nothing back. -/
theorem node?_removeFile {u : Tree} (h : t.removeFile text = .ok u) (hq : t.node? q = none) :
    u.node? q = none := by
  have herase : ∀ p, (t.erase p).node? q = none := by
    intro p
    have hne : q ≠ [] := by
      rintro rfl
      cases hq
    unfold node? at hq ⊢
    rw [if_neg hne] at hq ⊢
    rw [erase, lookup_filter, hq]
    split_ifs <;> rfl
  unfold removeFile at h
  split at h
  · cases h
  · cases h
  · cases h
  · split_ifs at h
    obtain rfl := Except.ok.inj h
    exact herase _

end Removing

end Tree

end StoreSync.Files
