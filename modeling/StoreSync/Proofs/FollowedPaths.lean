import Mathlib.Tactic.SplitIfs
import StoreSync.Files.Resolve

/-!
Where paths lead, as relations. `Leads` goes down without following a link and has one rule for
each kind of component; `Finds` follows the links. What can be said of the place that a path leads
to is proved by induction on these rules.
-/
namespace StoreSync.Files.Tree

variable {t : Tree} {aim : Aim} {p q : Path} {n m : Node} {cs : List String}

/-- A component that names an entry of a directory. -/
structure Names (aim : Aim) (c : String) (rest : List String) : Prop where
  name : c ≠ "" ∧ c ≠ "." ∧ c ≠ ".."
  written : ¬ (aim = .writing ∧ onlySlashes rest = true)
  short : c.utf8ByteSize ≤ nameLimit

/-- Where components lead from a node when no link is followed. -/
inductive Leads (t : Tree) (aim : Aim) : Path → Node → List String → Stop → Prop
  | ended (p : Path) (n : Node) : Leads t aim p n [] (.ended (.found p n))
  | stay {p : Path} {n : Node} {c : String} {rest : List String} {s : Stop}
      (directory : n.isDirectory = true) (dot : c = "" ∨ c = ".")
      (next : Leads t aim p n rest s) : Leads t aim p n (c :: rest) s
  | up {p : Path} {n : Node} {rest : List String} {s : Stop} (directory : n.isDirectory = true)
      (next : Leads t aim p.dropLast .directory rest s) : Leads t aim p n (".." :: rest) s
  | vacant {p : Path} {n : Node} {c : String} (directory : n.isDirectory = true)
      (names : Names aim c []) (free : t.node? (p ++ [c]) = none) :
      Leads t aim p n [c] (.ended (.vacant (p ++ [c])))
  | link {p : Path} {n : Node} {c target : String} (directory : n.isDirectory = true)
      (names : Names aim c []) (entry : aim = .entry)
      (here : t.node? (p ++ [c]) = some (.link target)) :
      Leads t aim p n [c] (.ended (.found (p ++ [c]) (.link target)))
  | jump {p : Path} {n : Node} {c target : String} {rest : List String}
      (directory : n.isDirectory = true) (names : Names aim c rest)
      (followed : ¬ (rest = [] ∧ aim = .entry))
      (here : t.node? (p ++ [c]) = some (.link target)) :
      Leads t aim p n (c :: rest) (.jump p target rest)
  | down {p : Path} {n m : Node} {c : String} {rest : List String} {s : Stop}
      (directory : n.isDirectory = true) (names : Names aim c rest)
      (here : t.node? (p ++ [c]) = some m) (plain : ∀ target, m ≠ .link target)
      (next : Leads t aim (p ++ [c]) m rest s) : Leads t aim p n (c :: rest) s

theorem leads_of_descend {s : Stop} (h : descend t aim p n cs = .ok s) :
    Leads t aim p n cs s := by
  induction cs generalizing p n with
  | nil =>
    obtain rfl := Except.ok.inj h
    exact .ended p n
  | cons c rest ih =>
    unfold descend at h
    split at h
    · cases h
    · next hdirectory =>
      have hdirectory : n.isDirectory = true := by simpa using hdirectory
      split at h
      · next hdot => exact .stay hdirectory hdot (ih h)
      · next hdot =>
        split at h
        · next hup => exact hup ▸ .up hdirectory (ih h)
        · next hup =>
          split at h
          · cases h
          · next hwritten =>
            split at h
            · cases h
            · next hshort =>
              have hnames : Names aim c rest :=
                ⟨⟨fun hc => hdot (.inl hc), fun hc => hdot (.inr hc), hup⟩, hwritten,
                  Nat.le_of_not_lt hshort⟩
              split at h
              · next hnode =>
                split_ifs at h with hrest
                obtain rfl := Except.ok.inj h
                subst hrest
                exact .vacant hdirectory hnames hnode
              · next target hnode =>
                split_ifs at h with hentry
                · obtain rfl := Except.ok.inj h
                  obtain ⟨rfl, haim⟩ := hentry
                  exact .link hdirectory hnames haim hnode
                · obtain rfl := Except.ok.inj h
                  exact .jump hdirectory hnames hentry hnode
              · next m hplain hnode =>
                exact .down hdirectory hnames hnode
                  (fun target htarget => hplain target htarget) (ih h)

theorem descend_of_leads {s : Stop} (h : Leads t aim p n cs s) :
    descend t aim p n cs = .ok s := by
  induction h with
  | ended p n => rfl
  | stay directory dot next ih => simp [descend, directory, dot, ih]
  | up directory next ih => simp [descend, directory, ih]
  | vacant directory names free =>
    have hshort := Nat.not_lt.mpr names.short
    simp [descend, directory, names.name, names.written, hshort, free]
  | link directory names entry here =>
    have hshort := Nat.not_lt.mpr names.short
    simp [descend, directory, names.name, hshort, here, entry]
  | jump directory names followed here =>
    have hshort := Nat.not_lt.mpr names.short
    simp [descend, directory, names.name, names.written, hshort, here, followed]
  | @down p n m c rest s directory names here plain next ih =>
    have hshort := Nat.not_lt.mpr names.short
    cases m with
    | link target => exact absurd rfl (plain target)
    | file data modified =>
      simp [descend, directory, names.name, names.written, hshort, here, ih]
    | directory => simp [descend, directory, names.name, names.written, hshort, here, ih]

theorem descend_eq_ok_iff {s : Stop} : descend t aim p n cs = .ok s ↔ Leads t aim p n cs s :=
  ⟨leads_of_descend, descend_of_leads⟩

/-- Where components lead from a directory when at most so many links are followed. -/
inductive Finds (t : Tree) (aim : Aim) : Nat → Path → List String → Place → Prop
  | ended {links : Nat} {p : Path} {cs : List String} {place : Place}
      (leads : Leads t aim p .directory cs (.ended place)) : Finds t aim links p cs place
  | jump {links : Nat} {p directory : Path} {cs rest : List String} {target : String}
      {place : Place} (leads : Leads t aim p .directory cs (.jump directory target rest))
      (next : Finds t aim links (if isAbsolute target then [] else directory)
        (componentsOf target ++ rest) place) : Finds t aim (links + 1) p cs place

theorem follow_eq_ok_iff {links : Nat} {place : Place} :
    follow t aim links p cs = .ok place ↔ Finds t aim links p cs place := by
  constructor
  · intro h
    induction links generalizing p cs with
    | zero =>
      unfold follow at h
      split at h
      · cases h
      · next hleads =>
        obtain rfl := Except.ok.inj h
        exact .ended (descend_eq_ok_iff.mp hleads)
      · cases h
    | succ links ih =>
      unfold follow at h
      split at h
      · cases h
      · next hleads =>
        obtain rfl := Except.ok.inj h
        exact .ended (descend_eq_ok_iff.mp hleads)
      · next hleads => exact .jump (descend_eq_ok_iff.mp hleads) (ih h)
  · intro h
    induction h with
    | @ended links _ _ _ leads =>
      have hleads := descend_eq_ok_iff.mpr leads
      cases links <;> simp [follow, hleads]
    | jump leads next ih =>
      have hleads := descend_eq_ok_iff.mpr leads
      simpa [follow, hleads] using ih

/-- What is found below a directory is in the table, unless it is a directory. -/
theorem Leads.node? {s : Stop} (h : Leads t aim p n cs s) (hs : s = .ended (.found q m))
    (hn : n.isDirectory = true ∨ t.node? p = some n) (hm : m.isDirectory = false) :
    t.node? q = some m := by
  induction h with
  | ended p n =>
    cases hs
    rcases hn with hn | hn
    · rw [hm] at hn
      cases hn
    · exact hn
  | stay directory dot next ih => exact ih hs (.inl directory)
  | up directory next ih => exact ih hs (.inl rfl)
  | vacant => cases hs
  | link directory names entry here =>
    cases hs
    exact here
  | jump => cases hs
  | down directory names here plain next ih => exact ih hs (.inr here)

theorem Finds.node? {links : Nat} {place : Place} (h : Finds t aim links p cs place)
    (hplace : place = .found q m) (hm : m.isDirectory = false) : t.node? q = some m := by
  induction h with
  | ended leads => exact leads.node? (by rw [hplace]) (.inl rfl) hm
  | jump leads next ih => exact ih hplace

theorem Leads.node?_vacant {s : Stop} (h : Leads t aim p n cs s) (hs : s = .ended (.vacant q)) :
    t.node? q = none ∧ q ≠ [] := by
  induction h with
  | ended => cases hs
  | stay directory dot next ih => exact ih hs
  | up directory next ih => exact ih hs
  | vacant directory names free =>
    cases hs
    exact ⟨free, by simp⟩
  | link => cases hs
  | jump => cases hs
  | down directory names here plain next ih => exact ih hs

theorem Finds.node?_vacant {links : Nat} {place : Place} (h : Finds t aim links p cs place)
    (hplace : place = .vacant q) : t.node? q = none ∧ q ≠ [] := by
  induction h with
  | ended leads => exact leads.node?_vacant (by rw [hplace])
  | jump leads next ih => exact ih hplace

/-- A path whose last component names no entry, such as the empty one behind a slash, finds
directories only. -/
theorem Leads.unnamed {s : Stop} {last : String} (h : Leads t aim p n cs s)
    (hcs : cs.getLast? = some last) (hlast : ¬ (last ≠ "" ∧ last ≠ "." ∧ last ≠ "..")) :
    (∀ q m, s = .ended (.found q m) → m.isDirectory = true) ∧
      ∀ directory target rest, s = .jump directory target rest → rest.getLast? = some last := by
  induction h with
  | ended => simp at hcs
  | @stay p n c rest s directory dot next ih =>
    cases rest with
    | nil =>
      cases next
      refine ⟨fun q m hs => ?_, fun _ _ _ hs => by cases hs⟩
      cases hs
      exact directory
    | cons d rest => exact ih (by simpa using hcs)
  | @up p n rest s directory next ih =>
    cases rest with
    | nil =>
      cases next
      refine ⟨fun q m hs => ?_, fun _ _ _ hs => by cases hs⟩
      cases hs
      rfl
    | cons d rest => exact ih (by simpa using hcs)
  | @vacant p n c directory names free =>
    obtain rfl : c = last := by simpa using hcs
    exact absurd names.name hlast
  | @link p n c target directory names entry here =>
    obtain rfl : c = last := by simpa using hcs
    exact absurd names.name hlast
  | @jump p n c target rest directory names followed here =>
    refine ⟨fun _ _ hs => (by cases hs), fun d tgt more hs => ?_⟩
    cases hs
    cases rest with
    | nil =>
      obtain rfl : c = last := by simpa using hcs
      exact absurd names.name hlast
    | cons d rest => simpa using hcs
  | @down p n m c rest s directory names here plain next ih =>
    cases rest with
    | nil =>
      obtain rfl : c = last := by simpa using hcs
      exact absurd names.name hlast
    | cons d rest => exact ih (by simpa using hcs)

theorem Finds.unnamed {links : Nat} {place : Place} {last : String}
    (h : Finds t aim links p cs place) (hcs : cs.getLast? = some last)
    (hlast : ¬ (last ≠ "" ∧ last ≠ "." ∧ last ≠ "..")) (hplace : place = .found q m) :
    m.isDirectory = true := by
  induction h with
  | ended leads => exact (leads.unnamed hcs hlast).1 q m (by rw [hplace])
  | @jump links p directory cs rest target place leads next ih =>
    have hrest := (leads.unnamed hcs hlast).2 _ _ _ rfl
    refine ih ?_ hplace
    rw [List.getLast?_append, hrest]
    rfl

theorem Names.entry {c : String} {rest : List String} (h : Names .target c rest) :
    Names .entry c rest := ⟨h.name, by simp, h.short⟩

/-- Where a path leads to something, it leads there itself or to a link at its end. -/
theorem Leads.entry {s : Stop} (h : Leads t .target p n cs s) (hs : ∀ q, s ≠ .ended (.vacant q)) :
    Leads t .entry p n cs s ∨
      ∃ q target, Leads t .entry p n cs (.ended (.found q (.link target))) := by
  induction h with
  | ended p n => exact .inl (.ended p n)
  | stay directory dot next ih =>
    rcases ih hs with hnext | ⟨q, target, hnext⟩
    · exact .inl (.stay directory dot hnext)
    · exact .inr ⟨q, target, .stay directory dot hnext⟩
  | up directory next ih =>
    rcases ih hs with hnext | ⟨q, target, hnext⟩
    · exact .inl (.up directory hnext)
    · exact .inr ⟨q, target, .up directory hnext⟩
  | vacant => exact absurd rfl (hs _)
  | link directory names entry here => cases entry
  | @jump p n c target rest directory names followed here =>
    by_cases hrest : rest = []
    · subst hrest
      exact .inr ⟨_, target, .link directory names.entry rfl here⟩
    · exact .inl (.jump directory names.entry (fun hand => hrest hand.1) here)
  | down directory names here plain next ih =>
    rcases ih hs with hnext | ⟨q, target, hnext⟩
    · exact .inl (.down directory names.entry here plain hnext)
    · exact .inr ⟨q, target, .down directory names.entry here plain hnext⟩

theorem Finds.entry {links : Nat} {place : Place} (h : Finds t .target links p cs place)
    (hplace : place = .found q m) (hm : m.isDirectory = false) :
    ∃ q' m', Finds t .entry links p cs (.found q' m') ∧ m'.isDirectory = false := by
  induction h with
  | ended leads =>
    subst hplace
    rcases leads.entry (by simp) with hleads | ⟨q', target, hleads⟩
    · exact ⟨q, m, .ended hleads, hm⟩
    · exact ⟨q', .link target, .ended hleads, rfl⟩
  | jump leads next ih =>
    rcases leads.entry (by simp) with hleads | ⟨q', target, hleads⟩
    · obtain ⟨q', m', hnext, hm'⟩ := ih hplace
      exact ⟨q', m', .jump hleads hnext, hm'⟩
    · exact ⟨q', .link target, .ended hleads, rfl⟩

theorem Names.target {c : String} {rest : List String} (h : Names .entry c rest) :
    Names .target c rest := ⟨h.name, by simp, h.short⟩

/-- A path whose last component is no link leads on to the same place. -/
theorem Leads.target {s : Stop} (h : Leads t .entry p n cs s)
    (hs : ∀ q target, s ≠ .ended (.found q (.link target))) : Leads t .target p n cs s := by
  induction h with
  | ended p n => exact .ended p n
  | stay directory dot next ih => exact .stay directory dot (ih hs)
  | up directory next ih => exact .up directory (ih hs)
  | vacant directory names free => exact .vacant directory names.target free
  | link => exact absurd rfl (hs _ _)
  | jump directory names followed here => exact .jump directory names.target (by simp) here
  | down directory names here plain next ih =>
    exact .down directory names.target here plain (ih hs)

theorem Finds.target {links : Nat} {place : Place} (h : Finds t .entry links p cs place)
    (hplace : ∀ q target, place ≠ .found q (.link target)) :
    Finds t .target links p cs place := by
  induction h with
  | ended leads =>
    refine .ended (leads.target fun q target hs => ?_)
    cases hs
    exact hplace q target rfl
  | jump leads next ih => exact .jump (leads.target (by simp)) (ih hplace)

end StoreSync.Files.Tree
