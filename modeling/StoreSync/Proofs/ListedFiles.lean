import StoreSync.LocalListing
import StoreSync.Proofs.EligibleEntries
import StoreSync.Proofs.FileTimes
import StoreSync.Proofs.KeyPaths
import StoreSync.Proofs.TreeGrowth
import StoreSync.Proofs.WalkedFiles

/-!
The entries of local listings. A listing of a directory or of a pattern names every file that it
finds by the names on the way to it, so no two files come under one relative path.
-/
namespace StoreSync.LocalListing

open Files Text Eligibility

variable {t : Tree} {path relative : String} {e : Entry} {l : Location} {followLinks : Bool}
  {p : Files.Path} {n : Node}

/-- An entry for a node tells its kind, its size and its time. -/
theorem entryOf_eq_ok_iff :
    entryOf t p path relative n = .ok e ↔ ∃ time, timeOf t p n = .ok time ∧
      e = ⟨locationOf path relative, if n.isDirectory then .directory else .file, sizeOf n, time,
        none, none, none⟩ := by
  unfold entryOf
  cases timeOf t p n with
  | error f => exact ⟨nofun, nofun⟩
  | ok time =>
    constructor
    · rintro ⟨⟩
      exact ⟨time, rfl, rfl⟩
    · rintro ⟨_, ⟨⟩, rfl⟩
      rfl

/-- What has no moment has a year that the calendar does not have. -/
theorem year_of_timeOf {f : Fault} (h : timeOf t p n = .error f) :
    ∃ year, f = .clock (.year year) := by
  unfold timeOf at h
  cases n with
  | link target => cases h
  | _ =>
    dsimp only [Tree.modified?] at h
    split at h
    · cases h
    · next hclock =>
      obtain ⟨year, rfl⟩ := TimeRange.year_of_keep hclock
      exact ⟨year, (Except.error.inj h).symm⟩

theorem timeOf_of_entryOf {f : Fault} (h : entryOf t p path relative n = .error f) :
    timeOf t p n = .error f := by
  unfold entryOf at h
  split at h
  · next htime => exact htime.trans (congrArg Except.error (Except.error.inj h))
  · cases h

theorem location_of_entryOf (h : entryOf t p path relative n = .ok e) :
    e.location = locationOf path relative := by
  obtain ⟨time, -, rfl⟩ := entryOf_eq_ok_iff.mp h
  rfl

/-- An entry for a file lies at the file, under the given relative path. -/
theorem location_of_entryAt (h : entryAt t path relative = .ok e) :
    e.location = locationOf path relative := by
  unfold entryAt at h
  split at h
  · exact location_of_entryOf h
  · unfold entryOfFault at h
    split_ifs at h
    obtain rfl := Except.ok.inj h
    rfl

theorem not_isFound_of_entryOfFault {f : Fault} (h : entryOfFault l f = .ok e) :
    ¬ isFound e = true := by
  unfold entryOfFault at h
  split_ifs at h
  obtain rfl := Except.ok.inj h
  simp [isFound, Entry.ofFault]

theorem relative_locationOf (hne : relative ≠ "") :
    (locationOf path relative).relative = relative := by
  simp [Location.relative, locationOf, hne]

theorem isDirectory_of_entryOf (h : entryOf t p path relative n = .ok e) :
    e.isDirectory = n.isDirectory := by
  obtain ⟨time, -, rfl⟩ := entryOf_eq_ok_iff.mp h
  cases n <;> rfl

/-- An entry that is found is local and taken literally, and there is a file or link at its
path. -/
structure Stands (t : Tree) (e : Entry) : Prop where
  literal : e.location.literal = true
  isLocal : e.location.isRemote = false
  holds : ∃ q, t.HoldsAt e.location.path q

theorem stands_of_entryAt (h : entryAt t path relative = .ok e) (hfound : isFound e = true) :
    Stands t e := by
  have hlocation := location_of_entryAt h
  unfold entryAt at h
  split at h
  · next hfind =>
    have hdir := (isDirectory_of_entryOf h).symm.trans (isDirectory_of_isFound hfound)
    exact ⟨hlocation ▸ rfl, hlocation ▸ rfl, hlocation ▸ Tree.holdsAt_of_find hfind hdir⟩
  · exact absurd hfound (not_isFound_of_entryOfFault h)

theorem giveOut_ok (l : Location) (given : Nat) (e : Entry) (rest : List (Except Fault Entry)) :
    giveOut Watch.never l given (.ok e :: rest) =
      (giveOut Watch.never l (given + 1) rest).push e := by
  cases given <;> simp [giveOut, Watch.never]

/-- Entries are given out in order, and what ends a listing finds nothing. -/
theorem found_giveOut_sublist (l : Location) (given : Nat) (xs : List (Except Fault Entry)) :
    List.Sublist (found (giveOut Watch.never l given xs).entries)
      (found (xs.filterMap Except.toOption)) := by
  induction xs generalizing given with
  | nil => cases given <;> exact List.Sublist.refl _
  | cons x rest ih =>
    cases x with
    | error f => cases given <;> exact List.nil_sublist _
    | ok e =>
      rw [giveOut_ok]
      cases hfound : isFound e with
      | true => simpa [found, Listing.push, Except.toOption, hfound] using ih (given + 1)
      | false => simpa [found, Listing.push, Except.toOption, hfound] using ih (given + 1)

/-- What a local listing finds lies on its side; it is left to see that the paths are distinct. -/
theorem located_of_locations {es : List Entry} (hlocal : l.isRemote = false)
    (hdistinct : Diff.DistinctPaths (found es))
    (h : ∀ e ∈ found es, ∃ path relative, e.location = locationOf path relative) :
    Located l es where
  distinct := hdistinct
  literal e he := by
    obtain ⟨path, relative, hloc⟩ := h e he
    rw [hloc]
    rfl
  remote e he := by
    obtain ⟨path, relative, hloc⟩ := h e he
    rw [hloc, hlocal]
    rfl
  bucket e he hremote := by
    obtain ⟨path, relative, hloc⟩ := h e he
    rw [hloc] at hremote
    cases hremote

/-- Visits under names of their own give entries at relative paths of their own. -/
theorem located_of_visits {visits : List Visit} {give : Visit → Option (Except Fault Entry)}
    (hlocal : l.isRemote = false) (hnodup : (visits.filterMap Visit.names?).Nodup)
    (hnames : ∀ v ∈ visits, ∀ names, v.names? = some names →
      names ≠ [] ∧ ∀ name ∈ names, ProperName name)
    (hgive : ∀ v ∈ visits, ∀ e, give v = some (.ok e) → isFound e = true →
      ∃ path names, v.names? = some names ∧
        e.location = locationOf path (String.intercalate "/" names)) :
    Located l ((visits.filterMap give).filterMap Except.toOption) := by
  have hlocation : ∀ v ∈ visits, ∀ e, (∃ x, give v = some x ∧ x.toOption = some e) →
      isFound e = true → ∃ path names, v.names? = some names ∧
        e.location = locationOf path (String.intercalate "/" names) := by
    rintro v hv e ⟨x, hx, hxe⟩ hfound
    cases x with
    | error f => simp [Except.toOption] at hxe
    | ok e' =>
      obtain rfl : e' = e := by simpa [Except.toOption] using hxe
      exact hgive v hv e' hx hfound
  have hrelative : ∀ v ∈ visits, ∀ path names, v.names? = some names →
      (locationOf path (String.intercalate "/" names)).relative =
        String.intercalate "/" names := by
    intro v hv path names hvn
    obtain ⟨hne, hproper⟩ := hnames v hv names hvn
    exact relative_locationOf (intercalate_ne_empty hne hproper)
  refine located_of_locations hlocal ?_ ?_
  · unfold Diff.DistinctPaths found
    refine List.pairwise_map.mpr (List.pairwise_filter.mpr (List.pairwise_filterMap.mpr
      (List.pairwise_filterMap.mpr ?_)))
    refine (List.pairwise_filterMap.mp hnodup).imp_of_mem ?_
    intro v u hv hu hne x hx y hy e hxe e' hye hfound hfound' hrel
    obtain ⟨path, names, hvn, hloc⟩ := hlocation v hv e ⟨x, hx, hxe⟩ hfound
    obtain ⟨path', names', hun, hloc'⟩ := hlocation u hu e' ⟨y, hy, hye⟩ hfound'
    apply hne names hvn names' hun
    rw [Entry.relative, Entry.relative, hloc, hloc', hrelative v hv path names hvn,
      hrelative u hu path' names' hun] at hrel
    obtain ⟨hnil, hproper⟩ := hnames v hv names hvn
    obtain ⟨hnil', hproper'⟩ := hnames u hu names' hun
    exact eq_of_intercalate_eq hnil hproper hnil' hproper' hrel
  · intro e he
    obtain ⟨hlisted, hfound⟩ := List.mem_filter.mp he
    obtain ⟨x, hx, hxe⟩ := List.mem_filterMap.mp hlisted
    obtain ⟨v, hv, hvx⟩ := List.mem_filterMap.mp hx
    obtain ⟨path, names, -, hloc⟩ := hlocation v hv e ⟨x, hvx, hxe⟩ hfound
    exact ⟨path, _, hloc⟩

section Walks

variable (ht : t.Proper)

include ht

theorem names_of_mem_walk {root : String} {v : Visit} (hv : v ∈ t.walk followLinks root)
    {names : List String} (hnames : v.names? = some names) :
    names ≠ [] ∧ ∀ name ∈ names, ProperName name := by
  cases v with
  | unreadable f => simp [Visit.names?] at hnames
  | file path ns =>
    obtain rfl : ns = names := by simpa [Visit.names?] using hnames
    obtain ⟨below, hne, hproper, rfl, -⟩ := file_of_mem_walkWithin ht hv
    exact ⟨by simpa using hne, by simpa using hproper⟩

theorem located_directory (hlocal : l.isRemote = false) (root : String) :
    Located l ((directoryEntries t root followLinks).filterMap Except.toOption) := by
  unfold directoryEntries
  rw [← List.filterMap_eq_map]
  refine located_of_visits hlocal (nodup_walkWithin ht _ _ _)
    (fun v hv names => names_of_mem_walk ht hv) ?_
  intro v hv e he hfound
  cases v with
  | unreadable f =>
    exact absurd hfound (not_isFound_of_entryOfFault (Option.some.inj he))
  | file path names =>
    exact ⟨path, names, rfl, location_of_entryAt (Option.some.inj he)⟩

/-- The path of a file below a pattern is the base of the pattern with the names behind it that
lead there. -/
theorem withoutDot_eq {path : String} {names : List String}
    (hv : .file path names ∈
      t.walk followLinks (if l.listBase = [] then "." else String.ofList l.listBase)) :
    withoutDot l.listBase path = l.listBase ++ (String.intercalate "/" names).toList := by
  obtain ⟨below, hne, hproper, hbelow, hpath⟩ := file_of_mem_walkWithin ht hv
  rw [List.nil_append] at hbelow
  subst hbelow
  by_cases hbase : l.listBase = []
  · rw [if_pos hbase] at hpath
    have hdot : slashed ".".toList = ['.', '/'] := by decide
    rw [hdot] at hpath
    simp [hbase, withoutDot, hpath]
  · rw [if_neg hbase, String.toList_ofList] at hpath
    have hslash : slashed l.listBase = l.listBase := by
      simp [slashed, Location.endsInSlash_listBase hbase]
    rw [hslash] at hpath
    unfold withoutDot
    split
    · next hnil _ => exact absurd hnil hbase
    · exact hpath

theorem drop_listBase {path : String} {names : List String}
    (hv : .file path names ∈
      t.walk followLinks (if l.listBase = [] then "." else String.ofList l.listBase)) :
    String.ofList ((withoutDot l.listBase path).drop l.listBase.length) =
      String.intercalate "/" names := by
  rw [withoutDot_eq ht hv, List.drop_left, String.ofList_toList]

theorem located_pattern (hlocal : l.isRemote = false) :
    Located l ((patternEntries t l followLinks).filterMap Except.toOption) := by
  unfold patternEntries
  refine located_of_visits hlocal (nodup_walkWithin ht _ _ _)
    (fun v hv names => names_of_mem_walk ht hv) ?_
  intro v hv e he hfound
  cases v with
  | unreadable f =>
    exact absurd hfound (not_isFound_of_entryOfFault (Option.some.inj he))
  | file path names =>
    dsimp only at he
    split_ifs at he
    have hloc := location_of_entryAt (Option.some.inj he)
    rw [drop_listBase ht hv] at hloc
    exact ⟨_, names, rfl, hloc⟩

omit ht in
theorem located_single (hlocal : l.isRemote = false)
    (he : isFound e = true → e.location = locationOf path relative) : Located l [e] := by
  refine located_of_locations hlocal ?_ ?_
  · cases hfound : isFound e <;> simp [Diff.DistinctPaths, found, hfound]
  · intro e' he'
    obtain ⟨hlisted, hfound⟩ := List.mem_filter.mp he'
    obtain rfl := List.mem_singleton.mp hlisted
    exact ⟨path, relative, he hfound⟩

omit ht in
theorem located_of_found_nil {es : List Entry} (h : found es = []) : Located l es := by
  constructor <;> simp [Diff.DistinctPaths, h]

/-- A local listing finds files of its own side, each at a relative path of its own. -/
theorem located_list (hlocal : l.isRemote = false) (followLinks : Bool) :
    Located l (list t l followLinks Watch.never).entries := by
  unfold list ofPath
  split_ifs
  · exact (located_pattern ht hlocal).of_sublist (found_giveOut_sublist l 0 _)
  all_goals
    split
    · exact located_of_found_nil rfl
    · split
      · next hentry =>
        have hfault := not_isFound_of_entryOfFault hentry
        exact located_of_found_nil (by simp [Listing.single, found, hfault])
      · exact located_of_found_nil rfl
    · exact located_of_found_nil rfl
    · exact (located_directory ht hlocal l.path).of_sublist (found_giveOut_sublist l 0 _)
    · split
      · next hentry => exact located_single hlocal fun _ => location_of_entryOf hentry
      · exact located_of_found_nil rfl

end Walks

section Standing

theorem stands_of_directoryEntries {root : String}
    (h : .ok e ∈ directoryEntries t root followLinks) (hfound : isFound e = true) :
    Stands t e := by
  obtain ⟨v, -, hv⟩ := List.mem_map.mp h
  cases v with
  | unreadable f =>
    exact absurd hfound (not_isFound_of_entryOfFault hv)
  | file path names => exact stands_of_entryAt hv hfound

theorem stands_of_patternEntries (h : .ok e ∈ patternEntries t l followLinks)
    (hfound : isFound e = true) : Stands t e := by
  obtain ⟨v, -, hv⟩ := List.mem_filterMap.mp h
  cases v with
  | unreadable f =>
    exact absurd hfound (not_isFound_of_entryOfFault (Option.some.inj hv))
  | file path names =>
    dsimp only at hv
    split_ifs at hv
    exact stands_of_entryAt (Option.some.inj hv) hfound

theorem ok_mem_of_giveOut {xs : List (Except Fault Entry)}
    (he : e ∈ found (giveOut Watch.never l 0 xs).entries) : .ok e ∈ xs ∧ isFound e = true := by
  obtain ⟨hmem, hfound⟩ := List.mem_filter.mp ((found_giveOut_sublist l 0 xs).subset he)
  obtain ⟨x, hx, hxe⟩ := List.mem_filterMap.mp hmem
  cases x with
  | error f => simp [Except.toOption] at hxe
  | ok e' =>
    obtain rfl : e' = e := by simpa [Except.toOption] using hxe
    exact ⟨hx, hfound⟩

/-- What a local listing finds stands in the tree. -/
theorem stands_of_mem_found (he : e ∈ found (list t l followLinks Watch.never).entries) :
    Stands t e := by
  unfold list ofPath at he
  split at he
  · obtain ⟨hmem, hfound⟩ := ok_mem_of_giveOut he
    exact stands_of_patternEntries hmem hfound
  · split at he
    · exact absurd he List.not_mem_nil
    · split at he
      · next hentry =>
        obtain ⟨hmem, hfound⟩ := List.mem_filter.mp he
        obtain rfl := List.mem_singleton.mp hmem
        exact absurd hfound (not_isFound_of_entryOfFault hentry)
      · exact absurd he List.not_mem_nil
    · exact absurd he List.not_mem_nil
    · obtain ⟨hmem, hfound⟩ := ok_mem_of_giveOut he
      exact stands_of_directoryEntries hmem hfound
    · next q n hlink hdirectory hfind =>
      split at he
      · next hentry =>
        obtain ⟨hmem, hfound⟩ := List.mem_filter.mp he
        obtain rfl := List.mem_singleton.mp hmem
        have hlocation := location_of_entryOf hentry
        have hdir := (isDirectory_of_entryOf hentry).symm.trans (isDirectory_of_isFound hfound)
        refine ⟨hlocation ▸ rfl, hlocation ▸ rfl, hlocation ▸ ?_⟩
        cases followLinks with
        | true => exact Tree.holdsAt_of_find hfind hdir
        | false => exact ⟨q, n, Tree.find_eq_ok_iff.mp hfind, hdir⟩
      · exact absurd he List.not_mem_nil

end Standing

section Naming

variable (ht : t.Proper)

theorem relative_locationOf_base (l : Location) :
    (locationOf l.path l.base).relative = l.base := by
  by_cases hempty : l.base = ""
  · have hassigned : (locationOf l.path l.base).assigned = none := by simp [locationOf, hempty]
    rw [Location.relative, hassigned]
    rfl
  · exact relative_locationOf hempty

include ht

theorem relative_of_directoryEntries {root : String}
    (h : .ok e ∈ directoryEntries t root followLinks) (hfound : isFound e = true) :
    ∃ names, names ≠ [] ∧ (∀ name ∈ names, ProperName name) ∧
      e.relative = String.intercalate "/" names := by
  obtain ⟨v, hmem, hv⟩ := List.mem_map.mp h
  cases v with
  | unreadable f => exact absurd hfound (not_isFound_of_entryOfFault hv)
  | file path names =>
    obtain ⟨hne, hproper⟩ := names_of_mem_walk ht hmem rfl
    refine ⟨names, hne, hproper, ?_⟩
    rw [Entry.relative, location_of_entryAt hv]
    exact relative_locationOf (intercalate_ne_empty hne hproper)

theorem relative_of_patternEntries (h : .ok e ∈ patternEntries t l followLinks)
    (hfound : isFound e = true) :
    ∃ names, names ≠ [] ∧ (∀ name ∈ names, ProperName name) ∧
      e.relative = String.intercalate "/" names := by
  obtain ⟨v, hmem, hv⟩ := List.mem_filterMap.mp h
  cases v with
  | unreadable f => exact absurd hfound (not_isFound_of_entryOfFault (Option.some.inj hv))
  | file path names =>
    dsimp only at hv
    split_ifs at hv
    obtain ⟨hne, hproper⟩ := names_of_mem_walk ht hmem rfl
    have hlocation := location_of_entryAt (Option.some.inj hv)
    rw [drop_listBase ht hmem] at hlocation
    refine ⟨names, hne, hproper, ?_⟩
    rw [Entry.relative, hlocation]
    exact relative_locationOf (intercalate_ne_empty hne hproper)

/-- A file that is found is named by the names on the way to it, or it is the path itself. -/
theorem named_of_mem_found (he : e ∈ found (list t l followLinks Watch.never).entries) :
    (∃ names, names ≠ [] ∧ (∀ name ∈ names, ProperName name) ∧
      e.relative = String.intercalate "/" names) ∨ e.location = locationOf l.path l.base := by
  unfold list ofPath at he
  split at he
  · obtain ⟨hmem, hfound⟩ := ok_mem_of_giveOut he
    exact .inl (relative_of_patternEntries ht hmem hfound)
  · split at he
    · exact absurd he List.not_mem_nil
    · split at he
      · next hentry =>
        obtain ⟨hmem, hfound⟩ := List.mem_filter.mp he
        obtain rfl := List.mem_singleton.mp hmem
        exact absurd hfound (not_isFound_of_entryOfFault hentry)
      · exact absurd he List.not_mem_nil
    · exact absurd he List.not_mem_nil
    · obtain ⟨hmem, hfound⟩ := ok_mem_of_giveOut he
      exact .inl (relative_of_directoryEntries ht hmem hfound)
    · split at he
      · next hentry =>
        obtain rfl := List.mem_singleton.mp (List.mem_filter.mp he).1
        exact .inr (location_of_entryOf hentry)
      · exact absurd he List.not_mem_nil

theorem endsInSlash_relative (he : e ∈ found (list t l followLinks Watch.never).entries) :
    Slash.endsInSlash e.relative.toList = false := by
  rcases named_of_mem_found ht he with ⟨names, hne, hproper, hrelative⟩ | hlocation
  · rw [hrelative]
    exact endsInSlash_intercalate hne hproper
  · rw [Entry.relative, hlocation, relative_locationOf_base]
    exact Location.endsInSlash_base l

end Naming

section SinglePath

/-- A path that is no directory is listed as itself or not at all. -/
theorem location_of_found_single (hwild : l.isWildcard = false)
    (hdirectory : ∀ p, t.find .target l.path ≠ .ok (p, .directory))
    (he : e ∈ found (list t l followLinks Watch.never).entries) :
    e.location = locationOf l.path l.base := by
  unfold list ofPath at he
  rw [hwild, if_neg Bool.false_ne_true] at he
  split at he
  · exact absurd he List.not_mem_nil
  · split at he
    · next hentry =>
      obtain ⟨hmem, hfound⟩ := List.mem_filter.mp he
      obtain rfl := List.mem_singleton.mp hmem
      exact absurd hfound (not_isFound_of_entryOfFault hentry)
    · exact absurd he List.not_mem_nil
  · exact absurd he List.not_mem_nil
  · next p hfind =>
    refine absurd ?_ (hdirectory p)
    cases followLinks with
    | true => exact hfind
    | false => exact Tree.find_target hfind (by simp)
  · split at he
    · next hentry =>
      obtain rfl := List.mem_singleton.mp (List.mem_filter.mp he).1
      exact location_of_entryOf hentry
    · exact absurd he List.not_mem_nil

end SinglePath

end StoreSync.LocalListing
