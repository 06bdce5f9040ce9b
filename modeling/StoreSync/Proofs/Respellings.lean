import StoreSync.Proofs.Confinement
import StoreSync.Proofs.FailedListings
import StoreSync.Proofs.SourceNames

/-!
Two spellings of one file. A local listing names its files by plain components, while the names of
remote objects are taken as they are, so that an object and the file it was copied to may come
under different relative paths. A plan then copies the object anew and removes the file, which may
be the one just copied. That does not happen when the names of the source are plain as well.
-/
namespace StoreSync

namespace Files

section Plain

variable {absolute : Bool} {names cs : List String} {c name directory : String}

/-- A component that stands for itself wherever it is met. -/
def PlainName (c : String) : Prop := c ≠ "" ∧ c ≠ "." ∧ c ≠ ".."

instance (c : String) : Decidable (PlainName c) := inferInstanceAs (Decidable (_ ∧ _))

/-- A name that is its own shortest spelling, below any directory. -/
def Plain (name : String) : Prop := ∀ c ∈ componentsOf name, PlainName c

instance (name : String) : Decidable (Plain name) := inferInstanceAs (Decidable (∀ _ ∈ _, _))

theorem foldl_climb_plain (h : ∀ c ∈ cs, PlainName c) :
    cs.foldl (climb absolute) names = cs.reverse ++ names := by
  induction cs generalizing names with
  | nil => rfl
  | cons c cs ih =>
    obtain ⟨hempty, hdot, hdots⟩ := h c List.mem_cons_self
    have hclimb : climb absolute names c = c :: names := by simp [climb, hempty, hdot, hdots]
    rw [List.foldl_cons, hclimb, ih fun d hd => h d (List.mem_cons_of_mem c hd)]
    simp

theorem Plain.isRelative (h : Plain name) : isAbsolute name = false := by
  by_contra habsolute
  rw [Bool.not_eq_false] at habsolute
  obtain ⟨rest, hrest⟩ := List.head?_eq_some_iff.mp (of_decide_eq_true habsolute)
  have hmem : "" ∈ componentsOf name := by simp [componentsOf, hrest, components]
  exact (h "" hmem).1 rfl

/-- Below a directory a plain name adds its components, whatever leads to the directory. -/
theorem normal_joinPath_plain (h : Plain name) :
    normal (joinPath directory name) =
      ⟨isAbsolute directory, (normal directory).names ++ componentsOf name⟩ := by
  rw [normal, isAbsolute_joinPath h.isRelative, foldl_componentsOf_joinPath h.isRelative,
    foldl_climb_plain h]
  simp [normal]

theorem components_injective {xs ys : List Char} (h : components xs = components ys) : xs = ys := by
  have hne := components_ne_nil
  induction xs generalizing ys with
  | nil =>
    cases ys with
    | nil => rfl
    | cons y ys => grind [components]
  | cons x xs ih =>
    cases ys with
    | nil => grind [components]
    | cons y ys => grind [components]

theorem componentsOf_injective {a b : String} (h : componentsOf a = componentsOf b) : a = b := by
  have hofList : Function.Injective String.ofList := fun _ _ heq => String.ofList_inj.mp heq
  exact String.toList_inj.mp (components_injective (List.map_injective_iff.mpr hofList h))

theorem componentsOf_ne_nil (name : String) : componentsOf name ≠ [] := by
  simpa [componentsOf] using components_ne_nil name.toList

end Plain

def Tree.Undotted (t : Tree) : Prop := ∀ e ∈ t.nodes, ∀ name ∈ e.1, name ≠ "." ∧ name ≠ ".."

/-- Whatever holds of all names in the tree holds of those that a walk goes by. -/
theorem forall_names_of_mem_walkWithin {t : Tree} {P : String → Prop}
    (hP : ∀ e ∈ t.nodes, ∀ name ∈ e.1, P name) {followLinks : Bool} {depth : Nat}
    {directory path : String} {above names : List String}
    (h : .file path names ∈ t.walkWithin followLinks depth directory above)
    (habove : ∀ name ∈ above, P name) : ∀ name ∈ names, P name := by
  induction depth generalizing directory above with
  | zero => exact absurd h List.not_mem_nil
  | succ depth ih =>
    unfold Tree.walkWithin at h
    cases hentries : t.entriesAt directory with
    | error r => simp [hentries] at h
    | ok entries =>
      have hnext : ∀ e ∈ entries, ∀ name ∈ above ++ [e.1], P name := by
        intro e he name hname
        rcases List.mem_append.mp hname with hname | hname
        · exact habove name hname
        unfold Tree.entriesAt at hentries
        split at hentries <;> cases hentries
        obtain ⟨f, hf, hfe⟩ := List.mem_filterMap.mp he
        split_ifs at hfe
        obtain ⟨last, hlast, rfl⟩ := Option.map_eq_some_iff.mp hfe
        rw [List.mem_singleton.mp hname]
        exact hP f (List.mem_reverse.mp hf) last (List.mem_of_getLast? hlast)
      simp only [hentries, List.mem_append, List.mem_flatMap] at h
      rcases h with hfile | ⟨e, he, hbelow⟩
      · obtain ⟨e, he, -, -, -, rfl⟩ := mem_visitFiles_iff.mp hfile
        exact hnext e he
      · split_ifs at hbelow
        · exact ih hbelow (hnext e he)
        · exact absurd hbelow List.not_mem_nil

end Files

namespace LocalListing

open Files Eligibility

variable {t : Tree} {l : Location} {e : Entry} {followLinks : Bool}

theorem plain_intercalate {names : List String} (hne : names ≠ [])
    (h : ∀ name ∈ names, ProperName name ∧ name ≠ "." ∧ name ≠ "..") :
    Plain (String.intercalate "/" names) := by
  rw [Plain, componentsOf_intercalate hne fun name hname => (h name hname).1.2]
  exact fun name hname => ⟨(h name hname).1.1, (h name hname).2⟩

/-- The names that a walk goes by make a plain relative path. -/
theorem plain_of_mem_walk (ht : t.Proper) (hdots : t.Undotted) {root path : String}
    {names : List String} (h : .file path names ∈ t.walk followLinks root) :
    Plain (String.intercalate "/" names) ∧
      ∀ p, (locationOf p (String.intercalate "/" names)).relative =
        String.intercalate "/" names := by
  obtain ⟨hne, hproper⟩ := names_of_mem_walk ht h rfl
  have hundotted := forall_names_of_mem_walkWithin hdots h (by simp)
  exact ⟨plain_intercalate hne fun name hname => ⟨hproper name hname, hundotted name hname⟩,
    fun p => relative_locationOf (intercalate_ne_empty hne hproper)⟩

/-- A file of a directory is found at the plain name that its relative path is. -/
theorem plain_of_directoryEntries (ht : t.Proper) (hdots : t.Undotted) {root : String}
    (h : .ok e ∈ directoryEntries t root followLinks) (hfound : isFound e = true) :
    Plain e.relative ∧ e.location = locationOf (joinPath root e.relative) e.relative := by
  obtain ⟨v, hmem, hv⟩ := List.mem_map.mp h
  cases v with
  | unreadable f => exact absurd hfound (not_isFound_of_entryOfFault hv)
  | file path names =>
    obtain ⟨hplain, hrelative⟩ := plain_of_mem_walk ht hdots hmem
    obtain ⟨below, -, -, hbelow, hpath⟩ := file_of_mem_walkWithin ht hmem
    rw [List.nil_append] at hbelow
    subst hbelow
    have hlocation := location_of_entryAt hv
    have hname : e.relative = String.intercalate "/" names := by
      rw [Entry.relative, hlocation, hrelative]
    have hjoined : joinPath root (String.intercalate "/" names) = path := by
      rw [← String.toList_inj, joinPath_toList root hplain.isRelative]
      exact hpath.symm
    rw [hname, hjoined]
    exact ⟨hplain, hlocation⟩

/-- A directory is listed by what is below it. -/
theorem mem_directoryEntries_of_found (hwild : l.isWildcard = false) {q : Files.Path}
    (hdirectory : t.find .target l.path = .ok (q, .directory))
    (he : e ∈ found (list t l followLinks Watch.never).entries) :
    .ok e ∈ directoryEntries t l.path followLinks ∧ isFound e = true := by
  unfold list ofPath at he
  rw [hwild, if_neg Bool.false_ne_true] at he
  split at he
  · exact absurd he List.not_mem_nil
  · split at he
    · next hentry =>
      obtain ⟨hmem, hfound⟩ := List.mem_filter.mp he
      obtain rfl := List.mem_singleton.mp hmem
      exact absurd hfound (not_isFound_of_entryOfFault hentry)
    · exact absurd he List.not_mem_nil
  · exact absurd he List.not_mem_nil
  · exact ok_mem_of_giveOut he
  · next p n hlink hplain hfind =>
    have htarget : t.find .target l.path = .ok (p, n) := by
      cases followLinks with
      | true => exact hfind
      | false => exact Tree.find_target hfind (by simpa using hlink)
    rw [hdirectory] at htarget
    simp only [Except.ok.injEq, Prod.mk.injEq] at htarget
    exact absurd htarget.2.symm (by simpa using hplain)

/-- A path is listed as the files below it, by plain names, or as itself. -/
theorem plain_or_single (ht : t.Proper) (hdots : t.Undotted) (hwild : l.isWildcard = false) :
    (∀ e ∈ found (list t l followLinks Watch.never).entries,
        Plain e.relative ∧ e.location = locationOf (joinPath l.path e.relative) e.relative) ∨
      ∀ e ∈ found (list t l followLinks Watch.never).entries,
        e.location = locationOf l.path l.base := by
  by_cases hdirectory : ∃ q, t.find .target l.path = .ok (q, .directory)
  · obtain ⟨q, hq⟩ := hdirectory
    left
    intro e he
    obtain ⟨hmem, hfound⟩ := mem_directoryEntries_of_found hwild hq he
    exact plain_of_directoryEntries ht hdots hmem hfound
  · right
    exact fun e he => location_of_found_single hwild (fun q hq => hdirectory ⟨q, hq⟩) he

end LocalListing

namespace Plan

open Files

/-- A removal takes the file that a copy of the same plan goes to. -/
def UndoesCopy (p : Planner) (d : Diff) : Prop :=
  ∃ c ∈ commands (ofDiff p d).steps, c.op = Command.copyOp ∧
    ∃ t, c.destination? = some t ∧ ∃ l, Removes p d l ∧ normal t.path = normal l.path

end Plan

namespace Sync

open Files Eligibility Diff Plan

variable {e : Ends} {o : Options} {c : Connection} {command : String} {w : World} {g : Stage}

section Listing

/-- A local destination is listed as the tree stands at the start of the run. -/
theorem listing_of_local_destination (h : Reaches e o c command w g)
    (hlocal : e.destination.isRemote = false) :
    g.listings.destination =
      LocalListing.list w.files (listingLocation e.destination) false Watch.never := by
  obtain ⟨-, hserves, -, w₁, w₂, -, halike, -, -, hlisting⟩ := listings_of_reaches h
  rcases hserves with ⟨-, hside⟩ | ⟨hremote, -⟩
  · rw [hlisting, hside, ← halike.files]
    rfl
  · rw [hlocal] at hremote
    cases hremote

variable (hw : w.Proper) (h : Reaches e o c command w g) (hlocal : e.destination.isRemote = false)

include hw h hlocal

theorem located_local_destination :
    Located (listingLocation e.destination) g.listings.destination.entries := by
  rw [listing_of_local_destination h hlocal]
  exact LocalListing.located_list (l := listingLocation e.destination) hw.files hlocal false

omit hlocal in
/-- On either side a destination is listed under relative paths of their own. -/
theorem distinct_destination :
    DistinctPaths (select o.exclude g.listings.destination.entries) := by
  cases hremote : e.destination.isRemote with
  | true => exact (located_destination hw h hremote).distinct_select o.exclude
  | false => exact (located_local_destination hw h hremote).distinct_select o.exclude

variable (hdots : w.files.Undotted)

include hdots

theorem destination_plain_or_single :
    (∀ t ∈ found g.listings.destination.entries,
        Plain t.relative ∧ t.location =
          LocalListing.locationOf (joinPath e.destination.path t.relative) t.relative) ∨
      ∀ t ∈ found g.listings.destination.entries,
        t.location = LocalListing.locationOf e.destination.path e.destination.base := by
  have hpath : (listingLocation e.destination).path = e.destination.path := by
    simp [listingLocation, hlocal]
  have hbase : (listingLocation e.destination).base = e.destination.base := by
    rw [Location.base, hpath, Location.base]
  rw [listing_of_local_destination h hlocal, ← hpath, ← hbase]
  exact LocalListing.plain_or_single hw.files hdots rfl

/-- Found files with one normal path are one file. -/
theorem relative_eq_of_normal_eq {t u : Entry}
    (ht : t ∈ found g.listings.destination.entries)
    (hu : u ∈ found g.listings.destination.entries)
    (hnormal : normal t.location.path = normal u.location.path) : t.relative = u.relative := by
  rcases destination_plain_or_single hw h hlocal hdots with hplain | hsingle
  · obtain ⟨htplain, htlocation⟩ := hplain t ht
    obtain ⟨huplain, hulocation⟩ := hplain u hu
    rw [htlocation, hulocation] at hnormal
    simp only [LocalListing.locationOf, normal_joinPath_plain htplain,
      normal_joinPath_plain huplain, NormalPath.mk.injEq] at hnormal
    exact componentsOf_injective (List.append_cancel_left hnormal.2)
  · rw [Entry.relative, Entry.relative, hsingle t ht, hsingle u hu]

end Listing

section Undoing

/-- An object of a remote source and a file at a local destination that come under different
relative paths, while the object lands on the file. -/
structure Respelled (e : Ends) (o : Options) (g : Stage) (s t : Entry) : Prop where
  source : s ∈ select o.exclude g.listings.source.entries
  destination : t ∈ select o.exclude g.listings.destination.entries
  unlisted : ∀ u ∈ select o.exclude g.listings.destination.entries, u.relative ≠ s.relative
  unsourced : ∀ u ∈ select o.exclude g.listings.source.entries, u.relative ≠ t.relative
  lands : normal (joinPath e.destination.path (landingName s.location g.batch)) =
    normal t.location.path

variable (hw : w.Proper) (h : Reaches e o c command w g) (hsource : e.source.isRemote = true)
  (hlocal : e.destination.isRemote = false) {s t : Entry}

include hw h hlocal

include hsource in
theorem undoesCopy_of_respelled (hdelete : o.delete = true) (hfault : (g.plan e o).fault = none)
    (hst : Respelled e o g s t) :
    UndoesCopy (planner e g.batch o) (g.listings.diff o.exclude) := by
  have hlocated := located_source hw h
  have hfound := mem_found_of_mem_select hst.source
  have hnew : s.location ∈ (g.listings.diff o.exclude).onlySource :=
    (mem_onlySource_iff (hlocated.distinct_select o.exclude)).mpr
      ⟨s, hst.source, rfl, hst.unlisted⟩
  have hliteral := Location.isWildcard_of_literal (hlocated.literal s hfound)
  have htarget := target_local (p := planner e g.batch o) s.location hlocal
  have hdiffers : s.location.same
      (Placement.target s.location (planner e g.batch o).destination g.batch) = false := by
    rw [Bool.eq_false_iff]
    intro hsame
    have hscheme := (Location.same_iff _ |>.mp hsame).1
    have hremote : s.location.isRemote = true := (hlocated.remote s hfound).trans hsource
    rw [Location.isRemote, hscheme] at hremote
    rw [show (planner e g.batch o).batch = g.batch from rfl] at htarget
    rw [htarget] at hremote
    exact absurd (hremote.symm.trans hlocal) (by decide)
  have hcopy := mem_copies_of_copyNew hnew (copyNew_command?_iff.mpr ⟨hdiffers, hliteral, rfl⟩)
  have hsurplus : t.location ∈ (g.listings.diff o.exclude).onlyDestination :=
    (mem_onlyDestination_iff (distinct_destination hw h)).mpr
      ⟨t, hst.destination, rfl, hst.unsourced⟩
  have hremoval := comesToRemoval_of_ne_nil h hdelete hfault (List.ne_nil_of_mem hsurplus)
  refine ⟨_, mem_commands_ofDiff_iff.mpr (.inl hcopy), rfl, _, rfl, t.location,
    removes_iff.mpr ⟨hremoval, hsurplus⟩, ?_⟩
  have hpath := congrArg Location.path htarget
  rw [← hst.lands]
  exact congrArg normal hpath

/-- A copy of a pair goes to a file of that pair, which is not removed; so a copy that is undone
is one of what the source alone has. -/
theorem respelled_of_undoesCopy (hdots : w.files.Undotted)
    (hundoes : UndoesCopy (planner e g.batch o) (g.listings.diff o.exclude)) :
    o.delete = true ∧ (g.plan e o).fault = none ∧ ∃ s t, Respelled e o g s t := by
  obtain ⟨cmd, hcmd, hop, t', ht', l, hremoves, hnormal⟩ := hundoes
  obtain ⟨hremoval, hl⟩ := removes_iff.mp hremoves
  have hsdistinct := (located_source hw h).distinct_select o.exclude
  have htdistinct := distinct_destination hw h
  obtain ⟨t, ht, rfl, hunsourced⟩ := (mem_onlyDestination_iff htdistinct).mp hl
  refine ⟨hremoval.delete, hremoval.fault, ?_⟩
  rcases mem_commands_ofDiff_iff.mp hcmd with hcopy | ⟨-, rfl⟩
  · rcases mem_copies hcopy with ⟨l, hnew, hc⟩ | ⟨⟨s, u⟩, hpair, hc⟩
    · obtain ⟨s, hs, rfl, hunlisted⟩ := (mem_onlySource_iff hsdistinct).mp hnew
      obtain ⟨-, -, rfl⟩ := copyNew_command?_iff.mp hc
      obtain rfl : _ = t' := Option.some.inj ht'
      have htarget := target_local (p := planner e g.batch o) s.location hlocal
      refine ⟨s, t, hs, ht, hunlisted, hunsourced, ?_⟩
      rw [← hnormal, htarget]
      rfl
    · obtain ⟨hs, hu, hrelative⟩ := (mem_common_iff hsdistinct htdistinct).mp hpair
      obtain ⟨-, -, -, -, rfl⟩ := copyPair?_iff.mp hc
      obtain rfl : u.location = t' := Option.some.inj ht'
      have hsame := relative_eq_of_normal_eq hw h hlocal hdots (mem_found_of_mem_select hu)
        (mem_found_of_mem_select ht) hnormal
      exact absurd (hrelative.trans hsame) (hunsourced s hs)
  · have hne : Command.removeOp ≠ Command.copyOp := by decide
    exact absurd hop hne

omit hw hlocal in
/-- The name under which an object lands is its relative path. -/
theorem landingName_eq (hs : s ∈ select o.exclude g.listings.source.entries) :
    landingName s.location g.batch = s.relative := by
  cases hbatch : g.batch with
  | true => rfl
  | false =>
    have hsingle := single_of_found_source h hbatch (mem_found_of_mem_select hs)
    rw [hsingle.relative]
    exact hsingle.base

/-- A plain name lands on a file only if that is found under the same name. -/
theorem not_respelled_of_plain (hdots : w.files.Undotted) (hplain : Plain s.relative) :
    ¬ Respelled e o g s t := by
  intro hst
  have htfound := mem_found_of_mem_select hst.destination
  have hlands := hst.lands
  rw [landingName_eq h hst.source, normal_joinPath_plain hplain] at hlands
  rcases destination_plain_or_single hw h hlocal hdots with hfiles | hsingle
  · obtain ⟨htplain, htlocation⟩ := hfiles t htfound
    rw [htlocation] at hlands
    simp only [LocalListing.locationOf, normal_joinPath_plain htplain,
      NormalPath.mk.injEq] at hlands
    have hrelative := componentsOf_injective (List.append_cancel_left hlands.2)
    exact hst.unlisted t hst.destination hrelative.symm
  · rw [hsingle t htfound] at hlands
    have hnames := congrArg NormalPath.names hlands
    exact componentsOf_ne_nil s.relative (List.append_right_eq_self.mp hnames)

end Undoing

/-- A plan for a local destination removes none of the files it copies to exactly when, in case it
comes to a removal, no object lands on a file under another relative path while neither has a
counterpart at its own. Plain names never do. -/
theorem removal_spares_copies_iff (hw : w.Proper) (hdots : w.files.Undotted)
    (h : Reaches e o c command w g) (hsource : e.source.isRemote = true)
    (hlocal : e.destination.isRemote = false) :
    (¬ UndoesCopy (planner e g.batch o) (g.listings.diff o.exclude) ↔
      (o.delete = true → (g.plan e o).fault = none →
        ∀ s ∈ select o.exclude g.listings.source.entries,
          ∀ t ∈ select o.exclude g.listings.destination.entries,
            normal (joinPath e.destination.path (landingName s.location g.batch)) =
              normal t.location.path →
            (∃ u ∈ select o.exclude g.listings.destination.entries, u.relative = s.relative) ∨
              ∃ u ∈ select o.exclude g.listings.source.entries, u.relative = t.relative)) ∧
    ((∀ s ∈ select o.exclude g.listings.source.entries, Plain s.relative) →
      ¬ UndoesCopy (planner e g.batch o) (g.listings.diff o.exclude)) := by
  refine ⟨⟨fun hspares hdelete hfault s hs t ht hlands => ?_, fun hmet hundoes => ?_⟩,
    fun hplain hundoes => ?_⟩
  · by_contra hmissing
    rw [not_or] at hmissing
    refine hspares (undoesCopy_of_respelled hw h hsource hlocal hdelete hfault (s := s) (t := t) ?_)
    exact ⟨hs, ht, fun u hu heq => hmissing.1 ⟨u, hu, heq⟩,
      fun u hu heq => hmissing.2 ⟨u, hu, heq⟩, hlands⟩
  · obtain ⟨hdelete, hfault, s, t, hst⟩ := respelled_of_undoesCopy hw h hlocal hdots hundoes
    rcases hmet hdelete hfault s hst.source t hst.destination hst.lands with
      ⟨u, hu, heq⟩ | ⟨u, hu, heq⟩
    · exact hst.unlisted u hu heq
    · exact hst.unsourced u hu heq
  · obtain ⟨-, -, s, t, hst⟩ := respelled_of_undoesCopy hw h hlocal hdots hundoes
    exact not_respelled_of_plain hw h hlocal hdots (hplain s hst.source) hst

/-! A bucket with one object, and a directory with one file. -/

section Testing

def intoDirectory : Ends := ⟨⟨"s3", "a", "", false, none⟩, ⟨"", "", "out", false, none⟩⟩

def outTree : Tree :=
  .ofNodes [(["out"], .directory), (["out", "a"], .directory),
    (["out", "a", "x"], .file ⟨#[1]⟩ 0)] []

def bucketAndFile (key : String) : World :=
  ⟨outTree, ⟨[("a", [objectAt key])], [], 1000, 0, .plain⟩, []⟩

def directoryStage (key : String) : Stage :=
  let opened := ((openSides intoDirectory deletingOptions .standard).run.run (bucketAndFile key)).2
  let listed := (list intoDirectory (.client 0) .files deletingOptions "sync").run opened
  ⟨.client 0, .files, true, listed.1, listed.2⟩

theorem reaches_directoryStage (key : String) :
    Reaches intoDirectory deletingOptions .standard "sync" (bucketAndFile key)
      (directoryStage key) :=
  ⟨((openSides intoDirectory deletingOptions .standard).run.run (bucketAndFile key)).2, rfl, rfl,
    (Prod.eta _).symm⟩

theorem proper_outTree : outTree.Proper := ⟨by decide, by decide⟩

theorem undotted_outTree : outTree.Undotted := by
  unfold Tree.Undotted
  decide

theorem proper_bucketAndFile (key : String) : (bucketAndFile key).Proper where
  files := proper_outTree
  keys := by simp [bucketAndFile]

theorem locations_directoryStage {key : String} (hkey : key = "y" ∨ key = "a//x") :
    (select deletingOptions.exclude (directoryStage key).listings.source.entries).map
        Entry.location = [RemoteListing.locationOf "a" key key] ∧
      (select deletingOptions.exclude (directoryStage key).listings.destination.entries).map
        Entry.location = [LocalListing.locationOf "out/a/x" "a/x"] := by
  rcases hkey with rfl | rfl <;> decide +kernel

/-- An object with a plain name of its own is copied beside the file that is removed. -/
theorem removal_spares_copies_beside :
    Reaches intoDirectory deletingOptions .standard "sync" (bucketAndFile "y")
        (directoryStage "y") ∧
      ¬ UndoesCopy (planner intoDirectory (directoryStage "y").batch deletingOptions)
        ((directoryStage "y").listings.diff deletingOptions.exclude) := by
  have hreach := reaches_directoryStage "y"
  refine ⟨hreach, (removal_spares_copies_iff (proper_bucketAndFile "y") undotted_outTree hreach
    rfl rfl).2 fun s hs => ?_⟩
  have hlocation := (locations_directoryStage (.inl rfl)).1 ▸ List.mem_map_of_mem hs
  rw [Entry.relative, List.mem_singleton.mp hlocation]
  decide

/-- The empty component makes the object and its copy two things. -/
theorem respelled_directoryStage :
    ∃ s t, Respelled intoDirectory deletingOptions (directoryStage "a//x") s t := by
  obtain ⟨hsources, hdestinations⟩ := locations_directoryStage (.inr rfl)
  obtain ⟨s, hs, hsource⟩ := List.mem_map.mp (hsources ▸ List.mem_singleton_self _)
  obtain ⟨t, ht, hdestination⟩ := List.mem_map.mp (hdestinations ▸ List.mem_singleton_self _)
  refine ⟨s, t, hs, ht, fun u hu => ?_, fun u hu => ?_, ?_⟩
  · have hlocation := hdestinations ▸ List.mem_map_of_mem hu
    rw [Entry.relative, Entry.relative, List.mem_singleton.mp hlocation, hsource]
    decide
  · have hlocation := hsources ▸ List.mem_map_of_mem hu
    rw [Entry.relative, Entry.relative, List.mem_singleton.mp hlocation, hdestination]
    decide
  · rw [hsource, hdestination]
    decide

theorem fault_directoryStage :
    ((directoryStage "a//x").plan intoDirectory deletingOptions).fault = none := by
  have hreach := reaches_directoryStage "a//x"
  have hproper := proper_bucketAndFile "a//x"
  obtain ⟨hsources, hdestinations⟩ := locations_directoryStage (.inr rfl)
  have hcommon : ((directoryStage "a//x").listings.diff deletingOptions.exclude).common = [] := by
    refine List.eq_nil_iff_forall_not_mem.mpr fun ⟨s, t⟩ hpair => ?_
    obtain ⟨hs, ht, hrelative⟩ := (mem_common_iff
      ((located_source hproper hreach).distinct_select _)
      (distinct_destination hproper hreach)).mp hpair
    have hsource := List.mem_singleton.mp (hsources ▸ List.mem_map_of_mem hs)
    have hdestination := List.mem_singleton.mp (hdestinations ▸ List.mem_map_of_mem ht)
    rw [Entry.relative, Entry.relative, hsource, hdestination] at hrelative
    exact absurd hrelative (by decide)
  rw [Stage.plan, ofDiff, hcommon]
  rfl

/-- A removal takes the file that the same plan has just copied. -/
theorem removal_takes_copy :
    ¬ ∀ (e : Ends) (o : Options) (c : Connection) (command : String) (w : World) (g : Stage),
      w.Proper → w.files.Undotted → Reaches e o c command w g →
        e.source.isRemote = true → e.destination.isRemote = false →
          (∃ q, w.files.find .target e.destination.path = .ok (q, .directory)) →
            o.delete = true →
              ¬ UndoesCopy (planner e g.batch o) (g.listings.diff o.exclude) := by
  intro h
  obtain ⟨s, t, hst⟩ := respelled_directoryStage
  have hreach := reaches_directoryStage "a//x"
  have hproper := proper_bucketAndFile "a//x"
  exact h intoDirectory deletingOptions .standard "sync" (bucketAndFile "a//x") _ hproper
    undotted_outTree hreach rfl rfl ⟨_, rfl⟩ rfl
    (undoesCopy_of_respelled hproper hreach rfl rfl rfl fault_directoryStage hst)

end Testing

end Sync

end StoreSync
