import StoreSync.Proofs.Respellings
import StoreSync.Proofs.SingleObjects

/-!
Ends that overlap. Only ends that are the same location are refused, so one end may lie within the
other, and a plan may then write or remove what it has listed at its source. It spares an object
that lies outside of the destination, and one that lies where its own relative path is there.
-/
namespace StoreSync

open Files Eligibility Text

namespace Location

/-- Both stand for one object, or by their texts for one file. -/
def Coincides (l m : Location) : Prop :=
  l.isRemote = m.isRemote ∧
    if l.isRemote then l.bucket = m.bucket ∧ l.path = m.path else normal l.path = normal m.path

variable {l m n : Location}

theorem Coincides.symm (h : l.Coincides m) : m.Coincides l := by
  obtain ⟨hremote, hplace⟩ := h
  refine ⟨hremote.symm, ?_⟩
  rw [← hremote]
  split_ifs at hplace ⊢
  · exact ⟨hplace.1.symm, hplace.2.symm⟩
  · exact hplace.symm

theorem Coincides.trans (h : l.Coincides m) (h' : m.Coincides n) : l.Coincides n := by
  obtain ⟨hremote, hplace⟩ := h
  obtain ⟨hremote', hplace'⟩ := h'
  refine ⟨hremote.trans hremote', ?_⟩
  rw [← hremote] at hplace'
  split_ifs at hplace hplace' ⊢
  · exact ⟨hplace.1.trans hplace'.1, hplace.2.trans hplace'.2⟩
  · exact hplace.trans hplace'

theorem coincides_of_same (h : l.same m = true) : l.Coincides m := by
  obtain ⟨hscheme, hbucket, hpath⟩ := l.same_iff.mp h
  refine ⟨by rw [isRemote, isRemote, hscheme], ?_⟩
  split_ifs
  · exact ⟨hbucket, hpath⟩
  · rw [hpath]

theorem Coincides.normal_eq (h : l.Coincides m) (hlocal : l.isRemote = false) :
    normal l.path = normal m.path := by
  have hplace := h.2
  rwa [hlocal, if_neg Bool.false_ne_true] at hplace

theorem coincides_of_normal_eq (hl : l.isRemote = false) (hm : m.isRemote = false)
    (h : normal l.path = normal m.path) : l.Coincides m := by
  refine ⟨hl.trans hm.symm, ?_⟩
  rwa [hl, if_neg Bool.false_ne_true]

theorem Coincides.same (h : l.Coincides m) (hremote : l.isRemote = true) : l.same m = true := by
  obtain ⟨hside, hplace⟩ := h
  rw [if_pos hremote] at hplace
  rw [hremote, eq_comm] at hside
  simp only [isRemote, decide_eq_true_eq] at hremote hside
  exact l.same_iff.mpr ⟨hremote.trans hside.symm, hplace⟩

end Location

namespace Files

/-- What follows the last slash is the last component. -/
theorem getLast?_componentsOf (text : String) :
    (componentsOf text).getLast? = some (String.ofList (Slash.lastPart text.toList)) := by
  have hlast := components_of_not_mem (Slash.not_mem_lastPart text.toList)
  by_cases hnil : Slash.directoryPart text.toList = []
  · have htext := Slash.directoryPart_append_lastPart text.toList
    rw [hnil, List.nil_append] at htext
    rw [htext] at hlast
    rw [componentsOf, hlast, htext]
    rfl
  · have hslash := Slash.endsInSlash_directoryPart hnil
    obtain ⟨cs, hcs⟩ := List.getLast?_eq_some_iff.mp (of_decide_eq_true hslash)
    have htext := Slash.directoryPart_append_lastPart text.toList
    rw [hcs, List.append_assoc, List.singleton_append] at htext
    rw [componentsOf]
    conv_lhs => rw [← htext, components_append, hlast]
    simp

theorem Plain.normal_eq {name : String} (h : Plain name) :
    normal name = ⟨false, componentsOf name⟩ := by
  rw [normal, h.isRelative, foldl_climb_plain h, List.append_nil, List.reverse_reverse]

theorem Plain.descends {name : String} (h : Plain name) : Descends name := by
  refine ⟨h.isRelative, ?_, ?_⟩ <;> rw [h.normal_eq]
  · exact componentsOf_ne_nil name
  · exact fun hmem => (h _ hmem).2.2 rfl

end Files

namespace LocalListing

variable {t : Tree} {l : Location} {e : Entry} {followLinks : Bool}

/-- The last component of a path to a file is a plain name. -/
theorem plain_base {q : Files.Path} (h : t.HoldsAt l.path q) : Plain l.base := by
  have hbase : l.base = String.ofList (Slash.lastPart l.path.toList) := by
    rw [Location.base, Slash.trimEnd_of_not_endsInSlash h.endsInSlash]
  have hcomponents : componentsOf l.base = [l.base] := by
    rw [componentsOf, hbase, String.toList_ofList,
      components_of_not_mem (Slash.not_mem_lastPart l.path.toList)]
    rfl
  rw [Plain, hcomponents]
  intro c hc
  rw [List.mem_singleton.mp hc]
  exact h.last (hbase ▸ getLast?_componentsOf l.path)

theorem plain_of_patternEntries (ht : t.Proper) (hdots : t.Undotted)
    (h : .ok e ∈ patternEntries t l followLinks) (hfound : isFound e = true) :
    Plain e.relative ∧ ∃ path, e.location = locationOf path e.relative := by
  obtain ⟨v, hmem, hv⟩ := List.mem_filterMap.mp h
  cases v with
  | unreadable f => exact absurd hfound (not_isFound_of_entryOfFault (Option.some.inj hv))
  | file path names =>
    dsimp only at hv
    split_ifs at hv
    obtain ⟨hplain, hrelative⟩ := plain_of_mem_walk ht hdots hmem
    have hlocation := location_of_entryAt (Option.some.inj hv)
    rw [drop_listBase ht hmem] at hlocation
    have hname : e.relative = String.intercalate "/" names := by
      rw [Entry.relative, hlocation, hrelative]
    rw [hname]
    exact ⟨hplain, _, hlocation⟩

/-- All that a local listing finds comes under plain names. -/
theorem plain_of_mem_found (ht : t.Proper) (hdots : t.Undotted)
    (he : e ∈ found (list t l followLinks Watch.never).entries) :
    Plain e.relative ∧ ∃ path, e.location = locationOf path e.relative := by
  cases hwild : l.isWildcard with
  | true =>
    rw [list, hwild, if_pos rfl] at he
    obtain ⟨hmem, hfound⟩ := ok_mem_of_giveOut he
    exact plain_of_patternEntries ht hdots hmem hfound
  | false =>
    by_cases hdirectory : ∃ q, t.find .target l.path = .ok (q, .directory)
    · obtain ⟨q, hq⟩ := hdirectory
      obtain ⟨hmem, hfound⟩ := mem_directoryEntries_of_found hwild hq he
      obtain ⟨hplain, hlocation⟩ := plain_of_directoryEntries ht hdots hmem hfound
      exact ⟨hplain, _, hlocation⟩
    · have hlocation := location_of_found_single hwild (fun q hq => hdirectory ⟨q, hq⟩) he
      obtain ⟨q, hq⟩ := (stands_of_mem_found he).holds
      rw [hlocation] at hq
      have hname : e.relative = l.base := by
        rw [Entry.relative, hlocation, relative_locationOf_base]
      rw [hname]
      exact ⟨plain_base hq, _, hlocation⟩

end LocalListing

namespace Sync

open Diff Plan

variable {d l m : Location} {r r' : String}

/-- The location lies at the destination: its key starts with the prefix of the keys there, or its
path leads to the destination or below. -/
def Covers (d l : Location) : Prop :=
  l.isRemote = d.isRemote ∧
    if d.isRemote then l.bucket = d.bucket ∧ (keyPrefix d).toList <+: l.path.toList
    else normal l.path = normal d.path ∨ Inside d.path l.path

section Places

/-- The location is the place of a relative path at the destination. -/
structure LiesAs (d l : Location) (r : String) : Prop where
  plain : d.isRemote = false → Plain r
  coincides : l.Coincides (d.join r)

theorem LiesAs.of_coincides (h : LiesAs d l r) (hlm : l.Coincides m) : LiesAs d m r :=
  ⟨h.plain, hlm.symm.trans h.coincides⟩

theorem LiesAs.isRemote (h : LiesAs d l r) : l.isRemote = d.isRemote := h.coincides.1

theorem LiesAs.key (h : LiesAs d l r) (hd : d.isRemote = true) :
    l.bucket = d.bucket ∧ l.path = keyPrefix d ++ r := by
  obtain ⟨hremote, hplace⟩ := h.coincides
  have hl : l.isRemote = true := hremote.trans hd
  rwa [if_pos hl, path_join hd] at hplace

theorem path_join_local (hd : d.isRemote = false) : (d.join r).path = joinPath d.path r := by
  simp [Location.join, hd, joinPath]

theorem LiesAs.names (h : LiesAs d l r) (hd : d.isRemote = false) :
    normal l.path = ⟨isAbsolute d.path, (normal d.path).names ++ componentsOf r⟩ := by
  rw [h.coincides.normal_eq (h.isRemote.trans hd), path_join_local hd,
    normal_joinPath_plain (h.plain hd)]

theorem LiesAs.covers (h : LiesAs d l r) : Covers d l := by
  refine ⟨h.isRemote, ?_⟩
  split_ifs with hd
  · obtain ⟨hbucket, hpath⟩ := h.key hd
    refine ⟨hbucket, ?_⟩
    rw [hpath, String.toList_append]
    exact List.prefix_append _ _
  · rw [Bool.not_eq_true] at hd
    right
    have hinside := (h.plain hd).descends.inside d.path
    rw [Inside, normal_joinPath_plain (h.plain hd)] at hinside
    rw [Inside, h.names hd]
    exact hinside

/-- One place has one relative path. -/
theorem LiesAs.unique (h : LiesAs d l r) (h' : LiesAs d l r') : r = r' := by
  cases hd : d.isRemote with
  | true =>
    have hpath := (h.key hd).2.symm.trans (h'.key hd).2
    exact (String.append_right_inj _).mp hpath
  | false =>
    have hnames := (h.names hd).symm.trans (h'.names hd)
    rw [NormalPath.mk.injEq] at hnames
    exact componentsOf_injective (List.append_cancel_left hnames.2)

/-- It is not the destination itself. -/
theorem LiesAs.not_coincides (h : LiesAs d l r) (hd : d.isRemote = false) : ¬ l.Coincides d := by
  intro hcoincides
  have hplace := hcoincides.normal_eq (h.isRemote.trans hd)
  have hnames := congrArg NormalPath.names ((h.names hd).symm.trans hplace)
  exact componentsOf_ne_nil r (List.append_right_eq_self.mp hnames)

end Places

variable {e : Ends} {o : Options} {c : Connection} {command : String} {w : World} {g : Stage}
  {s t u : Entry}

def Damages (p : Planner) (d : Diff) (l : Location) : Prop :=
  ∃ c ∈ commands (ofDiff p d).steps, ∃ t ∈ changed c, t.Coincides l

/-- What the plan of a run does to a location, for each part of the difference. -/
inductive Threatens (e : Ends) (o : Options) (g : Stage) (l : Location) : Prop
  | new {s : Entry} (source : s ∈ select o.exclude g.listings.source.entries)
      (unlisted : ∀ u ∈ select o.exclude g.listings.destination.entries, u.relative ≠ s.relative)
      (differs : s.location.same (Placement.target s.location e.destination g.batch) = false)
      (meets : (Placement.target s.location e.destination g.batch).Coincides l)
  | pair {s u : Entry} (source : s ∈ select o.exclude g.listings.source.entries)
      (destination : u ∈ select o.exclude g.listings.destination.entries)
      (relative : s.relative = u.relative) (differs : s.location.same u.location = false)
      (stale : Freshness.reason? o.strategy s u = .ok none) (meets : u.location.Coincides l)
  | surplus {u : Entry} (delete : o.delete = true)
      (destination : u ∈ select o.exclude g.listings.destination.entries)
      (unsourced : ∀ s ∈ select o.exclude g.listings.source.entries, s.relative ≠ u.relative)
      (meets : u.location.Coincides l)

section Planning

variable (hw : w.Proper) (h : Reaches e o c command w g)

include hw h

theorem threatens_of_damages
    (hdamages : Damages (planner e g.batch o) (g.listings.diff o.exclude) l) :
    Threatens e o g l := by
  obtain ⟨cmd, hcmd, t, ht, hmeets⟩ := hdamages
  have hsdistinct := (located_source hw h).distinct_select o.exclude
  have htdistinct := distinct_destination hw h
  rcases mem_commands_ofDiff_iff.mp hcmd with hcopy | ⟨hremoval, rfl⟩
  · rcases mem_copies hcopy with ⟨l, hnew, hc⟩ | ⟨⟨s, u⟩, hpair, hc⟩
    · obtain ⟨s, hs, rfl, hunlisted⟩ := (mem_onlySource_iff hsdistinct).mp hnew
      obtain ⟨hdiffers, -, rfl⟩ := copyNew_command?_iff.mp hc
      rw [changed_copy, List.mem_singleton] at ht
      exact .new hs hunlisted hdiffers (ht ▸ hmeets)
    · obtain ⟨hs, hu, hrelative⟩ := (mem_common_iff hsdistinct htdistinct).mp hpair
      obtain ⟨hreason, hdiffers, -, -, rfl⟩ := copyPair?_iff.mp hc
      rw [changed_copy, List.mem_singleton] at ht
      exact .pair hs hu hrelative hdiffers hreason (ht ▸ hmeets)
  · rw [changed_removalOf] at ht
    obtain ⟨u, hu, rfl, hunsourced⟩ := (mem_onlyDestination_iff htdistinct).mp ht
    exact .surplus hremoval.delete hu hunsourced hmeets

theorem damages_of_threatens (hfault : (g.plan e o).fault = none) (hthreat : Threatens e o g l) :
    Damages (planner e g.batch o) (g.listings.diff o.exclude) l := by
  have hsource := located_source hw h
  have hsdistinct := hsource.distinct_select o.exclude
  have htdistinct := distinct_destination hw h
  have hliteral : ∀ s ∈ select o.exclude g.listings.source.entries,
      s.location.isWildcard = false := fun s hs =>
    Location.isWildcard_of_literal (hsource.literal s (mem_found_of_mem_select hs))
  cases hthreat with
  | new hs hunlisted hdiffers hmeets =>
    have hnew := (mem_onlySource_iff hsdistinct).mpr ⟨_, hs, rfl, hunlisted⟩
    have hcopy := mem_copies_of_copyNew (p := planner e g.batch o) hnew
      (copyNew_command?_iff.mpr ⟨hdiffers, hliteral _ hs, rfl⟩)
    refine ⟨_, mem_commands_ofDiff_iff.mpr (.inl hcopy), _, ?_, hmeets⟩
    rw [changed_copy]
    exact List.mem_singleton_self _
  | pair hs hu hrelative hdiffers hstale hmeets =>
    have hpair := (mem_common_iff hsdistinct htdistinct).mpr ⟨hs, hu, hrelative⟩
    have huliteral := Location.isWildcard_of_literal
      (literal_of_found_destination h (mem_found_of_mem_select hu))
    have hcopy := mem_copies_of_copyPair (p := planner e g.batch o) hfault hpair
      (copyPair?_iff.mpr ⟨hstale, hdiffers, hliteral _ hs, huliteral, rfl⟩)
    refine ⟨_, mem_commands_ofDiff_iff.mpr (.inl hcopy), _, ?_, hmeets⟩
    rw [changed_copy]
    exact List.mem_singleton_self _
  | surplus hdelete hu hunsourced hmeets =>
    have hsurplus := (mem_onlyDestination_iff htdistinct).mpr ⟨_, hu, rfl, hunsourced⟩
    refine ⟨_, removalOf_mem_commands h hdelete hfault hsurplus, _, ?_, hmeets⟩
    rw [changed_removalOf]
    exact hsurplus

theorem isRemote_of_mem_source (hs : s ∈ select o.exclude g.listings.source.entries) :
    s.location.isRemote = e.source.isRemote :=
  (located_source hw h).remote s (mem_found_of_mem_select hs)

variable (hdots : w.files.Undotted)

include hdots

theorem plain_of_mem_source (hlocal : e.source.isRemote = false)
    (hs : s ∈ select o.exclude g.listings.source.entries) :
    Plain s.relative ∧ ∃ path, s.location = LocalListing.locationOf path s.relative := by
  obtain ⟨hserves, -, -, w₁, w₂, halike, -, -, hlisting, -⟩ := listings_of_reaches h
  rcases hserves with ⟨-, hside⟩ | ⟨hremote, -⟩
  · have hfound := mem_found_of_mem_select hs
    rw [hlisting, hside] at hfound
    exact LocalListing.plain_of_mem_found (hw.of_alike halike).files (halike.files ▸ hdots) hfound
  · rw [hlocal] at hremote
    cases hremote

/-- What is listed at the destination lies there under its relative path, or is the destination
itself. -/
theorem liesAs_or_coincides (hu : u ∈ select o.exclude g.listings.destination.entries) :
    LiesAs e.destination u.location u.relative ∨
      e.destination.isRemote = false ∧ u.location.Coincides e.destination := by
  have hfound := mem_found_of_mem_select hu
  cases hremote : e.destination.isRemote with
  | true =>
    obtain ⟨key, relative, hlocation⟩ := location_of_found_destination h hremote hfound
    have hpath := (object?_of_found_destination h hremote hfound).1
    left
    refine ⟨fun hlocal => absurd hlocal (by rw [hremote]; decide), ?_⟩
    refine Location.coincides_of_same (Location.same_iff _ |>.mpr ⟨?_, ?_, ?_⟩)
    · rw [hlocation]
      exact (of_decide_eq_true hremote).symm
    · rw [hlocation]
      rfl
    · rw [hpath, path_join hremote]
  | false =>
    rcases destination_plain_or_single hw h hremote hdots with hplain | hsingle
    · obtain ⟨hplain, hlocation⟩ := hplain u hfound
      left
      refine ⟨fun _ => hplain, ?_⟩
      rw [hlocation]
      refine Location.coincides_of_normal_eq rfl hremote ?_
      rw [path_join_local hremote]
      rfl
    · right
      rw [hsingle u hfound]
      exact ⟨rfl, Location.coincides_of_normal_eq rfl hremote rfl⟩

/-- An object that lies where its relative path is at the destination is listed there. -/
theorem liesAs_of_same (hs : s ∈ select o.exclude g.listings.source.entries)
    (hsame : s.location.same (e.destination.join s.relative) = true) :
    LiesAs e.destination s.location s.relative := by
  have hcoincides := Location.coincides_of_same hsame
  refine ⟨fun hlocal => ?_, hcoincides⟩
  have hsource := (isRemote_of_mem_source hw h hs).symm.trans (hcoincides.1.trans hlocal)
  exact (plain_of_mem_source hw h hdots hsource hs).1

theorem covers_of_listed (hu : u ∈ select o.exclude g.listings.destination.entries)
    (hmeets : u.location.Coincides l) : Covers e.destination l := by
  rcases liesAs_or_coincides hw h hdots hu with hlies | ⟨hlocal, hcoincides⟩
  · exact (hlies.of_coincides hmeets).covers
  · have hl := hmeets.symm.trans hcoincides
    refine ⟨hl.1, ?_⟩
    rw [hlocal, if_neg Bool.false_ne_true]
    exact .inl (hl.normal_eq (hl.1.trans hlocal))

theorem relative_eq_of_listed (hs : s ∈ select o.exclude g.listings.source.entries)
    (hsame : s.location.same (e.destination.join s.relative) = true)
    (hu : u ∈ select o.exclude g.listings.destination.entries)
    (hmeets : u.location.Coincides s.location) : u.relative = s.relative := by
  have hown := liesAs_of_same hw h hdots hs hsame
  rcases liesAs_or_coincides hw h hdots hu with hlies | ⟨hlocal, hcoincides⟩
  · exact (hlies.of_coincides hmeets).unique hown
  · exact absurd (hmeets.symm.trans hcoincides) (hown.not_coincides hlocal)

theorem same_of_listed (hs : s ∈ select o.exclude g.listings.source.entries)
    (hsame : s.location.same (e.destination.join s.relative) = true)
    (hu : u ∈ select o.exclude g.listings.destination.entries)
    (hmeets : u.location.Coincides s.location) : s.location.same u.location = true := by
  cases hremote : s.location.isRemote with
  | true => exact hmeets.symm.same hremote
  | false =>
    have hlocal : e.destination.isRemote = false :=
      (Location.coincides_of_same hsame).1.symm.trans hremote
    have hsource := (isRemote_of_mem_source hw h hs).symm.trans hremote
    obtain ⟨-, path, hlocation⟩ := plain_of_mem_source hw h hdots hsource hs
    have hufound := mem_found_of_mem_select hu
    rcases destination_plain_or_single hw h hlocal hdots with hplain | hsingle
    · obtain ⟨-, hulocation⟩ := hplain u hufound
      have hpath := (s.location.same_iff.mp hsame).2.2
      rw [path_join_local hlocal, ← relative_eq_of_listed hw h hdots hs hsame hu hmeets] at hpath
      rw [Location.same_iff, hulocation]
      exact ⟨by rw [hlocation]; rfl, by rw [hlocation]; rfl, hpath⟩
    · have hcoincides : u.location.Coincides e.destination := by
        rw [hsingle u hufound]
        exact Location.coincides_of_normal_eq rfl hlocal rfl
      exact absurd (hmeets.symm.trans hcoincides)
        ((liesAs_of_same hw h hdots hs hsame).not_coincides hlocal)

/-- A copy of what the source alone has goes to the place of its relative path, unless it goes to
an exact key, where it meets no object of its source. -/
theorem liesAs_target (hs : s ∈ select o.exclude g.listings.source.entries)
    (ht : t ∈ select o.exclude g.listings.source.entries)
    (hdiffers : t.location.same (Placement.target t.location e.destination g.batch) = false)
    (hmeets : (Placement.target t.location e.destination g.batch).Coincides s.location) :
    LiesAs e.destination s.location t.relative ∧
      Placement.target t.location e.destination g.batch =
        (e.destination.join t.relative).setLiteral true := by
  cases hexact : Placement.isExactKey e.destination g.batch with
  | true =>
    -- The source finds nothing but the object itself, and a copy onto itself is refused.
    have hsingle : g.batch = false := by
      simp only [Placement.isExactKey, Bool.and_eq_true, Bool.not_eq_true',
        Bool.or_eq_false_iff] at hexact
      exact hexact.2.1.1
    have hsfound := mem_found_of_mem_select hs
    have htfound := mem_found_of_mem_select ht
    have hrelative := (single_of_found_source h hsingle htfound).relative.trans
      (single_of_found_source h hsingle hsfound).relative.symm
    have hdistinct := (located_source hw h).distinct_select o.exclude
    obtain rfl := eq_of_relative_eq hdistinct ht hs hrelative
    have hremote : t.location.isRemote = true := by
      rw [← hmeets.1, Placement.target, hexact, if_pos rfl]
      exact isRemote_of_isExactKey (hsingle ▸ hexact)
    rw [hmeets.symm.same hremote] at hdiffers
    cases hdiffers
  | false =>
    have htarget : Placement.target t.location e.destination g.batch =
        (e.destination.join t.relative).setLiteral true := by
      rw [Placement.target, hexact, if_neg Bool.false_ne_true, ← landingName_eq h ht]
      rfl
    rw [htarget] at hmeets
    refine ⟨⟨fun hlocal => ?_, hmeets.symm⟩, htarget⟩
    have hsource := (isRemote_of_mem_source hw h hs).symm.trans (hmeets.1.symm.trans hlocal)
    exact (plain_of_mem_source hw h hdots hsource ht).1

/-- What a plan may damage lies at the destination. -/
theorem covers_of_threatens (hs : s ∈ select o.exclude g.listings.source.entries)
    (hthreat : Threatens e o g s.location) : Covers e.destination s.location := by
  cases hthreat with
  | new ht _ hdiffers hmeets => exact (liesAs_target hw h hdots hs ht hdiffers hmeets).1.covers
  | pair _ hu _ _ _ hmeets => exact covers_of_listed hw h hdots hu hmeets
  | surplus _ hu _ hmeets => exact covers_of_listed hw h hdots hu hmeets

/-- An object that lies where its relative path is at the destination is its own counterpart. -/
theorem not_threatens_of_same (hs : s ∈ select o.exclude g.listings.source.entries)
    (hsame : s.location.same (e.destination.join s.relative) = true) :
    ¬ Threatens e o g s.location := by
  have hdistinct := (located_source hw h).distinct_select o.exclude
  intro hthreat
  -- Whatever meets the object has its relative path, so it belongs to the pair of the object.
  cases hthreat with
  | @new t ht _ hdiffers hmeets =>
    obtain ⟨hlies, htarget⟩ := liesAs_target hw h hdots hs ht hdiffers hmeets
    have hrelative := hlies.unique (liesAs_of_same hw h hdots hs hsame)
    obtain rfl := eq_of_relative_eq hdistinct ht hs hrelative
    rw [htarget] at hdiffers
    exact absurd (hdiffers.symm.trans hsame) Bool.false_ne_true
  | @pair t u ht hu hrelative hdiffers _ hmeets =>
    have hlisted := relative_eq_of_listed hw h hdots hs hsame hu hmeets
    obtain rfl := eq_of_relative_eq hdistinct ht hs (hrelative.trans hlisted)
    rw [same_of_listed hw h hdots hs hsame hu hmeets] at hdiffers
    cases hdiffers
  | surplus _ hu hunsourced hmeets =>
    exact hunsourced s hs (relative_eq_of_listed hw h hdots hs hsame hu hmeets).symm

end Planning

/-- A plan damages an object of its own source only if the object lies at the destination, at
another place than its relative path has there. A plan that is made to the end damages exactly
those that one of its copies or its removal meets. -/
theorem damages_source_iff (hw : w.Proper) (hdots : w.files.Undotted)
    (h : Reaches e o c command w g) (hs : s ∈ select o.exclude g.listings.source.entries) :
    (Damages (planner e g.batch o) (g.listings.diff o.exclude) s.location →
      Covers e.destination s.location ∧
        s.location.same (e.destination.join s.relative) = false) ∧
    ((g.plan e o).fault = none →
      (Damages (planner e g.batch o) (g.listings.diff o.exclude) s.location ↔
        Threatens e o g s.location)) := by
  refine ⟨fun hdamages => ?_, fun hfault => ⟨?_, ?_⟩⟩
  · have hthreat := threatens_of_damages hw h hdamages
    refine ⟨covers_of_threatens hw h hdots hs hthreat, Bool.eq_false_iff.mpr fun hsame => ?_⟩
    exact not_threatens_of_same hw h hdots hs hsame hthreat
  · exact threatens_of_damages hw h
  · exact damages_of_threatens hw h hfault

/-! A bucket that is synchronised with itself and with a folder of its own. -/

section Testing

def withinBucket (source path : String) : Ends :=
  ⟨⟨"s3", "b", source, false, none⟩, ⟨"s3", "b", path, false, none⟩⟩

/-- An object that is copied to the root of its bucket stays, whatever else is removed there. -/
theorem damages_source_nowhere :
    (twoBuckets [] [objectAt "y", objectAt "z"]).Proper ∧ (Tree.ofNodes [] []).Undotted ∧
      Reaches (withinBucket "y" "") deletingOptions .standard "sync"
        (twoBuckets [] [objectAt "y", objectAt "z"])
        (stageOf (withinBucket "y" "") deletingOptions false
          (twoBuckets [] [objectAt "y", objectAt "z"])) ∧
      ¬ Damages (planner (withinBucket "y" "") false deletingOptions)
        ((stageOf (withinBucket "y" "") deletingOptions false
          (twoBuckets [] [objectAt "y", objectAt "z"])).listings.diff deletingOptions.exclude)
        (entryAt "b" "y").location := by
  have hproper : (twoBuckets [] [objectAt "y", objectAt "z"]).Proper :=
    proper_twoBuckets (by decide) (by decide)
  have hundotted : (Tree.ofNodes [] []).Undotted := fun _ h => absurd h List.not_mem_nil
  have hreach : Reaches (withinBucket "y" "") deletingOptions .standard "sync"
      (twoBuckets [] [objectAt "y", objectAt "z"])
      (stageOf (withinBucket "y" "") deletingOptions false
        (twoBuckets [] [objectAt "y", objectAt "z"])) := ⟨_, rfl, rfl, rfl⟩
  have hs : select deletingOptions.exclude
      (stageOf (withinBucket "y" "") deletingOptions false
        (twoBuckets [] [objectAt "y", objectAt "z"])).listings.source.entries =
      [entryAt "b" "y"] := rfl
  refine ⟨hproper, hundotted, hreach, fun hdamages => ?_⟩
  have hspared := (damages_source_iff hproper hundotted hreach
    (hs ▸ List.mem_singleton_self _)).1 hdamages
  exact absurd hspared.2 (by decide)

def ownFolder : World := twoBuckets [] [objectAt "p/y"]

def ownFolderStage : Stage := stageOf (withinBucket "" "p/") deletingOptions true ownFolder

theorem source_ownFolderStage :
    select deletingOptions.exclude ownFolderStage.listings.source.entries =
      [entryAt "b" "p/y"] := rfl

theorem destination_ownFolderStage :
    select deletingOptions.exclude ownFolderStage.listings.destination.entries =
      [RemoteListing.entryOf "b" "y" (objectAt "p/y")] := rfl

theorem fault_ownFolderStage :
    (ownFolderStage.plan (withinBucket "" "p/") deletingOptions).fault = none := by
  have hne : (entryAt "b" "p/y").relative ≠
    (RemoteListing.entryOf "b" "y" (objectAt "p/y")).relative := by decide
  have hlt : ¬ (RemoteListing.entryOf "b" "y" (objectAt "p/y")).relative <
    (entryAt "b" "p/y").relative := by decide
  have hcommon : (ownFolderStage.listings.diff deletingOptions.exclude).common = [] := by
    rw [Listings.diff, source_ownFolderStage, destination_ownFolderStage]
    simp [ofListings, Diff.sort, Diff.merge, hne, hlt, addSource]
  rw [Stage.plan, ofDiff, hcommon]
  rfl

/-- What lies in the folder is missing at the source under the name that it has there. -/
theorem removal_takes_source :
    ¬ ∀ (e : Ends) (o : Options) (c : Connection) (command : String) (w : World) (g : Stage),
      w.Proper → w.files.Undotted → mismatch? e.source e.destination = none →
        Reaches e o c command w g →
          ∀ s ∈ select o.exclude g.listings.source.entries,
            ¬ Damages (planner e g.batch o) (g.listings.diff o.exclude) s.location := by
  intro h
  have hproper : ownFolder.Proper := proper_twoBuckets (by decide) (by decide)
  have hreach : Reaches (withinBucket "" "p/") deletingOptions .standard "sync" ownFolder
      ownFolderStage := ⟨_, rfl, rfl, rfl⟩
  refine h (withinBucket "" "p/") deletingOptions .standard "sync" ownFolder ownFolderStage
    hproper (fun _ hmem => absurd hmem List.not_mem_nil) (by decide) hreach _
    (source_ownFolderStage ▸ List.mem_singleton_self _)
    (damages_of_threatens hproper hreach fault_ownFolderStage (.surplus rfl
      (destination_ownFolderStage ▸ List.mem_singleton_self _) (fun s hs => ?_)
      (Location.coincides_of_same rfl)))
  rw [source_ownFolderStage] at hs
  rw [List.mem_singleton.mp hs]
  decide

end Testing

end Sync

end StoreSync
