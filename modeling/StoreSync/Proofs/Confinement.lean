import StoreSync.Proofs.LexicalPaths
import StoreSync.Proofs.Partition
import StoreSync.Proofs.PlanCommands

/-!
Where the copies of what the source alone has land on a local destination. Their names come from
the source: a batch takes the relative path, a single object its base name. The copies lie below
the destination as long as these names descend.
-/
namespace StoreSync.Plan

open Files

/-- The copies of what the source alone has. -/
def newCopies (p : Planner) (d : Diff) : List Command := commands (d.onlySource.map (copyNew p))

/-- The destination is a local path that was read from a text. -/
def GoesToPath (p : Planner) : Prop :=
  p.destination.isRemote = false ∧
    ∃ text literal, Location.parse text literal = .ok p.destination

def Confined (p : Planner) (c : Command) : Prop :=
  ∃ t, c.destination? = some t ∧ t.isRemote = false ∧ Inside p.destination.path t.path

/-- The name under which an object of the source is put below a destination. -/
def landingName (l : Location) (batch : Bool) : String := if batch then l.relative else l.base

/-- The name is the whole path of the object itself, which cannot be copied there. -/
def StandsAt (l : Location) (name : String) : Prop :=
  isAbsolute name = true ∧ l.same ⟨"", "", name, true, none⟩ = true

variable {p : Planner} {d : Diff} {c : Command} {l : Location} {sources destinations : List Entry}
  {batch : Bool}

/-- A plan starts with them. -/
theorem newCopies_startsWith (p : Planner) (d : Diff) :
    newCopies p d <+: commands (ofDiff p d).steps := by
  rw [ofDiff_steps, copies, commands_append, List.append_assoc]
  exact List.prefix_append _ _

theorem mem_newCopies_iff :
    c ∈ newCopies p d ↔ ∃ l ∈ d.onlySource, (copyNew p l).command? = some c := by
  simp [newCopies, commands]

theorem mem_sources_of_onlySource (hl : l ∈ (Diff.ofListings sources destinations).onlySource) :
    ∃ s ∈ sources, s.location = l := by
  have hperm := (Diff.partition_ofListings sources destinations).source_perm
  exact List.mem_map.mp (hperm.subset (List.mem_append_left _ hl))

/-- At an empty destination every source is alone. -/
theorem mem_onlySource_of_empty {s : Entry} (hs : s ∈ sources) :
    s.location ∈ (Diff.ofListings sources []).onlySource := by
  have hmerge : (Diff.ofListings sources []).onlySource =
      (Diff.sort sources).map Entry.location := by
    have hsort : Diff.sort [] = [] := by simp [Diff.sort]
    rw [Diff.ofListings, hsort]
    cases Diff.sort sources <;> rw [Diff.merge] <;> simp
  rw [hmerge]
  exact List.mem_map_of_mem ((Diff.sort_perm sources).mem_iff.mpr hs)

/-- A destination that is a local path has no scheme and no bucket. -/
theorem GoesToPath.isPath (h : GoesToPath p) :
    p.destination.scheme = "" ∧ p.destination.bucket = "" := by
  obtain ⟨hlocal, text, literal, hparse⟩ := h
  simp only [Location.parse] at hparse
  split_ifs at hparse
  · rw [← Except.ok.inj hparse] at hlocal
    simp [Location.isRemote] at hlocal
  · rw [← Except.ok.inj hparse]
    exact ⟨rfl, rfl⟩

/-- At a local destination the place of an object is that of its name below the destination. -/
theorem target_local (l : Location) (hlocal : p.destination.isRemote = false) :
    Placement.target l p.destination p.batch =
      ⟨p.destination.scheme, p.destination.bucket,
        joinPath p.destination.path (landingName l p.batch), true, none⟩ := by
  have hplace : Placement.isExactKey p.destination p.batch = false := by
    simp [Placement.isExactKey, hlocal]
  simp [Placement.target, hplace, Location.join, hlocal, Location.setLiteral, joinPath, landingName]

theorem confined_of_descends (hlocal : p.destination.isRemote = false)
    (hdescends : Descends (landingName l p.batch)) (hc : (copyNew p l).command? = some c) :
    Confined p c := by
  obtain ⟨-, -, rfl⟩ := copyNew_command?_iff.mp hc
  refine ⟨Placement.target l p.destination p.batch, rfl, ?_⟩
  rw [target_local l hlocal]
  exact ⟨hlocal, hdescends.inside p.destination.path⟩

/-- A copy that is confined at the directory where relative paths start has a name that
descends. -/
theorem descends_of_confined (hlocal : p.destination.isRemote = false)
    (hstart : normal p.destination.path = ⟨false, []⟩) (hc : (copyNew p l).command? = some c)
    (h : Confined p c) : Descends (landingName l p.batch) := by
  obtain ⟨-, -, rfl⟩ := copyNew_command?_iff.mp hc
  obtain ⟨t, ht, -, hinside⟩ := h
  have htarget : Placement.target l p.destination p.batch = t := Option.some.inj ht
  rw [← htarget, target_local l hlocal] at hinside
  exact descends_of_inside hstart hinside

/-- A source that stands at its name is not copied. -/
theorem not_standsAt_of_copyNew (h : GoesToPath p) (hc : (copyNew p l).command? = some c) :
    ¬ StandsAt l (landingName l p.batch) := by
  rintro ⟨habsolute, hsame⟩
  obtain ⟨hdiffers, -, -⟩ := copyNew_command?_iff.mp hc
  obtain ⟨hscheme, hbucket⟩ := h.isPath
  rw [target_local l h.1, joinPath_of_isAbsolute habsolute, hscheme, hbucket, hsame] at hdiffers
  exact absurd hdiffers (by decide)

def plannerTo (path : String) (batch : Bool) : Planner :=
  ⟨⟨"", "", path, false, none⟩, .sizeOnly, batch, false, [], ""⟩

/-- Any other source is copied at one of two spellings of the directory where relative paths
start. Two are needed because at one of them the source may meet itself. -/
theorem exists_copyNew (hliteral : l.isWildcard = false)
    (hstands : ¬ StandsAt l (landingName l batch)) :
    ∃ path, GoesToPath (plannerTo path batch) ∧ normal path = ⟨false, []⟩ ∧
      ∃ c, (copyNew (plannerTo path batch) l).command? = some c := by
  have hcopied : ∀ path : String,
      l.same ⟨"", "", joinPath path (landingName l batch), true, none⟩ = false →
        ∃ c, (copyNew (plannerTo path batch) l).command? = some c := by
    intro path hdiffers
    have htarget : Placement.target l (plannerTo path batch).destination batch =
        ⟨"", "", joinPath path (landingName l batch), true, none⟩ := target_local l rfl
    exact ⟨_, copyNew_command?_iff.mpr ⟨htarget ▸ hdiffers, hliteral, rfl⟩⟩
  by_cases hdot : l.same ⟨"", "", joinPath "." (landingName l batch), true, none⟩ = true
  · have hrelative : isAbsolute (landingName l batch) = false := by
      by_contra habsolute
      rw [Bool.not_eq_false] at habsolute
      rw [joinPath_of_isAbsolute habsolute] at hdot
      exact hstands ⟨habsolute, hdot⟩
    refine ⟨"./.", ⟨rfl, "./.", false, rfl⟩, by decide, hcopied "./." ?_⟩
    rw [Bool.eq_false_iff]
    intro hdots
    have hpath := ((l.same_iff.mp hdot).2.2).symm.trans (l.same_iff.mp hdots).2.2
    exact joinPath_dot_ne hrelative hpath
  · exact ⟨".", ⟨rfl, ".", false, rfl⟩, by decide, hcopied "." (Bool.eq_false_iff.mpr hdot)⟩

/-- The copies of what the source alone has are confined at every local destination exactly when
the names of the source descend. -/
theorem new_copies_confined_iff (batch : Bool) (sources : List Entry) :
    (∀ p : Planner, GoesToPath p → p.batch = batch → ∀ destinations : List Entry,
        ∀ c ∈ newCopies p (Diff.ofListings sources destinations), Confined p c) ↔
      ∀ s ∈ sources, s.location.isWildcard = false →
        Descends (landingName s.location batch) ∨
          StandsAt s.location (landingName s.location batch) := by
  constructor
  · intro h s hs hliteral
    by_cases hstands : StandsAt s.location (landingName s.location batch)
    · exact .inr hstands
    obtain ⟨path, hpath, hstart, c, hc⟩ := exists_copyNew hliteral hstands
    have hnew : c ∈ newCopies (plannerTo path batch) (Diff.ofListings sources []) :=
      mem_newCopies_iff.mpr ⟨s.location, mem_onlySource_of_empty hs, hc⟩
    have hconfined : Confined (plannerTo path batch) c := h _ hpath rfl [] c hnew
    exact .inl (descends_of_confined (p := plannerTo path batch) rfl hstart hc hconfined)
  · rintro h p hpath rfl destinations c hnew
    obtain ⟨l, hl, hc⟩ := mem_newCopies_iff.mp hnew
    obtain ⟨s, hs, rfl⟩ := mem_sources_of_onlySource hl
    have hliteral := (copyNew_command?_iff.mp hc).2.1
    have hdescends := (h s hs hliteral).resolve_right (not_standsAt_of_copyNew hpath hc)
    exact confined_of_descends hpath.1 hdescends hc

def upward : Entry :=
  ⟨⟨"s3", "src", "../x", true, some "../x"⟩, .file, 1, none, none, none, none⟩

/-- Such an object lands beside the destination. -/
theorem new_copy_escapes :
    GoesToPath (plannerTo "out" true) ∧
      ∃ c ∈ newCopies (plannerTo "out" true) (Diff.ofListings [upward] []),
        ¬ Confined (plannerTo "out" true) c := by
  refine ⟨⟨rfl, "out", false, rfl⟩, ⟨Command.copyOp,
    [upward.location, ⟨"", "", "out/../x", true, none⟩], baseFlags⟩, ?_, ?_⟩
  · have hcopied : (copyNew (plannerTo "out" true) upward.location).command? = some ⟨Command.copyOp,
        [upward.location, ⟨"", "", "out/../x", true, none⟩], baseFlags⟩ :=
      copyNew_command?_iff.mpr ⟨by decide, by decide, rfl⟩
    exact mem_newCopies_iff.mpr
      ⟨upward.location, mem_onlySource_of_empty List.mem_cons_self, hcopied⟩
  · rintro ⟨t, ht, -, -, rest, -, -, hnames⟩
    have htarget : (⟨"", "", "out/../x", true, none⟩ : Location) = t := Option.some.inj ht
    have hbeside : (normal "out/../x").names = ["x"] := by decide
    have hout : (normal "out").names = ["out"] := by decide
    rw [← htarget, hbeside] at hnames
    simp [plannerTo, hout] at hnames

end StoreSync.Plan
