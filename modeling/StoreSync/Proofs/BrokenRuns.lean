import StoreSync.Proofs.TrialRuns
import StoreSync.Proofs.UnbrokenListings

/-!
Runs that are broken off before they have a plan: a client cannot be made, the source cannot be
looked at, or a listing does not come to its end. The fault is then never one of the
synchroniser's own, as long as the store's client raises none of these.
-/
namespace StoreSync

open Files

theorem Fault.isOwn_of_isRequest {f : Fault} (h : f.isRequest = true) : f.isOwn = false := by
  cases f <;> first | rfl | cases h

theorem Fault.isOwn_of_isValidation {f : Fault} (h : f.isValidation = true) : f.isOwn = true := by
  cases f with
  | plain kind text => cases kind <;> first | rfl | cases h
  | _ => cases h

theorem Files.Refusal.isOwn_fault (r : Refusal) (path : String) : (r.fault path).isOwn = false := by
  cases r <;> rfl

namespace Files.Tree

/-- What the system says of a directory that cannot be read. -/
theorem isOwn_of_unreadable {t : Tree} {followLinks : Bool} {depth : Nat} {directory : String}
    {above : List String} {f : Fault}
    (h : .unreadable f ∈ t.walkWithin followLinks depth directory above) : f.isOwn = false := by
  induction depth generalizing directory above with
  | zero => exact absurd h List.not_mem_nil
  | succ depth ih =>
    unfold Tree.walkWithin at h
    cases hentries : t.entriesAt directory with
    | error r =>
      rw [hentries] at h
      obtain rfl := Visit.unreadable.inj (List.mem_singleton.mp h)
      exact r.isOwn_fault directory
    | ok entries =>
      rw [hentries] at h
      rcases List.mem_append.mp h with hfile | hbelow
      · obtain ⟨e, -, he⟩ := List.mem_filterMap.mp hfile
        dsimp only at he
        split_ifs at he
        cases he
      · obtain ⟨e, -, he⟩ := List.mem_flatMap.mp hbelow
        dsimp only at he
        split_ifs at he
        · exact ih he
        · exact absurd he List.not_mem_nil

end Files.Tree

namespace LocalListing

variable {t : Tree} {l : Location} {path relative : String} {p : Files.Path} {n : Node}
  {followLinks : Bool} {watch : Watch} {f : Fault}

theorem isOwn_of_entryOf (h : entryOf t p path relative n = .error f) : f.isOwn = false := by
  obtain ⟨year, rfl⟩ := year_of_timeOf (timeOf_of_entryOf h)
  rfl

theorem isOwn_of_entryOfFault {g : Fault} (h : entryOfFault l g = .error f)
    (hg : g.isOwn = false) : f.isOwn = false := by
  unfold entryOfFault at h
  split_ifs at h
  exact Except.error.inj h ▸ hg

theorem isOwn_of_entryAt (h : entryAt t path relative = .error f) : f.isOwn = false := by
  unfold entryAt at h
  split at h
  · exact isOwn_of_entryOf h
  · exact isOwn_of_entryOfFault h (Refusal.isOwn_fault _ path)

theorem isOwn_of_directoryEntries (h : .error f ∈ directoryEntries t path followLinks) :
    f.isOwn = false := by
  obtain ⟨v, hv, he⟩ := List.mem_map.mp h
  cases v with
  | unreadable g => exact isOwn_of_entryOfFault he (Tree.isOwn_of_unreadable hv)
  | file path names => exact isOwn_of_entryAt he

theorem isOwn_of_patternEntries (h : .error f ∈ patternEntries t l followLinks) :
    f.isOwn = false := by
  obtain ⟨v, hv, he⟩ := List.mem_filterMap.mp h
  cases v with
  | unreadable g => exact isOwn_of_entryOfFault (Option.some.inj he) (Tree.isOwn_of_unreadable hv)
  | file path names =>
    dsimp only at he
    split_ifs at he
    exact isOwn_of_entryAt (Option.some.inj he)

/-- The fault of a listing is that of the first entry that cannot be made. -/
theorem mem_of_giveOut {given : Nat} {es : List (Except Fault Entry)}
    (h : (giveOut watch l given es).fault = some f) : .error f ∈ es := by
  induction es generalizing given with
  | nil => cases given <;> cases h
  | cons x rest ih =>
    cases x with
    | error g =>
      obtain rfl : g = f := by
        rw [giveOut] at h
        exact Option.some.inj h
      exact List.mem_cons_self
    | ok e =>
      rw [giveOut] at h
      split_ifs at h
      · cases h
      · exact List.mem_cons_of_mem _ (ih h)

/-- A listing of local files is broken off by what the system says, or by the calendar. -/
theorem isOwn_of_list (h : (list t l followLinks watch).fault = some f) : f.isOwn = false := by
  unfold list ofPath at h
  split at h
  · exact isOwn_of_patternEntries (mem_of_giveOut h)
  · split at h
    · cases h
    · next r _ _ =>
      split at h
      · cases h
      · next g hg =>
        obtain rfl := Option.some.inj h
        exact isOwn_of_entryOfFault hg (r.isOwn_fault l.path)
    · cases h
    · exact isOwn_of_directoryEntries (mem_of_giveOut h)
    · split at h
      · cases h
      · next g hg =>
        obtain rfl := Option.some.inj h
        exact isOwn_of_entryOf hg

theorem isOwn_of_status (h : status t l = .error f) (hfound : ∀ place, f ≠ .notFound place) :
    f.isOwn = false := by
  unfold status at h
  split at h
  · exact isOwn_of_entryOf h
  · exact absurd (Except.error.inj h).symm (hfound _)
  · next r _ _ =>
    obtain rfl := Except.error.inj h
    exact r.isOwn_fault l.path

end LocalListing

namespace Sync

open StoreSync.Action Transfer

variable {e : Ends} {o : Options} {c : Connection} {command : String} {w : World} {f : Fault}

/-- What breaks a run off before it has a plan. -/
inductive BrokenOff (e : Ends) (o : Options) (c : Connection) (command : String) (w : World)
    (f : Fault) : Prop
  | opening (fails : ((openSides e o c).run.run w).1 = .error f)
  | source {sides : Side × Side} {w₁ : World} (opens : (openSides e o c).Gives w sides w₁)
      (fails : sourceIsBatch w₁.files e.source = .error f)
  | listing {g : Stage} (reaches : Reaches e o c command w g)
      (fails : g.listings.fault? = some f)

theorem isOwn_of_sourceIsBatch {t : Tree} {l : Location} (h : sourceIsBatch t l = .error f) :
    f.isOwn = false := by
  unfold sourceIsBatch at h
  split_ifs at h
  split at h
  · cases h
  · next g hstatus =>
    split at h
    · cases h
    · next hfound =>
      split_ifs at h
      obtain rfl := Except.error.inj h
      exact LocalListing.isOwn_of_status hstatus hfound

/-- The world answers with no fault of the synchroniser's own. -/
def Foreign (w : World) : Prop := w.Answers fun f => f.isOwn = false

theorem asks_connect (l : Location) (c : Connection) :
    Asks (fun f => f.isOwn = false) (connect l c) := by
  unfold connect
  split_ifs
  · refine asks_bind ?_ fun _ => asks_bind (asks_meet rfl _ _) fun _ => ?_
    · unfold Connection.check
      split_ifs
      · exact asks_throw rfl
      · exact asks_pure _
    · exact fun w h => ⟨h, nofun⟩
  · exact asks_pure _

theorem asks_openSides (e : Ends) (o : Options) (c : Connection) :
    Asks (fun f => f.isOwn = false) (openSides e o c) :=
  asks_bind (asks_connect _ _) fun _ => asks_bind (asks_connect _ _) fun _ => asks_pure _

theorem isOwn_of_listSide (side : Side) (l : Location) (followLinks : Bool) (h : Foreign w) :
    (∀ f, ((listSide side l followLinks Watch.never).run w).1.fault = some f → f.isOwn = false) ∧
      Foreign ((listSide side l followLinks Watch.never).run w).2 := by
  cases side with
  | files => exact ⟨fun f hf => LocalListing.isOwn_of_list hf, h⟩
  | client n =>
    obtain ⟨hfault, hanswers⟩ :=
      RemoteListing.brokenBy_list (fun _ => Fault.isOwn_of_isRequest) n l Watch.never w h
    exact ⟨fun f hf => (hfault f hf).1, hanswers⟩

/-- A run is not broken off by a fault of the synchroniser's own. -/
theorem isOwn_of_brokenOff (hw : Foreign w) (h : BrokenOff e o c command w f) :
    f.isOwn = false := by
  obtain ⟨hopened, hopening⟩ := asks_openSides e o c w hw
  cases h with
  | opening fails => exact hopening f fails
  | source opens fails => exact isOwn_of_sourceIsBatch fails
  | @listing g reaches fails =>
    obtain ⟨w₁, opens, -, hlist⟩ := reaches
    rw [opens] at hopened
    obtain ⟨hsource, hnext⟩ := isOwn_of_listSide g.source e.source o.followLinks hopened
    obtain ⟨hdestination, -⟩ :=
      isOwn_of_listSide g.destination (listingLocation e.destination) false hnext
    obtain ⟨hlistings, -⟩ := Prod.mk.inj hlist
    rw [← hlistings] at fails
    rcases Option.or_eq_some_iff.mp fails with hf | ⟨-, hf⟩
    · exact hsource f hf
    · exact hdestination f hf

/-- A run is broken off, and ends with that fault, or it lists both sides to their end. -/
theorem broken_or_reaches (e : Ends) (o : Options) (c : Connection) (command : String)
    (quiet : Bool) (w : World) :
    (∃ f, BrokenOff e o c command w f ∧
      ((runBetween e o c command quiet).run w).1.result = .error f) ∨
    ∃ g, Reaches e o c command w g ∧ g.listings.fault? = none := by
  rcases hopen : (openSides e o c).run.run w with ⟨f | sides, w₁⟩
  · refine .inl ⟨f, .opening (by rw [hopen]), ?_⟩
    unfold runBetween
    rw [run_state_bind, hopen]
    rfl
  · cases hbatch : sourceIsBatch w₁.files e.source with
    | error f =>
      refine .inl ⟨f, .source hopen hbatch, ?_⟩
      rw [runBetween_of_gives hopen, hbatch]
      rfl
    | ok batch =>
      let listed := (list e sides.1 sides.2 o command).run w₁
      let g : Stage := ⟨sides.1, sides.2, batch, listed.1, listed.2⟩
      have hreach : Reaches e o c command w g := ⟨w₁, hopen, hbatch, rfl⟩
      cases hfault : g.listings.fault? with
      | none => exact .inr ⟨g, hreach, hfault⟩
      | some f =>
        refine .inl ⟨f, .listing hreach hfault, ?_⟩
        rw [runBetween_of_reaches hreach, hfault]
        rfl

/-- A run that lists both sides to their end is not broken off. -/
theorem not_brokenOff_of_reaches {g : Stage} (h : Reaches e o c command w g)
    (hfault : g.listings.fault? = none) : ¬ BrokenOff e o c command w f := by
  intro hbroken
  cases hbroken with
  | opening fails =>
    obtain ⟨w₁, opens, -, -⟩ := h
    rw [opens] at fails
    cases fails
  | source opens fails =>
    obtain ⟨w₁, opens', hbatch, -⟩ := h
    obtain ⟨-, rfl⟩ := Prod.mk.inj (opens.symm.trans opens')
    rw [hbatch] at fails
    cases fails
  | listing reaches fails =>
    obtain rfl := reaches.unique h
    rw [hfault] at fails
    cases fails

end Sync

end StoreSync
