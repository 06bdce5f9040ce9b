import StoreSync.Proofs.ListedFiles
import StoreSync.Proofs.ListedObjects

/-!
Listings that are cancelled while they are read. Before a listing of several entries gives one out
it looks up whether the run is cancelled, and there it ends with a note of it; whatever else ends
a listing ends it as if nobody were watching. So a cancelled listing is a prefix of the whole one
with the note behind it, and neither the comparison nor the reports see the note.
-/
namespace StoreSync

open Eligibility

theorem Fault.isCancellation_of_isStorage {f : Fault} (h : f.isStorage = true) :
    f.isCancellation = false := by
  unfold Fault.isStorage at h
  split at h
  · rfl
  · rfl
  · cases h

theorem Fault.isCancellation_of_isSystem {f : Fault} (h : f.isSystem = true) :
    f.isCancellation = false := by
  unfold Fault.isSystem at h
  split at h
  · rfl
  · rfl
  · rfl
  · rfl
  · cases h

def Entry.isCancelled (e : Entry) : Bool := e.fault.any Fault.isCancellation

namespace Listing

variable {watch : Watch} {l : Location} {given i : Nat} {whole part rest : Listing} {e : Entry}

section Cuts

/-- How a listing comes out that is watched (`part`) and how it comes out when nobody watches
(`whole`), from a number of entries on. -/
inductive Cut (watch : Watch) (l : Location) : Nat → Listing → Listing → Prop
  /-- Nobody looks when a listing has come to its end. -/
  | ended {given : Nat} {rest : Listing}
      (none_found : ∀ e ∈ rest.entries, ∃ f, e.fault = some f ∧ f.isCancellation = false) :
      Cut watch l given rest rest
  | noticed {given polls : Nat} {rest : Listing} (looks : given ≤ polls)
      (seen : watch polls given = true) : Cut watch l given rest (.single (cancelled l))
  | push {given polls : Nat} {e : Entry} {whole part : Listing} (looks : given ≤ polls)
      (unseen : watch polls given = false) (other : e.isCancelled = false)
      (cut : Cut watch l (given + 1) whole part) : Cut watch l given (whole.push e) (part.push e)

theorem cut_failed (watch : Watch) (l : Location) (given : Nat) (f : Fault) :
    Cut watch l given (failed f) (failed f) := .ended fun _ he => absurd he List.not_mem_nil

/-- An entry of a fault that is no cancellation ends a listing. -/
theorem cut_ofFault (watch : Watch) (l m : Location) (given : Nat) {f : Fault}
    (h : f.isCancellation = false) :
    Cut watch l given (single (.ofFault m f)) (single (.ofFault m f)) := by
  refine .ended fun e he => ?_
  obtain rfl := List.mem_singleton.mp he
  exact ⟨f, rfl, h⟩

/-- Either all is listed, or what comes before the place where the cancellation was noticed. -/
theorem Cut.whole_or_prefix (h : Cut watch l given whole part) :
    part = whole ∨ ∃ es, es <+: whole.entries ∧
      (∃ polls, given + es.length ≤ polls ∧ watch polls (given + es.length) = true) ∧
      part = ⟨es ++ [cancelled l], none⟩ := by
  induction h with
  | ended => exact .inl rfl
  | @noticed given polls rest looks seen =>
    exact .inr ⟨[], List.nil_prefix, ⟨polls, looks, seen⟩, rfl⟩
  | @push given polls e whole part looks unseen other cut ih =>
    rcases ih with rfl | ⟨es, hes, hseen, rfl⟩
    · exact .inl rfl
    · refine .inr ⟨e :: es, List.cons_prefix_cons.mpr ⟨rfl, hes⟩, ?_, rfl⟩
      rwa [List.length_cons, Nat.add_comm es.length, ← Nat.add_assoc]

/-- An object is given out only where the watch has seen no cancellation. -/
theorem Cut.unseen_of_object (h : Cut watch l given whole part) (he : part.entries[i]? = some e)
    (hfault : e.fault = none) :
    ∃ polls, given + i ≤ polls ∧ watch polls (given + i) = false := by
  induction h generalizing i with
  | ended none_found =>
    obtain ⟨f, hf, -⟩ := none_found e (List.mem_of_getElem? he)
    rw [hf] at hfault
    cases hfault
  | noticed looks seen =>
    obtain rfl := List.mem_singleton.mp (List.mem_of_getElem? he)
    cases hfault
  | @push given polls e' whole part looks unseen other cut ih =>
    cases i with
    | zero => exact ⟨polls, looks, unseen⟩
    | succ i =>
      rw [Nat.add_comm i, ← Nat.add_assoc]
      exact ih he

/-- Where nobody watches, no entry speaks of a cancellation. -/
theorem Cut.uncancelled (h : Cut Watch.never l given whole part) :
    ∀ e ∈ part.entries, e.isCancelled = false := by
  induction h with
  | ended none_found =>
    intro e he
    obtain ⟨f, hf, hcancel⟩ := none_found e he
    simp [Entry.isCancelled, hf, hcancel]
  | noticed looks seen => cases seen
  | push looks unseen other cut ih =>
    intro e he
    rcases List.mem_cons.mp he with rfl | he
    · exact other
    · exact ih e he

end Cuts

section Honest

/-- All that is listed when nobody watches, or what comes before the place where the cancellation
was noticed, and then the note of it. -/
def CutOff (watch : Watch) (l : Location) (whole part : Listing) : Prop :=
  part = whole ∨ ∃ es, es <+: whole.entries ∧
    (∃ polls, es.length ≤ polls ∧ watch polls es.length = true) ∧
    part = ⟨es ++ [cancelled l], none⟩

/-- What a cancelled listing says is what the whole listing says at its beginning, and that it was
cancelled. What takes part in the comparison, and what is reported, is a prefix too. -/
structure HonestPrefix (watch : Watch) (l : Location) (whole part : Listing) : Prop where
  cutOff : CutOff watch l whole part
  uncancelled : ∀ e ∈ whole.entries, e.isCancelled = false
  selected : ∀ exclude, select exclude part.entries <+: select exclude whole.entries
  reported : ∀ command exclude,
    notices command exclude part.entries <+: notices command exclude whole.entries

/-- Before each object that is given out the listing has looked, at least once for each entry before
it, and has not found the run cancelled. -/
def Heeds (watch : Watch) (part : Listing) : Prop :=
  ∀ i e, part.entries[i]? = some e → e.fault = none → ∃ polls, i ≤ polls ∧ watch polls i = false

/-- What is made of the entries, but not of the note, is made of the beginning of the whole
listing. -/
theorem CutOff.filterMap {α : Type} (h : CutOff watch l whole part) {f : Entry → Option α}
    (hnote : f (cancelled l) = none) :
    part.entries.filterMap f <+: whole.entries.filterMap f := by
  rcases h with rfl | ⟨es, hes, -, rfl⟩
  · exact List.prefix_rfl
  · have hlast : [cancelled l].filterMap f = [] := by simp [hnote]
    rw [List.filterMap_append, hlast, List.append_nil]
    exact hes.filterMap f

theorem honestPrefix_of_cutOff (h : CutOff watch l whole part)
    (hwhole : ∀ e ∈ whole.entries, e.isCancelled = false) : HonestPrefix watch l whole part where
  cutOff := h
  uncancelled := hwhole
  selected exclude := by
    rw [select, select, ← List.filterMap_eq_filter]
    exact h.filterMap rfl
  reported command exclude := h.filterMap rfl

theorem uncancelled_single (h : e.isCancelled = false) :
    ∀ x ∈ (single e).entries, x.isCancelled = false := by
  intro x hx
  obtain rfl := List.mem_singleton.mp hx
  exact h

theorem Cut.honestPrefix (h : Cut watch l 0 whole part) (hwhole : Cut Watch.never l 0 whole whole) :
    HonestPrefix watch l whole part := by
  refine honestPrefix_of_cutOff ?_ hwhole.uncancelled
  unfold CutOff
  simpa only [Nat.zero_add] using h.whole_or_prefix

theorem Cut.heeds (h : Cut watch l 0 whole part) : Heeds watch part := by
  intro i e he hfault
  simpa only [Nat.zero_add] using h.unseen_of_object he hfault

end Honest

end Listing

namespace LocalListing

open Files

variable {watch : Watch} {l : Location} {t : Tree} {followLinks : Bool} {given : Nat}
  {path relative : String} {e : Entry} {xs : List (Except Fault Entry)}

theorem isCancelled_of_entryOf {p : Files.Path} {n : Node}
    (h : entryOf t p path relative n = .ok e) : e.isCancelled = false := by
  unfold entryOf at h
  split at h
  · cases h
  · exact Except.ok.inj h ▸ rfl

theorem isCancelled_of_entryOfFault {f : Fault} (h : entryOfFault l f = .ok e) :
    e.isCancelled = false := by
  unfold entryOfFault at h
  split_ifs at h with hsystem
  exact Except.ok.inj h ▸ Fault.isCancellation_of_isSystem hsystem

theorem isCancelled_of_entryAt (h : entryAt t path relative = .ok e) : e.isCancelled = false := by
  unfold entryAt at h
  split at h
  · exact isCancelled_of_entryOf h
  · exact isCancelled_of_entryOfFault h

theorem isCancelled_of_directoryEntries (h : .ok e ∈ directoryEntries t path followLinks) :
    e.isCancelled = false := by
  obtain ⟨v, -, he⟩ := List.mem_map.mp h
  cases v with
  | unreadable f => exact isCancelled_of_entryOfFault he
  | file path names => exact isCancelled_of_entryAt he

theorem isCancelled_of_patternEntries (h : .ok e ∈ patternEntries t l followLinks) :
    e.isCancelled = false := by
  obtain ⟨v, -, he⟩ := List.mem_filterMap.mp h
  cases v with
  | unreadable f => exact isCancelled_of_entryOfFault (Option.some.inj he)
  | file path names =>
    dsimp only at he
    split_ifs at he
    exact isCancelled_of_entryAt (Option.some.inj he)

theorem giveOut_error (watch : Watch) (l : Location) (given : Nat) (f : Fault)
    (rest : List (Except Fault Entry)) :
    giveOut watch l given (.error f :: rest) = .failed f := by
  cases given <;> rfl

theorem giveOut_cons (watch : Watch) (l : Location) (given : Nat) (e : Entry)
    (rest : List (Except Fault Entry)) :
    giveOut watch l given (.ok e :: rest) =
      if watch given given then .single (Listing.cancelled l)
      else (giveOut watch l (given + 1) rest).push e := by
  cases given <;> rfl

/-- Entries are given out until the run is cancelled. -/
theorem cut_giveOut (watch : Watch) (l : Location) (given : Nat)
    (h : ∀ e, .ok e ∈ xs → e.isCancelled = false) :
    Listing.Cut watch l given (giveOut Watch.never l given xs) (giveOut watch l given xs) := by
  induction xs generalizing given with
  | nil =>
    cases given with
    | zero => exact Listing.cut_ofFault watch l l 0 rfl
    | succ given => exact .ended fun _ he => absurd he List.not_mem_nil
  | cons x rest ih =>
    cases x with
    | error f =>
      rw [giveOut_error, giveOut_error]
      exact Listing.cut_failed watch l given f
    | ok e =>
      rw [giveOut_ok, giveOut_cons]
      split_ifs with hseen
      · exact .noticed le_rfl hseen
      · exact .push le_rfl (by simpa using hseen) (h e List.mem_cons_self)
          (ih (given + 1) fun e he => h e (List.mem_cons_of_mem _ he))

/-- A pattern or a directory, which stands for several files. -/
def Several (t : Tree) (l : Location) (followLinks : Bool) : Prop :=
  l.isWildcard = true ∨
    ∃ p, t.find (if followLinks then .target else .entry) l.path = .ok (p, .directory)

/-- The listing of several files looks up whether the run is cancelled. -/
theorem cut_list (watch : Watch) (h : Several t l followLinks) :
    Listing.Cut watch l 0 (list t l followLinks Watch.never) (list t l followLinks watch) := by
  unfold list
  split_ifs with hwild
  · exact cut_giveOut watch l 0 fun e he => isCancelled_of_patternEntries he
  · obtain ⟨p, hfind⟩ := h.resolve_left hwild
    unfold ofPath
    rw [hfind]
    exact cut_giveOut watch l 0 fun e he => isCancelled_of_directoryEntries he

/-- The listing of a single file does not. -/
theorem list_of_single (watch : Watch) (h : ¬ Several t l followLinks) :
    list t l followLinks watch = list t l followLinks Watch.never := by
  obtain ⟨hwild, hfind⟩ := not_or.mp h
  unfold list ofPath
  rw [if_neg hwild, if_neg hwild]
  split
  · rfl
  · rfl
  · rfl
  · next p hdirectory => exact absurd ⟨p, hdirectory⟩ hfind
  · rfl

theorem uncancelled_of_single (h : ¬ Several t l followLinks) :
    ∀ e ∈ (list t l followLinks Watch.never).entries, e.isCancelled = false := by
  obtain ⟨hwild, hfind⟩ := not_or.mp h
  unfold list ofPath
  rw [if_neg hwild]
  split
  · exact Listing.uncancelled_single rfl
  · split
    · next hentry => exact Listing.uncancelled_single (isCancelled_of_entryOfFault hentry)
    · exact fun _ he => absurd he List.not_mem_nil
  · exact fun _ he => absurd he List.not_mem_nil
  · next p hdirectory => exact absurd ⟨p, hdirectory⟩ hfind
  · split
    · next hentry => exact Listing.uncancelled_single (isCancelled_of_entryOf hentry)
    · exact fun _ he => absurd he List.not_mem_nil

theorem honestPrefix_list (t : Tree) (l : Location) (followLinks : Bool) (watch : Watch) :
    Listing.HonestPrefix watch l (list t l followLinks Watch.never)
      (list t l followLinks watch) := by
  by_cases h : Several t l followLinks
  · exact (cut_list watch h).honestPrefix (cut_list Watch.never h)
  · rw [list_of_single watch h]
    exact Listing.honestPrefix_of_cutOff (.inl rfl) (uncancelled_of_single h)

end LocalListing

namespace RemoteListing

open ObjectStore StoreSync.Action

variable {l : Location} {w : World} {whole part : Listing}

theorem cut_endedBy (watch : Watch) (l : Location) (given : Nat) (f : Fault) :
    Listing.Cut watch l given (endedBy l f) (endedBy l f) := by
  unfold endedBy
  split_ifs
  · exact Listing.cut_ofFault watch l l given rfl
  · exact Listing.cut_failed watch l given f

/-- No more entries are given out than keys were looked at. -/
theorem given_le_polls (watch : Watch) (l : Location) (accepts : List Char → Bool) (base : Nat)
    {p : Progress} (hp : p.given ≤ p.polls) (page : List Object) :
    (readPage watch l accepts base p page).progress.given ≤
      (readPage watch l accepts base p page).progress.polls := by
  induction page generalizing p with
  | nil => exact hp
  | cons o rest ih =>
    unfold readPage
    split_ifs
    · exact hp
    · exact ih (Nat.succ_le_succ hp)
    · exact ih (Nat.le_succ_of_le hp)

/-- The entries of a page are given out until the run is cancelled; if it is not, the listing goes
on behind them, with the same progress whoever watches. -/
theorem cut_readPage (watch : Watch) (l : Location) (accepts : List Char → Bool) (base : Nat)
    {p : Progress} (hp : p.given ≤ p.polls) (page : List Object)
    (hrest : (readPage watch l accepts base p page).ended = false →
      (readPage watch l accepts base p page).progress =
        (readPage Watch.never l accepts base p page).progress →
      Listing.Cut watch l (readPage watch l accepts base p page).progress.given whole part) :
    Listing.Cut watch l p.given (prepend (readPage Watch.never l accepts base p page).entries whole)
      (if (readPage watch l accepts base p page).ended then
        ⟨(readPage watch l accepts base p page).entries, none⟩
      else prepend (readPage watch l accepts base p page).entries part) := by
  induction page generalizing p with
  | nil => exact hrest rfl rfl
  | cons o rest ih =>
    unfold readPage at hrest ⊢
    rw [Watch.never, if_neg Bool.false_ne_true] at hrest ⊢
    cases hseen : watch p.polls p.given with
    | true =>
      rw [if_pos rfl]
      exact .noticed hp hseen
    | false =>
      rw [hseen, if_neg Bool.false_ne_true] at hrest
      rw [if_neg Bool.false_ne_true]
      cases haccepts : accepts o.key.toList with
      | true =>
        simp only [haccepts, if_true] at hrest ⊢
        have hcut := Listing.Cut.push hp hseen
          (e := entryOf l.bucket (String.ofList (o.key.toList.drop base)) o) rfl
          (ih (Nat.succ_le_succ hp) hrest)
        split_ifs at hcut ⊢ <;> exact hcut
      | false =>
        simp only [haccepts, Bool.false_eq_true, if_false] at hrest ⊢
        exact ih (Nat.le_succ_of_le hp) hrest

/-- Pages are read until the run is cancelled or one of them cannot be had. -/
theorem cut_readPages (watch : Watch) (l : Location) (accepts : List Char → Bool)
    (base number : Nat) {p : Progress} (hp : p.given ≤ p.polls) (pages : List (List Object))
    (w : World) :
    Listing.Cut watch l p.given
      ((readPages Watch.never l accepts base number p pages).run w).1
      ((readPages watch l accepts base number p pages).run w).1 := by
  induction pages generalizing number p w with
  | nil =>
    unfold readPages
    split_ifs
    · exact Listing.cut_ofFault watch l l p.given rfl
    · exact .ended fun _ he => absurd he List.not_mem_nil
  | cons page rest ih =>
    unfold readPages
    rw [run_state_bind, run_state_bind]
    rcases hrun : (meet .page (some l.bucket) (some (toString number))).run.run w with ⟨f | u, w₁⟩
    · exact cut_endedBy watch l p.given f
    · dsimp only
      rw [if_neg (by simp [(readPage_never l accepts base p page).1])]
      -- A page that is read to its end counts the same for both, so both go on alike.
      have hrest (_ : (readPage watch l accepts base p page).ended = false)
          (hprogress : (readPage watch l accepts base p page).progress =
            (readPage Watch.never l accepts base p page).progress) :
          Listing.Cut watch l (readPage watch l accepts base p page).progress.given
            ((readPages Watch.never l accepts base (number + 1)
              (readPage Watch.never l accepts base p page).progress rest).run w₁).1
            ((readPages watch l accepts base (number + 1)
              (readPage watch l accepts base p page).progress rest).run w₁).1 := by
        rw [← hprogress]
        exact ih _ (given_le_polls watch l accepts base hp page) w₁
      have hcut := cut_readPage watch l accepts base hp page hrest
      split_ifs at hcut ⊢ <;> exact hcut

/-- The listing of several objects looks up whether the run is cancelled. -/
theorem cut_list (client : Nat) (watch : Watch) (h : l.Expands) :
    Listing.Cut watch l 0 ((list client l Watch.never).run w).1
      ((list client l watch).run w).1 := by
  unfold Location.Expands at h
  unfold list
  rw [h, Bool.not_true, if_neg Bool.false_ne_true, if_neg Bool.false_ne_true, run_state_bind,
    run_state_bind]
  rcases (request client l).run.run w with ⟨f | pages, w₁⟩
  · exact cut_endedBy watch l 0 f
  · exact cut_readPages watch l (accepts l) _ 0 (p := ⟨0, 0⟩) le_rfl pages w₁

/-- The listing of a key does not. -/
theorem list_of_key (client : Nat) (watch : Watch) (h : ¬ l.Expands) :
    list client l watch = ofKey client l := by
  unfold Location.Expands at h
  unfold list
  rw [if_pos (by simpa using h)]

theorem uncancelled_ofKey (client : Nat) :
    ∀ e ∈ ((ofKey client l).run w).1.entries, e.isCancelled = false := by
  unfold ofKey
  rw [run_state_bind]
  rcases hrun : (status client l).run.run w with ⟨f | e, w₁⟩
  · dsimp only
    split_ifs with hstorage
    · exact Listing.uncancelled_single (Fault.isCancellation_of_isStorage hstorage)
    · exact fun _ he => absurd he List.not_mem_nil
  · obtain ⟨o, -, rfl⟩ := object?_of_status hrun
    exact Listing.uncancelled_single rfl

theorem honestPrefix_list (client : Nat) (l : Location) (watch : Watch) (w : World) :
    Listing.HonestPrefix watch l ((list client l Watch.never).run w).1
      ((list client l watch).run w).1 := by
  by_cases h : l.Expands
  · exact (cut_list client watch h).honestPrefix (cut_list client Watch.never h)
  · rw [list_of_key client watch h, list_of_key client Watch.never h]
    exact Listing.honestPrefix_of_cutOff (.inl rfl) (uncancelled_ofKey client)

end RemoteListing

namespace Sync

open ObjectStore Transfer

def Several (t : Files.Tree) (side : Side) (l : Location) (followLinks : Bool) : Prop :=
  match side with
  | .files => LocalListing.Several t l followLinks
  | .client _ => l.Expands

/-- A listing that is cancelled at any moment while it is read, on either side and whatever faults
its requests meet. It is the whole listing, or a prefix of it and then one note that it was
cancelled, which the whole listing does not hold anywhere; what is selected from it and what is
reported about it begin what would be without the cancellation. If it is a listing of several
entries, it gives out no object any more once the run is cancelled. All of this holds however the
answer of the store is split into pages. -/
theorem cancelled_listing_isPrefix (side : Side) (l : Location) (followLinks : Bool)
    (watch : Watch) (w : World) :
    let whole := ((listSide side l followLinks Watch.never).run w).1
    let part := ((listSide side l followLinks watch).run w).1
    Listing.HonestPrefix watch l whole part ∧
    (Several w.files side l followLinks → part.Heeds watch) ∧
    ∀ pages : List (List Object),
      let read (watch : Watch) :=
        ((RemoteListing.readPages watch l (RemoteListing.accepts l) l.listBase.length 0 ⟨0, 0⟩
          pages).run w).1
      Listing.HonestPrefix watch l (read Watch.never) (read watch) ∧ (read watch).Heeds watch := by
  intro whole part
  refine ⟨?_, fun hseveral => ?_, fun pages => ?_⟩
  · cases side with
    | files => exact LocalListing.honestPrefix_list w.files l followLinks watch
    | client n => exact RemoteListing.honestPrefix_list n l watch w
  · cases side with
    | files => exact (LocalListing.cut_list watch hseveral).heeds
    | client n => exact (RemoteListing.cut_list n watch hseveral).heeds
  · intro read
    have hcut (watch : Watch) : Listing.Cut watch l 0 (read Watch.never) (read watch) :=
      RemoteListing.cut_readPages watch l _ _ 0 (p := ⟨0, 0⟩) le_rfl pages w
    exact ⟨(hcut watch).honestPrefix (hcut Watch.never), (hcut watch).heeds⟩

def threeObjects : World :=
  ⟨.ofNodes [] [], ⟨[("b", ["a", "b", "c"].map fun key =>
    ⟨key, ⟨#[]⟩, none, none, none, none, true⟩)], [], 2, 0, .plain⟩, []⟩

/-- The cancellation is noticed on the second page. -/
example :
    ((listSide (.client 0) ⟨"s3", "b", "", false, none⟩ true
      (Watch.afterEntries 2)).run threeObjects).1.entries.map
        (fun e => (e.location.path, e.isCancelled)) =
      [("a", false), ("b", false), ("", true)] := by decide

end Sync

end StoreSync
