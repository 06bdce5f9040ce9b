import StoreSync.Proofs.Retention
import StoreSync.Proofs.Runs

/-!
Listings that no fault breaks off. What the system says of a path becomes an entry like any other,
and so does what the store answers to a request. There remain a text that is no path, a time that
the calendar does not have, and what goes wrong between the two ends of a request; a listing that
meets none of these comes to its end.
-/
namespace StoreSync

open Files

namespace Files

theorem holdsZero_eq_false_iff {text : String} : holdsZero text = false ↔ '\x00' ∉ text.toList := by
  simp [holdsZero]

theorem holdsZero_joinPath {path name : String} (hpath : holdsZero path = false)
    (hname : holdsZero name = false) : holdsZero (joinPath path name) = false := by
  rw [holdsZero_eq_false_iff] at *
  have hne : '\x00' ≠ '/' := by decide
  unfold joinPath Text.Slash.join
  split_ifs <;> simp [hpath, hname, hne]

theorem Refusal.isSystem_fault {r : Refusal} (h : r ≠ .zeroCharacter) (path : String) :
    (r.fault path).isSystem = true := by
  cases r with
  | zeroCharacter => exact absurd rfl h
  | _ => rfl

namespace Tree

variable {t : Tree} {aim : Aim} {text : String} {p : Path} {n : Node} {cs : List String}

/-! A text is refused for its characters before it is followed at all. -/

theorem descend_ne_zeroCharacter : t.descend aim p n cs ≠ .error .zeroCharacter := by
  fun_induction t.descend aim p n cs <;> first | assumption | exact nofun

theorem follow_ne_zeroCharacter {links : Nat} :
    t.follow aim links p cs ≠ .error .zeroCharacter := by
  have hdescend (q : Path) (ds : List String) (r : Refusal)
      (h : t.descend aim q .directory ds = .error r) : Except.error r ≠
        (.error .zeroCharacter : Except Refusal Place) := by
    rintro ⟨⟩
    exact descend_ne_zeroCharacter h
  fun_induction t.follow aim links p cs with
  | case1 q ds r h => exact hdescend q ds r h
  | case4 links q ds r h => exact hdescend q ds r h
  | case6 links q ds directory target rest h ih => exact ih
  | _ => exact nofun

theorem find_ne_zeroCharacter (htext : holdsZero text = false) :
    t.find aim text ≠ .error .zeroCharacter := by
  have hrefusal : textRefusal? text ≠ some .zeroCharacter := by
    unfold textRefusal?
    rw [htext, if_neg Bool.false_ne_true]
    split_ifs <;> exact nofun
  unfold find locate
  cases hr : textRefusal? text with
  | some r =>
    rintro ⟨⟩
    exact hrefusal hr
  | none =>
    cases hfollow : t.follow aim linkLimit (t.start text) (componentsOf text) with
    | error r =>
      rintro ⟨⟩
      exact follow_ne_zeroCharacter hfollow
    | ok place => cases place <;> exact nofun

/-- No name holds a character that ends texts, and the calendar has the time of every file and of
every directory. -/
structure Readable (t : Tree) : Prop where
  names : ∀ e ∈ t.nodes, ∀ name ∈ e.1, holdsZero name = false
  files : ∀ p data modified, (p, .file data modified) ∈ t.nodes →
    ∃ m, Moment.ofFileTime (t.range.keep modified) = .ok m
  directories : ∀ p, ∃ m, Moment.ofFileTime (t.range.keep (t.changed p)) = .ok m

/-- Where the calendar has every time that is kept, only names can make a tree unreadable. -/
theorem readable_of_inCalendar (hrange : t.range.InCalendar)
    (hnames : ∀ e ∈ t.nodes, ∀ name ∈ e.1, holdsZero name = false) : t.Readable :=
  ⟨hnames, fun _ _ modified _ => hrange.moment modified, fun p => hrange.moment (t.changed p)⟩

theorem mem_nodes_of_node? (h : t.node? p = some n) (hp : p ≠ []) : (p, n) ∈ t.nodes := by
  rw [node?, if_neg hp] at h
  obtain ⟨before, after, hnodes, -⟩ := List.lookup_eq_some_iff.mp h
  rw [hnodes]
  exact List.mem_append_right before List.mem_cons_self

theorem mem_nodes_of_find (h : t.find aim text = .ok (p, n)) (hn : n.isDirectory = false) :
    (p, n) ∈ t.nodes := by
  have hnode := (locate_eq_ok_iff.mp (find_eq_ok_iff.mp h)).2.node? rfl hn
  refine mem_nodes_of_node? hnode ?_
  rintro rfl
  obtain rfl := Option.some.inj hnode
  cases hn

theorem holdsZero_of_mem_entries (ht : t.Readable) {e : String × Node} (he : e ∈ t.entries p) :
    holdsZero e.1 = false := by
  obtain ⟨f, hf, hfe⟩ := List.mem_filterMap.mp he
  split_ifs at hfe with hp
  obtain ⟨name, hname, rfl⟩ := Option.map_eq_some_iff.mp hfe
  exact ht.names f (List.mem_reverse.mp hf) name (List.mem_of_getLast? hname)

end Tree

def Visit.Listable : Visit → Prop
  | .file path _ => holdsZero path = false
  | .unreadable f => f.isSystem = true

/-- A walk that starts at a path meets nothing else than paths. -/
theorem Tree.Readable.walkWithin {t : Tree} (ht : t.Readable) {followLinks : Bool} {depth : Nat}
    {directory : String} {above : List String} (hdirectory : holdsZero directory = false) :
    ∀ v ∈ t.walkWithin followLinks depth directory above, v.Listable := by
  induction depth generalizing directory above with
  | zero => exact nofun
  | succ depth ih =>
    unfold Tree.walkWithin
    cases hentries : t.entriesAt directory with
    | error r =>
      intro v hv
      obtain rfl := List.mem_singleton.mp hv
      refine Refusal.isSystem_fault ?_ directory
      rintro rfl
      unfold Tree.entriesAt at hentries
      split at hentries
      · next hfind =>
        obtain rfl := Except.error.inj hentries
        exact Tree.find_ne_zeroCharacter hdirectory hfind
      · cases hentries
      · cases hentries
    | ok entries =>
      have hpath : ∀ e ∈ entries, holdsZero (joinPath directory e.1) = false := by
        intro e he
        refine holdsZero_joinPath hdirectory ?_
        unfold Tree.entriesAt at hentries
        split at hentries <;> cases hentries
        exact Tree.holdsZero_of_mem_entries ht he
      intro v hv
      rcases List.mem_append.mp hv with hfile | hbelow
      · obtain ⟨e, he, hev⟩ := List.mem_filterMap.mp hfile
        dsimp only at hev
        split_ifs at hev
        obtain rfl := Option.some.inj hev
        exact hpath e he
      · obtain ⟨e, he, hev⟩ := List.mem_flatMap.mp hbelow
        dsimp only at hev
        split_ifs at hev
        · exact ih (hpath e he) v hev
        · exact absurd hev List.not_mem_nil

end Files

namespace LocalListing

open Files

variable {t : Tree} {path relative : String} {l : Location} {followLinks : Bool} {n : Node}
  {p : Files.Path} {aim : Aim}

theorem timeOf_ok (ht : t.Readable) (h : t.find aim path = .ok (p, n)) :
    ∃ time, timeOf t p n = .ok time := by
  cases n with
  | file data modified =>
    obtain ⟨m, hm⟩ := ht.files p data modified (Tree.mem_nodes_of_find h rfl)
    exact ⟨some m, by simp [timeOf, Tree.modified?, hm]⟩
  | directory =>
    obtain ⟨m, hm⟩ := ht.directories p
    exact ⟨some m, by simp [timeOf, Tree.modified?, hm]⟩
  | link target => exact ⟨none, rfl⟩

theorem entryOf_ok (ht : t.Readable) (h : t.find aim path = .ok (p, n)) (place name : String) :
    ∃ e, entryOf t p place name n = .ok e := by
  obtain ⟨time, htime⟩ := timeOf_ok ht h
  exact ⟨_, entryOf_eq_ok_iff.mpr ⟨time, htime, rfl⟩⟩

theorem entryOfFault_ok {f : Fault} (h : f.isSystem = true) (l : Location) :
    ∃ e, entryOfFault l f = .ok e := ⟨_, if_pos h⟩

/-- What the system says of a path becomes an entry, so that only a time can keep it from being
made. -/
theorem entryAt_ok (hpath : holdsZero path = false)
    (htime : ∀ p n, t.find .target path = .ok (p, n) → ∃ time, timeOf t p n = .ok time)
    (relative : String) : ∃ e, entryAt t path relative = .ok e := by
  unfold entryAt
  split
  · next p n hfind =>
    obtain ⟨time, htime⟩ := htime p n hfind
    exact ⟨_, entryOf_eq_ok_iff.mpr ⟨time, htime, rfl⟩⟩
  · next r hfind =>
    refine entryOfFault_ok (Refusal.isSystem_fault ?_ path) _
    rintro rfl
    exact Tree.find_ne_zeroCharacter hpath hfind

/-- A listing is broken off by the first entry that cannot be made, and by nothing else. -/
theorem fault_giveOut_eq_none_iff {given : Nat} {es : List (Except Fault Entry)} :
    (giveOut Watch.never l given es).fault = none ↔ ∀ x ∈ es, ∃ e, x = .ok e := by
  induction es generalizing given with
  | nil => cases given <;> simp [giveOut, Listing.single]
  | cons x rest ih =>
    cases x with
    | error f => cases given <;> simp [giveOut, Listing.failed]
    | ok e =>
      rw [giveOut_ok, Listing.push]
      simpa using ih

theorem directoryEntries_ok (ht : t.Readable) {root : String} (hroot : holdsZero root = false) :
    ∀ x ∈ directoryEntries t root followLinks, ∃ e, x = .ok e := by
  intro x hx
  obtain ⟨v, hv, rfl⟩ := List.mem_map.mp hx
  have hlistable := ht.walkWithin hroot v hv
  cases v with
  | file path names => exact entryAt_ok hlistable (fun _ _ => timeOf_ok ht) _
  | unreadable f => exact entryOfFault_ok hlistable _

theorem mem_path_of_mem_listBase {c : Char} (h : c ∈ l.listBase) : c ∈ l.path.toList := by
  have hfixed : c ∈ l.fixedPart → c ∈ l.path.toList := by
    unfold Location.fixedPart
    split_ifs
    · exact fun hmem => List.takeWhile_sublist _ |>.subset hmem
    · exact id
  have hdirectory := (Text.Slash.startsWith_directoryPart _).subset h
  split_ifs at hdirectory
  · exact hfixed hdirectory
  · rw [Text.Slash.trimEnd, List.mem_reverse] at hdirectory
    exact hfixed (List.mem_reverse.mp ((List.dropWhile_sublist _).subset hdirectory))

theorem mem_path_of_mem_withoutDot {c : Char} {base : List Char}
    (h : c ∈ withoutDot base path) : c ∈ path.toList := by
  unfold withoutDot at h
  split at h
  · next rest hpath =>
    rw [hpath]
    exact List.mem_cons_of_mem _ (List.mem_cons_of_mem _ h)
  · exact h

theorem patternEntries_ok (ht : t.Readable) (hl : holdsZero l.path = false) :
    ∀ x ∈ patternEntries t l followLinks, ∃ e, x = .ok e := by
  have hbase : '\x00' ∉ l.listBase := by
    intro hmem
    exact holdsZero_eq_false_iff.mp hl (mem_path_of_mem_listBase hmem)
  have hroot : holdsZero (if l.listBase = [] then "." else String.ofList l.listBase) = false := by
    split_ifs
    · rfl
    · rwa [holdsZero_eq_false_iff, String.toList_ofList]
  intro x hx
  obtain ⟨v, hv, hvx⟩ := List.mem_filterMap.mp hx
  have hlistable := ht.walkWithin hroot v hv
  cases v with
  | unreadable f =>
    obtain rfl := Option.some.inj hvx
    exact entryOfFault_ok hlistable l
  | file path names =>
    dsimp only at hvx
    split_ifs at hvx
    obtain rfl := Option.some.inj hvx
    refine entryAt_ok ?_ (fun _ _ => timeOf_ok ht) _
    rw [holdsZero_eq_false_iff, String.toList_ofList]
    intro hmem
    exact holdsZero_eq_false_iff.mp hlistable (mem_path_of_mem_withoutDot hmem)

/-- A listing of a path comes to its end. -/
theorem fault_list (ht : t.Readable) (hl : holdsZero l.path = false) :
    (list t l followLinks Watch.never).fault = none := by
  unfold list ofPath
  split
  · exact fault_giveOut_eq_none_iff.mpr (patternEntries_ok ht hl)
  · split
    · rfl
    · next r hr hfind =>
      have hsystem : (r.fault l.path).isSystem = true := by
        refine Refusal.isSystem_fault ?_ l.path
        rintro rfl
        exact Tree.find_ne_zeroCharacter hl hfind
      obtain ⟨e, he⟩ := entryOfFault_ok hsystem l
      rw [he]
      rfl
    · rfl
    · exact fault_giveOut_eq_none_iff.mpr (directoryEntries_ok ht hl)
    · next hfind =>
      obtain ⟨e, he⟩ := entryOf_ok ht hfind l.path l.base
      rw [he]
      rfl

end LocalListing

namespace ObjectStore

def Point.isEarly : Point → Bool
  | connect => true
  | head => true
  | list => true
  | page => true
  | _ => false

end ObjectStore

namespace World

open ObjectStore

/-- What goes wrong before there is a plan is one of these faults. -/
def Answers (P : Fault → Prop) (w : World) : Prop :=
  ∀ x ∈ w.store.outages, x.point.isEarly = true → ∀ f, x.trouble = .fault f → P f

theorem exists_of_mem_meet {point : Point} {bucket key : Option String} {os : List Outage}
    {x : Outage} (h : x ∈ (Outage.meet point bucket key os).2) :
    ∃ y ∈ os, x.point = y.point ∧ x.trouble = y.trouble := by
  induction os with
  | nil => exact absurd h List.not_mem_nil
  | cons o rest ih =>
    unfold Outage.meet at h
    split at h
    · rcases List.mem_cons.mp h with rfl | h
      · exact ⟨o, List.mem_cons_self, rfl, rfl⟩
      · exact ⟨x, List.mem_cons_of_mem o h, rfl, rfl⟩
    · rcases List.mem_cons.mp h with rfl | h
      · exact ⟨x, List.mem_cons_self, rfl, rfl⟩
      · obtain ⟨y, hy, hsame⟩ := ih h
        exact ⟨y, List.mem_cons_of_mem o hy, hsame⟩

theorem exists_of_trouble {point : Point} {bucket key : Option String} {os : List Outage}
    {trouble : Trouble} (h : (Outage.meet point bucket key os).1 = some trouble) :
    ∃ y ∈ os, y.point = point ∧ y.trouble = trouble := by
  induction os with
  | nil => cases h
  | cons o rest ih =>
    unfold Outage.meet at h
    split at h
    · next hcovers =>
      have hpoint : o.point = point := by
        simp only [Outage.covers, Bool.and_eq_true, decide_eq_true_eq] at hcovers
        exact hcovers.1.1.1
      exact ⟨o, List.mem_cons_self, hpoint, Option.some.inj h⟩
    · obtain ⟨y, hy, hsame⟩ := ih h
      exact ⟨y, List.mem_cons_of_mem o hy, hsame⟩

theorem Answers.meet {P : Fault → Prop} {w : World} (h : w.Answers P) (point : Point)
    (bucket key : Option String) :
    (w.setStore (w.store.meet point bucket key).2).Answers P := by
  intro x hx hpoint f hf
  obtain ⟨y, hy, hsame, htrouble⟩ := exists_of_mem_meet hx
  exact h y hy (hsame ▸ hpoint) f (htrouble ▸ hf)

end World

namespace Action

open ObjectStore

variable {α β : Type} {P : Fault → Prop}

/-- The action leaves a world that answers as before, and fails with no other faults. -/
def Asks (P : Fault → Prop) (x : Action α) : Prop :=
  ∀ w : World, w.Answers P → (x.run.run w).2.Answers P ∧
    ∀ f, (x.run.run w).1 = .error f → P f

theorem asks_pure (a : α) : Asks P (pure a) := fun _ h => ⟨h, nofun⟩

theorem asks_throw {f : Fault} (hf : P f) : Asks P (throw f : Action α) :=
  fun _ h => ⟨h, fun _ heq => Except.error.inj heq ▸ hf⟩

theorem asks_bind {x : Action α} {f : α → Action β} (hx : Asks P x) (hf : ∀ a, Asks P (f a)) :
    Asks P (x >>= f) := by
  intro w h
  obtain ⟨hanswers, hfault⟩ := hx w h
  rw [run_bind]
  rcases hrun : x.run.run w with ⟨e | a, w₁⟩
  · rw [hrun] at hanswers hfault
    exact ⟨hanswers, fun g hg => hfault g (congrArg Except.error (Except.error.inj hg))⟩
  · rw [hrun] at hanswers
    exact hf a w₁ hanswers

theorem asks_get_bind {f : World → Action β} (hf : ∀ w, Asks P (f w)) :
    Asks P ((get : Action World) >>= f) := by
  intro w h
  rw [run_bind]
  exact hf w w h

theorem asks_note (client : Nat) (r : Request) : Asks P (note client r) := fun _ h => ⟨h, nofun⟩

theorem trouble_of_meet {point : Point} {bucket key : Option String} {w : World} {f : Fault}
    (h : ((meet point bucket key).run.run w).1 = .error f) :
    (w.store.meet point bucket key).1 = some (.fault f) := by
  unfold meet at h
  rw [run_bind] at h
  change ((_ : Action Unit).run.run w).1 = _ at h
  rw [run_bind] at h
  change ((_ : Action Unit).run.run (w.setStore (w.store.meet point bucket key).2)).1 = _ at h
  rcases hmeet : (w.store.meet point bucket key).1 with _ | g | report <;> rw [hmeet] at h
  · cases h
  · exact congrArg some (congrArg Trouble.fault (Except.error.inj h))
  · cases h

theorem asks_meet {point : Point} (hpoint : point.isEarly = true) (bucket key : Option String) :
    Asks P (meet point bucket key) := by
  intro w h
  refine ⟨run_meet point bucket key w ▸ h.meet point bucket key, fun f hf => ?_⟩
  obtain ⟨y, hy, hsame, hyf⟩ := World.exists_of_trouble (trouble_of_meet hf)
  exact h y hy (hsame ▸ hpoint) f hyf

theorem asks_bucket (hP : ∀ f : Fault, f.isRequest = true → P f) (name operation : String) :
    Asks P (bucket name operation) := by
  refine asks_get_bind fun w => ?_
  cases w.store.bucket? name with
  | none => exact asks_throw (hP _ rfl)
  | some b => exact asks_pure b

theorem asks_object (hP : ∀ f : Fault, f.isRequest = true → P f) (bucketName key : String) :
    Asks P (object bucketName key) := by
  refine asks_bind (asks_bucket hP _ _) fun b => ?_
  cases b.object? key with
  | none => exact asks_throw (hP _ rfl)
  | some o => exact asks_pure o

end Action

namespace RemoteListing

open ObjectStore StoreSync.Action

variable {P : Fault → Prop} {l : Location} {w : World}

/-- The listing is broken off by these faults alone, and by none that a request is answered with.
It leaves a world that answers as before. -/
def BrokenBy (P : Fault → Prop) (x : StateM World Listing) : Prop :=
  ∀ w : World, w.Answers P →
    (∀ f, (x.run w).1.fault = some f → P f ∧ f.isRequest = false) ∧ (x.run w).2.Answers P

theorem fault_endedBy {f g : Fault} (h : (endedBy l f).fault = some g) :
    g = f ∧ f.isRequest = false := by
  unfold endedBy at h
  split_ifs at h with hrequest
  · cases h
  · exact ⟨(Option.some.inj h).symm, by simpa using hrequest⟩

theorem asks_request (hP : ∀ f : Fault, f.isRequest = true → P f) (client : Nat) (l : Location) :
    Asks P (request client l) := by
  refine asks_bind (asks_note _ _) fun _ => ?_
  refine asks_bind (asks_meet rfl _ _) fun _ => ?_
  refine asks_bind (asks_bucket hP _ _) fun b => asks_get_bind fun w => ?_
  split <;> exact asks_pure _

theorem brokenBy_readPages (watch : Watch) (accepts : List Char → Bool) (base number : Nat)
    (p : Progress) (pages : List (List Object)) :
    BrokenBy P (readPages watch l accepts base number p pages) := by
  induction pages generalizing number p with
  | nil =>
    intro w h
    unfold readPages
    split_ifs <;>
    · refine ⟨fun g hg => ?_, h⟩
      cases hg
  | cons page rest ih =>
    intro w h
    obtain ⟨hanswers, hfault⟩ :=
      @asks_meet P .page rfl (some l.bucket) (some (toString number)) w h
    unfold readPages
    rw [run_state_bind]
    rcases hrun : (meet .page (some l.bucket) (some (toString number))).run.run w with ⟨f | u, w₁⟩
    · rw [hrun] at hanswers hfault
      refine ⟨fun g hg => ?_, hanswers⟩
      obtain ⟨rfl, hrequest⟩ := fault_endedBy hg
      exact ⟨hfault g rfl, hrequest⟩
    · rw [hrun] at hanswers
      dsimp only
      split_ifs
      · refine ⟨fun g hg => ?_, hanswers⟩
        cases hg
      · exact ih _ _ w₁ hanswers

/-- What goes wrong at a key is a fault of the storage, or passes through. -/
theorem status_asks (hP : ∀ f : Fault, f.isRequest = true → P f) (client : Nat) (l : Location)
    (h : w.Answers P) :
    ((status client l).run.run w).2.Answers P ∧
      ∀ f, ((status client l).run.run w).1 = .error f →
        f.isStorage = true ∨ P f ∧ f.isRequest = false := by
  have hask : Asks P (do
      let o ← (do meet .head (some l.bucket) (some l.path); object l.bucket l.path : Action Object)
      pure (entryOf l.bucket l.base o)) :=
    asks_bind (asks_bind (asks_meet rfl _ _) fun _ => asks_object hP _ _) fun o => asks_pure _
  have hnoted : (w.note client (.head l.bucket l.path)).Answers P := h
  obtain ⟨hanswers, hfault⟩ := hask _ hnoted
  unfold status
  rw [run_bind]
  change ((tryCatch _ _ : Action Entry).run.run (w.note client (.head l.bucket l.path))).2.Answers
      P ∧ ∀ f, ((tryCatch _ _ : Action Entry).run.run (w.note client (.head l.bucket l.path))).1 =
      .error f → f.isStorage = true ∨ P f ∧ f.isRequest = false
  rw [run_tryCatch]
  split
  · next hrun =>
    rw [hrun] at hanswers
    exact ⟨hanswers, nofun⟩
  · next f w₁ hrun =>
    rw [hrun] at hanswers hfault
    split_ifs with _ hrequest
    · exact ⟨hanswers, fun g hg => Except.error.inj hg ▸ .inl rfl⟩
    · exact ⟨hanswers, fun g hg => Except.error.inj hg ▸ .inl rfl⟩
    · refine ⟨hanswers, fun g hg => ?_⟩
      obtain rfl : f = g := Except.error.inj hg
      exact .inr ⟨hfault f rfl, by simpa using hrequest⟩

theorem brokenBy_list (hP : ∀ f : Fault, f.isRequest = true → P f) (client : Nat) (l : Location)
    (watch : Watch) : BrokenBy P (list client l watch) := by
  intro w h
  unfold list
  split
  · obtain ⟨hanswers, hfault⟩ := status_asks hP client l h
    unfold ofKey
    rw [run_state_bind]
    rcases hrun : (status client l).run.run w with ⟨f | e, w₁⟩
    · rw [hrun] at hanswers hfault
      dsimp only
      split_ifs with hstorage
      · exact ⟨nofun, hanswers⟩
      · refine ⟨fun g hg => ?_, hanswers⟩
        obtain rfl : f = g := Option.some.inj hg
        exact (hfault f rfl).resolve_left hstorage
    · rw [hrun] at hanswers
      exact ⟨nofun, hanswers⟩
  · obtain ⟨hanswers, hfault⟩ := asks_request hP client l w h
    rw [run_state_bind]
    rcases hrun : (request client l).run.run w with ⟨f | ps, w₁⟩
    · rw [hrun] at hanswers hfault
      refine ⟨fun g hg => ?_, hanswers⟩
      obtain ⟨rfl, hrequest⟩ := fault_endedBy hg
      exact ⟨hfault g rfl, hrequest⟩
    · rw [hrun] at hanswers
      exact brokenBy_readPages watch _ _ _ _ _ w₁ hanswers

/-- A listing whose requests are all answered comes to its end. -/
theorem unbroken_list (client : Nat) (l : Location) (watch : Watch)
    (h : w.Answers fun f => f.isRequest = true) :
    ((list client l watch).run w).1.fault = none ∧
      ((list client l watch).run w).2.Answers fun f => f.isRequest = true := by
  obtain ⟨hfault, hanswers⟩ := brokenBy_list (fun _ hrequest => hrequest) client l watch w h
  refine ⟨Option.eq_none_iff_forall_ne_some.mpr fun f hf => ?_, hanswers⟩
  obtain ⟨hrequest, hnot⟩ := hfault f hf
  rw [hrequest] at hnot
  cases hnot

end RemoteListing

namespace Sync

open Files StoreSync.Action Transfer

variable {e : Ends} {o : Options} {c : Connection} {command : String} {w w' : World} {l : Location}

/-- No fault breaks off what comes before a plan: clients can be made, the store answers, and the
files can be listed. -/
structure Orderly (w : World) : Prop where
  connects : .connect ∉ w.store.outages.map ObjectStore.Outage.point
  answers : w.Answers fun f => f.isRequest = true
  readable : w.files.Readable

def Pathlike (l : Location) : Prop := l.isRemote = false → holdsZero l.path = false

theorem Orderly.of_eq (h : Orderly w) (hstore : w'.store = w.store) (hfiles : w'.files = w.files) :
    Orderly w' := by
  refine ⟨hstore ▸ h.connects, ?_, hfiles ▸ h.readable⟩
  unfold World.Answers
  rw [hstore]
  exact h.answers

/-- A source that is no pattern can be looked at, or it is known that nothing is there. -/
theorem sourceIsBatch_ok {t : Tree} (ht : t.Readable) (hl : Pathlike l) :
    ∃ batch, sourceIsBatch t l = .ok batch := by
  unfold sourceIsBatch
  split_ifs with hfar
  · exact ⟨_, rfl⟩
  · simp only [Bool.or_eq_true, not_or, Bool.not_eq_true] at hfar
    unfold LocalListing.status
    cases hfind : t.find .target l.path with
    | ok found =>
      obtain ⟨entry, hentry⟩ := LocalListing.entryOf_ok ht hfind l.path l.base
      dsimp only
      rw [hentry]
      exact ⟨_, rfl⟩
    | error r =>
      cases r with
      | zeroCharacter => exact absurd hfind (Tree.find_ne_zeroCharacter (hl hfar.2))
      | _ => exact ⟨_, rfl⟩

theorem connect_orderly (h : Orderly w) (hretries : 0 ≤ c.maxRetries) (l : Location) :
    ∃ side w', (connect l c).Gives w side w' ∧ Orderly w' := by
  unfold connect
  split_ifs with hremote
  · have hcheck : c.check = .ok () := if_neg (Int.not_lt.mpr hretries)
    refine ⟨.client w.clients.length, w.addClient c, ?_, h.of_eq rfl rfl⟩
    refine gives_bind_iff.mpr ⟨(), w, gives_liftExcept_iff.mpr ⟨hcheck, rfl⟩, ?_⟩
    refine gives_bind_iff.mpr ⟨(), w, gives_meet_of_not_mem h.connects _ _, ?_⟩
    refine gives_get_bind_iff.mpr (gives_bind_iff.mpr ⟨(), _, gives_set_iff.mpr rfl, ?_⟩)
    exact gives_pure_iff.mpr ⟨rfl, rfl⟩
  · exact ⟨.files, w, gives_pure_iff.mpr ⟨rfl, rfl⟩, h⟩

theorem maxRetries_withRegion (c : Connection) (region : Option String) :
    (c.withRegion region).maxRetries = c.maxRetries := by
  unfold Connection.withRegion
  split
  · rfl
  · split_ifs <;> rfl

theorem openSides_orderly (h : Orderly w) (hretries : 0 ≤ c.maxRetries) (e : Ends) (o : Options) :
    ∃ sides w', (openSides e o c).Gives w sides w' ∧ Orderly w' := by
  have hregion (region : Option String) : 0 ≤ (c.withRegion region).maxRetries :=
    (maxRetries_withRegion c region).symm ▸ hretries
  obtain ⟨s, w₁, hs, h₁⟩ := connect_orderly h (hregion o.sourceRegion) e.source
  obtain ⟨d, w₂, hd, h₂⟩ := connect_orderly h₁ (hregion o.destinationRegion) e.destination
  refine ⟨(s, d), w₂, gives_bind_iff.mpr ⟨s, w₁, hs, gives_bind_iff.mpr ⟨d, w₂, hd, ?_⟩⟩, h₂⟩
  exact gives_pure_iff.mpr ⟨rfl, rfl⟩

/-- A listing comes to its end and leaves the next one what it needs. -/
theorem fault_listSide {side : Side} (hserves : Serves side l)
    (hanswers : w.Answers fun f => f.isRequest = true) (hreadable : w.files.Readable)
    (hl : Pathlike l) (followLinks : Bool) :
    ((listSide side l followLinks Watch.never).run w).1.fault = none ∧
      ((listSide side l followLinks Watch.never).run w).2.Answers fun f => f.isRequest = true := by
  rcases hserves with ⟨hlocal, rfl⟩ | ⟨-, n, rfl⟩
  · exact ⟨LocalListing.fault_list hreadable (hl hlocal), hanswers⟩
  · exact RemoteListing.unbroken_list n l Watch.never hanswers

/-- A run that nothing breaks off lists both of its sides. -/
theorem reaches_of_orderly (h : Orderly w) (hretries : 0 ≤ c.maxRetries)
    (hsource : Pathlike e.source) (hdestination : Pathlike e.destination) (o : Options)
    (command : String) : ∃ g, Reaches e o c command w g ∧ g.listings.fault? = none := by
  obtain ⟨sides, w₁, hopen, h₁⟩ := openSides_orderly h hretries e o
  obtain ⟨batch, hbatch⟩ := sourceIsBatch_ok h₁.readable hsource
  obtain ⟨-, hservesSource, hservesDestination⟩ := gives_openSides hopen
  have hlisting : Pathlike (listingLocation e.destination) := by
    intro hlocal
    have hpath : (listingLocation e.destination).path = e.destination.path := by
      have hside : e.destination.isRemote = false := hlocal
      simp [listingLocation, hside]
    rw [hpath]
    exact hdestination hlocal
  obtain ⟨hfirst, hanswers⟩ :=
    fault_listSide hservesSource h₁.answers h₁.readable hsource o.followLinks
  have halike := alike_listSide sides.1 e.source o.followLinks Watch.never w₁
  obtain ⟨hsecond, -⟩ := fault_listSide (l := listingLocation e.destination) hservesDestination
    hanswers (halike.files ▸ h₁.readable) hlisting false
  let listed := (list e sides.1 sides.2 o command).run w₁
  refine ⟨⟨sides.1, sides.2, batch, listed.1, listed.2⟩, ⟨w₁, hopen, hbatch, rfl⟩, ?_⟩
  exact Option.or_eq_none_iff.mpr ⟨hfirst, hsecond⟩

end Sync

end StoreSync
