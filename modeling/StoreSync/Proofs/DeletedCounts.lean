import StoreSync.Proofs.BulkDeletions
import StoreSync.Proofs.CleanExits
import StoreSync.Proofs.FailedListings

/-!
The count of deleted objects against what a run takes away. A removal counts on its way what it has
deleted, but what it has counted is lost with the fault that it ends with. So the count of a report
is right when the removal meets no fault at all, or when it takes nothing away. The service and the
file system that do the deletions may fail at any request, key or file.
-/
namespace StoreSync.Transfer

open ObjectStore World StoreSync.Action

abbrev Unlinker := Files.Tree → String → Except Fault Files.Tree

/-- A service deletes the keys of a request that it answers without a report, and stores nothing
while it deletes. -/
structure Answerer.Honest (answer : Answerer) : Prop where
  deletes : ∀ b keys s, (answer b keys s).1 = .ok [] →
    ∀ key ∈ keys, (answer b keys s).2.object? b key = none
  stores_nothing : ∀ b keys s name key, s.object? name key = none →
    (answer b keys s).2.object? name key = none

/-- A file system that removes a file removes this file alone. It may refuse any of them. -/
def Unlinker.Honest (unlink : Unlinker) : Prop :=
  ∀ t text u, unlink t text = .ok u → t.removeFile text = .ok u

section Definitions

variable (unlink : Unlinker)

def removeFileVia (tally : Tally) (l : Location) : Action Tally := do
  let w ← get
  match unlink w.files l.path with
  | .ok t =>
      set (w.setFiles t)
      pure { tally with deleted := tally.deleted + 1 }
  | .error f =>
      if f.isSystem then pure { tally with faults := tally.faults ++ [f] } else throw f

def removeLocalVia (locations : List Location) : Action Int := do
  let tally ← locations.foldlM (removeFileVia unlink) Tally.zero
  match tally.faults with
  | [] => pure tally.deleted
  | [f] => throw (.plain .storage ("delete " ++ f.message))
  | fs => throw (.many fs)

def removeOver (answer : Answerer) (side : Side) (locations : List Location) : Action Int :=
  match side with
  | .files => removeLocalVia unlink locations
  | .client n => removeVia answer n locations

end Definitions

theorem removeOver_own (side : Side) (locations : List Location) :
    removeOver Files.Tree.removeFile storeAnswer side locations = remove side locations := by
  cases side with
  | files => rfl
  | client n => exact (removeRemote_eq n locations).symm

theorem honest_removeFile : Unlinker.Honest Files.Tree.removeFile := fun _ _ _ h => h

section StoreAnswers

variable {bucket : String} {keys : List String} {s : Store}

theorem object?_meet (s : Store) (point : Point) (b k : Option String) (name key : String) :
    (s.meet point b k).2.object? name key = s.object? name key := rfl

/-- Deleting keys stores nothing, whatever it meets. -/
theorem object?_eraseKeys {name key : String} (h : s.object? name key = none) :
    (eraseKeys bucket keys s).2.object? name key = none := by
  induction keys generalizing s with
  | nil => exact h
  | cons first rest ih =>
    have herased (next : Store) (hnext : next.object? name key = none) :
        (next.setBucket bucket (((next.bucket? bucket).getD []).erase first)).object? name key =
          none := by
      rw [Store.object?_setBucket_erase, hnext, ite_self]
    have hmet := (object?_meet s .deleteKey (some bucket) (some first) name key).trans h
    unfold eraseKeys
    rcases hmeet : s.meet .deleteKey (some bucket) (some first) with ⟨_ | f | report, next⟩
    · rw [hmeet] at hmet
      exact ih (herased next hmet)
    · rw [hmeet] at hmet
      exact ih (herased next hmet)
    · rw [hmeet] at hmet
      exact ih hmet

theorem honest_eraseAnswer : Answerer.Honest eraseAnswer where
  deletes b keys s h key hkey := by
    unfold eraseAnswer at h ⊢
    cases hb : s.bucket? b with
    | none => simp [hb] at h
    | some c =>
      simp only [hb, Except.ok.injEq] at h ⊢
      let w : World := ⟨.ofNodes [] [], s, []⟩
      have hpatched := (patched_eraseKeys w s h).objects key
      rw [Patch.erasing, if_pos hkey] at hpatched
      exact hpatched
  stores_nothing b keys s name key h := by
    unfold eraseAnswer
    cases s.bucket? b with
    | none => exact h
    | some c => exact object?_eraseKeys h

theorem honest_storeAnswer : Answerer.Honest storeAnswer where
  deletes b keys s h := by
    unfold storeAnswer at h ⊢
    rcases hmeet : s.meet .deleteBatch (some b) keys.head? with ⟨_ | f | report, next⟩
    · rw [hmeet] at h
      exact honest_eraseAnswer.deletes b keys next h
    · rw [hmeet] at h
      cases h
    · rw [hmeet] at h
      exact honest_eraseAnswer.deletes b keys next h
  stores_nothing b keys s name key h := by
    have hmet := (object?_meet s .deleteBatch (some b) keys.head? name key).trans h
    unfold storeAnswer
    rcases hmeet : s.meet .deleteBatch (some b) keys.head? with ⟨_ | f | report, next⟩
    · rw [hmeet] at hmet
      exact honest_eraseAnswer.stores_nothing b keys next name key hmet
    · rw [hmeet] at hmet
      exact hmet
    · rw [hmeet] at hmet
      exact honest_eraseAnswer.stores_nothing b keys next name key hmet

end StoreAnswers

section Services

variable {answer : Answerer} {client : Nat} {w w' : World} {tally tally' : Tally}
  {batch : String × List String} {groups : List (String × List String)}

/-- A batch after which there is no fault was answered without a report. -/
theorem answered_of_sendVia (h : (sendVia answer client tally batch).Gives w tally' w')
    (hnone : tally'.faults = []) :
    tally.faults = [] ∧ (answer batch.1 batch.2 w.store).1 = .ok [] ∧
      tally'.deleted = tally.deleted + batch.2.length ∧
        w' = afterRequest answer client w batch := by
  rcases gives_tryCatch_iff.mp h with hsent | ⟨f, w₁, -, hcaught⟩
  · obtain ⟨failures, w₁, hrequest, hpure⟩ := gives_bind_iff.mp hsent
    obtain ⟨rfl, rfl⟩ := gives_pure_iff.mp hpure
    obtain ⟨htally, hmap⟩ := List.append_eq_nil_iff.mp hnone
    obtain rfl : failures = [] := List.map_eq_nil_iff.mp hmap
    rw [Gives, run_requestVia] at hrequest
    obtain ⟨hanswer, hworld⟩ := Prod.mk.inj hrequest
    exact ⟨htally, hanswer, by simp, hworld.symm⟩
  · by_cases hrequest : f.isRequest = true
    · rw [if_pos hrequest] at hcaught
      obtain ⟨rfl, -⟩ := gives_pure_iff.mp hcaught
      simp at hnone
    · rw [if_neg hrequest] at hcaught
      exact absurd hcaught not_gives_throw

theorem gone_of_sendAll (hanswer : answer.Honest)
    (h : (groups.foldlM (sendVia answer client) tally).Gives w tally' w')
    (hnone : tally'.faults = []) :
    tally.faults = [] ∧ tally'.deleted = tally.deleted + (groups.flatMap Prod.snd).length ∧
      (∀ name key, w.store.object? name key = none → w'.store.object? name key = none) ∧
        ∀ batch ∈ groups, ∀ key ∈ batch.2, w'.store.object? batch.1 key = none := by
  induction groups generalizing tally w with
  | nil =>
    obtain ⟨rfl, rfl⟩ := gives_pure_iff.mp h
    exact ⟨hnone, by simp, fun _ _ hkey => hkey, fun _ hbatch => absurd hbatch List.not_mem_nil⟩
  | cons batch rest ih =>
    obtain ⟨next, w₁, hsend, hrest⟩ := gives_bind_iff.mp h
    obtain ⟨hnext, hdeleted, hstays, hgone⟩ := ih hrest
    obtain ⟨htally, hanswered, hcount, rfl⟩ := answered_of_sendVia hsend hnext
    refine ⟨htally, ?_, ?_, ?_⟩
    · rw [hdeleted, hcount, List.flatMap_cons, List.length_append, Int.natCast_add, Int.add_assoc]
    · intro name key hkey
      exact hstays name key (hanswer.stores_nothing _ _ _ name key hkey)
    · rw [List.forall_mem_cons]
      exact ⟨fun key hkey => hstays _ key (hanswer.deletes _ _ _ hanswered key hkey), hgone⟩

/-- A removal by requests that ends without a fault counts all locations, and none is left. -/
theorem gone_of_removeVia {locations : List Location} {count : Int} (hanswer : answer.Honest)
    (h : (removeVia answer client locations).Gives w count w') :
    count = locations.length ∧
      ∀ l ∈ locations, w'.store.object? l.bucket l.path = none := by
  obtain ⟨tally, w₁, hfold, hlast⟩ := gives_bind_iff.mp h
  cases hsingle : Fault.single? tally.faults with
  | some f =>
    simp only [hsingle] at hlast
    exact absurd hlast not_gives_throw
  | none =>
    simp only [hsingle, gives_pure_iff] at hlast
    obtain ⟨rfl, rfl⟩ := hlast
    obtain ⟨-, hdeleted, -, hgone⟩ :=
      gone_of_sendAll hanswer hfold (Fault.eq_nil_of_single? hsingle)
    refine ⟨?_, fun l hl => ?_⟩
    · rw [hdeleted, keys_batches, length_keys_byBucket]
      exact Int.zero_add _
    · obtain ⟨batch, hbatch, hbucket, hkey⟩ := mem_batches_iff.mpr ⟨l, hl, rfl, rfl⟩
      exact hbucket ▸ hgone batch hbatch l.path hkey

end Services

section FileSystems

variable {unlink : Unlinker} {w w' : World} {tally tally' : Tally} {locations : List Location}
  {q : Files.Path}

theorem removeFileVia_cases {l : Location}
    (h : (removeFileVia unlink tally l).Gives w tally' w') :
    (∃ t, unlink w.files l.path = .ok t ∧ w' = w.setFiles t ∧
        tally' = { tally with deleted := tally.deleted + 1 }) ∨
      ∃ f, w' = w ∧ tally' = { tally with faults := tally.faults ++ [f] } := by
  have hfile := gives_get_bind_iff.mp h
  cases hunlink : unlink w.files l.path with
  | ok t =>
    simp only [hunlink] at hfile
    obtain ⟨u, w₁, hset, hpure⟩ := gives_bind_iff.mp hfile
    obtain ⟨htally, rfl⟩ := gives_pure_iff.mp hpure
    exact .inl ⟨t, rfl, gives_set_iff.mp hset, htally⟩
  | error f =>
    simp only [hunlink] at hfile
    by_cases hsystem : f.isSystem = true
    · rw [if_pos hsystem] at hfile
      obtain ⟨htally, hworld⟩ := gives_pure_iff.mp hfile
      exact .inr ⟨f, hworld, htally⟩
    · rw [if_neg hsystem] at hfile
      exact absurd hfile not_gives_throw

/-- The files that paths lead to in a larger tree are gone after their removal. Each path is looked
up when others are gone already, but where it leads then it led before. -/
theorem gone_of_removeFilesVia {t : Files.Tree} (hunlink : unlink.Honest)
    (hfrom : w.files.Grows t)
    (h : (locations.foldlM (removeFileVia unlink) tally).Gives w tally' w')
    (hnone : tally'.faults = []) :
    tally.faults = [] ∧ tally'.deleted = tally.deleted + locations.length ∧
      (∀ p, w.files.node? p = none → w'.files.node? p = none) ∧
        ∀ l ∈ locations, ∀ q, t.HoldsAt l.path q → w'.files.node? q = none := by
  induction locations generalizing tally w with
  | nil =>
    obtain ⟨rfl, rfl⟩ := gives_pure_iff.mp h
    exact ⟨hnone, by simp, fun _ hp => hp, fun _ hl => absurd hl List.not_mem_nil⟩
  | cons l rest ih =>
    obtain ⟨next, w₁, hremove, hrest⟩ := gives_bind_iff.mp h
    rcases removeFileVia_cases hremove with ⟨u, hunlinked, rfl, rfl⟩ | ⟨f, rfl, rfl⟩
    · have hremoved := hunlink _ _ _ hunlinked
      obtain ⟨p, hp, rfl⟩ := Files.Tree.holdsAt_of_removeFile hremoved
      obtain ⟨htally, hdeleted, hstays, hgone⟩ := ih (hp.grows_erase.trans hfrom) hrest
      refine ⟨htally, ?_, ?_, ?_⟩
      · rw [hdeleted, List.length_cons]
        push_cast
        omega
      · intro q hq
        exact hstays q (Files.Tree.node?_removeFile hremoved hq)
      · rw [List.forall_mem_cons]
        refine ⟨fun q hq => hstays q ?_, hgone⟩
        obtain rfl := (hp.grows hfrom).unique hq
        exact (Files.Tree.node?_erase w.files hp.node?.1).trans (if_pos rfl)
    · obtain ⟨hnext, -⟩ := ih hfrom hrest
      simp at hnext

/-- A removal of files that ends without a fault counts all locations, and none is left. -/
theorem gone_of_removeLocalVia {count : Int} (hunlink : unlink.Honest)
    (h : (removeLocalVia unlink locations).Gives w count w') :
    count = locations.length ∧
      ∀ l ∈ locations, ∀ q, w.files.HoldsAt l.path q → w'.files.node? q = none := by
  obtain ⟨tally, w₁, hfold, hlast⟩ := gives_bind_iff.mp h
  rcases hfaults : tally.faults with _ | ⟨f, _ | ⟨g, rest⟩⟩
  · simp only [hfaults, gives_pure_iff] at hlast
    obtain ⟨rfl, rfl⟩ := hlast
    obtain ⟨-, hdeleted, -, hgone⟩ :=
      gone_of_removeFilesVia hunlink (Files.Tree.Grows.refl w.files) hfold hfaults
    exact ⟨hdeleted.trans (Int.zero_add _), hgone⟩
  · simp only [hfaults] at hlast
    exact absurd hlast not_gives_throw
  · simp only [hfaults] at hlast
    exact absurd hlast not_gives_throw

end FileSystems

end StoreSync.Transfer

namespace StoreSync.Sync

open ObjectStore World Eligibility Execution Transfer Plan StoreSync.Action

def performOver (answer : Answerer) (unlink : Unlinker) (source destination : Side) : Performer
  | .remove ls, w => (removeOver unlink answer destination ls).run.run w
  | request, w => performOn source destination request w

section Performing

variable {answer : Answerer} {unlink : Unlinker} {source destination : Side}

theorem performOver_own (source destination : Side) :
    performOver storeAnswer Files.Tree.removeFile source destination =
      performOn source destination := by
  funext request w
  cases request with
  | remove ls =>
    show (removeOver Files.Tree.removeFile storeAnswer destination ls).run.run w = _
    rw [removeOver_own]
    rfl
  | _ => rfl

theorem counts_performOver (hanswer : answer.Honest) (hunlink : unlink.Honest) :
    (performOver answer unlink source destination).Counts := by
  intro ls w n h
  have hgives : (removeOver unlink answer destination ls).Gives w n
      (performOver answer unlink source destination (.remove ls) w).2 := Prod.ext h rfl
  cases destination with
  | files => exact (gone_of_removeLocalVia hunlink hgives).1
  | client m => exact (gone_of_removeVia hanswer hgives).1

/-- Copies are carried out as before, so they take nothing away. -/
theorem grows_performOver {request : Call} (hcopy : ∀ ls, request ≠ .remove ls) (w : World) :
    Grows w (performOver answer unlink source destination request w).2 := by
  have hkeeps := keeps_perform source destination hcopy w
  cases request with
  | remove ls => exact absurd rfl (hcopy ls)
  | _ => exact hkeeps

end Performing

/-! ### Where the commands of a run lead -/

section Leading

variable {perform : Performer} {w : World} {p : Progress} {command : String} {c : Command}
  {cs : List Command}

def worldAfter (perform : Performer) (w : World) (cs : List Command) : World :=
  cs.foldl (fun w c => (Sync.attempt perform w c).2) w

theorem trail_append (w : World) (xs ys : List Command) :
    trail perform w (xs ++ ys) =
      trail perform w xs ++ trail perform (worldAfter perform w xs) ys := by
  induction xs generalizing w with
  | nil => rfl
  | cons c rest ih =>
    rw [List.cons_append, trail, trail, worldAfter, List.foldl_cons]
    rcases Sync.attempt perform w c with ⟨f | n, next⟩
    · exact congrArg ((c, some f) :: ·) (ih next)
    · exact congrArg ((c, none) :: ·) (ih next)

theorem worldAfter_append (w : World) (xs ys : List Command) :
    worldAfter perform w (xs ++ ys) = worldAfter perform (worldAfter perform w xs) ys :=
  List.foldl_append

theorem world_stepBy (command : String) :
    (stepBy perform false command p c).world = (Sync.attempt perform p.world c).2 := by
  rcases h : Sync.attempt perform p.world c with ⟨f | n, next⟩
  · exact (stepBy_of_error command h).1
  · exact (stepBy_of_ok command h).1

/-- A run that no shortage has cancelled has made all of its calls. -/
theorem world_executeBy (hgoes : p.halted = false)
    (h : (executeBy perform false command p cs).ledger.fatal = none) :
    (executeBy perform false command p cs).world = worldAfter perform p.world cs := by
  induction cs generalizing p with
  | nil => rfl
  | cons c rest ih =>
    have hlive := live_of_executeBy h
    rw [executeBy_cons hgoes] at h ⊢
    rw [ih (cancelled_of_live hlive) h]
    change worldAfter perform (stepBy perform false command p c).world rest = _
    rw [world_stepBy]
    rfl

/-- The calls of copies take nothing away if none but removals does. -/
theorem grows_worldAfter
    (hgrows : ∀ request, (∀ ls, request ≠ .remove ls) → ∀ w, Grows w (perform request w).2)
    (hcopies : ∀ c ∈ cs, c.op = Command.copyOp) (w : World) :
    Grows w (worldAfter perform w cs) := by
  induction cs generalizing w with
  | nil => exact frame_grows.refl w
  | cons c rest ih =>
    have hrest := ih (fun d hd => hcopies d (List.mem_cons_of_mem c hd))
      (Sync.attempt perform w c).2
    refine Grows.trans ?_ hrest
    have hop : operation? c = some .copy := by
      rw [operation?, if_pos (hcopies c (List.mem_cons_self ..))]
    unfold Sync.attempt
    rw [hop]
    cases hcall : call c .copy with
    | error f =>
      simp only [hcall]
      exact frame_grows.refl w
    | ok request =>
      simp only [hcall]
      exact hgrows request (ne_remove_of_copyCall hcall) w

end Leading

section Reports

variable {perform : Performer} {e : Ends} {batch quiet : Bool} {o : Options} {command : String}
  {l : Listings} {w : World} {r : Report}

/-- No shortage has cancelled a run that makes a report. -/
theorem live_of_report (hreal : o.trial = false)
    (h : ((finishBy perform e batch o command quiet l).run w).1.result = .ok r) :
    (executeBy perform false command (.start w)
      (commands (ofDiff (planner e batch o) (l.diff o.exclude)).steps)).ledger.fatal = none := by
  rw [result_finishBy, carryOutBy, hreal] at h
  dsimp only at h
  set p := executeBy perform false command (.start w)
    (commands (ofDiff (planner e batch o) (l.diff o.exclude)).steps)
  cases hfault : (ofDiff (planner e batch o) (l.diff o.exclude)).fault with
  | none =>
    rw [hfault] at h
    cases hfatal : p.ledger.fatal with
    | none => rfl
    | some f => simp [hfatal] at h
  | some f =>
    rw [hfault] at h
    cases hfatal : (p.report command f).ledger.fatal with
    | none => exact (record_of_live (l := p.ledger) hfatal).1
    | some f' => simp [hfatal] at h

theorem world_of_finishBy :
    ((finishBy perform e batch o command quiet l).run w).2 =
      (executeBy perform o.trial command (.start w)
        (commands (ofDiff (planner e batch o) (l.diff o.exclude)).steps)).world := by
  unfold finishBy carryOutBy
  simp only [run_state_bind]
  cases (ofDiff (planner e batch o) (l.diff o.exclude)).fault with
  | none =>
    dsimp only
    split <;> rfl
  | some f =>
    dsimp only
    split <;> rfl

/-- What a report counts as deleted, and the world behind it. -/
theorem deleted_of_report (hcounts : perform.Counts) (hreal : o.trial = false)
    (h : ((finishBy perform e batch o command quiet l).run w).1.result = .ok r) :
    r.stats.deleted = removeCount (completed (tried perform e batch o l w)) ∧
      ((finishBy perform e batch o command quiet l).run w).2 =
        worldAfter perform w (commands (ofDiff (planner e batch o) (l.diff o.exclude)).steps) := by
  obtain ⟨hstats, -, -⟩ := report_of_finishBy hcounts hreal h
  obtain ⟨-, hdeleted, -⟩ := counts_settle (tried perform e batch o l w) .zero
  constructor
  · rw [hstats, hdeleted]
    exact Int.zero_add _
  · rw [world_of_finishBy, hreal]
    exact world_executeBy rfl (live_of_report hreal h)

end Reports

/-! ### What is lost -/

section Losing

variable {w w' : World}

def lostAt (l : Location) (w w' : World) : Bool :=
  if l.isRemote then
    (w.store.object? l.bucket l.path).isSome && (w'.store.object? l.bucket l.path).isNone
  else
    match w.files.locate .entry l.path with
    | .ok (.found q m) => !m.isDirectory && (w'.files.node? q).isNone
    | _ => false

theorem lostAt_iff {l : Location} : lostAt l w w' = true ↔ Lost l w w' := by
  unfold lostAt Lost
  split_ifs
  · rw [Bool.and_eq_true, Option.isNone_iff_eq_none]
  · constructor
    · intro h
      split at h
      · next q m hfound =>
        rw [Bool.and_eq_true, Bool.not_eq_true', Option.isNone_iff_eq_none] at h
        exact ⟨q, ⟨m, hfound, h.1⟩, h.2⟩
      · cases h
    · rintro ⟨q, ⟨m, hfound, hm⟩, hgone⟩
      simp [hfound, hm, hgone]

instance (l : Location) (w w' : World) : Decidable (Lost l w w') :=
  decidable_of_iff _ lostAt_iff

def lostCount (ls : List Location) (w w' : World) : Nat := ls.countP fun l => Lost l w w'

theorem lostCount_of_all {ls : List Location} (h : ∀ l ∈ ls, Lost l w w') :
    lostCount ls w w' = ls.length :=
  List.countP_eq_length.mpr fun l hl => decide_eq_true (h l hl)

theorem lostCount_of_grows {ls : List Location} (h : Grows w w') : lostCount ls w w' = 0 :=
  List.countP_eq_zero.mpr fun _ _ hlost => (of_decide_eq_true hlost).not_retains h.retains

end Losing

/-! ### The count of a run -/

section Counting

variable {answer : Answerer} {unlink : Unlinker} {e : Ends} {o : Options} {c : Connection}
  {command : String} {quiet : Bool} {w w₁ : World} {g : Stage} {r : Report}

/-- A removal of what the destination alone has, if it meets no fault, takes all of it away. -/
theorem lost_of_removal (w₁ : World) (hanswer : answer.Honest) (hunlink : unlink.Honest)
    (h : Reaches e o c command w g) (hgrows : Grows w w₁) {n : Int}
    (hdone : (performOver answer unlink g.source g.destination
      (.remove (g.listings.diff o.exclude).onlyDestination) w₁).1 = .ok n) :
    ∀ l ∈ (g.listings.diff o.exclude).onlyDestination, Lost l w
      (performOver answer unlink g.source g.destination
        (.remove (g.listings.diff o.exclude).onlyDestination) w₁).2 := by
  intro l hl
  obtain ⟨t, ht, rfl⟩ := exists_of_mem_onlyDestination hl
  have hfound := mem_found_of_mem_select ht
  obtain ⟨-, hserves, -⟩ := listings_of_reaches h
  have hgives : (removeOver unlink answer g.destination
      (g.listings.diff o.exclude).onlyDestination).Gives w₁ n
        (performOver answer unlink g.source g.destination
          (.remove (g.listings.diff o.exclude).onlyDestination) w₁).2 := Prod.ext hdone rfl
  rcases hserves with ⟨hlocal, hside⟩ | ⟨hremote, m, hside⟩
  · rw [hside] at hgives
    have hstands := stands_of_found_destination h hlocal hfound
    obtain ⟨q, hq⟩ := hstands.holds
    have hgone := (gone_of_removeLocalVia hunlink hgives).2 _ hl q (hq.grows hgrows.files)
    rw [Lost, hstands.isLocal, if_neg Bool.false_ne_true, hside]
    exact ⟨q, hq, hgone⟩
  · rw [hside] at hgives
    obtain ⟨key, relative, hlocation⟩ := location_of_found_destination h hremote hfound
    have hbucket : t.location.bucket = e.destination.bucket := by
      rw [hlocation]
      rfl
    have hside' : t.location.isRemote = true := by
      rw [hlocation]
      rfl
    have hgone := (gone_of_removeVia hanswer hgives).2 _ hl
    have hheld := (object?_of_found_destination h hremote hfound).2
    rw [Lost, hside', if_pos rfl, hside, hbucket]
    exact ⟨hheld, hbucket ▸ hgone⟩

theorem removeCount_append (xs ys : List (Command × Option Fault)) :
    removeCount (completed (xs ++ ys)) =
      removeCount (completed xs) + removeCount (completed ys) := by
  simp [removeCount, completed]

theorem removeCount_of_copies {xs : List (Command × Option Fault)}
    (h : ∀ x ∈ xs, x.1.op = Command.copyOp) : removeCount (completed xs) = 0 := by
  have hne : Command.copyOp ≠ Command.removeOp := by decide
  refine List.sum_eq_zero_iff_forall_eq_nat.mpr fun n hn => ?_
  obtain ⟨d, hd, rfl⟩ := List.mem_map.mp hn
  obtain ⟨x, hx, rfl⟩ := List.mem_map.mp hd
  rw [if_neg (h x (List.mem_filter.mp hx).1 ▸ hne)]

theorem op_of_mem_trail_copies {perform : Performer} {p : Planner} {d : Diff}
    {x : Command × Option Fault} (hx : x ∈ trail perform w (copies p d)) :
    x.1.op = Command.copyOp := by
  have hmem : x.1 ∈ (trail perform w (copies p d)).map Prod.fst := List.mem_map_of_mem hx
  rw [map_fst_trail] at hmem
  exact op_of_mem_copies hmem

theorem attempt_removalOf (perform : Performer) (d : Diff) (w : World) :
    Sync.attempt perform w (removalOf d) = perform (.remove d.onlyDestination) w := rfl

def RemovesUnhindered (xs : List (Command × Option Fault)) : Prop :=
  ∀ x ∈ xs, x.1.op = Command.removeOp → x.2 = none

theorem removesUnhindered_of_copies {xs : List (Command × Option Fault)}
    (h : ∀ x ∈ xs, x.1.op = Command.copyOp) : RemovesUnhindered xs := by
  have hne : Command.copyOp ≠ Command.removeOp := by decide
  exact fun x hx hop => absurd (h x hx ▸ hop) hne

/-- A removal that meets no fault counts what it takes away, any other one counts nothing. -/
theorem deleted_of_run (hanswer : answer.Honest) (hunlink : unlink.Honest)
    (h : Reaches e o c command w g) (hreal : o.trial = false)
    (hresult : ((finishBy (performOver answer unlink g.source g.destination) e g.batch o command
      quiet g.listings).run g.world).1.result = .ok r) :
    (RemovesUnhindered (tried (performOver answer unlink g.source g.destination) e g.batch o
        g.listings g.world) →
      r.stats.deleted = lostCount (g.listings.diff o.exclude).onlyDestination w
        ((finishBy (performOver answer unlink g.source g.destination) e g.batch o command quiet
          g.listings).run g.world).2) ∧
    (¬ RemovesUnhindered (tried (performOver answer unlink g.source g.destination) e g.batch o
        g.listings g.world) → r.stats.deleted = 0) := by
  obtain ⟨hdeleted, hworld⟩ :=
    deleted_of_report (counts_performOver hanswer hunlink) hreal hresult
  obtain ⟨-, -, halike, -⟩ := listings_of_reaches h
  have hlost := lost_of_removal (worldAfter
    (performOver answer unlink g.source g.destination) g.world
      (copies (planner e g.batch o) (g.listings.diff o.exclude))) hanswer hunlink h
  have hgrows : Grows w (worldAfter (performOver answer unlink g.source g.destination) g.world
      (copies (planner e g.batch o) (g.listings.diff o.exclude))) :=
    halike.grows.trans (grows_worldAfter (fun request hcopy w₁ => grows_performOver hcopy w₁)
      (fun _ hc => op_of_mem_copies hc) g.world)
  rw [hdeleted, hworld, tried]
  generalize performOver answer unlink g.source g.destination = perform at hlost hgrows ⊢
  generalize g.listings.diff o.exclude = d at hlost hgrows ⊢
  have hops : ∀ x ∈ trail perform g.world (copies (planner e g.batch o) d),
      x.1.op = Command.copyOp := fun x hx => op_of_mem_trail_copies hx
  by_cases hremoval : ComesToRemoval (planner e g.batch o) d
  · rw [commands_of_comesToRemoval hremoval, trail_append, worldAfter_append, removeCount_append,
      removeCount_of_copies hops, Nat.zero_add]
    set w₁ := worldAfter perform g.world (copies (planner e g.batch o) d)
    rcases hcall : perform (.remove d.onlyDestination) w₁ with ⟨f | n, w₂⟩
    · have htrail : trail perform w₁ [removalOf d] = [(removalOf d, some f)] := by
        rw [trail, attempt_removalOf, hcall]
        rfl
      rw [htrail]
      refine ⟨fun hunhindered => ?_, fun _ => rfl⟩
      exact absurd (hunhindered _ (List.mem_append_right _ List.mem_cons_self) rfl) (by simp)
    · have htrail : trail perform w₁ [removalOf d] = [(removalOf d, none)] := by
        rw [trail, attempt_removalOf, hcall]
        rfl
      have hafter : worldAfter perform w₁ [removalOf d] = w₂ := by
        show (Sync.attempt perform w₁ (removalOf d)).2 = w₂
        rw [attempt_removalOf, hcall]
      rw [hcall] at hlost
      rw [htrail, hafter, lostCount_of_all (hlost hgrows rfl)]
      refine ⟨fun _ => rfl, fun hhindered => absurd ?_ hhindered⟩
      intro x hx hop
      rcases List.mem_append.mp hx with hx | hx
      · exact removesUnhindered_of_copies hops x hx hop
      · obtain rfl := List.mem_singleton.mp hx
        rfl
  · rw [commands_of_not_comesToRemoval hremoval, removeCount_of_copies hops,
      lostCount_of_grows hgrows]
    exact ⟨fun _ => rfl, fun _ => rfl⟩

/-- The count of deleted objects in a report is the number of those that the run took away exactly
when no removal met a fault or nothing was taken away; a removal that met one counts nothing,
whatever it deleted before and after. This holds over every service and file system, and for the
runs between the store and the files themselves. What was taken away is seen at the end of a run
with one worker, whose commands run in the order of the plan. -/
theorem deleted_counts_lost_iff (e : Ends) (o : Options) (command : String) (quiet : Bool) :
    (∀ c w r, ((runBetween e o c command quiet).run w).1.result = .ok r →
      ∃ g, Reaches e o c command w g ∧
        (runBetween e o c command quiet).run w =
          (finishBy (performOver storeAnswer Files.Tree.removeFile g.source g.destination) e
            g.batch o command quiet g.listings).run g.world) ∧
    storeAnswer.Honest ∧ Unlinker.Honest Files.Tree.removeFile ∧
    ∀ (answer : Answerer) (unlink : Unlinker) (c : Connection) (w : World) (g : Stage)
      (r : Report), answer.Honest → unlink.Honest → Reaches e o c command w g →
      o.trial = false →
      let perform := performOver answer unlink g.source g.destination
      let out := (finishBy perform e g.batch o command quiet g.listings).run g.world
      let faults := tried perform e g.batch o g.listings g.world
      let lost := lostCount (g.listings.diff o.exclude).onlyDestination w out.2
      out.1.result = .ok r →
        (r.stats.deleted = lost ↔ RemovesUnhindered faults ∨ lost = 0) ∧
          (¬ RemovesUnhindered faults → r.stats.deleted = 0) := by
  refine ⟨fun c w r h => ?_, honest_storeAnswer, honest_removeFile, ?_⟩
  · obtain ⟨g, hreach, hrun⟩ := reaches_of_report h
    exact ⟨g, hreach, performOver_own g.source g.destination ▸ hrun⟩
  · intro answer unlink c w g r hanswer hunlink hreach hreal perform out faults lost hresult
    obtain ⟨hright, hnothing⟩ := deleted_of_run hanswer hunlink hreach hreal hresult
    refine ⟨⟨fun hequal => ?_, ?_⟩, hnothing⟩
    · by_cases hunhindered : RemovesUnhindered faults
      · exact .inl hunhindered
      · have hzero : r.stats.deleted = 0 := hnothing hunhindered
        exact .inr (by omega)
    · rintro (hunhindered | hzero)
      · exact hright hunhindered
      · by_cases hunhindered : RemovesUnhindered faults
        · exact hright hunhindered
        · rw [hnothing hunhindered, hzero]
          rfl

end Counting

section Hindered

/-- One key of the destination cannot be deleted. -/
def hinderedWorld : World :=
  ⟨.ofNodes [] [], ⟨[("a", [objectAt "x"]), ("b", [objectAt "p", objectAt "q"])],
    [⟨.deleteKey, some (some "b"), some (some "p"),
      .failure fun key => ⟨some key, some "AccessDenied", some "denied"⟩, none⟩], 1000, 0, .plain⟩, []⟩

def hinderedStage : Stage :=
  let opened := ((openSides acrossBuckets deletingOptions .standard).run.run hinderedWorld).2
  let listed := (list acrossBuckets (.client 0) (.client 1) deletingOptions "sync").run opened
  ⟨.client 0, .client 1, true, listed.1, listed.2⟩

theorem reaches_hindered :
    Reaches acrossBuckets deletingOptions .standard "sync" hinderedWorld hinderedStage :=
  ⟨_, rfl, rfl, rfl⟩

theorem diff_hindered : hinderedStage.listings.diff deletingOptions.exclude =
    ⟨[(entryAt "a" "x").location],
      [(entryAt "b" "p").location, (entryAt "b" "q").location], []⟩ := by
  have hdiff : hinderedStage.listings.diff deletingOptions.exclude =
      Diff.ofListings [entryAt "a" "x"] [entryAt "b" "p", entryAt "b" "q"] := rfl
  have hsorted : Diff.sort [entryAt "b" "p", entryAt "b" "q"] =
      [entryAt "b" "p", entryAt "b" "q"] := List.mergeSort_of_pairwise (by decide)
  have hne : (entryAt "a" "x").relative ≠ (entryAt "b" "p").relative ∧
      (entryAt "a" "x").relative ≠ (entryAt "b" "q").relative := by decide
  have hlt : (entryAt "b" "p").relative < (entryAt "a" "x").relative ∧
      (entryAt "b" "q").relative < (entryAt "a" "x").relative := by decide
  rw [hdiff, Diff.ofListings, hsorted]
  simp [Diff.sort, Diff.merge, hne, hlt, Diff.addDestination]

def hinderedRemoval : Command :=
  ⟨Command.removeOp, [(entryAt "b" "p").location, (entryAt "b" "q").location], baseFlags⟩

def keyDenied : Fault := .plain .storage "delete s3://b/p: AccessDenied denied"

theorem tried_hindered :
    tried (performOver storeAnswer Files.Tree.removeFile (.client 0) (.client 1)) acrossBuckets
      true deletingOptions hinderedStage.listings hinderedStage.world =
    [(⟨Command.copyOp, [(entryAt "a" "x").location, ⟨"s3", "b", "x", true, none⟩],
        copyFlags (planner acrossBuckets true deletingOptions)⟩, none),
      (hinderedRemoval, some keyDenied)] := by
  rw [performOver_own, tried, diff_hindered]
  rfl

theorem report_hindered :
    ((finishBy (performOver storeAnswer Files.Tree.removeFile (.client 0) (.client 1))
      acrossBuckets true deletingOptions "sync" true hinderedStage.listings).run
        hinderedStage.world).1.result =
    .ok ⟨1, 2, 0, ⟨1, 2, 0, 0⟩, ⟨1, 0, 1⟩, [.execution hinderedRemoval.text keyDenied], false⟩ := by
  rw [performOver_own, result_finishBy, diff_hindered]
  rfl

theorem lostCount_hindered :
    lostCount (hinderedStage.listings.diff deletingOptions.exclude).onlyDestination hinderedWorld
      ((finishBy (performOver storeAnswer Files.Tree.removeFile (.client 0) (.client 1))
        acrossBuckets true deletingOptions "sync" true hinderedStage.listings).run
          hinderedStage.world).2 = 1 := by
  rw [performOver_own, world_of_finishBy, diff_hindered]
  rfl

theorem not_removesUnhindered_hindered :
    ¬ RemovesUnhindered (tried (performOver storeAnswer Files.Tree.removeFile (.client 0)
      (.client 1)) acrossBuckets true deletingOptions hinderedStage.listings
        hinderedStage.world) := by
  intro h
  rw [tried_hindered] at h
  exact absurd (h _ (List.mem_cons_of_mem _ List.mem_cons_self) rfl) (by simp)

/-- One of two objects is taken away, and none is counted. -/
theorem deleted_counts_lost_hindered :
    ∃ r, storeAnswer.Honest ∧ Unlinker.Honest Files.Tree.removeFile ∧
      Reaches acrossBuckets deletingOptions .standard "sync" hinderedWorld hinderedStage ∧
      deletingOptions.trial = false ∧
      ((finishBy (performOver storeAnswer Files.Tree.removeFile (.client 0) (.client 1))
        acrossBuckets true deletingOptions "sync" true hinderedStage.listings).run
          hinderedStage.world).1.result = .ok r ∧
      r.stats.deleted = 0 ∧
      r.stats.deleted ≠ lostCount
        (hinderedStage.listings.diff deletingOptions.exclude).onlyDestination hinderedWorld
        ((finishBy (performOver storeAnswer Files.Tree.removeFile (.client 0) (.client 1))
          acrossBuckets true deletingOptions "sync" true hinderedStage.listings).run
            hinderedStage.world).2 := by
  obtain ⟨-, hanswer, hunlink, hlaw⟩ :=
    deleted_counts_lost_iff acrossBuckets deletingOptions "sync" true
  obtain ⟨hiff, hnothing⟩ := hlaw storeAnswer Files.Tree.removeFile .standard hinderedWorld
    hinderedStage _ hanswer hunlink reaches_hindered rfl report_hindered
  refine ⟨_, hanswer, hunlink, reaches_hindered, rfl, report_hindered,
    hnothing not_removesUnhindered_hindered, fun hequal => ?_⟩
  rcases hiff.mp hequal with hunhindered | hzero
  · exact not_removesUnhindered_hindered hunhindered
  · have hlost := lostCount_hindered
    exact absurd (hzero.symm.trans hlost) (by decide)

/-- The count of a report is not what the run took away. -/
theorem deleted_count_misses_lost :
    ¬ ∀ (e : Ends) (o : Options) (c : Connection) (command : String) (quiet : Bool) (w : World)
      (g : Stage) (r : Report), Reaches e o c command w g → o.trial = false → o.delete = true →
        (g.listings.diff o.exclude).onlyDestination.Nodup →
        ((runBetween e o c command quiet).run w).1.result = .ok r →
          r.stats.deleted = lostCount (g.listings.diff o.exclude).onlyDestination w
            ((runBetween e o c command quiet).run w).2 := by
  intro h
  have hrun : (runBetween acrossBuckets deletingOptions .standard "sync" true).run hinderedWorld =
      (finishBy (performOver storeAnswer Files.Tree.removeFile (.client 0) (.client 1))
        acrossBuckets true deletingOptions "sync" true hinderedStage.listings).run
          hinderedStage.world := by
    rw [runBetween_of_reaches reaches_hindered, performOver_own, ← finish_eq_finishBy]
    rfl
  have hresult := report_hindered
  rw [← hrun] at hresult
  have hnodup : (hinderedStage.listings.diff deletingOptions.exclude).onlyDestination.Nodup := by
    rw [diff_hindered]
    decide
  have hcount := h acrossBuckets deletingOptions .standard "sync" true hinderedWorld
    hinderedStage _ reaches_hindered rfl rfl hnodup hresult
  rw [hrun, lostCount_hindered] at hcount
  exact absurd hcount (by decide)

end Hindered

end StoreSync.Sync
