import StoreSync.Proofs.CleanExits
import StoreSync.Proofs.CommandEffects
import StoreSync.Proofs.RemoteDelivery

/-!
What a trial run tells of the run that it stands for. Up to the plan the two are the same run, and
up to there its clients only ask (`OnlyRead`). A trial run then prints the commands of the plan and
counts them as done, a removal with each location that it names. A run counts what its calls
return, and a removal that succeeds returns as many; so the two reports agree exactly when no
command of the run meets a fault.
-/
namespace StoreSync

def Request.Reads : Request → Prop
  | .list _ _ => True
  | .head _ _ => True
  | _ => False

/-- The second world holds what the first one does. The clients of the first one made no request
since, and the ones opened since only asked. -/
structure World.OnlyRead (w w' : World) : Prop where
  alike : World.Alike w w'
  clients : ∃ opened, w'.clients = w.clients ++ opened ∧
    ∀ k ∈ opened, ∀ r ∈ k.requests, r.Reads

namespace World

variable {w w₁ w₂ : World}

theorem OnlyRead.refl (w : World) : OnlyRead w w :=
  ⟨Alike.refl w, [], by simp, by simp⟩

theorem OnlyRead.addClient (h : OnlyRead w w₁) (c : Connection) :
    OnlyRead w (w₁.addClient c) := by
  obtain ⟨opened, hclients, hreads⟩ := h.clients
  refine ⟨h.alike.trans (alike_addClient w₁ c), opened ++ [⟨c, []⟩], ?_, ?_⟩
  · rw [World.addClient, hclients, List.append_assoc]
  · simpa [or_imp, forall_and] using hreads

theorem reads_modify {opened : List Client} (h : ∀ k ∈ opened, ∀ r ∈ k.requests, r.Reads)
    {r : Request} (hr : r.Reads) (i : Nat) :
    ∀ k ∈ opened.modify i fun c => { c with requests := c.requests ++ [r] },
      ∀ r ∈ k.requests, r.Reads := by
  intro k hk
  rw [List.modify_eq_take_drop] at hk
  rcases List.mem_append.mp hk with hfront | hback
  · exact h k (List.mem_of_mem_take hfront)
  · rcases hdrop : opened.drop i with _ | ⟨c, rest⟩
    · simp [hdrop] at hback
    · have hmem : ∀ k ∈ c :: rest, k ∈ opened := fun k hk => List.mem_of_mem_drop (hdrop ▸ hk)
      rw [hdrop] at hback
      rcases List.mem_cons.mp hback with rfl | hrest
      · intro r' hr'
        rcases List.mem_append.mp hr' with hbefore | hlast
        · exact h c (hmem c List.mem_cons_self) r' hbefore
        · exact List.mem_singleton.mp hlast ▸ hr
      · exact h k (hmem k (List.mem_cons_of_mem c hrest))

/-- A client that was opened since asks. -/
theorem OnlyRead.note (h : OnlyRead w w₁) {n : Nat} (hn : w.clients.length ≤ n) {r : Request}
    (hr : r.Reads) : OnlyRead w (w₁.note n r) := by
  obtain ⟨opened, hclients, hreads⟩ := h.clients
  obtain ⟨i, rfl⟩ := Nat.exists_eq_add_of_le hn
  refine ⟨h.alike.trans (alike_note w₁ _ r), _, ?_, reads_modify hreads hr i⟩
  rw [World.note, hclients]
  exact List.modifyTailIdx_add _ i w.clients opened

/-- What the store is asked for its outages is seen by no client. -/
theorem OnlyRead.meet (h : OnlyRead w w₁) (point : ObjectStore.Point)
    (bucket key : Option String) :
    OnlyRead w (w₁.setStore (w₁.store.meet point bucket key).2) :=
  ⟨h.alike.trans (alike_meet w₁ point bucket key), h.clients⟩

end World

namespace Action

open ObjectStore World

variable {α β : Type} {w : World}

def OnlyReads (w : World) (x : Action α) : Prop :=
  ∀ w₁, OnlyRead w w₁ → OnlyRead w (x.run.run w₁).2

theorem onlyReads_pure (a : α) : OnlyReads w (pure a) := fun _ h => h

theorem onlyReads_throw (f : Fault) : OnlyReads w (throw f : Action α) := fun _ h => h

theorem onlyReads_liftExcept (x : Except Fault α) : OnlyReads w (liftExcept x) := by
  cases x with
  | ok a => exact onlyReads_pure a
  | error f => exact onlyReads_throw f

theorem onlyReads_bind {x : Action α} {f : α → Action β} (hx : OnlyReads w x)
    (hf : ∀ a, OnlyReads w (f a)) : OnlyReads w (x >>= f) := by
  intro w₁ h
  have hfirst := hx w₁ h
  rw [run_bind]
  rcases hrun : x.run.run w₁ with ⟨e | a, w₂⟩
  · simpa only [hrun] using hfirst
  · rw [hrun] at hfirst
    exact hf a w₂ hfirst

/-- What follows on a look at the world may use that it was only read so far. -/
theorem onlyReads_get_bind {f : World → Action β}
    (hf : ∀ w₁, OnlyRead w w₁ → OnlyRead w ((f w₁).run.run w₁).2) :
    OnlyReads w ((get : Action World) >>= f) := by
  intro w₁ h
  rw [run_bind]
  exact hf w₁ h

theorem onlyReads_tryCatch {x : Action α} {handle : Fault → Action α} (hx : OnlyReads w x)
    (hhandle : ∀ f, OnlyReads w (handle f)) : OnlyReads w (tryCatch x handle) := by
  intro w₁ h
  have hfirst := hx w₁ h
  rw [run_tryCatch]
  rcases hrun : x.run.run w₁ with ⟨f | a, w₂⟩
  · rw [hrun] at hfirst
    exact hhandle f w₂ hfirst
  · simpa only [hrun] using hfirst

theorem onlyReads_note {n : Nat} (hn : w.clients.length ≤ n) {r : Request} (hr : r.Reads) :
    OnlyReads w (note n r) := fun _ h => h.note hn hr

theorem onlyReads_meet (point : Point) (bucket key : Option String) :
    OnlyReads w (meet point bucket key) := by
  intro w₁ h
  rw [run_meet]
  exact h.meet point bucket key

theorem onlyReads_bucket (name operation : String) : OnlyReads w (bucket name operation) := by
  unfold bucket
  refine onlyReads_get_bind fun w₁ h => ?_
  cases w₁.store.bucket? name with
  | none => exact h
  | some b => exact h

theorem onlyReads_object (bucketName key : String) : OnlyReads w (object bucketName key) := by
  unfold object
  refine onlyReads_bind (onlyReads_bucket _ _) fun b => ?_
  cases b.object? key with
  | none => exact onlyReads_throw _
  | some o => exact onlyReads_pure o

end Action

namespace RemoteListing

open ObjectStore World StoreSync.Action

variable {w w₁ : World} {client : Nat}

theorem onlyReads_request (hclient : w.clients.length ≤ client) (l : Location) :
    OnlyReads w (request client l) := by
  unfold request
  refine onlyReads_bind (onlyReads_note hclient trivial) fun _ => ?_
  refine onlyReads_bind (onlyReads_meet _ _ _) fun _ => ?_
  refine onlyReads_bind (onlyReads_bucket _ _) fun b => ?_
  refine onlyReads_get_bind fun w₂ h => ?_
  split <;> exact h

theorem onlyReads_status (hclient : w.clients.length ≤ client) (l : Location) :
    OnlyReads w (status client l) := by
  unfold status
  refine onlyReads_bind (onlyReads_note hclient trivial) fun _ => ?_
  refine onlyReads_tryCatch ?_ fun f => ?_
  · refine onlyReads_bind ?_ fun o => onlyReads_pure _
    exact onlyReads_bind (onlyReads_meet _ _ _) fun _ => onlyReads_object _ _
  · split_ifs <;> exact onlyReads_throw _

theorem onlyRead_readPages (h : OnlyRead w w₁) (watch : Watch) (l : Location)
    (accepts : List Char → Bool) (base number : Nat) (p : Progress) (pages : List (List Object)) :
    OnlyRead w ((readPages watch l accepts base number p pages).run w₁).2 := by
  induction pages generalizing w₁ number p with
  | nil => exact h
  | cons page rest ih =>
    have hmeet := onlyReads_meet .page (some l.bucket) (some (toString number)) w₁ h
    unfold readPages
    rw [run_state_bind]
    rcases hrun : (meet .page (some l.bucket) (some (toString number))).run.run w₁ with ⟨f | u, w₂⟩
    · rw [hrun] at hmeet
      exact hmeet
    · rw [hrun] at hmeet
      dsimp only
      split
      · exact hmeet
      · exact ih hmeet _ _

theorem onlyRead_list (h : OnlyRead w w₁) (hclient : w.clients.length ≤ client) (l : Location)
    (watch : Watch) : OnlyRead w ((list client l watch).run w₁).2 := by
  unfold list
  split
  · have hstatus := onlyReads_status hclient l w₁ h
    unfold ofKey
    rw [run_state_bind]
    rcases hrun : (status client l).run.run w₁ with ⟨f | e, w₂⟩ <;> rw [hrun] at hstatus
    · exact hstatus
    · exact hstatus
  · have hrequest := onlyReads_request hclient l w₁ h
    rw [run_state_bind]
    rcases hrun : (request client l).run.run w₁ with ⟨f | ps, w₂⟩ <;> rw [hrun] at hrequest
    · exact hrequest
    · exact onlyRead_readPages hrequest _ _ _ _ _ _ _

end RemoteListing

namespace Sync

open Execution Transfer World StoreSync.Action

variable {e : Ends} {o : Options} {c : Connection} {command : String} {w w₁ w₂ : World} {g : Stage}

section Opening

def OpenedSince (w : World) (side : Side) : Prop := ∀ n, side = .client n → w.clients.length ≤ n

theorem onlyReads_connect (l : Location) (k : Connection) : OnlyReads w (connect l k) := by
  unfold connect
  split_ifs
  · refine onlyReads_bind (onlyReads_liftExcept _) fun _ => ?_
    refine onlyReads_bind (onlyReads_meet _ _ _) fun _ => ?_
    exact onlyReads_get_bind fun w₁ h => h.addClient k
  · exact onlyReads_pure _

theorem opened_of_connect (h : OnlyRead w w₁) {l : Location} {k : Connection} {side : Side}
    (hconnect : (connect l k).Gives w₁ side w₂) : OpenedSince w side := by
  unfold connect at hconnect
  split_ifs at hconnect
  · obtain ⟨_, w₃, hcheck, hnext⟩ := gives_bind_iff.mp hconnect
    obtain ⟨-, rfl⟩ := gives_liftExcept_iff.mp hcheck
    obtain ⟨_, w₄, hmeet, hlast⟩ := gives_bind_iff.mp hnext
    have hread := onlyReads_meet .connect k.region none _ h
    rw [hmeet] at hread
    obtain ⟨_, w₅, -, hpure⟩ := gives_bind_iff.mp (gives_get_bind_iff.mp hlast)
    obtain ⟨rfl, -⟩ := gives_pure_iff.mp hpure
    obtain ⟨opened, hclients, -⟩ := hread.clients
    rintro n ⟨⟩
    rw [hclients, List.length_append]
    exact Nat.le_add_right _ _
  · obtain ⟨rfl, -⟩ := gives_pure_iff.mp hconnect
    exact nofun

theorem onlyReads_openSides (e : Ends) (o : Options) (c : Connection) :
    OnlyReads w (openSides e o c) :=
  onlyReads_bind (onlyReads_connect _ _) fun _ =>
    onlyReads_bind (onlyReads_connect _ _) fun _ => onlyReads_pure _

theorem opened_of_openSides {sides : Side × Side} (h : (openSides e o c).Gives w sides w₁) :
    OnlyRead w w₁ ∧ OpenedSince w sides.1 ∧ OpenedSince w sides.2 := by
  have hread := onlyReads_openSides e o c w (OnlyRead.refl w)
  rw [h] at hread
  obtain ⟨s, w₂, hs, hrest⟩ := gives_bind_iff.mp h
  obtain ⟨d, w₃, hd, hpure⟩ := gives_bind_iff.mp hrest
  obtain ⟨rfl, rfl⟩ := gives_pure_iff.mp hpure
  have hfirst := onlyReads_connect e.source (c.withRegion o.sourceRegion) w (OnlyRead.refl w)
  rw [hs] at hfirst
  exact ⟨hread, opened_of_connect (OnlyRead.refl w) hs, opened_of_connect hfirst hd⟩

theorem onlyRead_listSide (h : OnlyRead w w₁) {side : Side} (hside : OpenedSince w side)
    (l : Location) (followLinks : Bool) (watch : Watch) :
    OnlyRead w ((listSide side l followLinks watch).run w₁).2 := by
  cases side with
  | files => exact h
  | client n => exact RemoteListing.onlyRead_list h (hside n rfl) l watch

theorem onlyRead_list (h : OnlyRead w w₁) {source destination : Side}
    (hsource : OpenedSince w source) (hdestination : OpenedSince w destination) :
    OnlyRead w ((list e source destination o command).run w₁).2 :=
  onlyRead_listSide (onlyRead_listSide h hsource _ _ _) hdestination _ _ _

/-- Either a run does not get as far as its plan, and a trial run ends with the same fault, or both
carry out the plan of the same listings. Up to there they only read. -/
theorem runBetween_fails_or_reaches (e : Ends) (o : Options) (c : Connection) (command : String)
    (quiet : Bool) (w : World) :
    (∃ f notices w', OnlyRead w w' ∧ ∀ trial,
      (runBetween e { o with trial := trial } c command quiet).run w = (.ofFault f notices, w')) ∨
    ∃ g, Reaches e o c command w g ∧ OnlyRead w g.world ∧ ∀ trial,
      (runBetween e { o with trial := trial } c command quiet).run w =
        (finish e g.source g.destination g.batch { o with trial := trial } command quiet
          g.listings).run g.world := by
  rcases hopen : (openSides e o c).run.run w with ⟨f | sides, w₁⟩
  · have hread := onlyReads_openSides e o c w (OnlyRead.refl w)
    rw [hopen] at hread
    refine .inl ⟨f, [], w₁, hread, fun trial => ?_⟩
    have hsame : (openSides e { o with trial := trial } c).run.run w = (.error f, w₁) := hopen
    unfold runBetween
    rw [run_state_bind, hsame]
    rfl
  · obtain ⟨hread, hsource, hdestination⟩ := opened_of_openSides hopen
    have hlist : OnlyRead w ((list e sides.1 sides.2 o command).run w₁).2 :=
      onlyRead_list hread hsource hdestination
    cases hbatch : sourceIsBatch w₁.files e.source with
    | error f =>
      refine .inl ⟨f, [], w₁, hread, fun trial => ?_⟩
      have hgives : (openSides e { o with trial := trial } c).Gives w sides w₁ := hopen
      rw [runBetween_of_gives hgives, hbatch]
    | ok batch =>
      let listed := (list e sides.1 sides.2 o command).run w₁
      let g : Stage := ⟨sides.1, sides.2, batch, listed.1, listed.2⟩
      -- Only `finish` looks whether the run is a trial, so both kinds of runs come to this stage.
      have hreach (trial : Bool) : Reaches e { o with trial := trial } c command w g :=
        ⟨w₁, hopen, hbatch, rfl⟩
      cases hfault : g.listings.fault? with
      | some f =>
        refine .inl ⟨f, g.listings.notices, g.world, hlist, fun trial => ?_⟩
        rw [runBetween_of_reaches (hreach trial), hfault]
      | none =>
        by_cases hworkers : o.workers < 1
        · refine .inl ⟨tooFewWorkers, g.listings.notices, g.world, hlist, fun trial => ?_⟩
          rw [runBetween_of_reaches (hreach trial), hfault]
          exact if_pos hworkers
        · refine .inr ⟨g, hreach o.trial, hlist, fun trial => ?_⟩
          rw [runBetween_of_reaches (hreach trial), hfault]
          exact if_neg hworkers

/-- The same with ends that are read first. -/
theorem run_fails_or_reaches (source destination : String) (o : Options) (c : Connection)
    (command : String) (quiet : Bool) (w : World) :
    (∃ f notices w', OnlyRead w w' ∧ ∀ trial,
      (run source destination { o with trial := trial } c command quiet).run w =
        (.ofFault f notices, w')) ∨
    ∃ e g, ends source destination o.raw = .ok e ∧ Reaches e o c command w g ∧
      OnlyRead w g.world ∧ ∀ trial,
      (run source destination { o with trial := trial } c command quiet).run w =
        (finish e g.source g.destination g.batch { o with trial := trial } command quiet
          g.listings).run g.world := by
  unfold run
  dsimp only
  cases ends source destination o.raw with
  | error f => exact .inl ⟨f, [], w, OnlyRead.refl w, fun _ => rfl⟩
  | ok e =>
    rcases runBetween_fails_or_reaches e o c command quiet w with fails | ⟨g, reaches⟩
    · exact .inl fails
    · exact .inr ⟨e, g, rfl, reaches⟩

end Opening

section Counting

variable {p : Progress} {cs : List Command} {source destination : Side}

theorem operation?_of_mem_commands {p : Planner} {d : Diff} {cmd : Command}
    (h : cmd ∈ Plan.commands (Plan.ofDiff p d).steps) : ∃ op, operation? cmd = some op := by
  rcases Plan.mem_commands_ofDiff_iff.mp h with hcopy | ⟨-, rfl⟩
  · exact ⟨.copy, by simp [operation?, Plan.op_of_mem_copies hcopy]⟩
  · exact ⟨.remove, rfl⟩

def settleAll (s : Stats) (cs : List Command) : Stats :=
  (cs.map fun cmd => (cmd, none)).foldl settle s

theorem settleAll_commands (steps : List Plan.Step) :
    settleAll .zero (Plan.commands steps) =
      ⟨(Plan.Summary.ofSteps steps).copies, (Plan.Summary.ofSteps steps).deletes, 0⟩ := by
  set xs : List (Command × Option Fault) := (Plan.commands steps).map fun cmd => (cmd, none)
  obtain ⟨hcopied, hdeleted, hfailed⟩ := counts_settle xs .zero
  obtain ⟨hcopies, hdeletes⟩ := counts_summary steps
  have hcompleted : completed xs = Plan.commands steps := by
    simp [xs, completed, List.filter_map, Function.comp_def]
  have hnone : xs.countP (·.2.any fun f => !f.isInterruption) = 0 := by
    simp [xs, List.countP_map, Function.comp_def]
  change (⟨(xs.foldl settle .zero).copied, (xs.foldl settle .zero).deleted,
    (xs.foldl settle .zero).failed⟩ : Stats) = _
  rw [hcopied, hdeleted, hfailed, hcompleted, hnone, hcopies, hdeletes]
  simp [Stats.zero]

/-- A trial run prints each command and counts it as done. -/
theorem execute_trial (hcs : ∀ cmd ∈ cs, ∃ op, operation? cmd = some op)
    (hlive : p.ledger.cancelled = false) (hgoes : p.halted = false) :
    execute source destination true command p cs =
      { p with stats := settleAll p.stats cs, notices := p.notices ++ cs.map trialLine } := by
  induction cs generalizing p with
  | nil => simp [execute, settleAll]
  | cons cmd rest ih =>
    obtain ⟨op, hop⟩ := hcs cmd List.mem_cons_self
    have hstep : step source destination true command p cmd =
        { p with
          stats := settle p.stats (cmd, none)
          notices := p.notices ++ [trialLine cmd] } := by
      simp only [step, Execution.run, hop, if_true, countDone_eq_settle hop]
    rw [execute_cons hgoes, hstep]
    refine (ih (fun d hd => hcs d (List.mem_cons_of_mem cmd hd)) ?_ ?_).trans ?_
    · exact hlive
    · exact hlive
    · simp [settleAll, Progress.setHalted, hlive, hgoes]

/-- Commands that all succeed are counted, and the ledger stays as it was. -/
theorem execute_of_done (hlive : p.ledger.cancelled = false) (hgoes : p.halted = false)
    (hdone : ∀ x ∈ trail (performOn source destination) p.world cs, x.2 = none) :
    ∃ w' notices, execute source destination false command p cs =
      ⟨w', settleAll p.stats cs, p.ledger, notices, false⟩ := by
  rw [execute_eq_executeBy]
  induction cs generalizing p with
  | nil => exact ⟨p.world, p.notices, hgoes ▸ rfl⟩
  | cons cmd rest ih =>
    unfold trail at hdone
    rcases htry : attempt (performOn source destination) p.world cmd with ⟨f | n, next⟩
    · simp [htry] at hdone
    · simp only [htry, List.forall_mem_cons, true_and] at hdone
      obtain ⟨hworld, hsettled, hledger⟩ := stepBy_of_ok command htry
      have hstats := hsettled (counts_performOn source destination)
      obtain ⟨w', notices, hrest⟩ := @ih ((stepBy (performOn source destination) false command p
        cmd).setHalted p.ledger.cancelled) (hledger.symm ▸ hlive) hlive (hworld.symm ▸ hdone)
      rw [executeBy_cons hgoes, hrest]
      refine ⟨w', notices, ?_⟩
      unfold Progress.setHalted
      rw [hstats, hledger]
      rfl

end Counting

section Reporting

variable {source destination : Side} {batch quiet : Bool} {l : Listings} {w' : World}

/-- Planning fails on times that do not compare, which a run reports and keeps. -/
theorem record_planFault {p : Planner} {d : Diff} {f : Fault}
    (h : (Plan.ofDiff p d).fault = some f) (command : String) :
    Ledger.empty.record f = ⟨[f], none⟩ ∧
      Ledger.empty.notices command f = [Ledger.report command f] := by
  obtain rfl := eq_timesDisagree_of_copyPairs h
  exact ⟨rfl, rfl⟩

/-- What a run reports whose commands leave the ledger empty. -/
theorem finish_of_unmarked (o : Options) (quiet : Bool) {stats : Stats} {notices : List Notice}
    (h : execute source destination o.trial command (.start w)
      (Plan.commands (Plan.ofDiff (planner e batch o) (l.diff o.exclude)).steps) =
        ⟨w', stats, .empty, notices, false⟩) :
    let d := l.diff o.exclude
    let plan := Plan.ofDiff (planner e batch o) d
    let r : Report := ⟨d.onlySource.length, d.onlyDestination.length, d.common.length,
      Plan.Summary.ofSteps plan.steps, stats, plan.fault.toList, o.trial⟩
    let out := ((finish e source destination batch o command quiet l).run w).1
    out.result = .ok r ∧
      out.notices = l.notices ++ (notices ++ plan.fault.toList.map (Ledger.report command)) ++
        if quiet then [] else r.summary := by
  have hget : (get : StateM World World).run w = (w, w) := rfl
  unfold finish carryOut
  simp only [run_state_bind, hget, h]
  cases hfault : (Plan.ofDiff (planner e batch o) (l.diff o.exclude)).fault with
  | none =>
    refine ⟨rfl, ?_⟩
    rw [Option.toList_none, List.map_nil, List.append_nil]
    rfl
  | some f =>
    obtain ⟨hrecord, hnotices⟩ := record_planFault hfault command
    dsimp only [Progress.report]
    rw [hrecord, hnotices]
    exact ⟨rfl, rfl⟩

/-- The report on a run all of whose commands succeed, as a trial run gives it. -/
def Stage.forecast (g : Stage) (e : Ends) (o : Options) : Report :=
  let d := g.listings.diff o.exclude
  let plan := g.plan e o
  let s := Plan.Summary.ofSteps plan.steps
  ⟨d.onlySource.length, d.onlyDestination.length, d.common.length, s, ⟨s.copies, s.deletes, 0⟩,
    plan.fault.toList, true⟩

def Stage.faults (g : Stage) (e : Ends) (o : Options) : List (Command × Option Fault) :=
  tried (performOn g.source g.destination) e g.batch o g.listings g.world

theorem forecast_of_trial (g : Stage) (e : Ends) (o : Options) (command : String) (quiet : Bool) :
    let out := ((finish e g.source g.destination g.batch { o with trial := true } command quiet
      g.listings).run g.world).1
    out.result = .ok (g.forecast e o) ∧
      out.notices = g.listings.notices ++
        ((Plan.commands (g.plan e o).steps).map trialLine ++
          (g.plan e o).fault.toList.map (Ledger.report command)) ++
        if quiet then [] else (g.forecast e o).summary := by
  set cs := Plan.commands (g.plan e o).steps
  have hexecute : execute g.source g.destination true command (.start g.world) cs =
      ⟨g.world, settleAll .zero cs, .empty, cs.map trialLine, false⟩ :=
    execute_trial (fun _ => operation?_of_mem_commands) rfl rfl
  rw [settleAll_commands] at hexecute
  exact finish_of_unmarked { o with trial := true } quiet hexecute

/-- A run reports what its trial run does exactly when none of its commands meets a fault. -/
theorem report_eq_forecast_iff (g : Stage) (e : Ends) (o : Options) (command : String)
    (quiet : Bool) :
    ((finish e g.source g.destination g.batch { o with trial := false } command quiet
        g.listings).run g.world).1.result = .ok { g.forecast e o with trial := false } ↔
      ∀ x ∈ g.faults e o, x.2 = none := by
  have hcounts := counts_performOn g.source g.destination
  constructor
  · intro h
    rw [finish_eq_finishBy] at h
    obtain ⟨hstats, -, -⟩ := report_of_finishBy hcounts rfl h
    refine all_done_iff.mp ?_
    rw [show (tried (performOn g.source g.destination) e g.batch o g.listings g.world).foldl
      settle .zero = _ from hstats.symm]
    exact ⟨rfl, rfl, rfl⟩
  · intro hdone
    set cs := Plan.commands (g.plan e o).steps
    obtain ⟨w', notices, hexecute⟩ :
        ∃ w' notices, execute g.source g.destination false command (.start g.world) cs =
          ⟨w', settleAll .zero cs, .empty, notices, false⟩ := execute_of_done rfl rfl hdone
    rw [settleAll_commands] at hexecute
    exact (finish_of_unmarked { o with trial := false } quiet hexecute).1

/-- What is counted before the commands are carried out does not depend on them. -/
theorem planned_of_report {trial : Bool} {r : Report}
    (h : ((finish e g.source g.destination g.batch { o with trial := trial } command quiet
      g.listings).run g.world).1.result = .ok r) :
    r.sourceOnly = (g.forecast e o).sourceOnly ∧
      r.destinationOnly = (g.forecast e o).destinationOnly ∧
      r.common = (g.forecast e o).common ∧ r.plan = (g.forecast e o).plan := by
  rw [finish_eq_finishBy, result_finishBy] at h
  dsimp only [carryOutBy] at h
  split at h
  · cases h
  · obtain rfl := Except.ok.inj h
    exact ⟨rfl, rfl, rfl, rfl⟩

/-- The line that stands for a command, on a console that is neither quiet nor prints documents. -/
theorem out_trialLine (k : Console) (cmd : Command) :
    k.out (trialLine cmd) =
      if k.quiet || k.json then ""
        else Console.line (k.signs ("DRYRUN " ++ cmd.text).toList) := by
  cases hquiet : k.quiet <;> cases hjson : k.json <;>
    simp [trialLine, Console.out, Console.talks, hquiet, hjson]

/-- A trial run reads and nothing more. It ends with a fault as the run itself would, or it prints
one line for each command of the plan, on a console that is neither quiet nor prints documents, and
reports what the run itself reports if and only if none of the commands meets a fault there; what
is counted before the commands are carried out agrees in any case. -/
theorem trial_predicts_run (source destination : String) (o : Options) (c : Connection)
    (command : String) (quiet : Bool) (w : World) :
    let trial := (run source destination { o with trial := true } c command quiet).run w
    let actual := (run source destination { o with trial := false } c command quiet).run w
    OnlyRead w trial.2 ∧
    ((∃ f, trial.1.result = .error f ∧ actual = trial) ∨
      ∃ e g, ends source destination o.raw = .ok e ∧ Reaches e o c command w g ∧
        let plan := g.plan e o
        let lines := (Plan.commands plan.steps).map trialLine
        let t := g.forecast e o
        trial.1.result = .ok t ∧
        trial.1.notices = g.listings.notices ++
          (lines ++ plan.fault.toList.map (Ledger.report command)) ++
            (if quiet then [] else t.summary) ∧
        (∀ k : Console, lines.map k.out = (Plan.commands plan.steps).map fun cmd =>
          if k.quiet || k.json then ""
            else Console.line (k.signs ("DRYRUN " ++ cmd.text).toList)) ∧
        (actual.1.result = .ok { t with trial := false } ↔ ∀ x ∈ g.faults e o, x.2 = none) ∧
        ∀ r, actual.1.result = .ok r →
          r.sourceOnly = t.sourceOnly ∧ r.destinationOnly = t.destinationOnly ∧
            r.common = t.common ∧ r.plan = t.plan) := by
  intro trial actual
  rcases run_fails_or_reaches source destination o c command quiet w with
    ⟨f, notices, w', hread, hrun⟩ | ⟨e, g, hends, hreach, hread, hrun⟩
  · have htrial : trial = _ := hrun true
    have hactual : actual = _ := hrun false
    rw [htrial, hactual]
    exact ⟨hread, .inl ⟨f, rfl, rfl⟩⟩
  · have htrial : trial = _ := hrun true
    have hactual : actual = _ := hrun false
    obtain ⟨hresult, hnotices⟩ := forecast_of_trial g e o command quiet
    have hworld : trial.2 = g.world := by
      rw [htrial, world_of_finish]
      exact world_of_trial
    rw [hworld]
    refine ⟨hread, .inr ⟨e, g, hends, hreach, htrial ▸ hresult, htrial ▸ hnotices, ?_, ?_, ?_⟩⟩
    · intro k
      rw [List.map_map]
      exact List.map_congr_left fun cmd _ => out_trialLine k cmd
    · exact hactual ▸ report_eq_forecast_iff g e o command quiet
    · intro r hr
      rw [hactual] at hr
      exact planned_of_report hr

end Reporting

/-- A run comes to one stage only. -/
theorem Reaches.unique {g' : Stage} (h : Reaches e o c command w g)
    (h' : Reaches e o c command w g') : g = g' := by
  obtain ⟨w₁, hopen, hbatch, hlist⟩ := h
  obtain ⟨w₂, hopen', hbatch', hlist'⟩ := h'
  obtain ⟨source, destination, batch, listings, world⟩ := g
  obtain ⟨source', destination', batch', listings', world'⟩ := g'
  obtain ⟨hsides, rfl⟩ := Prod.mk.inj (hopen.symm.trans hopen')
  obtain ⟨rfl, rfl⟩ := Prod.mk.inj (Except.ok.inj hsides)
  obtain rfl := Except.ok.inj (hbatch.symm.trans hbatch')
  obtain ⟨rfl, rfl⟩ := Prod.mk.inj (hlist.symm.trans hlist')
  rfl

theorem reaches_swapped : Reaches acrossBuckets deletingOptions .standard "sync"
    (twoBuckets [objectAt "x"] [objectAt "y"]) swapped := ⟨_, rfl, rfl, rfl⟩

theorem ends_swapped : ends "s3://a/" "s3://b/" deletingOptions.raw = .ok acrossBuckets := rfl

theorem faults_swapped :
    ∀ x ∈ swapped.faults acrossBuckets deletingOptions, x.2 = none := by
  have hcommands : Plan.commands (Plan.ofDiff (planner acrossBuckets swapped.batch deletingOptions)
    (swapped.listings.diff deletingOptions.exclude)).steps = _ := commands_swapped
  have hnone : (swapped.faults acrossBuckets deletingOptions).map Prod.snd = [none, none] := by
    rw [Stage.faults, tried, hcommands]
    rfl
  intro x hx
  have hmem := hnone ▸ List.mem_map_of_mem (f := Prod.snd) hx
  simpa using hmem

theorem forecast_swapped : swapped.forecast acrossBuckets deletingOptions =
    ⟨1, 1, 0, ⟨1, 1, 0, 0⟩, ⟨1, 1, 0⟩, [], true⟩ := by
  rw [Stage.forecast, Stage.plan, diff_swapped]
  rfl

/-- The trial run of a copy and a removal foretells the report on both. -/
theorem trial_predicts_run_swapped :
    let w := twoBuckets [objectAt "x"] [objectAt "y"]
    let report : Report := ⟨1, 1, 0, ⟨1, 1, 0, 0⟩, ⟨1, 1, 0⟩, [], true⟩
    ((run "s3://a/" "s3://b/" { deletingOptions with trial := true } .standard "sync" false).run
        w).1.result = .ok report ∧
      ((run "s3://a/" "s3://b/" { deletingOptions with trial := false } .standard "sync" false).run
        w).1.result = .ok { report with trial := false } := by
  intro w report
  obtain ⟨-, ⟨f, hfault, -⟩ | ⟨e, g, hends, hreach, hreport, -, -, hdone, -⟩⟩ :=
    trial_predicts_run "s3://a/" "s3://b/" deletingOptions .standard "sync" false w
  · have hrun : (run "s3://a/" "s3://b/" { deletingOptions with trial := true } .standard "sync"
        false).run w = (finish acrossBuckets swapped.source swapped.destination swapped.batch
          { deletingOptions with trial := true } "sync" false swapped.listings).run
            swapped.world :=
      runBetween_of_reaches (o := { deletingOptions with trial := true }) reaches_swapped false
    rw [hrun, (forecast_of_trial swapped acrossBuckets deletingOptions "sync" false).1] at hfault
    cases hfault
  · obtain rfl : acrossBuckets = e := Except.ok.inj (ends_swapped.symm.trans hends)
    obtain rfl := reaches_swapped.unique hreach
    rw [forecast_swapped] at hreport hdone
    exact ⟨hreport, hdone.mpr faults_swapped⟩

end Sync

end StoreSync
