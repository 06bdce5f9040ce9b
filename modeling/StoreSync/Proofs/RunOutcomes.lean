import StoreSync.Proofs.BrokenRuns

/-!
How a run can end. Texts that cannot be synchronised end it before it begins. Any other run that is
not broken off makes a report, unless it was asked to have no workers, or one of the faults that it
reports is a shortage of file descriptors.
-/
namespace StoreSync.Sync

open Execution ObjectStore Transfer

inductive Unsyncable (source destination : String) (raw : Bool) : Prop
  | source {i : InvalidLocation} (invalid : Location.parse source raw = .error i)
  | destination {i : InvalidLocation} (invalid : Location.parse destination raw = .error i)
  | mismatched {s d : Location} (source : Location.parse source raw = .ok s)
      (destination : Location.parse destination raw = .ok d)
      (mismatch : d.isWildcard = true ∨ s.same d = true)

section Texts

variable {source destination : String} {raw : Bool} {l : Location}

theorem mismatch?_eq_none_iff {s d : Location} :
    mismatch? s d = none ↔ ¬ (d.isWildcard = true ∨ s.same d = true) := by
  unfold mismatch?
  split_ifs <;> simp_all

/-- Texts that cannot be synchronised are refused as such. -/
theorem ends_of_unsyncable (h : Unsyncable source destination raw) :
    ∃ f, ends source destination raw = .error f ∧ f.isValidation = true := by
  unfold ends
  cases hs : Location.parse source raw with
  | error i => exact ⟨_, rfl, rfl⟩
  | ok s =>
    cases hd : Location.parse destination raw with
    | error i => exact ⟨_, rfl, rfl⟩
    | ok d =>
      dsimp only
      cases hm : mismatch? s d with
      | some m => exact ⟨_, rfl, rfl⟩
      | none =>
        cases h with
        | source invalid => simp [hs] at invalid
        | destination invalid => simp [hd] at invalid
        | mismatched hs' hd' mismatch =>
          obtain rfl := Except.ok.inj (hs.symm.trans hs')
          obtain rfl := Except.ok.inj (hd.symm.trans hd')
          exact absurd mismatch (mismatch?_eq_none_iff.mp hm)

theorem ends_of_syncable (h : ¬ Unsyncable source destination raw) :
    ∃ e, ends source destination raw = .ok e := by
  unfold ends
  cases hs : Location.parse source raw with
  | error i => exact absurd (.source hs) h
  | ok s =>
    cases hd : Location.parse destination raw with
    | error i => exact absurd (.destination hd) h
    | ok d =>
      have hm : mismatch? s d = none :=
        mismatch?_eq_none_iff.mpr fun mismatch => h (.mismatched hs hd mismatch)
      dsimp only
      rw [hm]
      exact ⟨⟨s, d⟩, rfl⟩

theorem parse_of_ends {e : Ends} (h : ends source destination raw = .ok e) :
    Location.parse source raw = .ok e.source ∧
      Location.parse destination raw = .ok e.destination := by
  unfold ends at h
  split at h
  · cases h
  · next s hs =>
    split at h
    · cases h
    · next d hd =>
      split at h
      · cases h
      · obtain rfl := Except.ok.inj h
        exact ⟨hs, hd⟩

/-- A text without the character that ends texts names a location that is a path if it is local. -/
theorem pathlike_of_parse (h : Location.parse source raw = .ok l)
    (htext : Files.holdsZero source = false) : Pathlike l := by
  unfold Location.parse at h
  intro hlocal
  dsimp only at h
  split_ifs at h
  · obtain rfl := Except.ok.inj h
    simp [Location.isRemote] at hlocal
  · obtain rfl := Except.ok.inj h
    exact htext

end Texts

section Reporting

variable {perform : Performer} {e : Ends} {batch quiet : Bool} {o : Options} {command : String}
  {l : Listings} {w : World} {p : Progress} {cs : List Command} {f : Fault}

/-- The faults that commands report, up to the shortage that ends them. An interruption is not
reported. -/
def reports (perform : Performer) : World → List Command → List Fault
  | _, [] => []
  | w, c :: rest =>
      match attempt perform w c with
      | (.ok _, next) => reports perform next rest
      | (.error f, next) =>
          if f.isInterruption then reports perform next rest
          else if (Fault.execution c.text f).isDescriptorShortage then [.execution c.text f]
          else .execution c.text f :: reports perform next rest

def reported (perform : Performer) (e : Ends) (batch : Bool) (o : Options) (l : Listings)
    (w : World) : List Fault :=
  let plan := Plan.ofDiff (planner e batch o) (l.diff o.exclude)
  (if o.trial then [] else reports perform w (Plan.commands plan.steps)) ++ plan.fault.toList

def shortage? (perform : Performer) (e : Ends) (batch : Bool) (o : Options) (l : Listings)
    (w : World) : Option Fault :=
  (reported perform e batch o l w).find? Fault.isDescriptorShortage

theorem record_of_shortage {ledger : Ledger} (hlive : ledger.fatal = none)
    (h : f.isDescriptorShortage = true) : (ledger.record f).fatal = some f := by
  simp [Ledger.record, Ledger.judge, hlive, h]

theorem record_of_no_shortage (ledger : Ledger) (h : f.isDescriptorShortage = false) :
    (ledger.record f).fatal = ledger.fatal := by
  unfold Ledger.record
  cases hjudge : ledger.judge f with
  | fatal =>
    unfold Ledger.judge at hjudge
    split_ifs at hjudge
    · simp_all
  | discarded => rfl
  | ignored => rfl
  | kept => rfl

theorem record_of_fatal {ledger : Ledger} (h : ledger.fatal = some f) (g : Fault) :
    ledger.record g = ledger := by
  simp [Ledger.record, Ledger.judge, h]

/-- The command that follows a shortage changes nothing about it. -/
theorem fatal_executeBy_of_fatal (h : p.ledger.fatal = some f) :
    (executeBy perform false command p cs).ledger.fatal = some f := by
  induction cs generalizing p with
  | nil => exact h
  | cons c rest ih =>
    unfold executeBy
    split_ifs
    · exact h
    · refine ih ?_
      unfold Progress.setHalted stepBy
      dsimp only
      split
      · exact (congrArg Ledger.fatal (record_of_fatal h _)).trans h
      · exact h

/-- The first shortage among the faults that commands report is what ends them. -/
theorem fatal_executeBy (hlive : p.ledger.fatal = none) (hgoes : p.halted = false) :
    (executeBy perform false command p cs).ledger.fatal =
      (reports perform p.world cs).find? Fault.isDescriptorShortage := by
  induction cs generalizing p with
  | nil => exact hlive
  | cons c rest ih =>
    have hrest (hlives : (stepBy perform false command p c).ledger.fatal = none) :
        (executeBy perform false command
          ((stepBy perform false command p c).setHalted p.ledger.cancelled) rest).ledger.fatal =
          (reports perform (stepBy perform false command p c).world rest).find?
            Fault.isDescriptorShortage :=
            ih hlives (cancelled_of_live hlive)
    rw [executeBy_cons hgoes, reports]
    rcases htry : attempt perform p.world c with ⟨f | n, next⟩
    · obtain ⟨hworld, -, hledger⟩ := stepBy_of_error command htry
      dsimp only
      cases hint : f.isInterruption with
      | true =>
        have hlives : (stepBy perform false command p c).ledger.fatal = none := by
          simpa [hledger, enter, hint] using hlive
        rw [hrest hlives, hworld, if_pos rfl]
      | false =>
        have hentered : (stepBy perform false command p c).ledger =
            p.ledger.record (.execution c.text f) := by
          rw [hledger, enter, hint, if_neg Bool.false_ne_true]
        rw [if_neg Bool.false_ne_true]
        cases hshort : (Fault.execution c.text f).isDescriptorShortage with
        | true =>
          have hfatal : ((stepBy perform false command p c).setHalted
              p.ledger.cancelled).ledger.fatal = some (.execution c.text f) :=
            (congrArg Ledger.fatal hentered).trans (record_of_shortage hlive hshort)
          rw [fatal_executeBy_of_fatal hfatal, if_pos rfl, List.find?_cons_of_pos hshort]
        | false =>
          have hlives : (stepBy perform false command p c).ledger.fatal = none :=
            hentered ▸ (record_of_no_shortage p.ledger hshort).trans hlive
          have hnot : ¬ (Fault.execution c.text f).isDescriptorShortage = true := by simp [hshort]
          rw [hrest hlives, hworld, if_neg Bool.false_ne_true, List.find?_cons_of_neg hnot]
    · obtain ⟨hworld, -, hledger⟩ := stepBy_of_ok command htry
      have hlives : (stepBy perform false command p c).ledger.fatal = none := hledger ▸ hlive
      rw [hrest hlives, hworld]

/-- A trial run prints its commands and reports nothing. -/
theorem ledger_executeBy_trial (hcs : ∀ c ∈ cs, ∃ op, operation? c = some op) :
    (executeBy perform true command p cs).ledger = p.ledger := by
  induction cs generalizing p with
  | nil => rfl
  | cons c rest ih =>
    obtain ⟨op, hop⟩ := hcs c List.mem_cons_self
    have hstep : (stepBy perform true command p c).ledger = p.ledger := by
      simp [stepBy, Execution.run, hop]
    unfold executeBy
    split_ifs
    · rfl
    · rw [ih fun d hd => hcs d (List.mem_cons_of_mem c hd)]
      exact hstep

theorem shortage_of_planFault {plan : Planner} {d : Diff}
    (h : (Plan.ofDiff plan d).fault = some f) : f.isDescriptorShortage = false := by
  rw [eq_timesDisagree_of_copyPairs h]
  decide

/-- A run is ended by the first shortage among the faults that it reports. -/
theorem fatal_carryOutBy :
    (carryOutBy perform e batch o command (l.diff o.exclude) w).1.ledger.fatal =
      shortage? perform e batch o l w := by
  set plan := Plan.ofDiff (planner e batch o) (l.diff o.exclude) with hplan
  set p := executeBy perform o.trial command (.start w) (Plan.commands plan.steps)
    with hp
  have hcommands : p.ledger.fatal =
      (if o.trial then [] else reports perform w (Plan.commands plan.steps)).find?
        Fault.isDescriptorShortage := by
    cases htrial : o.trial with
    | true =>
      rw [hp, htrial, ledger_executeBy_trial fun c hc => operation?_of_mem_commands hc]
      rfl
    | false =>
      rw [hp, htrial, fatal_executeBy rfl rfl]
      rfl
  have hcarry : (carryOutBy perform e batch o command (l.diff o.exclude) w).1.ledger.fatal =
      p.ledger.fatal := by
    unfold carryOutBy
    dsimp only
    split
    · next f hfault => exact record_of_no_shortage _ (shortage_of_planFault hfault)
    · rfl
  have hplanned : plan.fault.toList.find? Fault.isDescriptorShortage = none := by
    cases hfault : plan.fault with
    | none => rfl
    | some f => simp [shortage_of_planFault hfault]
  rw [hcarry, hcommands, shortage?, reported, List.find?_append, ← hplan, hplanned,
    Option.or_none]

end Reporting

section Concluding

variable {perform : Performer} {e : Ends} {batch quiet : Bool} {o : Options} {command : String}
  {l : Listings} {w : World}

def concludeBy (perform : Performer) (e : Ends) (batch : Bool) (o : Options) (command : String)
    (quiet : Bool) (l : Listings) : StateM World Outcome :=
  if o.workers < 1 then pure (.ofFault tooFewWorkers l.notices)
  else finishBy perform e batch o command quiet l

theorem result_concludeBy :
    ((concludeBy perform e batch o command quiet l).run w).1.result =
      if o.workers < 1 then .error tooFewWorkers
      else
        match shortage? perform e batch o l w with
        | some f => .error (.exhaustedBy f)
        | none => .ok (reportOf o (l.diff o.exclude)
            (carryOutBy perform e batch o command (l.diff o.exclude) w).1
            (carryOutBy perform e batch o command (l.diff o.exclude) w).2) := by
  unfold concludeBy
  split_ifs
  · rfl
  · have hfatal := @fatal_carryOutBy perform e batch o command l w
    rw [result_finishBy]
    cases hshort : shortage? perform e batch o l w <;> simp only [hfatal, hshort]

/-- The ways in which a run can end whose listings came to their end. -/
structure Concludes (perform : Performer) (e : Ends) (batch : Bool) (o : Options)
    (l : Listings) (w : World) (result : Except Fault Report) : Prop where
  /-- It is refused when it was to have no workers. -/
  workerless : result = .error tooFewWorkers ↔ o.workers < 1
  /-- It is ended by the first shortage that it reports. -/
  exhausted : ∀ f, result = .error (.exhaustedBy f) ↔
    1 ≤ o.workers ∧ shortage? perform e batch o l w = some f
  /-- It makes a report when it reports no shortage. -/
  reports : (∃ r, result = .ok r) ↔ 1 ≤ o.workers ∧ shortage? perform e batch o l w = none
  others : ∀ f, result = .error f → f = tooFewWorkers ∨ ∃ cause, f = .exhaustedBy cause

theorem concludes (perform : Performer) (e : Ends) (batch : Bool) (o : Options)
    (command : String) (quiet : Bool) (l : Listings) (w : World) :
    Concludes perform e batch o l w
      ((concludeBy perform e batch o command quiet l).run w).1.result := by
  rw [result_concludeBy]
  by_cases hworkers : o.workers < 1
  · have hnone : ¬ 1 ≤ o.workers := by omega
    rw [if_pos hworkers]
    constructor <;> simp [hworkers, hnone, tooFewWorkers]
  · have hsome : 1 ≤ o.workers := by omega
    rw [if_neg hworkers]
    cases hshort : shortage? perform e batch o l w <;>
      constructor <;> simp [hshort, hworkers, hsome, tooFewWorkers]

end Concluding

section Runs

variable {source destination : String} {o : Options} {c : Connection} {command : String}
  {quiet : Bool} {w : World}

theorem run_of_unsyncable (h : Unsyncable source destination o.raw) :
    ∃ f, f.isValidation = true ∧
      (run source destination o c command quiet).run w = (.ofFault f [], w) := by
  obtain ⟨f, hends, hvalidation⟩ := ends_of_unsyncable h
  refine ⟨f, hvalidation, ?_⟩
  rw [run, hends]
  rfl

/-- Any other run is broken off, or goes on to its plan after both listings. -/
theorem run_of_syncable (h : ¬ Unsyncable source destination o.raw) (c : Connection)
    (command : String) (quiet : Bool) (w : World) :
    ∃ e, ends source destination o.raw = .ok e ∧
      ((∃ f, BrokenOff e o c command w f ∧
          ((run source destination o c command quiet).run w).1.result = .error f) ∨
        ∃ g, Reaches e o c command w g ∧ g.listings.fault? = none ∧
          (run source destination o c command quiet).run w =
            (concludeBy (performOn g.source g.destination) e g.batch o command quiet
              g.listings).run g.world) := by
  obtain ⟨e, hends⟩ := ends_of_syncable h
  refine ⟨e, hends, ?_⟩
  have hrun : run source destination o c command quiet = runBetween e o c command quiet := by
    rw [run, hends]
  rw [hrun]
  rcases broken_or_reaches e o c command quiet w with hbroken | ⟨g, hreach, hfault⟩
  · exact .inl hbroken
  · refine .inr ⟨g, hreach, hfault, ?_⟩
    rw [runBetween_of_reaches hreach quiet, hfault, concludeBy]
    dsimp only
    split_ifs
    · rfl
    · rw [finish_eq_finishBy]

/-- In an orderly world no run is broken off whose texts can be paths. -/
theorem not_brokenOff_of_orderly (hw : Orderly w) (hretries : 0 ≤ c.maxRetries)
    (hsource : Files.holdsZero source = false) (hdestination : Files.holdsZero destination = false)
    {e : Ends} (hends : ends source destination o.raw = .ok e) (f : Fault) :
    ¬ BrokenOff e o c command w f := by
  obtain ⟨hs, hd⟩ := parse_of_ends hends
  obtain ⟨g, hreach, hfault⟩ := reaches_of_orderly hw hretries (pathlike_of_parse hs hsource)
    (pathlike_of_parse hd hdestination) o command
  exact not_brokenOff_of_reaches hreach hfault

structure Outcomes (source destination : String) (o : Options) (c : Connection)
    (command : String) (quiet : Bool) (w : World) : Prop where
  /-- It is refused as not valid exactly when its texts cannot be synchronised. -/
  refused : (∃ f, ((run source destination o c command quiet).run w).1.result = .error f ∧
    f.isValidation = true) ↔ Unsyncable source destination o.raw
  /-- Then no client was made, nothing was touched, and nothing was told. -/
  untouched : Unsyncable source destination o.raw →
    ((run source destination o c command quiet).run w).1.notices = [] ∧
      ((run source destination o c command quiet).run w).2 = w
  /-- Any other run is broken off before it has a plan, by a fault that passes through, or it
  goes on after both listings. -/
  goesOn : ¬ Unsyncable source destination o.raw → ∃ e, ends source destination o.raw = .ok e ∧
    ((∃ f, BrokenOff e o c command w f ∧ f.isOwn = false ∧
        ((run source destination o c command quiet).run w).1.result = .error f) ∨
      ∃ g, Reaches e o c command w g ∧ g.listings.fault? = none ∧
        (run source destination o c command quiet).run w =
          (concludeBy (performOn g.source g.destination) e g.batch o command quiet
            g.listings).run g.world)
  /-- In an orderly world it is not broken off. -/
  unbroken : Orderly w → 0 ≤ c.maxRetries → Files.holdsZero source = false →
    Files.holdsZero destination = false → ∀ e, ends source destination o.raw = .ok e →
      ∀ f, ¬ BrokenOff e o c command w f
  /-- After both listings there are three ends, whoever answers the calls of the commands and with
  whatever faults. -/
  concludes : ∀ (perform : Performer) (e : Ends) (batch : Bool) (l : Listings) (w' : World),
    Concludes perform e batch o l w'
      ((concludeBy perform e batch o command quiet l).run w').1.result

/-- A run is refused, broken off, ended by a shortage of file descriptors, or makes a report, each
exactly when its condition holds. -/
theorem run_outcomes (hw : Foreign w) (source destination : String) (o : Options)
    (c : Connection) (command : String) (quiet : Bool) :
    Outcomes source destination o c command quiet w where
  refused := by
    constructor
    · rintro ⟨f, hresult, hvalidation⟩
      by_contra h
      obtain ⟨e, -, ⟨g, hbroken, hg⟩ | ⟨g, -, -, hrun⟩⟩ := run_of_syncable h c command quiet w
      · obtain rfl := Except.error.inj (hg.symm.trans hresult)
        have hown := isOwn_of_brokenOff hw hbroken
        rw [Fault.isOwn_of_isValidation hvalidation] at hown
        cases hown
      · rw [hrun] at hresult
        have hconcludes := concludes (performOn g.source g.destination) e g.batch o command quiet
          g.listings g.world
        rcases hconcludes.others f hresult with rfl | ⟨cause, rfl⟩ <;> cases hvalidation
    · intro h
      obtain ⟨f, hvalidation, hrun⟩ := run_of_unsyncable h
      exact ⟨f, by rw [hrun]; rfl, hvalidation⟩
  untouched h := by
    obtain ⟨f, -, hrun⟩ := run_of_unsyncable h
    rw [hrun]
    exact ⟨rfl, rfl⟩
  goesOn h := by
    obtain ⟨e, hends, hcases⟩ := run_of_syncable h c command quiet w
    refine ⟨e, hends, ?_⟩
    rcases hcases with ⟨f, hbroken, hresult⟩ | hreaches
    · exact .inl ⟨f, hbroken, isOwn_of_brokenOff hw hbroken, hresult⟩
    · exact .inr hreaches
  unbroken horderly hretries hsource hdestination e hends f :=
    not_brokenOff_of_orderly horderly hretries hsource hdestination hends f
  concludes perform e batch l w' := concludes perform e batch o command quiet l w'

def unlistedBuckets : World :=
  ⟨.ofNodes [] [], ⟨[("a", []), ("b", [])],
    [⟨.list, some "a", none, .fault (.system Fault.tooManyFiles "Too many open files" none), none⟩],
    1000, 0, .plain⟩, []⟩

/-- Two locations that are the same one are refused, also when the store could not be listed. -/
theorem run_outcomes_identical : Foreign unlistedBuckets ∧
    ∃ f, ((run "s3://a/" "s3://a" .standard .standard "sync" true).run unlistedBuckets).1.result =
      .error f ∧ f.isValidation = true := by
  have hforeign : Foreign unlistedBuckets := by
    intro x hx _ f hf
    obtain rfl := List.mem_singleton.mp hx
    obtain rfl := Trouble.fault.inj hf
    rfl
  have hsame : Unsyncable "s3://a/" "s3://a" false := .mismatched rfl rfl (.inr rfl)
  exact ⟨hforeign,
    (run_outcomes hforeign "s3://a/" "s3://a" .standard .standard "sync" true).refused.mpr hsame⟩

theorem orderly_twoBuckets (a b : Bucket) : Orderly (twoBuckets a b) where
  connects := List.not_mem_nil
  answers _ h := absurd h List.not_mem_nil
  readable := Files.Tree.readable_of_inCalendar Files.TimeRange.inCalendar_bits34
    fun _ h => absurd h List.not_mem_nil

theorem syncable_buckets : ¬ Unsyncable "s3://a/" "s3://b/" false := by
  intro h
  obtain ⟨f, hends, -⟩ := ends_of_unsyncable h
  cases hends

def withoutWorkers : CommandLine.Invocation where
  json := false
  quiet := false
  verbose := false
  source := "s3://a/"
  destination := "s3://b/"
  options := { Options.standard with workers := -1 }
  connection := { Connection.standard with poolSize := CommandLine.leastPool }

theorem asked_withoutWorkers : CommandLine.Invocation.ofWords? []
    ["--workers", "-1", "sync", "s3://a/", "s3://b/"] = some withoutWorkers := by rfl

/-- A command line can ask for a run that nothing disturbs and that makes no report all the same. -/
theorem workerless_run_fails :
    ¬ ∀ (env : Environment) (words : List String) (i : CommandLine.Invocation)
      (w : World), CommandLine.Invocation.ofWords? env words = some i → Orderly w →
        ¬ Unsyncable i.source i.destination i.options.raw →
          let result := ((run i.source i.destination i.options i.connection
            (commandText i.source i.destination) i.quiet).run w).1.result
          (∃ f, result = .error (.exhaustedBy f)) ∨ ∃ r, result = .ok r := by
  intro h
  have hrun : ((run "s3://a/" "s3://b/" withoutWorkers.options withoutWorkers.connection
      (commandText "s3://a/" "s3://b/") false).run (twoBuckets [objectAt "x"] [])).1.result =
        .error tooFewWorkers := rfl
  have horderly := orderly_twoBuckets [objectAt "x"] []
  rcases h [] _ _ _ asked_withoutWorkers horderly syncable_buckets with ⟨f, hf⟩ | ⟨r, hr⟩
  · cases hrun.symm.trans hf
  · cases hrun.symm.trans hr

end Runs

end StoreSync.Sync
