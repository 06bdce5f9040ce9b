import StoreSync.Proofs.Collections
import StoreSync.Proofs.CrewAccounts

/-!
The faults that a run collects from its crew and its planner. The crew is waited for before the
planner, and both before the collection is closed; whoever is waited for reports nothing more. So
in front of the last word stand the failures of all commands that were carried out, and behind them
the fault that ended the planner (`Session.Sound`). An exception in the loop of the reader or a
cancellation does not change this.
-/
namespace StoreSync

open Books

/-! ### The reports of a crew -/

namespace Crew

variable {workers : Nat} {s s' : Crew}

theorem Step.reports_isPrefix (step : Step workers s s') :
    s.books.reports <+: s'.books.reports := by
  cases step with
  | @work before after t t' b runs step =>
    cases step with
    | report => exact List.prefix_append _ _
    | _ => exact List.prefix_rfl
  | _ => exact List.prefix_rfl

/-- Behind the end of the reader nothing is left but slots to give back. -/
theorem Step.of_finished (step : Step workers s s')
    (idle : s.reader = .finished → s.queued = [] ∧ s.tasks = []) (finished : s.reader = .finished) :
    s'.reader = .finished ∧ s'.books = s.books := by
  obtain ⟨empty, unoccupied⟩ := idle finished
  cases step with
  | pick waits spare => simp [empty] at waits
  | work runs step => simp [unoccupied] at runs
  | complete runs => simp [unoccupied] at runs
  | release done => exact ⟨finished, rfl⟩
  | _ => simp_all

end Crew

namespace Session

variable {command : String} {commands : List Command} {workers : Nat} {s s' : Session}

/-! ### The steps of a session -/

section Reporting

def isClosed : Concluding → Bool
  | .waiting | .returned _ => true
  | _ => false

/-- What was reported: by the crew, and behind that by the planner, once it was waited for. -/
def Accounted (s : Session) : Prop :=
  match s.main with
  | .executing | .joining => s.reported = s.crew.books.faults
  | _ => ∃ fault, s.planner = some fault ∧ s.reported = s.crew.books.faults ++ fault.toList

structure Sound (command : String) (s : Session) : Prop where
  desk : s.desk.Sound command s.reported (isClosed s.main)
  books : s.crew.books.Fit s.crew.carried s.crew.unreported s.crew.seen
  tasks : ∀ t ∈ s.crew.tasks, t.Sound
  idle : s.crew.reader = .finished → s.crew.queued = [] ∧ s.crew.tasks = []
  pool : s.crew.pool.Accounted
  waited : s.main = .executing ∨ s.crew.reader = .finished
  accounted : s.Accounted
  result : ∀ r, s.main = .returned r → s.desk.handling = .finished ∧ r = s.desk.ledger.combined?

theorem sound_start (command : String) (commands : List Command) (workers : Nat) :
    (start commands workers).Sound command where
  desk := Desk.sound_start command
  books := fit_start
  tasks := nofun
  idle := nofun
  pool := .refl _
  waited := .inl rfl
  accounted := rfl
  result := nofun

theorem faults_of_step {crew : Crew} (step : Crew.Step workers s.crew crew) :
    crew.books.faults = s.crew.books.faults ++ newFaults s.crew crew := by
  obtain ⟨new, hnew⟩ := step.reports_isPrefix
  rw [Books.faults, newFaults, ← hnew, List.drop_left, List.map_append]
  rfl

/-- A crew that is not waited for any more has nothing to report. -/
theorem Sound.work_waited {crew : Crew} (h : s.Sound command)
    (step : Crew.Step workers s.crew crew) (finished : s.crew.reader = .finished) :
    crew.reader = .finished ∧ crew.books = s.crew.books ∧ newFaults s.crew crew = [] := by
  obtain ⟨reader, books⟩ := step.of_finished h.idle finished
  exact ⟨reader, books, by simp [newFaults, books]⟩

theorem report_nil (s : Session) : s.report [] = s := by simp [report, Desk.post]

theorem Sound.work {crew : Crew} (h : s.Sound command) (step : Crew.Step workers s.crew crew) :
    Sound command { s.report (newFaults s.crew crew) with crew := crew } := by
  have books := step.books h.tasks h.books
  have tasks := step.tasks_sound h.tasks
  have idle := step.idle h.idle
  have pool := step.accounted h.pool
  rcases h.waited with executes | finished
  · have desk := h.desk
    have reported := h.accounted
    simp only [executes, isClosed, Accounted] at desk reported
    refine ⟨?_, books, tasks, idle, pool, .inl executes, ?_, ?_⟩
    · have posted := desk.post_faults (newFaults s.crew crew)
      simpa only [report, executes, isClosed] using posted
    · simp only [Accounted, report, executes, faults_of_step step, reported]
    · intro r returned
      simp [report, executes] at returned
  · obtain ⟨reader, same, nothing⟩ := h.work_waited step finished
    rw [nothing, report_nil]
    refine ⟨h.desk, books, tasks, idle, pool, .inr reader, ?_, h.result⟩
    have accounted := h.accounted
    simpa only [Accounted, same] using accounted

theorem Sound.cancel (h : s.Sound command) : Sound command { s with crew := s.crew.cancel } :=
  ⟨h.desk, h.books, h.tasks, h.idle, h.pool, h.waited, h.accounted, h.result⟩

theorem Sound.handle {d : Desk} (h : s.Sound command) (step : Desk.Step command s.desk d) :
    Sound command { s with desk := d } :=
  { h with
    desk := step.sound h.desk
    result := fun r returned => absurd (h.result r returned).1 step.unfinished }

theorem Step.sound (step : Step command workers s s') (h : s.Sound command) :
    s'.Sound command := by
  cases step with
  | work step => exact h.work step
  | raise loops =>
    have executes := h.waited.resolve_right loops
    exact { h with idle := nofun, waited := .inl executes }
  | cancel => exact h.cancel
  | plan fault plans =>
    refine { h with accounted := ?_ }
    have accounted := h.accounted
    simp only [Accounted, plans] at accounted ⊢
    split <;> simp_all
  | @handle d step =>
    have handled := h.handle step
    cases d.cancelled with
    | false => exact handled
    | true => exact handled.cancel
  | executed executes finished =>
    have desk := h.desk
    have accounted := h.accounted
    simp only [executes, isClosed, Accounted] at desk accounted
    exact { h with desk := desk, waited := .inr finished, accounted := accounted, result := nofun }
  | @joined fault joins planned =>
    have desk := h.desk
    have accounted := h.accounted
    simp only [joins, isClosed, Accounted] at desk accounted
    have finished := h.waited.resolve_left (by simp [joins])
    refine { h with desk := ?_, waited := .inr finished, accounted := ?_, result := nofun }
    · exact desk.post_faults fault.toList
    · exact ⟨fault, planned, by rw [report, accounted]⟩
  | close closes =>
    have desk := h.desk
    have accounted := h.accounted
    simp only [closes, isClosed, Accounted] at desk accounted
    have finished := h.waited.resolve_left (by simp [closes])
    exact { h with
      desk := desk.post_lastWord
      waited := .inr finished
      accounted := accounted
      result := nofun }
  | join waits done =>
    have desk := h.desk
    have accounted := h.accounted
    simp only [waits, isClosed, Accounted] at desk accounted
    have finished := h.waited.resolve_left (by simp [waits])
    refine { h with desk := desk, waited := .inr finished, accounted := accounted, result := ?_ }
    exact fun r hr => ⟨done, (Concluding.returned.inj hr).symm⟩

/-- What a whole run keeps, by induction on its steps. -/
theorem Reachable.sound (h : Reachable command commands workers s) : s.Sound command := by
  induction h with
  | refl => exact sound_start command commands workers
  | tail _ step ih => exact step.sound ih

end Reporting

/-! ### The end of a session -/

section Returning

/-- Who closes the collection can go on to its end without a change of what was reported to it. -/
def Returns (command : String) (workers : Nat) (s : Session) : Prop :=
  ∃ s' r, Relation.ReflTransGen (Step command workers) s s' ∧ s'.main = .returned r ∧
    s'.crew.books = s.crew.books ∧ s'.planner = s.planner

theorem Step.returns (step : Step command workers s s') (books : s'.crew.books = s.crew.books)
    (planner : s'.planner = s.planner) (h : Returns command workers s') :
    Returns command workers s := by
  obtain ⟨s'', r, steps, returned, sameBooks, samePlanner⟩ := h
  exact ⟨s'', r, .head step steps, returned, sameBooks.trans books, samePlanner.trans planner⟩

/-- The desk goes on while nobody else does, but it may cancel the crew. -/
theorem exists_steps_handle (workers : Nat) {d : Desk}
    (handles : Relation.ReflTransGen (Desk.Step command) s.desk d) :
    ∃ crew : Crew, crew.books = s.crew.books ∧
      Relation.ReflTransGen (Step command workers) s { s with desk := d, crew := crew } := by
  induction handles with
  | refl => exact ⟨s.crew, rfl, .refl⟩
  | @tail d d' _ step ih =>
    obtain ⟨crew, books, steps⟩ := ih
    refine ⟨if d'.cancelled then crew.cancel else crew, ?_, steps.tail (.handle step)⟩
    split <;> exact books

theorem Sound.returns_waiting (h : s.Sound command) (waits : s.main = .waiting) :
    Returns command workers s := by
  have desk := h.desk
  rw [waits] at desk
  obtain ⟨d, handles, done⟩ := desk.finishes
  obtain ⟨crew, books, steps⟩ := exists_steps_handle workers handles
  exact ⟨_, _, steps.tail (.join waits done), rfl, books, rfl⟩

theorem Sound.returns_closing (h : s.Sound command) (closes : s.main = .closing) :
    Returns command workers s := by
  have close : Step command workers s _ := .close closes
  exact close.returns rfl rfl ((close.sound h).returns_waiting rfl)

theorem Sound.returns_joining (h : s.Sound command) {fault : Option Fault}
    (planned : s.planner = some fault) (joins : s.main = .joining) :
    Returns command workers s := by
  have joined : Step command workers s _ := .joined joins planned
  exact joined.returns rfl rfl ((joined.sound h).returns_closing rfl)

/-- Once the reader and the planner have ended, nothing keeps the run from its end. -/
theorem Sound.returns (h : s.Sound command) (finished : s.crew.reader = .finished)
    {fault : Option Fault} (planned : s.planner = some fault) : Returns command workers s := by
  cases hmain : s.main with
  | executing =>
    have executed : Step command workers s _ := .executed hmain finished
    exact executed.returns rfl rfl ((executed.sound h).returns_joining planned rfl)
  | joining => exact h.returns_joining planned hmain
  | closing => exact h.returns_closing hmain
  | waiting => exact h.returns_waiting hmain
  | returned r => exact ⟨s, r, .refl, hmain, rfl, rfl⟩

/-- What stands when the run has closed the collection: every command that was submitted is done,
and its failure was reported, if it had one. -/
theorem Sound.collected (h : s.Sound command) {r : Option Fault} (returned : s.main = .returned r) :
    Desk.Collected command s.reported s.desk r ∧
      (∃ fault, s.planner = some fault ∧ s.reported = s.crew.books.faults ++ fault.toList) ∧
      s.crew.books.reports.Perm (s.crew.completed.filterMap Carried.failure?) ∧
      (s.crew.completed.map Prod.fst).Perm s.crew.submitted := by
  obtain ⟨done, rfl⟩ := h.result r returned
  obtain ⟨empty, idle⟩ := h.idle (h.waited.resolve_left (by simp [returned]))
  refine ⟨h.desk.collected done, ?_, ?_, ?_⟩
  · have accounted := h.accounted
    simpa only [Accounted, returned] using accounted
  · have reports := h.books.reports
    simpa [Crew.carried, idle] using reports
  · have pool := h.pool
    rw [Pool.Accounted] at pool
    simpa [Crew.pool, Pool.inFlight, empty, idle, List.map_map, Function.comp_def] using pool.symm

end Returning

/-! ### What becomes of the reports -/

section Collecting

/-- Any number of parties may report any faults in any order of their steps: the collection cannot
get stuck, each step brings its end nearer, and no report is lost. A desk that is done has kept the
faults before the first shortage that are no cancellations, has cancelled the run exactly if there
was a shortage, has told each of these faults once, and answers with what it kept. In a run the
failures of the commands and the fault that ended the planner are among the reports. -/
theorem reports_collected (command : String) :
    (∀ plans s, Collection.Steps command (.start plans) s →
      ((∀ r, s.closing ≠ .returned r) → ∃ s', Collection.Step command s s') ∧
      (∀ s', Collection.Step command s s' → s'.rank < s.rank) ∧
      ∀ r, s.closing = .returned r →
        Desk.Collected command s.reported s.desk r ∧ s.reported.Perm plans.flatten ∧
          ∀ plan ∈ plans, plan.Sublist s.reported) ∧
    ∀ commands workers s, Reachable command commands workers s →
      (∀ fault, s.crew.reader = .finished → s.planner = some fault →
        Returns command workers s) ∧
      ∀ r, s.main = .returned r →
        Desk.Collected command s.reported s.desk r ∧
        (∃ fault, s.planner = some fault ∧
          s.reported = s.crew.books.faults ++ fault.toList) ∧
        s.crew.books.reports.Perm (s.crew.completed.filterMap Carried.failure?) ∧
        (s.crew.completed.map Prod.fst).Perm s.crew.submitted := by
  refine ⟨fun plans s steps => ?_, fun commands workers s reachable => ?_⟩
  · have sound := Collection.Steps.sound steps
    exact ⟨sound.moves, fun s' step => step.rank_lt, fun r => sound.collected⟩
  · have sound := reachable.sound
    exact ⟨fun fault finished => sound.returns finished, fun r => sound.collected⟩

/-- One party reports a refusal and a cancellation, the other one a shortage and a refusal. -/
def twoReporters : List (List Fault) :=
  [[.execution "cp a b" (.plain .storage "denied"), .plain .cancelled ""],
    [.exhausted, .plain .storage "later"]]

def interleaved : List Fault :=
  [.execution "cp a b" (.plain .storage "denied"), .exhausted, .plain .cancelled "",
    .plain .storage "later"]

theorem steps_twoReporters (command : String) :
    ∃ s r, Collection.Steps command (.start twoReporters) s ∧ s.closing = .returned r ∧
      s.reported = interleaved := by
  have first : Collection.Steps command (.start twoReporters) _ :=
    .single (@Collection.Step.report _ _ [] _ _ _ rfl)
  have second := first.tail (@Collection.Step.report _ _ [_] [] _ _ rfl)
  have third := second.tail (@Collection.Step.report _ _ [] _ _ _ rfl)
  have fourth := third.tail (@Collection.Step.report _ _ [_] [] _ _ rfl)
  have closes := fourth.tail (.close rfl (by simp))
  obtain ⟨s, r, steps, returned, reported⟩ := (Collection.Steps.sound closes).returns rfl
  exact ⟨s, r, closes.trans steps, returned, reported⟩

/-- Steps of a crew that nobody comes between. -/
theorem exists_steps_work {crew : Crew} (works : Crew.Steps workers s.crew crew) :
    ∃ s', Relation.ReflTransGen (Step command workers) s s' ∧ s'.crew = crew ∧
      s'.planner = s.planner := by
  induction works with
  | refl => exact ⟨s, .refl, rfl, rfl⟩
  | tail _ step ih =>
    obtain ⟨s', steps, rfl, planner⟩ := ih
    exact ⟨_, steps.tail (.work step), rfl, planner⟩

/-- Two workers meet three failures, and the planner ends with a fault. -/
theorem steps_assorted (command : String) (f : Fault) :
    ∃ s r, Reachable command Crew.assorted 2 s ∧ s.main = .returned r ∧
      s.crew.books.faults = (Crew.serial Crew.denying () .zero Crew.assorted).2 ∧
      s.planner = some (some f) := by
  obtain ⟨crew, works, finished, -, faults⟩ :=
    Crew.exists_steps_serial Crew.denying (by decide : 0 < 2) () Crew.assorted [] [] ⟨.zero, [], []⟩
  obtain ⟨s, steps, rfl, planner⟩ : ∃ s, Reachable command Crew.assorted 2 s ∧ s.crew = crew ∧
      s.planner = none := exists_steps_work works
  have planned : Reachable command Crew.assorted 2 _ := steps.tail (.plan (some f) planner)
  obtain ⟨s', r, ends, returned, books, planner'⟩ := planned.sound.returns finished rfl
  exact ⟨s', r, planned.trans ends, returned, by rw [books, faults]; rfl, planner'⟩

/-- What is told where it is known what was kept and which shortage ended the run. -/
theorem told_of_collected {es kept : List Fault} {fatal : Option Fault} {d : Desk}
    {r : Option Fault} {reports : List Notice} (h : Desk.Collected command es d r)
    (hkept : d.ledger.kept = kept) (hfatal : d.ledger.fatal = fatal)
    (hreports : List.Forall₂ (Desk.Reported command) kept reports) :
    d.told = reports ++ fatal.toList.flatMap fun f =>
      [.warning Ledger.shortageAdvice, .error f.message] := by
  obtain ⟨reports', reported, told⟩ := h.told
  rw [hkept] at reported
  rw [hfatal] at told
  obtain rfl := List.right_unique_forall₂' (Desk.rightUnique_reported command) reported hreports
  exact told

/-- The first party's refusal is all that is kept before the shortage. A run with three failures
and a planner that fails as well reports four faults and keeps them. -/
theorem reports_collected_interleaved :
    (∃ s r, Collection.Steps "sync" (.start twoReporters) s ∧ s.closing = .returned r ∧
      s.reported.Perm twoReporters.flatten ∧
      s.desk.ledger.kept = [.execution "cp a b" (.plain .storage "denied")] ∧
      s.desk.ledger.fatal = some .exhausted ∧ s.desk.cancelled = true ∧
      s.desk.told = [.error "\"cp a b\": denied", .warning Ledger.shortageAdvice,
        .error "too many open files"] ∧
      r = some (.many [.execution "cp a b" (.plain .storage "denied")])) ∧
    ∃ s r, Reachable "sync" Crew.assorted 2 s ∧ s.main = .returned r ∧
      s.crew.books.reports.length = 3 ∧ s.reported.length = 4 ∧
      s.desk.ledger.kept = s.reported ∧ s.desk.cancelled = false ∧
      s.desk.told = [.error "\"mv\": unknown operation: mv",
        .error "\"cp\": list index out of range",
        .error "\"cp --raw=true \"a\" \"s3://b/a\"\": denied", .error "\"sync\": times differ"] := by
  obtain ⟨collections, sessions⟩ := reports_collected "sync"
  constructor
  · obtain ⟨s, r, steps, returned, reported⟩ := steps_twoReporters "sync"
    obtain ⟨-, -, ends⟩ := collections _ s steps
    obtain ⟨collected, complete, -⟩ := ends r returned
    have cut : interleaved.findIdx Fault.isDescriptorShortage = 1 := by decide +kernel
    have kept := collected.kept
    have fatal := collected.fatal
    rw [reported, cut] at kept fatal
    refine ⟨s, r, steps, returned, complete, kept, fatal, ?_, ?_, ?_⟩
    · rw [collected.cancelled, fatal]
      rfl
    · exact told_of_collected collected kept fatal (.cons (.ofCommand "cp a b" _) .nil)
    · rw [collected.result, kept]
      rfl
  · obtain ⟨s, r, reachable, returned, faults, planner⟩ :=
      steps_assorted "sync" (.plain .value "times differ")
    obtain ⟨-, ends⟩ := sessions _ _ s reachable
    obtain ⟨collected, ⟨fault, planned, reported⟩, -⟩ := ends r returned
    obtain rfl := Option.some.inj (planner.symm.trans planned)
    rw [faults] at reported
    have cut : s.reported.findIdx Fault.isDescriptorShortage = 4 := by
      rw [reported]
      decide +kernel
    have kept := collected.kept
    have fatal := collected.fatal
    rw [cut, reported] at kept fatal
    refine ⟨s, r, reachable, returned, ?_, by rw [reported]; rfl, ?_, ?_, ?_⟩
    · have length := congrArg List.length faults
      rw [Books.faults, List.length_map] at length
      exact length
    · rw [kept, reported]
      rfl
    · rw [collected.cancelled, fatal]
      rfl
    · exact told_of_collected collected kept fatal
        (.cons (.ofCommand "mv" _) (.cons (.ofCommand "cp" _)
          (.cons (.ofCommand _ _) (.cons (.ofRun (by simp)) .nil))))

end Collecting

end Session

end StoreSync
