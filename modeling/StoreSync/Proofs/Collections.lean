import Mathlib.Data.List.Forall2
import Mathlib.Data.List.Induction
import StoreSync.Collection
import StoreSync.Proofs.Pipelines
import StoreSync.Proofs.WrappedFaults

/-!
What comes of the faults that several parties report to one desk. The desk reads its letters in the
order in which they were posted, so its ledger is at every point that of the faults it is done
with, and what it has told belongs to these (`Desk.Sound`). The first shortage of file descriptors
splits the faults: of those before it all but the cancellations are kept, those behind it leave no
trace (`Ledger.ofFaults_eq`). A collection comes to its end under every order of its steps.
-/
namespace StoreSync

/-! ### The ledger of many faults -/

namespace Ledger

section Splitting

/-- The faults before the first shortage, without the cancellations. -/
def keptOf (es : List Fault) : List Fault :=
  (es.take (es.findIdx Fault.isDescriptorShortage)).filter fun f => !f.isCancellation

def fatalOf (es : List Fault) : Option Fault := es[es.findIdx Fault.isDescriptorShortage]?

def split (es : List Fault) : Ledger := ⟨keptOf es, fatalOf es⟩

def toldOf (command : String) (l : Ledger) : List Notice :=
  l.kept.map (report command) ++
    l.fatal.toList.flatMap fun f => [.warning shortageAdvice, .error f.message]

variable {es : List Fault}

theorem ofFaults_append (es : List Fault) (f : Fault) :
    ofFaults (es ++ [f]) = (ofFaults es).record f := List.foldl_append ..

theorem split_append_of_fatal (f : Fault) (h : (fatalOf es).isSome) :
    split (es ++ [f]) = split es := by
  have inside : es.findIdx Fault.isDescriptorShortage < es.length := by
    simpa [fatalOf] using h
  have same : (es ++ [f]).findIdx Fault.isDescriptorShortage =
      es.findIdx Fault.isDescriptorShortage := by rw [List.findIdx_append, if_pos inside]
  simp only [split, keptOf, fatalOf, same, List.take_append_of_le_length (Nat.le_of_lt inside),
    List.getElem?_append_left inside]

/-- As long as there is no shortage, the next fault decides for itself. -/
theorem split_append_of_live (f : Fault) (h : fatalOf es = none) :
    split (es ++ [f]) =
      if f.isDescriptorShortage then ⟨keptOf es, some f⟩
      else if f.isCancellation then split es
      else ⟨keptOf es ++ [f], none⟩ := by
  have all : es.findIdx Fault.isDescriptorShortage = es.length := by
    rw [fatalOf, List.getElem?_eq_none_iff] at h
    exact Nat.le_antisymm List.findIdx_le_length h
  have next : (es ++ [f]).findIdx Fault.isDescriptorShortage =
      es.length + [f].findIdx Fault.isDescriptorShortage := by
    rw [List.findIdx_append, if_neg (by omega), Nat.add_comm]
  have whole : (es ++ [f]).take (es.length + 1) = es ++ [f] := List.take_of_length_le (by simp)
  cases hshort : f.isDescriptorShortage with
  | true => simp [split, keptOf, fatalOf, all, next, List.findIdx_cons, hshort]
  | false =>
    cases hcancel : f.isCancellation <;>
      simp [split, keptOf, fatalOf, all, next, whole, List.findIdx_cons, hshort, hcancel]

/-- A further fault changes the ledger as it is judged. -/
theorem split_append (f : Fault) : split (es ++ [f]) = (split es).record f := by
  rcases hfatal : fatalOf es with _ | g
  · rw [split_append_of_live f hfatal]
    cases hshort : f.isDescriptorShortage <;> cases hcancel : f.isCancellation <;>
      simp [record, judge, split, hfatal, hshort, hcancel]
  · rw [split_append_of_fatal f (by simp [hfatal])]
    simp [record, judge, split, hfatal]

/-- What is told of it comes behind what was told before. -/
theorem toldOf_split_append (command : String) (f : Fault) :
    toldOf command (split (es ++ [f])) =
      toldOf command (split es) ++ (split es).notices command f := by
  rcases hfatal : fatalOf es with _ | g
  · rw [split_append_of_live f hfatal]
    cases hshort : f.isDescriptorShortage <;> cases hcancel : f.isCancellation <;>
      simp [notices, judge, split, toldOf, hfatal, hshort, hcancel]
  · rw [split_append_of_fatal f (by simp [hfatal])]
    simp [notices, judge, split, hfatal]

/-- The ledger of faults is split at the first shortage, by induction from their end. -/
theorem ofFaults_eq (es : List Fault) : ofFaults es = split es := by
  induction es using List.reverseRecOn with
  | nil => rfl
  | append_singleton es f ih =>
    rw [ofFaults_append, split_append, ih]

end Splitting

end Ledger

/-! ### The steps of a desk -/

namespace Desk

variable {command : String} {es : List Fault} {closed : Bool} {d d' : Desk}

section Reading

def held : Handling → List Fault
  | .judging f | .telling f _ => [f]
  | _ => []

def due (command : String) (d : Desk) : List Notice :=
  match d.handling with
  | .judging f => d.ledger.notices command f
  | .telling _ left => left
  | _ => []

def isCancelling : Handling → Bool
  | .cancelling => true
  | _ => false

def isFinished : Handling → Bool
  | .finished => true
  | _ => false

def letters (es : List Fault) (closed : Bool) : List Letter :=
  es.map .fault ++ if closed then [.lastWord] else []

def read (d : Desk) : List Letter := letters (d.handled ++ held d.handling) (isFinished d.handling)

/-- What holds of a desk to which `es` were reported. -/
structure Sound (command : String) (es : List Fault) (closed : Bool) (d : Desk) : Prop where
  posted : letters es closed = d.read ++ d.queue
  ledger : d.ledger = .ofFaults d.handled
  told : d.told ++ d.due command =
    Ledger.toldOf command (.ofFaults (d.handled ++ held d.handling))
  cancelled : d.ledger.cancelled = (d.cancelled || isCancelling d.handling)

theorem sound_start (command : String) : start.Sound command [] false := ⟨rfl, rfl, rfl, rfl⟩

theorem Sound.post_faults (h : d.Sound command es false) (fs : List Fault) :
    (d.post (fs.map .fault)).Sound command (es ++ fs) false where
  posted := by
    have posted := h.posted
    simp only [letters, Bool.false_eq_true, if_false, List.append_nil, List.map_append] at posted ⊢
    rw [posted]
    exact List.append_assoc ..
  ledger := h.ledger
  told := h.told
  cancelled := h.cancelled

theorem Sound.post_lastWord (h : d.Sound command es false) :
    (d.post [.lastWord]).Sound command es true where
  posted := by
    have posted := h.posted
    simp only [letters, Bool.false_eq_true, if_false, if_true, List.append_nil] at posted ⊢
    rw [posted]
    exact List.append_assoc ..
  ledger := h.ledger
  told := h.told
  cancelled := h.cancelled

theorem toldOf_append (es : List Fault) (f : Fault) :
    Ledger.toldOf command (.ofFaults (es ++ [f])) =
      Ledger.toldOf command (.ofFaults es) ++ (Ledger.ofFaults es).notices command f := by
  simpa only [Ledger.ofFaults_eq] using Ledger.toldOf_split_append command f

/-- What a desk does with a fault in the end agrees with the verdict on it. -/
theorem cancelled_record (l : Ledger) (f : Fault) :
    (l.record f).cancelled = (l.cancelled || isCancelling (afterEntry l f)) := by
  unfold Ledger.record afterEntry
  cases hjudge : l.judge f <;> simp [Ledger.cancelled, isCancelling]

theorem idle_afterEntry (l : Ledger) (f : Fault) :
    held (afterEntry l f) = [] ∧ isFinished (afterEntry l f) = false := by
  unfold afterEntry
  split <;> exact ⟨rfl, rfl⟩

theorem due_of_held (h : held d.handling = []) : d.due command = [] := by
  unfold due held at *
  split <;> simp_all

/-- Reading, telling and entering keep the letters, the ledger and what was told in line. -/
theorem Step.sound (step : Step command d d') (h : d.Sound command es closed) :
    d'.Sound command es closed := by
  obtain ⟨posted, ledger, told, cancelled⟩ := h
  cases step with
  | @take f rest waits next =>
    rw [waits, due_of_held (by rw [waits]; rfl)] at told
    refine ⟨?_, ledger, ?_, by simpa [waits, isCancelling] using cancelled⟩
    · rw [posted, next]
      simp [read, letters, waits, held, isFinished]
    · simp only [List.append_nil, held] at told
      simp only [due, held, toldOf_append, told, ledger]
  | @stop rest waits next =>
    refine ⟨?_, ledger, by simpa [due, held, waits] using told,
      by simpa [waits, isCancelling] using cancelled⟩
    rw [posted, next]
    simp [read, letters, waits, held, isFinished]
  | judge judges =>
    refine ⟨?_, ledger, by simpa [due, held, judges] using told,
      by simpa [judges, isCancelling] using cancelled⟩
    simpa [read, judges, held, isFinished] using posted
  | tell tells =>
    refine ⟨?_, ledger, by simpa [due, held, tells] using told,
      by simpa [tells, isCancelling] using cancelled⟩
    simpa [read, tells, held, isFinished] using posted
  | @enter f tells =>
    obtain ⟨empty, unfinished⟩ := idle_afterEntry d.ledger f
    refine ⟨?_, ?_, ?_, ?_⟩
    · rw [posted, read, read, tells, empty, unfinished, List.append_nil]
      rfl
    · rw [ledger, Ledger.ofFaults_append]
    · rw [due, tells, List.append_nil] at told
      rw [due_of_held empty, empty, List.append_nil, List.append_nil]
      exact told
    · have cancelled' : d.ledger.cancelled = d.cancelled := by
        simpa [tells, isCancelling] using cancelled
      rw [cancelled_record, cancelled']
  | cancel cancels =>
    refine ⟨?_, ledger, by simpa [due, held, cancels] using told, ?_⟩
    · simpa [read, cancels, held, isFinished] using posted
    · simpa [cancels, isCancelling] using cancelled

theorem lastWord_mem_letters : Letter.lastWord ∈ letters es closed ↔ closed = true := by
  simp [letters]

/-- Behind the last word there is nothing. -/
theorem eq_of_letters {handled : List Fault} {rest : List Letter}
    (h : letters es closed = letters handled true ++ rest) : closed = true ∧ handled = es := by
  induction handled generalizing es with
  | nil =>
    cases es <;> cases closed <;> simp_all [letters]
  | cons g handled ih =>
    rcases es with _ | ⟨f, es⟩
    · cases closed <;> simp [letters] at h
    · simp only [letters, List.map_cons, List.cons_append, List.cons.injEq,
        Letter.fault.injEq] at h
      obtain ⟨rfl, h⟩ := h
      obtain ⟨closed, rfl⟩ := ih h
      exact ⟨closed, rfl⟩

end Reading

section Finishing

/-- The report of a kept fault. One of a command stands under the text of this command, any other
under `command`, the one that the run reports under. -/
inductive Reported (command : String) : Fault → Notice → Prop
  | ofCommand (text : String) (cause : Fault) :
      Reported command (.execution text cause) (.error ("\"" ++ text ++ "\": " ++ cause.message))
  | ofRun {f : Fault} (other : ∀ text cause, f ≠ .execution text cause) :
      Reported command f (.error ("\"" ++ command ++ "\": " ++ f.message))

theorem reported_report (command : String) (f : Fault) :
    Reported command f (Ledger.report command f) := by
  cases f with
  | execution text cause =>
    have message : (Fault.execution text cause).message =
        "\"" ++ text ++ "\": " ++ cause.message := rfl
    rw [Ledger.report, message]
    exact .ofCommand text cause
  | _ => exact .ofRun (by simp)

/-- A fault has one report only. -/
theorem rightUnique_reported (command : String) : Relator.RightUnique (Reported command) := by
  intro f n n' h h'
  cases h with
  | ofCommand text cause =>
    cases h' with
    | ofCommand => rfl
    | ofRun other => exact absurd rfl (other text cause)
  | ofRun other =>
    cases h' with
    | ofCommand text cause => exact absurd rfl (other text cause)
    | ofRun => rfl

theorem reported_map_report (command : String) (kept : List Fault) :
    List.Forall₂ (Reported command) kept (kept.map (Ledger.report command)) := by
  induction kept with
  | nil => exact .nil
  | cons f kept ih => exact .cons (reported_report command f) ih

/-- What a desk that is done has made of the faults `es`, and what it answers with. -/
structure Collected (command : String) (es : List Fault) (d : Desk) (result : Option Fault) :
    Prop where
  /-- Of the faults before the first shortage all are kept that are no cancellations. -/
  kept : d.ledger.kept =
    (es.take (es.findIdx Fault.isDescriptorShortage)).filter fun f => !f.isCancellation
  fatal : d.ledger.fatal = es[es.findIdx Fault.isDescriptorShortage]?
  cancelled : d.cancelled = d.ledger.fatal.isSome
  /-- One report for each kept fault, in order, then the two lines on the shortage, and nothing of
  other faults. -/
  told : ∃ reports, List.Forall₂ (Reported command) d.ledger.kept reports ∧
    d.told = reports ++ d.ledger.fatal.toList.flatMap fun f =>
      [.warning ("bucketsync is hitting the max open file limit allowed by your OS. " ++
        "Either increase the open file limit or try to decrease the number of workers " ++
        "with the '--workers' option."), .error f.message]
  result : result = if d.ledger.kept = [] then none else some (.many d.ledger.kept)

theorem Sound.collected (h : d.Sound command es closed) (finished : d.handling = .finished) :
    Collected command es d d.ledger.combined? := by
  have posted := h.posted
  simp only [read, finished, held, isFinished, List.append_nil] at posted
  obtain ⟨-, rfl⟩ := eq_of_letters posted
  have ledger : d.ledger = .split d.handled := h.ledger.trans (Ledger.ofFaults_eq _)
  have told := h.told
  simp only [due, finished, held, List.append_nil] at told
  rw [← h.ledger] at told
  unfold Ledger.toldOf Ledger.shortageAdvice at told
  refine ⟨congrArg Ledger.kept ledger, congrArg Ledger.fatal ledger, ?_, ?_, ?_⟩
  · have cancelled := h.cancelled
    simp only [finished, isCancelling, Bool.or_false] at cancelled
    exact cancelled.symm
  · exact ⟨_, reported_map_report command d.ledger.kept, told⟩
  · simp [Ledger.combined?, Fault.combine?]

def handlingRank : Handling → Nat
  | .waiting => 0
  | .judging _ => 5
  | .telling _ left => left.length + 2
  | .cancelling => 1
  | .finished => 0

def rank (d : Desk) : Nat := 6 * d.queue.length + handlingRank d.handling

theorem rank_post (d : Desk) (letters : List Letter) :
    (d.post letters).rank = d.rank + 6 * letters.length := by
  simp only [rank, post, List.length_append]
  omega

theorem length_notices_le (command : String) (l : Ledger) (f : Fault) :
    (l.notices command f).length ≤ 2 := by
  unfold Ledger.notices
  split <;> simp

theorem handlingRank_afterEntry (l : Ledger) (f : Fault) : handlingRank (afterEntry l f) ≤ 1 := by
  unfold afterEntry
  split <;> simp [handlingRank]

theorem Step.rank_lt (step : Step command d d') : d'.rank < d.rank := by
  cases step with
  | take waits next =>
    simp only [rank, waits, next, handlingRank, List.length_cons]
    omega
  | stop waits next =>
    simp only [rank, waits, next, handlingRank, List.length_cons]
    omega
  | @judge f judges =>
    have few := length_notices_le command d.ledger f
    simp only [rank, judges, handlingRank]
    omega
  | tell tells =>
    simp only [rank, tells, handlingRank, List.length_cons]
    omega
  | @enter f tells =>
    have few := handlingRank_afterEntry d.ledger f
    have before : handlingRank d.handling = 2 := by rw [tells]; rfl
    show 6 * d.queue.length + handlingRank (afterEntry d.ledger f) < d.rank
    rw [rank, before]
    omega
  | cancel cancels =>
    simp only [rank, cancels, handlingRank]
    omega

/-- A desk goes on until it has read the last word. -/
theorem Sound.moves (h : d.Sound command es true) (unfinished : d.handling ≠ .finished) :
    ∃ d', Step command d d' := by
  cases hhandling : d.handling with
  | waiting =>
    rcases hqueue : d.queue with _ | ⟨_ | _, rest⟩
    · have posted := h.posted
      simp only [read, hhandling, held, isFinished, hqueue, List.append_nil] at posted
      have said : Letter.lastWord ∈ letters d.handled false := posted ▸ lastWord_mem_letters.mpr rfl
      exact absurd (lastWord_mem_letters.mp said) Bool.false_ne_true
    · exact ⟨_, .take hhandling hqueue⟩
    · exact ⟨_, .stop hhandling hqueue⟩
  | judging f => exact ⟨_, .judge hhandling⟩
  | telling f left =>
    cases left with
    | nil => exact ⟨_, .enter hhandling⟩
    | cons n left => exact ⟨_, .tell hhandling⟩
  | cancelling => exact ⟨_, .cancel hhandling⟩
  | finished => exact absurd hhandling unfinished

theorem Step.unfinished (step : Step command d d') : d.handling ≠ .finished := by
  cases step <;> simp_all

/-- A desk comes to the last word that waits for it. -/
theorem Sound.finishes (h : d.Sound command es true) :
    ∃ d', Relation.ReflTransGen (Step command) d d' ∧ d'.handling = .finished := by
  refine exists_end_of_rank rank (fun d h unfinished => ?_) h
  obtain ⟨d', step⟩ := h.moves unfinished
  exact ⟨d', .single step, step.sound h, step.rank_lt⟩

end Finishing

end Desk

/-! ### The end of a collection -/

namespace Collection

variable {command : String} {plans : List (List Fault)} {s s' : Collection}

section Collecting

def isClosed : Closing → Bool
  | .opened => false
  | _ => true

structure Sound (command : String) (plans : List (List Fault)) (s : Collection) : Prop where
  desk : s.desk.Sound command s.reported (isClosed s.closing)
  /-- Each party reports in its own order. -/
  parties : List.Forall₂ (fun plan left => ∃ done, plan = done ++ left ∧ done.Sublist s.reported)
    plans s.reporters
  complete : (s.reported ++ s.reporters.flatten).Perm plans.flatten
  silent : isClosed s.closing = true → ∀ plan ∈ s.reporters, plan = []
  result : ∀ r, s.closing = .returned r →
    s.desk.handling = .finished ∧ r = s.desk.ledger.combined?

theorem sound_start (command : String) (plans : List (List Fault)) :
    (start plans).Sound command plans where
  desk := Desk.sound_start command
  parties := List.forall₂_same.mpr fun _ _ => ⟨[], rfl, .refl _⟩
  complete := .refl _
  silent := nofun
  result := nofun

theorem Sound.report {before after : List (List Fault)} {f : Fault} {rest : List Fault}
    (h : s.Sound command plans) (reports : s.reporters = before ++ (f :: rest) :: after) :
    Sound command plans { s with
      desk := s.desk.post [.fault f]
      reporters := before ++ rest :: after
      reported := s.reported ++ [f] } := by
  have opened : isClosed s.closing = false := by
    by_contra closed
    have silent := h.silent (by simpa using closed) (f :: rest) (by simp [reports])
    cases silent
  refine ⟨?_, ?_, ?_, fun closed => by simp [opened] at closed, h.result⟩
  · have desk := h.desk
    rw [opened] at desk ⊢
    exact desk.post_faults [f]
  · have parties := h.parties
    rw [reports] at parties
    have front := List.forall₂_take_append _ _ _ parties
    obtain ⟨plan, others, ⟨done, rfl, sub⟩, behind, split⟩ :=
      List.forall₂_cons_right_iff.mp (List.forall₂_drop_append _ _ _ parties)
    have longer {plan left : List Fault} :
        (∃ done, plan = done ++ left ∧ done.Sublist s.reported) →
          ∃ done, plan = done ++ left ∧ done.Sublist (s.reported ++ [f]) :=
      fun ⟨done, eq, sub⟩ => ⟨done, eq, sub.trans (List.sublist_append_left _ _)⟩
    rw [← List.take_append_drop before.length plans, split]
    exact List.rel_append (front.imp fun _ _ => longer)
      (.cons ⟨done ++ [f], by simp, sub.append (.refl _)⟩ (behind.imp fun _ _ => longer))
  · have complete := h.complete
    simp only [reports, List.flatten_append, List.flatten_cons, List.cons_append] at complete
    simp only [List.flatten_append, List.flatten_cons, List.append_assoc, List.singleton_append]
    exact (List.perm_middle.symm.append_left _).trans complete

theorem Step.sound (step : Step command s s') (h : s.Sound command plans) :
    s'.Sound command plans := by
  cases step with
  | report reports => exact h.report reports
  | handle step =>
    refine { h with desk := step.sound h.desk, result := fun r returned => ?_ }
    exact absurd (h.result r returned).1 step.unfinished
  | close opened silent =>
    have desk := h.desk
    rw [opened] at desk
    exact { h with desk := desk.post_lastWord, silent := fun _ => silent, result := nofun }
  | join waits done =>
    have closed : isClosed s.closing = true := by rw [waits]; rfl
    have desk := h.desk
    rw [closed] at desk
    refine { h with desk := desk, silent := fun _ => h.silent closed, result := fun r hr => ?_ }
    exact ⟨done, (Closing.returned.inj hr).symm⟩

/-- What a whole run keeps, by induction on its steps. -/
theorem Steps.sound (steps : Steps command (start plans) s) : s.Sound command plans := by
  induction steps with
  | refl => exact sound_start command plans
  | tail _ step ih => exact step.sound ih

def closingRank : Closing → Nat
  | .opened => 8
  | .waiting => 1
  | .returned _ => 0

def rank (s : Collection) : Nat :=
  7 * s.reporters.flatten.length + closingRank s.closing + s.desk.rank

theorem Step.rank_lt (step : Step command s s') : s'.rank < s.rank := by
  cases step with
  | @report before after f rest reports =>
    simp only [rank, reports, Desk.rank_post, List.flatten_append, List.flatten_cons,
      List.length_append, List.length_cons, List.length_nil]
    omega
  | handle step =>
    have nearer := step.rank_lt
    simp only [rank]
    omega
  | close opened silent =>
    simp only [rank, opened, closingRank, Desk.rank_post, List.length_cons, List.length_nil]
    omega
  | join waits done =>
    simp only [rank, waits, closingRank]
    omega

/-- Somebody can go on until the closing has returned. -/
theorem Sound.moves (h : s.Sound command plans) (unreturned : ∀ r, s.closing ≠ .returned r) :
    ∃ s', Step command s s' := by
  cases hclosing : s.closing with
  | opened =>
    by_cases silent : ∀ plan ∈ s.reporters, plan = []
    · exact ⟨_, .close hclosing silent⟩
    · simp only [not_forall] at silent
      obtain ⟨plan, hplan, speaks⟩ := silent
      obtain ⟨f, rest, rfl⟩ := List.exists_cons_of_ne_nil speaks
      obtain ⟨before, after, reports⟩ := List.append_of_mem hplan
      exact ⟨_, .report reports⟩
  | waiting =>
    by_cases done : s.desk.handling = .finished
    · exact ⟨_, .join hclosing done⟩
    · have desk := h.desk
      rw [hclosing] at desk
      obtain ⟨d, step⟩ := desk.moves done
      exact ⟨_, .handle step⟩
  | returned r => exact absurd hclosing (unreturned r)

/-- Who waits for the desk returns, with what was reported. -/
theorem Sound.returns (h : s.Sound command plans) (waits : s.closing = .waiting) :
    ∃ s' r, Steps command s s' ∧ s'.closing = .returned r ∧ s'.reported = s.reported := by
  have desk := h.desk
  rw [waits] at desk
  obtain ⟨d, handles, done⟩ := desk.finishes
  have steps : Steps command s { s with desk := d } :=
    Relation.ReflTransGen.lift (fun d => { s with desk := d })
      (fun _ _ step => Step.handle step) _ _ handles
  exact ⟨_, _, steps.tail (.join waits done), rfl, rfl⟩

/-- What stands when the closing has returned. -/
theorem Sound.collected (h : s.Sound command plans) {r : Option Fault}
    (returned : s.closing = .returned r) :
    Desk.Collected command s.reported s.desk r ∧ s.reported.Perm plans.flatten ∧
      ∀ plan ∈ plans, plan.Sublist s.reported := by
  obtain ⟨done, rfl⟩ := h.result r returned
  have silent := h.silent (by rw [returned]; rfl)
  refine ⟨h.desk.collected done, ?_, ?_⟩
  · simpa [List.flatten_eq_nil_iff.mpr silent] using h.complete
  · intro plan hplan
    obtain ⟨i, hi, rfl⟩ := List.getElem_of_mem hplan
    obtain ⟨same, parties⟩ := List.forall₂_iff_get.mp h.parties
    obtain ⟨done, eq, sub⟩ := parties i hi (same ▸ hi)
    have quiet := silent _ (List.get_mem s.reporters ⟨i, same ▸ hi⟩)
    rw [quiet, List.append_nil] at eq
    exact (show plans[i] = done from eq) ▸ sub

end Collecting

end Collection

end StoreSync
