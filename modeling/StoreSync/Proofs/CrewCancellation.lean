import StoreSync.Proofs.CrewAccounts

/-!
What a cancellation stops. The reader looks at the cancellation once for each command, before it
waits for a slot, and not again when it has one. So a cancelled run still submits the command with
which its reader waits or has a slot in hand, and no other one.
-/
namespace StoreSync

def Reader.admitted? : Reader → Option Command
  | .waiting c | .submitting c => some c
  | _ => none

namespace Crew

variable {cs : List Command} {workers : Nat} {s s' : Crew}

section Dispatch

/-- The commands that are submitted, or will be whatever happens. -/
def admitted (s : Crew) : List Command := s.submitted ++ s.reader.admitted?.toList

/-- In a cancelled run no step admits a command. -/
theorem Step.admitted_eq (step : Step workers s s') (cancelled : s.cancelled = true) :
    s'.admitted = s.admitted := by
  cases step with
  | take reads next => simp [admitted, reads, Reader.admitted?]
  | exhaust reads next => simp [admitted, reads, Reader.admitted?]
  | giveUp reads cancelled => simp [admitted, reads, Reader.admitted?]
  | abandon holds cancelled => simp [admitted, holds, Reader.admitted?]
  | keep holds running => simp [cancelled] at running
  | acquire waits free => simp [admitted, waits, Reader.admitted?]
  | submit submits => simp [admitted, submits, Reader.admitted?]
  | drained drains empty idle => simp [admitted, drains, Reader.admitted?]
  | _ => rfl

/-- Nor does a whole run, by induction on its steps. -/
theorem Steps.admitted_eq (steps : Steps workers s s') (cancelled : s.cancelled = true) :
    s'.admitted = s.admitted := by
  induction steps with
  | refl => rfl
  | tail steps step ih =>
    exact (step.admitted_eq ((Steps.cancelled_eq steps).trans cancelled)).trans ih

theorem submitted_isPrefix_admitted (s : Crew) : s.submitted <+: s.admitted :=
  List.prefix_append _ _

theorem Step.submitted_isPrefix (step : Step workers s s') : s.submitted <+: s'.submitted := by
  cases step with
  | submit submits => exact List.prefix_append _ _
  | _ => exact List.prefix_rfl

theorem Steps.submitted_isPrefix (steps : Steps workers s s') : s.submitted <+: s'.submitted := by
  induction steps with
  | refl => exact List.prefix_rfl
  | tail _ step ih => exact ih.trans step.submitted_isPrefix

/-- From a cancellation on, a run submits what its reader has kept already, and nothing else: not
more on the way, and all of it by the end. So dispatch stops at once exactly when the reader
neither waits for a slot nor has one in hand. -/
theorem cancelled_run_submits (h : Reachable cs workers s) (positive : 0 < workers)
    (cancelled : s.cancelled = true) :
    (∀ s', Steps workers s s' →
      s.submitted <+: s'.submitted ∧ s'.submitted <+: s.admitted ∧
        (s'.reader = .finished → s'.submitted = s.admitted)) ∧
    ((∀ s', Steps workers s s' → s'.submitted = s.submitted) ↔ s.reader.admitted? = none) := by
  have finish {s' : Crew} (steps : Steps workers s s') (finished : s'.reader = .finished) :
      s'.submitted = s.admitted := by
    rw [← Steps.admitted_eq steps cancelled, admitted, finished]
    exact (List.append_nil _).symm
  refine ⟨fun s' steps => ⟨Steps.submitted_isPrefix steps, ?_, finish steps⟩, ?_, ?_⟩
  · rw [← Steps.admitted_eq steps cancelled]
    exact submitted_isPrefix_admitted s'
  · intro stops
    obtain ⟨s', steps, finished⟩ := h.sound.finishes positive
    have all : s.submitted = s.admitted := (stops s' steps).symm.trans (finish steps finished)
    have none : s.reader.admitted?.toList = [] := by simpa [admitted] using all
    exact Option.toList_eq_nil_iff.mp none
  · intro none s' steps
    have all : s.admitted = s.submitted := by simp [admitted, none]
    refine List.IsPrefix.eq_of_length_le ?_ (Steps.submitted_isPrefix steps).length_le
    rw [← all, ← Steps.admitted_eq steps cancelled]
    exact submitted_isPrefix_admitted s'

def outOfFiles : Fault := .system Fault.tooManyFiles "Too many open files" none

/-- One worker begins with the first command while the reader waits with the second one for its
slot. -/
def overtaking : Crew where
  pending := []
  reader := .waiting (Pipeline.copyOf "b")
  free := 0
  submitted := [Pipeline.copyOf "a"]
  queued := []
  tasks := [⟨Pipeline.copyOf "a", .starting⟩]
  completed := []
  unreleased := 0
  cancelled := false
  books := ⟨.zero, [], []⟩

/-- The first command has failed for want of a descriptor, its slot is free again, and its failure
has cancelled the run. -/
def overtaken : Crew := { overtaking with
  free := 1
  tasks := []
  completed := [(Pipeline.copyOf "a", .error outOfFiles)]
  cancelled := true
  books :=
    ⟨⟨0, 0, 1⟩, [.upload (Diff.fileAt "a" 1).location ⟨"s3", "b", "a", true, none⟩ []],
      [(Pipeline.copyOf "a", outOfFiles)]⟩ }

theorem steps_overtaking :
    Steps 1 (start [Pipeline.copyOf "a", Pipeline.copyOf "b"] 1) overtaking :=
  .head (.take rfl rfl) <| .head (.keep rfl rfl) <| .head (.acquire rfl Nat.one_pos) <|
    .head (.submit rfl) <| .head (.take rfl rfl) <| .head (.keep rfl rfl) <|
      .single (.pick rfl Nat.one_pos)

theorem reachable_overtaken :
    Reachable [Pipeline.copyOf "a", Pipeline.copyOf "b"] 1 overtaken := by
  have answered : Task.Run overtaking.books ⟨Pipeline.copyOf "a", .starting⟩ _
      ⟨Pipeline.copyOf "a", .answered (.error outOfFiles)⟩ :=
    .single (.ask (.error outOfFiles) rfl)
  have missed : Task.Run overtaking.books ⟨Pipeline.copyOf "a", .starting⟩ _
      ⟨Pipeline.copyOf "a", .reporting outOfFiles⟩ := answered.tail (.miss rfl)
  have failed : Steps 1 overtaking _ := steps_run rfl (missed.tail .report)
  have released := (failed.tail (@Step.complete _ _ [] [] _ _ rfl)).tail (.release rfl)
  exact (Reachable.trans .refl (steps_overtaking.trans released)).tail (.inr rfl)

/-- That reader gets the slot and submits its command. -/
theorem overtaken_submits :
    Reachable [Pipeline.copyOf "a", Pipeline.copyOf "b"] 1 overtaken ∧ 0 < 1 ∧
      overtaken.cancelled = true ∧ overtaken.reader.admitted? = some (Pipeline.copyOf "b") ∧
      ∃ s, Steps 1 overtaken s ∧ s.submitted ≠ overtaken.submitted := by
  obtain ⟨-, stops⟩ := cancelled_run_submits reachable_overtaken Nat.one_pos rfl
  refine ⟨reachable_overtaken, Nat.one_pos, rfl, rfl, ?_⟩
  by_contra never
  simp only [not_exists, not_and, ne_eq, not_not] at never
  cases stops.mp never

/-- A step of a cancelled run can submit a command: the reader does not look at the cancellation
again when it has its slot. -/
theorem submits_after_cancellation :
    ¬ ∀ (cs : List Command) (workers : Nat) (s s' : Crew), 0 < workers → Reachable cs workers s →
      s.cancelled = true → Step workers s s' → s'.submitted = s.submitted := by
  intro stops
  have acquired : Reachable [Pipeline.copyOf "a", Pipeline.copyOf "b"] 1
      { overtaken with reader := .submitting (Pipeline.copyOf "b"), free := 0 } :=
    reachable_overtaken.tail (.inl (.acquire rfl Nat.one_pos))
  cases stops _ 1 _ _ Nat.one_pos acquired rfl (.submit rfl)

end Dispatch

end Crew

end StoreSync
