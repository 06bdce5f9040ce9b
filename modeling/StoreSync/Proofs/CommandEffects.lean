import Mathlib.Data.List.Basic
import Mathlib.Tactic.SplitIfs
import StoreSync.Proofs.Transfers
import StoreSync.Sync.Run

/-!
What commands leave in the bucket of a destination. A command touches the keys that it names
there, and leaves the same object at each of them wherever it stands in the order, because the
objects that it reads lie elsewhere. Commands that touch different keys can thus be carried out
in any order.
-/
namespace StoreSync.Sync

open ObjectStore Transfer World StoreSync.Action

def Carries (source destination : Side) (c : Command) (w w' : World) : Prop :=
  ∃ op request count, Execution.operation? c = some op ∧ Execution.call c op = .ok request ∧
    performOn source destination request w = (.ok count, w')

/-- The commands are carried out one after the other and none of them fails. -/
inductive Completes (source destination : Side) : World → List Command → World → Prop
  | nil (w : World) : Completes source destination w [] w
  | cons {w w₁ w' : World} {c : Command} {rest : List Command}
      (first : Carries source destination c w w₁)
      (others : Completes source destination w₁ rest w') :
      Completes source destination w (c :: rest) w'

/-- The object that a copy of a location leaves at the key of another one. -/
def arrival (w : World) (s d : Location) (extra : Extra) : Option Object :=
  if s.isRemote then
    (w.store.object? s.bucket s.path).map fun o => copied w.store d.path o extra
  else
    match w.files.readFile s.path with
    | .ok (data, _) => some (uploaded w.store d.path data extra)
    | .error _ => none

def touched (c : Command) : List String :=
  if c.op = Command.copyOp then (c.destination?.map Location.path).toList
  else c.locations.map Location.path

def leaves (w : World) (c : Command) : Option Object :=
  if c.op = Command.copyOp then
    match c.source?, c.destination? with
    | some s, some d => arrival w s d (Execution.extraOf c.flags)
    | _, _ => none
  else none

/-- The commands that a plan has for a bucket: copies into it from elsewhere and removals. -/
inductive Suits (bucket : String) : Command → Prop
  | copy {s d : Location} (flags : Flags) (remote : d.isRemote = true) (into : d.bucket = bucket)
      (elsewhere : s.isRemote = true → s.bucket ≠ bucket) :
      Suits bucket ⟨Command.copyOp, [s, d], flags⟩
  | removal {ls : List Location} (flags : Flags) (within : ∀ l ∈ ls, l.bucket = bucket) :
      Suits bucket ⟨Command.removeOp, ls, flags⟩

/-- The command copies into a bucket or removes from it, wherever the copy comes from. -/
inductive Into (bucket : String) : Command → Prop
  | copy {s d : Location} (flags : Flags) (remote : d.isRemote = true)
      (into : d.bucket = bucket) : Into bucket ⟨Command.copyOp, [s, d], flags⟩
  | removal {ls : List Location} (flags : Flags) (within : ∀ l ∈ ls, l.bucket = bucket) :
      Into bucket ⟨Command.removeOp, ls, flags⟩

variable {w w₁ w₂ w' : World} {source : Side} {client : Nat} {bucket : String} {c : Command}
  {cmds : List Command}

theorem carries_of_fst {destination : Side} (op : Execution.Operation) {request : Call}
    (count : Int) (hop : Execution.operation? c = some op)
    (hcall : Execution.call c op = .ok request)
    (hperform : (performOn source destination request w).1 = .ok count) :
    Carries source destination c w (performOn source destination request w).2 :=
  ⟨op, request, count, hop, hcall, Prod.ext hperform rfl⟩

/-- A copy reads from where nothing changes. -/
theorem arrival_congr {s d : Location} {extra : Extra} (h : SameBeside bucket w w₁)
    (hs : s.isRemote = true → s.bucket ≠ bucket) :
    arrival w₁ s d extra = arrival w s d extra := by
  unfold arrival
  cases hremote : s.isRemote with
  | true =>
    simp only [if_true]
    rw [h.object? (hs hremote)]
    congr 1
    funext o
    exact copied_congr h.now _ _ _
  | false =>
    simp only [Bool.false_eq_true, if_false, h.files]
    rcases w.files.readFile s.path with f | ⟨data, modified⟩
    · rfl
    · exact congrArg some (uploaded_congr h.now h.habits _ _ _)

theorem leaves_congr (hc : Suits bucket c) (h : SameBeside bucket w w₁) :
    leaves w₁ c = leaves w c := by
  cases hc with
  | copy flags _ _ elsewhere =>
    simp only [leaves, if_true, Command.source?, Command.destination?, List.head?_cons,
      List.getLast?_cons_cons, List.getLast?_singleton]
    exact arrival_congr h elsewhere
  | removal => rfl

/-- A copy that is carried out stores what arrives. -/
theorem patched_of_copy {s d : Location} {flags : Flags} (hd : d.isRemote = true)
    (h : Carries source (.client client) ⟨Command.copyOp, [s, d], flags⟩ w w') :
    ∃ o, arrival w s d (Execution.extraOf flags) = some o ∧ o.key = d.path ∧
      Patched d.bucket (Patch.storing o) w w' := by
  obtain ⟨op, request, count, hop, hcall, hperform⟩ := h
  obtain rfl : Execution.Operation.copy = op := by
    simpa [Execution.operation?] using hop
  cases hremote : s.isRemote with
  | true =>
    obtain rfl : Call.copyRemote s d (Execution.extraOf flags) = request := by
      simpa [Execution.call, Execution.copyCall, Command.source?, Command.destination?, hremote,
        hd] using hcall
    obtain ⟨n, w₁, hclient, hrest⟩ := gives_bind_iff.mp hperform
    obtain ⟨-, rfl⟩ := gives_pure_iff.mp hclient
    obtain ⟨u, w₂, hcopy, hpure⟩ := gives_bind_iff.mp hrest
    obtain ⟨-, rfl⟩ := gives_pure_iff.mp hpure
    obtain ⟨o, ho, hpatched⟩ := patched_of_copyRemote hcopy
    exact ⟨_, by simp [arrival, hremote, ho], rfl, hpatched⟩
  | false =>
    obtain rfl : Call.upload s d (Execution.extraOf flags) = request := by
      simpa [Execution.call, Execution.copyCall, Command.source?, Command.destination?, hremote,
        hd] using hcall
    obtain ⟨n, w₁, hclient, hrest⟩ := gives_bind_iff.mp hperform
    obtain ⟨-, rfl⟩ := gives_pure_iff.mp hclient
    obtain ⟨u, w₂, hupload, hpure⟩ := gives_bind_iff.mp hrest
    obtain ⟨-, rfl⟩ := gives_pure_iff.mp hpure
    obtain ⟨data, modified, hread, hpatched⟩ := patched_of_upload hupload
    exact ⟨_, by simp [arrival, hremote, hread], rfl, hpatched⟩

theorem patched_of_removal {ls : List Location} {flags : Flags}
    (hbucket : ∀ l ∈ ls, l.bucket = bucket)
    (h : Carries source (.client client) ⟨Command.removeOp, ls, flags⟩ w w') :
    Patched bucket (Patch.erasing (ls.map Location.path)) w w' := by
  obtain ⟨op, request, count, hop, hcall, hperform⟩ := h
  obtain rfl : Execution.Operation.remove = op := by
    have hne : Command.removeOp ≠ Command.copyOp := by decide
    simpa [Execution.operation?, hne] using hop
  obtain rfl : Call.remove ls = request := Except.ok.inj hcall
  exact patched_of_removeRemote hbucket hperform

theorem Suits.into (h : Suits bucket c) : Into bucket c := by
  cases h with
  | copy flags remote into _ => exact .copy flags remote into
  | removal flags within => exact .removal flags within

/-- What one command does: it leaves its object at the keys that it touches, and it has one if it
is a copy. -/
theorem patched_of_carries (hc : Into bucket c) (h : Carries source (.client client) c w w') :
    Patched bucket (fun key => if key ∈ touched c then some (leaves w c) else none) w w' ∧
      ((leaves w c).isSome = true ↔ c.op = Command.copyOp) := by
  cases hc with
  | @copy s d flags remote into =>
    obtain ⟨o, ho, hkey, hpatched⟩ := patched_of_copy remote h
    have hleaves : leaves w ⟨Command.copyOp, [s, d], flags⟩ = some o := by
      simpa [leaves, Command.source?, Command.destination?] using ho
    refine ⟨into ▸ hpatched.congr fun key => ?_, by simp [hleaves]⟩
    simp [Patch.storing, touched, Command.destination?, hleaves, hkey]
  | @removal ls flags within =>
    have hne : Command.removeOp ≠ Command.copyOp := by decide
    refine ⟨(patched_of_removal within h).congr fun key => ?_, by simp [leaves, hne]⟩
    simp only [Patch.erasing, touched, leaves, if_neg hne]

/-- Commands that touch different keys of a bucket: each leaves its object where it touches the
bucket, and all else stays. -/
theorem objects_of_completes (hsuits : ∀ c ∈ cmds, Suits bucket c)
    (hdisjoint : cmds.Pairwise fun c c' => List.Disjoint (touched c) (touched c'))
    (h : Completes source (.client client) w cmds w') :
    SameBeside bucket w w' ∧
      (∀ c ∈ cmds, c.op = Command.copyOp → (leaves w c).isSome = true) ∧
      ∀ key, (∀ c ∈ cmds, key ∈ touched c → w'.store.object? bucket key = leaves w c) ∧
        ((∀ c ∈ cmds, key ∉ touched c) →
          w'.store.object? bucket key = w.store.object? bucket key) := by
  induction h with
  | nil w => exact ⟨(Alike.refl w).sameBeside bucket, by simp, by simp⟩
  | @cons w w₁ w' c rest first others ih =>
    have hrest : ∀ d ∈ rest, Suits bucket d := fun d hd => hsuits d (List.mem_cons_of_mem c hd)
    obtain ⟨hfirst, hsome⟩ := patched_of_carries (hsuits c List.mem_cons_self).into first
    obtain ⟨hhead, htail⟩ := List.pairwise_cons.mp hdisjoint
    obtain ⟨hsame, hcopies, hkeys⟩ := ih hrest htail
    have hcongr : ∀ d ∈ rest, leaves w₁ d = leaves w d := fun d hd =>
      leaves_congr (hrest d hd) hfirst.toSameBeside
    refine ⟨hfirst.toSameBeside.trans hsame, ?_, ?_⟩
    · intro d hd hop
      rcases List.mem_cons.mp hd with rfl | hd
      · exact hsome.mpr hop
      · exact hcongr d hd ▸ hcopies d hd hop
    · intro key
      obtain ⟨htouched, huntouched⟩ := hkeys key
      constructor
      · intro d hd hkey
        rcases List.mem_cons.mp hd with rfl | hd
        · have hlater : ∀ d' ∈ rest, key ∉ touched d' := fun d' hd' hkey' =>
            hhead d' hd' hkey hkey'
          rw [huntouched hlater, hfirst.objects, if_pos hkey]
          rfl
        · rw [htouched d hd hkey, hcongr d hd]
      · intro hnone
        have hkey : key ∉ touched c := hnone c List.mem_cons_self
        rw [huntouched fun d hd => hnone d (List.mem_cons_of_mem c hd), hfirst.objects,
          if_neg hkey]
        rfl

/-- Two orders of commands that touch different keys end with the same objects. -/
theorem objects_of_completes_perm {cmds' : List Command} (hperm : cmds'.Perm cmds)
    (hsuits : ∀ c ∈ cmds, Suits bucket c)
    (hdisjoint : cmds.Pairwise fun c c' => List.Disjoint (touched c) (touched c'))
    (h : Completes source (.client client) w cmds' w') :
    SameBeside bucket w w' ∧
      (∀ c ∈ cmds, c.op = Command.copyOp → (leaves w c).isSome = true) ∧
      ∀ key, (∀ c ∈ cmds, key ∈ touched c → w'.store.object? bucket key = leaves w c) ∧
        ((∀ c ∈ cmds, key ∉ touched c) →
          w'.store.object? bucket key = w.store.object? bucket key) := by
  have hdisjoint' : cmds'.Pairwise fun c c' => List.Disjoint (touched c) (touched c') :=
    hperm.symm.pairwise hdisjoint fun h _ hleft hright => h hright hleft
  have hsuits' : ∀ c ∈ cmds', Suits bucket c := fun c hc => hsuits c (hperm.mem_iff.mp hc)
  simpa only [hperm.mem_iff] using objects_of_completes hsuits' hdisjoint' h

/-- What commands leave in a bucket at the keys that are touched by copies alone, by removals
alone, or by none of them. -/
structure Aftermath (bucket : String) (cmds : List Command) (w w' : World) : Prop where
  beside : SameBeside bucket w w'
  kept : ∀ key, (∀ c ∈ cmds, key ∉ touched c) →
    w'.store.object? bucket key = w.store.object? bucket key
  stored : ∀ key, (∃ c ∈ cmds, key ∈ touched c) →
    (∀ c ∈ cmds, key ∈ touched c → c.op = Command.copyOp) →
      (w'.store.object? bucket key).isSome = true
  erased : ∀ key, (∃ c ∈ cmds, key ∈ touched c) →
    (∀ c ∈ cmds, key ∈ touched c → c.op ≠ Command.copyOp) →
      w'.store.object? bucket key = none

/-- The order of the commands does not matter for that. -/
theorem Aftermath.of_perm {cmds' : List Command} (h : Aftermath bucket cmds' w w')
    (hperm : cmds'.Perm cmds) : Aftermath bucket cmds w w' := by
  obtain ⟨beside, kept, stored, erased⟩ := h
  simp only [hperm.mem_iff] at kept stored erased
  exact ⟨beside, kept, stored, erased⟩

theorem Aftermath.of_alike (halike : Alike w w₁) (h : Aftermath bucket cmds w₁ w') :
    Aftermath bucket cmds w w' where
  beside := (halike.sameBeside bucket).trans h.beside
  kept key hnone := (h.kept key hnone).trans (halike.object? bucket key)
  stored := h.stored
  erased := h.erased

theorem aftermath_of_completes (hinto : ∀ c ∈ cmds, Into bucket c)
    (h : Completes source (.client client) w cmds w') : Aftermath bucket cmds w w' := by
  induction h with
  | nil w => exact ⟨(Alike.refl w).sameBeside bucket, by simp, by simp, by simp⟩
  | @cons w w₁ w' c rest first others ih =>
    obtain ⟨hfirst, hcopy⟩ := patched_of_carries (hinto c List.mem_cons_self) first
    have hrest := ih fun d hd => hinto d (List.mem_cons_of_mem c hd)
    have hhere : ∀ key, key ∈ touched c → w₁.store.object? bucket key = leaves w c := by
      intro key hkey
      rw [hfirst.objects, if_pos hkey]
      rfl
    -- Either a later command touches the key, or the first one has the last word on it.
    have hsplit : ∀ key, (∃ d ∈ c :: rest, key ∈ touched d) →
        (∃ d ∈ rest, key ∈ touched d) ∨
          key ∈ touched c ∧ w'.store.object? bucket key = leaves w c := by
      intro key hkey
      by_cases hlater : ∃ d ∈ rest, key ∈ touched d
      · exact .inl hlater
      · obtain ⟨d, hd, hkey⟩ := hkey
        rcases List.mem_cons.mp hd with rfl | hd
        · rw [hrest.kept key fun d' hd' hkey' => hlater ⟨d', hd', hkey'⟩]
          exact .inr ⟨hkey, hhere key hkey⟩
        · exact absurd ⟨d, hd, hkey⟩ hlater
    refine ⟨hfirst.toSameBeside.trans hrest.beside, ?_, ?_, ?_⟩
    · intro key hnone
      rw [hrest.kept key fun d hd => hnone d (List.mem_cons_of_mem c hd), hfirst.objects,
        if_neg (hnone c List.mem_cons_self)]
      rfl
    · intro key hkey hcopies
      rcases hsplit key hkey with hlater | ⟨hfirstKey, hobject⟩
      · exact hrest.stored key hlater fun d hd => hcopies d (List.mem_cons_of_mem c hd)
      · rw [hobject]
        exact hcopy.mpr (hcopies c List.mem_cons_self hfirstKey)
    · intro key hkey hremovals
      rcases hsplit key hkey with hlater | ⟨hfirstKey, hobject⟩
      · exact hrest.erased key hlater fun d hd => hremovals d (List.mem_cons_of_mem c hd)
      · rw [hobject, ← Option.not_isSome_iff_eq_none, hcopy]
        exact hremovals c List.mem_cons_self hfirstKey

/-- A command that is carried out is counted and leaves the ledger alone. -/
theorem step_of_carries {destination : Side} (command : String) {p : Progress}
    (h : Carries source destination c p.world w₁) :
    (step source destination false command p c).world = w₁ ∧
      (step source destination false command p c).ledger = p.ledger ∧
      (step source destination false command p c).stats.failed = p.stats.failed := by
  obtain ⟨op, request, count, hop, hcall, hperform⟩ := h
  have hrun : Execution.run false (performOn source destination) p.world p.stats c =
      ⟨w₁, Execution.countDone p.stats op count, [], none⟩ := by
    simp [Execution.run, hop, hcall, hperform]
  unfold step
  rw [hrun]
  cases op <;> exact ⟨rfl, rfl, rfl⟩

theorem execute_cons {destination : Side} {trial : Bool} {command : String} {p : Progress}
    {c : Command} {cmds : List Command} (hgoes : p.halted = false) :
    execute source destination trial command p (c :: cmds) =
      execute source destination trial command
        ((step source destination trial command p c).setHalted p.ledger.cancelled) cmds := by
  rw [execute, hgoes, if_neg Bool.false_ne_true]

/-- Commands that complete are executed to the end, and none of them counts as failed. -/
theorem execute_of_completes {destination : Side} (command : String) {p : Progress}
    (hledger : p.ledger.cancelled = false) (hgoes : p.halted = false)
    (h : Completes source destination p.world cmds w') :
    (execute source destination false command p cmds).world = w' ∧
      (execute source destination false command p cmds).ledger = p.ledger ∧
      (execute source destination false command p cmds).stats.failed = p.stats.failed := by
  generalize hw : p.world = w at h
  induction h generalizing p with
  | nil w => exact ⟨hw, rfl, rfl⟩
  | cons first others ih =>
    subst hw
    obtain ⟨hworld, hkept, hfailed⟩ := step_of_carries command first
    rw [execute_cons hgoes]
    obtain ⟨hlast, hlastKept, hlastFailed⟩ := @ih
      ((step source destination false command p _).setHalted p.ledger.cancelled)
      (hkept ▸ hledger) hledger hworld
    exact ⟨hlast, hlastKept.trans hkept, hlastFailed.trans hfailed⟩

section Executing

variable {destination : Side} {trial : Bool} {command : String} {p : Progress}

/-- A command leaves the world alone, or as its call leaves it, whatever comes of the call. -/
theorem world_of_step (source destination : Side) (trial : Bool) (command : String)
    (p : Progress) (c : Command) :
    (step source destination trial command p c).world = p.world ∧
        (trial = true ∨ ∀ op request, Execution.operation? c = some op →
          Execution.call c op ≠ .ok request) ∨
      ∃ op request, trial = false ∧ Execution.operation? c = some op ∧
        Execution.call c op = .ok request ∧
          (step source destination trial command p c).world =
            (performOn source destination request p.world).2 := by
  unfold step Execution.run Execution.failWith
  cases hop : Execution.operation? c with
  | none =>
    refine .inl ⟨?_, .inr (by simp)⟩
    dsimp only
    split_ifs <;> rfl
  | some op =>
    cases trial with
    | true => exact .inl ⟨rfl, .inl rfl⟩
    | false =>
      cases hcall : Execution.call c op with
      | error f =>
        refine .inl ⟨?_, .inr ?_⟩
        · simp only [hcall, Bool.false_eq_true, if_false]
          split_ifs <;> rfl
        · rintro _ request ⟨⟩
          rw [hcall]
          exact nofun
      | ok request =>
        refine .inr ⟨op, request, rfl, rfl, hcall, ?_⟩
        simp only [hcall, Bool.false_eq_true, if_false]
        rcases performOn source destination request p.world with ⟨f | count, next⟩
        · dsimp only
          split_ifs <;> rfl
        · rfl

/-- A trial run leaves the world alone. -/
theorem world_of_trial :
    (execute source destination true command p cmds).world = p.world := by
  induction cmds generalizing p with
  | nil => rfl
  | cons c rest ih =>
    unfold execute
    split_ifs
    · rfl
    · rw [ih]
      rcases world_of_step source destination true command p c with
        ⟨hworld, -⟩ | ⟨_, _, htrial, -⟩
      · exact hworld
      · cases htrial

end Executing

end StoreSync.Sync
