import Mathlib.Algebra.Ring.Nat
import StoreSync.Proofs.RemovalCounts

/-!
Removals in bulk, whatever a service answers. Each bucket's keys go out in requests of at most
`batchSize` keys, all of them, and what the answers report is what a removal raises. A service is
a function here: the store's own answers are one of them, and they make `removeRemote`.
-/
namespace StoreSync.Fault

def parts : Fault → List Fault
  | many faults => faults
  | f => [f]

theorem parts_of_single? {fs : List Fault} {f : Fault} (h : single? fs = some f)
    (hplain : ∀ g ∈ fs, g.parts = [g]) : f.parts = fs := by
  rcases fs with _ | ⟨g, _ | ⟨k, rest⟩⟩
  · cases h
  · obtain rfl : g = f := Option.some.inj h
    exact hplain g (List.mem_cons_self ..)
  · obtain rfl := Option.some.inj h
    rfl

theorem eq_nil_of_single? {fs : List Fault} (h : single? fs = none) : fs = [] := by
  rcases fs with _ | ⟨g, _ | ⟨k, rest⟩⟩
  · rfl
  · cases h
  · cases h

end StoreSync.Fault

namespace StoreSync.Transfer

open ObjectStore World StoreSync.Action

/-- How a service answers a request to delete keys of a bucket: with reports on those that it did
not delete, or with a fault. -/
abbrev Answerer := String → List String → Store → Except Fault (List KeyFailure) × Store

abbrev Reply := (String × List String) × Except Fault (List KeyFailure)

section Definitions

variable (answer : Answerer) (client : Nat)

/-- A bucket that exists loses the keys, but for those that meet an outage. -/
def eraseAnswer : Answerer := fun bucket keys s =>
  match s.bucket? bucket with
  | none => (.error (noSuchBucket "DeleteObjects"), s)
  | some _ =>
      let (failures, last) := eraseKeys bucket keys s
      (.ok failures, last)

def storeAnswer : Answerer := fun bucket keys s =>
  match s.meet .deleteBatch (some bucket) keys.head? with
  | (some (.fault f), next) => (.error f, next)
  | (_, next) => eraseAnswer bucket keys next

def afterRequest (w : World) (batch : String × List String) : World :=
  (w.note client (.delete batch.1 batch.2)).setStore (answer batch.1 batch.2 w.store).2

def replies : List (String × List String) → Store → List Reply
  | [], _ => []
  | batch :: rest, s =>
      (batch, (answer batch.1 batch.2 s).1) :: replies rest (answer batch.1 batch.2 s).2

def requestVia (batch : String × List String) : Action (List KeyFailure) := do
  Action.note client (.delete batch.1 batch.2)
  let w ← get
  let (outcome, next) := answer batch.1 batch.2 w.store
  set (w.setStore next)
  Action.liftExcept outcome

def sendVia (tally : Tally) (batch : String × List String) : Action Tally :=
  tryCatch (do
      let failures ← requestVia answer client batch
      pure (Tally.mk (tally.deleted + (batch.2.length - failures.length))
        (tally.faults ++ failures.map (keyFault batch.1))))
    fun f =>
      if f.isRequest then pure { tally with faults := tally.faults ++ [batchFault f] }
      else throw f

def removeVia (locations : List Location) : Action Int := do
  let tally ← (batches locations).foldlM (sendVia answer client) Tally.zero
  match Fault.single? tally.faults with
  | some f => throw f
  | none => pure tally.deleted

end Definitions

namespace Reply

variable (x : Reply)

def faults : List Fault :=
  match x.2 with
  | .ok failures => failures.map (keyFault x.1.1)
  | .error f => [batchFault f]

def deleted : Int :=
  match x.2 with
  | .ok failures => x.1.2.length - failures.length
  | .error _ => 0

def isRefused : Bool :=
  match x.2 with
  | .ok _ => false
  | .error _ => true

def failedKeys : Nat :=
  match x.2 with
  | .ok failures => failures.length
  | .error _ => 0

/-- Services refuse by the faults of requests. -/
def Regular : Prop := ∀ f, x.2 = .error f → f.isRequest = true

end Reply

section Sizes

variable {α : Type}

theorem length_of_mem_pages {size : Nat} {items page : List α} (h : page ∈ pages size items) :
    1 ≤ page.length ∧ page.length ≤ max size 1 := by
  obtain ⟨i, hi, rfl⟩ := List.mem_map.mp h
  have hpos : 0 < max size 1 := by omega
  have hstart : i * max size 1 < items.length := by
    have hlt := List.mem_range.mp hi
    have hle := Nat.div_mul_le_self (items.length + max size 1 - 1) (max size 1)
    have hnext := Nat.mul_le_mul_right (max size 1) (Nat.succ_le_of_lt hlt)
    rw [Nat.succ_mul] at hnext
    omega
  rw [List.length_take, List.length_drop]
  omega

theorem length_of_mem_batches {locations : List Location} {batch : String × List String}
    (h : batch ∈ batches locations) : 1 ≤ batch.2.length ∧ batch.2.length ≤ batchSize := by
  obtain ⟨group, -, hpage⟩ := List.mem_flatMap.mp h
  obtain ⟨keys, hkeys, rfl⟩ := List.mem_map.mp hpage
  exact length_of_mem_pages hkeys

end Sizes

section Coverage

variable (b : String) (ls : List Location)

/-- The batches that a bucket's keys are cut into say together what these keys are. -/
theorem keys_of_pages (group : String × List String) :
    (((pages batchSize group.2).map fun keys => (group.1, keys)).filter (·.1 = b)).flatMap
      Prod.snd = if group.1 = b then group.2 else [] := by
  by_cases hb : group.1 = b
  · rw [if_pos hb, List.filter_eq_self.mpr, List.flatMap_map]
    · simpa [List.flatMap_def] using flatten_pages batchSize group.2
    · intro batch hbatch
      obtain ⟨keys, -, rfl⟩ := List.mem_map.mp hbatch
      exact decide_eq_true hb
  · rw [if_neg hb, List.filter_eq_nil_iff.mpr, List.flatMap_nil]
    intro batch hbatch
    obtain ⟨keys, -, rfl⟩ := List.mem_map.mp hbatch
    simpa using hb

/-- Each bucket has one group. -/
theorem keys_of_byBucket :
    (byBucket ls).flatMap (fun group => if group.1 = b then group.2 else []) =
      (ls.filter (·.bucket = b)).map Location.path := by
  induction ls using bucket_induction with
  | nil => rfl
  | cons l ls hrest =>
    rw [byBucket_cons, List.flatMap_cons, hrest, List.filter_filter]
    by_cases hb : l.bucket = b
    · subst hb
      have hnone : ls.filter (fun m => decide (m.bucket = l.bucket) &&
          decide (m.bucket ≠ l.bucket)) = [] := List.filter_eq_nil_iff.mpr fun m _ => by simp
      rw [if_pos rfl, hnone, List.map_nil, List.append_nil]
    · have hsame : ls.filter (fun m => decide (m.bucket = b) && decide (m.bucket ≠ l.bucket)) =
          ls.filter (·.bucket = b) :=
        List.filter_congr fun m _ => by
          by_cases hm : m.bucket = b
          · simp [hm, Ne.symm hb]
          · simp [hm]
      rw [if_neg hb, List.nil_append, hsame, List.filter_cons_of_neg (by simpa using hb)]

/-- The requests for a bucket name the keys of its locations, in order. -/
theorem keys_of_batches :
    ((batches ls).filter (·.1 = b)).flatMap Prod.snd =
      (ls.filter (·.bucket = b)).map Location.path := by
  unfold batches
  rw [List.filter_flatMap, List.flatMap_assoc, ← keys_of_byBucket]
  exact List.flatMap_congr fun group _ => keys_of_pages b group

end Coverage

section Sending

variable {answer : Answerer} {client : Nat} {w : World} {tally : Tally}
  {batch : String × List String} {groups : List (String × List String)}

theorem run_requestVia :
    (requestVia answer client batch).run.run w =
      ((answer batch.1 batch.2 w.store).1, afterRequest answer client w batch) := by
  show ((do
      let v ← get
      let (outcome, next) := answer batch.1 batch.2 v.store
      set (v.setStore next)
      Action.liftExcept outcome : Action (List KeyFailure)).run.run (w.note client _)) = _
  rw [run_bind]
  show ((do
      set ((w.note client _).setStore (answer batch.1 batch.2 w.store).2)
      Action.liftExcept (answer batch.1 batch.2 w.store).1 :
        Action (List KeyFailure)).run.run _) = _
  rw [run_bind]
  show (Action.liftExcept (answer batch.1 batch.2 w.store).1).run.run _ =
    (_, afterRequest answer client w batch)
  cases (answer batch.1 batch.2 w.store).1 <;> rfl

def Tally.after (tally : Tally) (x : Reply) : Tally :=
  ⟨tally.deleted + x.deleted, tally.faults ++ x.faults⟩

/-- A batch is tallied, and the next one is sent, whatever is answered to it. -/
theorem run_sendVia
    (hregular : Reply.Regular (batch, (answer batch.1 batch.2 w.store).1)) :
    (sendVia answer client tally batch).run.run w =
      (.ok (tally.after (batch, (answer batch.1 batch.2 w.store).1)),
        afterRequest answer client w batch) := by
  unfold sendVia
  rw [run_tryCatch, run_bind, run_requestVia]
  rcases hanswer : (answer batch.1 batch.2 w.store).1 with f | failures
  · have hf : f.isRequest = true := hregular f hanswer
    show (if f.isRequest = true then _ else _ : Action Tally).run.run _ = _
    rw [if_pos hf]
    show (Except.ok _, _) = _
    rw [Tally.after, Reply.deleted, Reply.faults, Int.add_zero]
  · rfl

theorem run_sendAll
    (hregular : ∀ x ∈ replies answer groups w.store, Reply.Regular x) :
    (groups.foldlM (sendVia answer client) tally).run.run w =
      (.ok ((replies answer groups w.store).foldl Tally.after tally),
        groups.foldl (afterRequest answer client) w) := by
  induction groups generalizing tally w with
  | nil => rfl
  | cons batch rest ih =>
    have hfirst := hregular _ (List.mem_cons_self ..)
    have hrest : ∀ x ∈ replies answer rest (afterRequest answer client w batch).store,
        Reply.Regular x := fun x hx => hregular x (List.mem_cons_of_mem _ hx)
    rw [List.foldlM_cons, run_bind, run_sendVia hfirst]
    exact ih hrest

end Sending

section Accounting

variable {answer : Answerer} {client : Nat} {w : World} {tally : Tally} {xs : List Reply}
  {groups : List (String × List String)} {locations : List Location}

def refusals (xs : List Reply) : Nat := xs.countP Reply.isRefused

def failedKeys (xs : List Reply) : Nat := (xs.map Reply.failedKeys).sum

def faults (xs : List Reply) : List Fault := xs.flatMap Reply.faults

theorem batches_of_replies (s : Store) :
    (replies answer groups s).map Prod.fst = groups := by
  induction groups generalizing s with
  | nil => rfl
  | cons batch rest ih => rw [replies, List.map_cons, ih]

theorem Reply.length_faults (x : Reply) :
    x.faults.length = (if x.isRefused then 1 else 0) + x.failedKeys := by
  obtain ⟨batch, f | failures⟩ := x
  · rfl
  · simp [Reply.faults, Reply.isRefused, Reply.failedKeys]

theorem length_faults (xs : List Reply) : (faults xs).length = refusals xs + failedKeys xs := by
  induction xs with
  | nil => rfl
  | cons x rest ih =>
    have hrest : (rest.flatMap Reply.faults).length = refusals rest + failedKeys rest := ih
    simp only [faults, refusals, failedKeys, List.flatMap_cons, List.length_append, hrest,
      x.length_faults, List.countP_cons, List.map_cons, List.sum_cons]
    omega

theorem faults_foldl_after (xs : List Reply) (tally : Tally) :
    (xs.foldl Tally.after tally).faults = tally.faults ++ faults xs := by
  induction xs generalizing tally with
  | nil => exact (List.append_nil _).symm
  | cons x rest ih =>
    rw [List.foldl_cons, ih, Tally.after, List.append_assoc, faults, faults, List.flatMap_cons]

theorem Reply.deleted_of_faults_nil {x : Reply} (h : x.faults = []) :
    x.deleted = x.1.2.length := by
  obtain ⟨batch, f | failures⟩ := x
  · cases h
  · obtain rfl : failures = [] := List.map_eq_nil_iff.mp h
    exact Int.sub_zero _

/-- Without a fault all keys are counted. -/
theorem deleted_foldl_after (tally : Tally) (h : faults xs = []) :
    (xs.foldl Tally.after tally).deleted =
      tally.deleted + ((xs.map Prod.fst).flatMap Prod.snd).length := by
  induction xs generalizing tally with
  | nil => exact (Int.add_zero _).symm
  | cons x rest ih =>
    obtain ⟨hx, hrest⟩ := List.append_eq_nil_iff.mp h
    rw [List.foldl_cons, ih _ hrest, Tally.after, Reply.deleted_of_faults_nil hx, List.map_cons,
      List.flatMap_cons, List.length_append]
    push_cast
    omega

/-- The requests that a client has made are noted with it. -/
theorem clients_foldl_afterRequest (groups : List (String × List String)) (w : World) :
    (groups.foldl (afterRequest answer client) w).clients =
      w.clients.modify client fun c =>
        { c with requests := c.requests ++ groups.map fun batch => .delete batch.1 batch.2 } := by
  induction groups generalizing w with
  | nil =>
    rw [List.foldl_nil]
    refine (List.modify_id client w.clients).symm.trans ?_
    congr 1
    funext c
    rw [List.map_nil, List.append_nil]
    rfl
  | cons batch rest ih =>
    rw [List.foldl_cons, ih]
    show (w.clients.modify client _).modify client _ = _
    rw [List.modify_modify_eq]
    congr 1
    funext c
    simp only [Function.comp, List.map_cons, List.append_assoc, List.cons_append,
      List.nil_append]

theorem parts_of_mem_faults {f : Fault} (h : f ∈ faults xs) : f.parts = [f] := by
  obtain ⟨⟨batch, g | failures⟩, -, hx⟩ := List.mem_flatMap.mp h
  · obtain rfl := List.mem_singleton.mp hx
    rfl
  · obtain ⟨failure, -, rfl⟩ := List.mem_map.mp hx
    rfl

/-- The whole removal: what it returns or raises, and the world that it leaves. -/
theorem run_removeVia (client : Nat)
    (hregular : ∀ x ∈ replies answer (batches locations) w.store, Reply.Regular x) :
    (removeVia answer client locations).run.run w =
      (match Fault.single? (faults (replies answer (batches locations) w.store)) with
        | some f => .error f
        | none => .ok locations.length,
        (batches locations).foldl (afterRequest answer client) w) := by
  unfold removeVia
  rw [run_bind, run_sendAll hregular]
  have hfaults := faults_foldl_after (replies answer (batches locations) w.store) Tally.zero
  rw [Tally.zero, List.nil_append] at hfaults
  show (match Fault.single? _ with
    | some f => throw f
    | none => pure _ : Action Int).run.run _ = _
  rw [Tally.zero, hfaults]
  rcases hall : faults (replies answer (batches locations) w.store) with _ | ⟨f, _ | ⟨g, rest⟩⟩
  · have hdeleted := deleted_foldl_after Tally.zero hall
    rw [batches_of_replies, keys_batches, length_keys_byBucket, Tally.zero, Int.zero_add]
      at hdeleted
    show (Except.ok _, _) = _
    rw [hdeleted]
    rfl
  · rfl
  · rfl

end Accounting

structure Accounted (answer : Answerer) (client : Nat) (locations : List Location)
    (w : World) : Prop where
  sizes : ∀ batch ∈ batches locations, 1 ≤ batch.2.length ∧ batch.2.length ≤ 1000
  /-- The requests for a bucket name the keys of its locations, each once and in order. -/
  covers : ∀ b, ((batches locations).filter (·.1 = b)).flatMap Prod.snd =
    (locations.filter (·.bucket = b)).map Location.path
  /-- All of them are sent, whatever came of earlier ones, and no other. -/
  sends : ((removeVia answer client locations).run.run w).2.clients =
    w.clients.modify client fun c =>
      { c with requests := c.requests ++
          (batches locations).map fun batch => .delete batch.1 batch.2 }
  counts : refusals (replies answer (batches locations) w.store) = 0 →
    failedKeys (replies answer (batches locations) w.store) = 0 →
      ((removeVia answer client locations).run.run w).1 = .ok locations.length
  raises : 0 < refusals (replies answer (batches locations) w.store) +
      failedKeys (replies answer (batches locations) w.store) →
    ∃ f, ((removeVia answer client locations).run.run w).1 = .error f ∧
      f.parts = faults (replies answer (batches locations) w.store) ∧
      f.parts.length = refusals (replies answer (batches locations) w.store) +
        failedKeys (replies answer (batches locations) w.store)

section StoreAnswers

theorem outcome_of_meet (point : Point) (bucket key : Option String) (w : World) :
    (Action.meet point bucket key).run.run w =
      (match (w.store.meet point bucket key).1 with
        | some (.fault f) => .error f
        | _ => .ok (), w.setStore (w.store.meet point bucket key).2) := by
  unfold Action.meet
  rw [run_bind]
  change (_ : Action Unit).run.run w = _
  rw [run_bind]
  change (_ : Action Unit).run.run (w.setStore (w.store.meet point bucket key).2) = _
  rcases (w.store.meet point bucket key).1 with _ | _ | _ <;> rfl

theorem outcome_of_bucket (name operation : String) (w : World) :
    (Action.bucket name operation).run.run w =
      (match w.store.bucket? name with
        | some b => .ok b
        | none => .error (noSuchBucket operation), w) := by
  unfold Action.bucket
  rw [run_bind]
  change (_ : Action Bucket).run.run w = _
  rcases w.store.bucket? name with _ | b <;> rfl

theorem outcome_of_erasing (bucket : String) (keys : List String) (w : World) :
    (do
        let _ ← Action.bucket bucket "DeleteObjects"
        let v ← get
        let (failures, last) := eraseKeys bucket keys v.store
        set (v.setStore last)
        pure failures : Action (List KeyFailure)).run.run w =
      ((eraseAnswer bucket keys w.store).1, w.setStore (eraseAnswer bucket keys w.store).2) := by
  rw [run_bind, outcome_of_bucket, eraseAnswer]
  cases w.store.bucket? bucket <;> rfl

end StoreAnswers

section Main

variable {answer : Answerer} {client : Nat} {w : World} {locations : List Location}

/-- The store's own answers make the removal that runs. -/
theorem deleteBatch_eq (client : Nat) (bucket : String) (keys : List String) :
    deleteBatch client bucket keys = requestVia storeAnswer client (bucket, keys) := by
  funext w
  show (deleteBatch client bucket keys).run.run w = (requestVia storeAnswer client _).run.run w
  rw [run_requestVia, deleteBatch, run_bind]
  show ((_ : Action (List KeyFailure)).run.run (w.note client (.delete bucket keys))) = _
  rw [run_bind, outcome_of_meet]
  have hstore : (w.note client (.delete bucket keys)).store = w.store := rfl
  rw [hstore, afterRequest, storeAnswer]
  rcases w.store.meet .deleteBatch (some bucket) keys.head? with ⟨_ | f | report, next⟩
  · exact outcome_of_erasing bucket keys ((w.note client (.delete bucket keys)).setStore next)
  · rfl
  · exact outcome_of_erasing bucket keys ((w.note client (.delete bucket keys)).setStore next)

theorem removeRemote_eq (client : Nat) (locations : List Location) :
    removeRemote client locations = removeVia storeAnswer client locations := by
  have hsend : sendBatch client = sendVia storeAnswer client := by
    funext tally batch
    rw [sendBatch, deleteBatch_eq]
    rfl
  rw [removeRemote, hsend]
  rfl

/-- A removal in bulk names each location in one request, sends every request, and accounts for
every refusal and for every key that is reported as failed. -/
theorem removal_in_bulk_accounted
    (hregular : ∀ x ∈ replies answer (batches locations) w.store, Reply.Regular x) :
    (∀ n ls, removeRemote n ls = removeVia storeAnswer n ls) ∧
      Accounted answer client locations w := by
  refine ⟨removeRemote_eq, ?_⟩
  have hrun := run_removeVia client hregular
  have hlength := length_faults (replies answer (batches locations) w.store)
  refine
    { sizes := fun batch hbatch => length_of_mem_batches hbatch
      covers := fun b => keys_of_batches b locations
      sends := ?_, counts := ?_, raises := ?_ }
  · rw [hrun]
    exact clients_foldl_afterRequest (batches locations) w
  · intro hrefusals hkeys
    have hnil : faults (replies answer (batches locations) w.store) = [] :=
      List.length_eq_zero_iff.mp (by omega)
    rw [hrun, hnil]
    rfl
  · intro hpos
    rw [hrun]
    cases hsingle : Fault.single? (faults (replies answer (batches locations) w.store)) with
    | none =>
      have hnil := Fault.eq_nil_of_single? hsingle
      rw [hnil, List.length_nil] at hlength
      omega
    | some f =>
      have hparts := Fault.parts_of_single? hsingle fun g hg => parts_of_mem_faults hg
      exact ⟨f, rfl, hparts, hparts ▸ hlength⟩

/-- Services that refuse by the faults of requests only, as clients of a store do, give regular
answers. -/
theorem regular_of_mem_replies {groups : List (String × List String)} {s : Store} {x : Reply}
    (h : ∀ b keys t f, (answer b keys t).1 = .error f → f.isRequest = true)
    (hx : x ∈ replies answer groups s) : x.Regular := by
  induction groups generalizing s with
  | nil => cases hx
  | cons batch rest ih =>
    rcases List.mem_cons.mp hx with rfl | hrest
    · intro f hf
      exact h _ _ _ f hf
    · exact ih hrest

section Mixed

def mixedLocations : List Location :=
  [⟨"s3", "a", "x", true, none⟩, ⟨"s3", "b", "y", true, none⟩, ⟨"s3", "a", "z", true, none⟩]

/-- One bucket takes no request, and no key of the others is deleted. -/
def mixedAnswer : Answerer := fun bucket keys s =>
  if bucket = "a" then (.error .service, s)
  else (.ok (keys.map fun key => ⟨some key, some "AccessDenied", some "denied"⟩), s)

def oneClient : World := ⟨.ofNodes [] [], ⟨[], [], 1000, 0, .plain⟩, [⟨Connection.standard, []⟩]⟩

theorem refuses_mixedAnswer (b : String) (keys : List String) (t : Store) (f : Fault)
    (h : (mixedAnswer b keys t).1 = .error f) : f.isRequest = true := by
  unfold mixedAnswer at h
  split at h
  · obtain rfl := Except.error.inj h
    rfl
  · cases h

/-- A refused request for two keys and a key that fails make two faults. -/
theorem removal_in_bulk_accounted_mixed :
    (∀ x ∈ replies mixedAnswer (batches mixedLocations) oneClient.store, Reply.Regular x) ∧
      refusals (replies mixedAnswer (batches mixedLocations) oneClient.store) = 1 ∧
      failedKeys (replies mixedAnswer (batches mixedLocations) oneClient.store) = 1 ∧
      Accounted mixedAnswer 0 mixedLocations oneClient :=
  have hregular := fun x hx => regular_of_mem_replies (x := x) refuses_mixedAnswer hx
  ⟨hregular, by decide +kernel, by decide +kernel, (removal_in_bulk_accounted hregular).2⟩

end Mixed

/-- A fault that comes from no request ends the removal with the request that met it. -/
theorem removal_in_bulk_broken_off {sent rest : List (String × List String)}
    {batch : String × List String} {f : Fault}
    (hbatches : batches locations = sent ++ batch :: rest)
    (hregular : ∀ x ∈ replies answer sent w.store, Reply.Regular x)
    (hanswer : (answer batch.1 batch.2 (sent.foldl (afterRequest answer client) w).store).1 =
      .error f)
    (hforeign : f.isRequest = false) :
    (removeVia answer client locations).run.run w =
      (.error f, (sent ++ [batch]).foldl (afterRequest answer client) w) := by
  have hlast (tally : Tally) :
      (sendVia answer client tally batch).run.run (sent.foldl (afterRequest answer client) w) =
        (.error f, (sent ++ [batch]).foldl (afterRequest answer client) w) := by
    unfold sendVia
    rw [run_tryCatch, run_bind, run_requestVia, hanswer, List.foldl_append]
    show (if f.isRequest = true then _ else _ : Action Tally).run.run _ = _
    rw [if_neg (by simp [hforeign])]
    rfl
  unfold removeVia
  rw [hbatches, List.foldlM_append, run_bind, run_bind, run_sendAll hregular]
  dsimp only
  rw [List.foldlM_cons, run_bind, hlast]

end Main

end StoreSync.Transfer
