import StoreSync.Proofs.StoreContents

/-!
Reasoning about work on the world. `Gives` says that an action succeeds and what it leaves; its
lemmas take a sequence of actions apart. `Keeps` says that the worlds before and after an action
are related whatever comes of it; its lemmas put a sequence together.
-/
namespace StoreSync.Action

open ObjectStore

variable {α β : Type} {w w' w₁ : World} {a : α} {b : β}

def Gives (x : Action α) (w : World) (a : α) (w' : World) : Prop := x.run.run w = (.ok a, w')

theorem run_state_bind (x : StateM World α) (f : α → StateM World β) (w : World) :
    (x >>= f).run w = (f (x.run w).1).run (x.run w).2 := rfl

section Giving

theorem gives_pure_iff {a' : α} : (pure a : Action α).Gives w a' w' ↔ a' = a ∧ w' = w := by
  constructor
  · intro h
    obtain ⟨ha, rfl⟩ := Prod.mk.inj h
    exact ⟨(Except.ok.inj ha).symm, rfl⟩
  · rintro ⟨rfl, rfl⟩
    rfl

theorem not_gives_throw {f : Fault} : ¬ (throw f : Action α).Gives w a w' := by
  intro h
  have hfst := congrArg Prod.fst h
  cases hfst

theorem run_bind (x : Action α) (f : α → Action β) (w : World) :
    (x >>= f).run.run w =
      match x.run.run w with
      | (.ok a, w₁) => (f a).run.run w₁
      | (.error e, w₁) => (.error e, w₁) := by
  change (StateT.bind x (ExceptT.bindCont f)) w = _
  unfold StateT.bind
  change (match x.run.run w with | (r, w₁) => ExceptT.bindCont f r w₁) = _
  rcases x.run.run w with ⟨_ | a, w₁⟩ <;> rfl

/-- A sequence succeeds when both of its parts do. -/
theorem gives_bind_iff {x : Action α} {f : α → Action β} :
    (x >>= f).Gives w b w' ↔ ∃ a w₁, x.Gives w a w₁ ∧ (f a).Gives w₁ b w' := by
  unfold Gives
  rw [run_bind]
  rcases x.run.run w with ⟨e | a', w₁⟩
  · constructor
    · intro h
      cases (Prod.mk.inj h).1
    · rintro ⟨a, w₂, h, -⟩
      cases (Prod.mk.inj h).1
  · constructor
    · intro hf
      exact ⟨a', w₁, rfl, hf⟩
    · rintro ⟨a, w₂, heq, hf⟩
      obtain ⟨ha, rfl⟩ := Prod.mk.inj heq
      exact Except.ok.inj ha ▸ hf

theorem gives_get_iff {v : World} : (get : Action World).Gives w v w' ↔ v = w ∧ w' = w :=
  gives_pure_iff (a := w)

theorem gives_set_iff {v : World} {u : PUnit} : (set v : Action PUnit).Gives w u w' ↔ w' = v := by
  constructor
  · intro h
    exact (Prod.mk.inj h).2.symm
  · rintro rfl
    rfl

theorem gives_modify_iff {f : World → World} {u : PUnit} :
    (modify f : Action PUnit).Gives w u w' ↔ w' = f w := by
  constructor
  · intro h
    exact (Prod.mk.inj h).2.symm
  · rintro rfl
    rfl

theorem gives_liftExcept_iff {x : Except Fault α} :
    (liftExcept x).Gives w a w' ↔ x = .ok a ∧ w' = w := by
  cases x with
  | ok a' =>
    rw [liftExcept, gives_pure_iff]
    constructor
    · rintro ⟨rfl, rfl⟩
      exact ⟨rfl, rfl⟩
    · rintro ⟨h, rfl⟩
      exact ⟨(Except.ok.inj h).symm, rfl⟩
  | error f =>
    constructor
    · intro h
      exact absurd h not_gives_throw
    · rintro ⟨h, -⟩
      cases h

theorem run_tryCatch (x : Action α) (handle : Fault → Action α) (w : World) :
    (tryCatch x handle).run.run w =
      match x.run.run w with
      | (.ok a, w₁) => (.ok a, w₁)
      | (.error f, w₁) => (handle f).run.run w₁ := by
  simp only [tryCatch, tryCatchThe, MonadExceptOf.tryCatch, ExceptT.tryCatch, ExceptT.run,
    ExceptT.mk, StateT.run_bind]
  rcases StateT.run x w with ⟨_ | a, w₁⟩ <;> rfl

/-- Work that is guarded succeeds by itself or by its guard. -/
theorem gives_tryCatch_iff {x : Action α} {handle : Fault → Action α} :
    (tryCatch x handle).Gives w a w' ↔
      x.Gives w a w' ∨ ∃ f w₁, x.run.run w = (.error f, w₁) ∧ (handle f).Gives w₁ a w' := by
  unfold Gives
  rw [run_tryCatch]
  rcases x.run.run w with ⟨f | a', w₁⟩
  · constructor
    · intro h
      exact .inr ⟨f, w₁, rfl, h⟩
    · rintro (h | ⟨g, w₂, heq, h⟩)
      · cases (Prod.mk.inj h).1
      · obtain ⟨hg, rfl⟩ := Prod.mk.inj heq
        exact Except.error.inj hg ▸ h
  · constructor
    · exact .inl
    · rintro (h | ⟨g, w₂, heq, -⟩)
      · exact h
      · cases (Prod.mk.inj heq).1

theorem gives_note_iff {client : Nat} {r : Request} {u : Unit} :
    (note client r).Gives w u w' ↔ w' = w.note client r := gives_modify_iff

/-- The outages change whether or not one of them is met. -/
theorem run_meet (point : Point) (bucket key : Option String) (w : World) :
    ((meet point bucket key).run.run w).2 = w.setStore (w.store.meet point bucket key).2 := by
  unfold meet
  rw [run_bind]
  change ((_ : Action Unit).run.run w).2 = _
  rw [run_bind]
  change ((_ : Action Unit).run.run (w.setStore (w.store.meet point bucket key).2)).2 = _
  rcases (w.store.meet point bucket key).1 with _ | _ | _ <;> rfl

theorem alike_of_meet {point : Point} {bucket key : Option String} {u : Unit}
    (h : (meet point bucket key).Gives w u w') : World.Alike w w' := by
  have hw' : w' = w.setStore (w.store.meet point bucket key).2 := by
    rw [← run_meet, h]
  exact hw' ▸ World.alike_meet w point bucket key

/-- What follows on a request starts in a world that is alike. -/
theorem gives_of_request {client : Nat} {r : Request} {point : Point} {bucket key : Option String}
    {f : Unit → Action β}
    (h : (do note client r; let u ← meet point bucket key; f u).Gives w b w') :
    ∃ w₁, World.Alike w w₁ ∧ (f ()).Gives w₁ b w' := by
  obtain ⟨u, w₁, hnote, hnext⟩ := gives_bind_iff.mp h
  obtain ⟨v, w₂, hmeet, hlast⟩ := gives_bind_iff.mp hnext
  have hw₁ := gives_note_iff.mp hnote
  exact ⟨w₂, (hw₁ ▸ World.alike_note w client r).trans (alike_of_meet hmeet), hlast⟩

theorem gives_get_bind_iff {f : World → Action β} :
    ((get : Action World) >>= f).Gives w b w' ↔ (f w).Gives w b w' := by
  rw [gives_bind_iff]
  constructor
  · rintro ⟨v, w₁, hget, hrest⟩
    obtain ⟨rfl, rfl⟩ := gives_get_iff.mp hget
    exact hrest
  · intro hrest
    exact ⟨w, w, gives_get_iff.mpr ⟨rfl, rfl⟩, hrest⟩

theorem gives_bucket_iff {name operation : String} {c : Bucket} :
    (bucket name operation).Gives w c w' ↔ w.store.bucket? name = some c ∧ w' = w := by
  unfold bucket
  rw [gives_bind_iff]
  constructor
  · rintro ⟨v, w₁, hget, hrest⟩
    obtain ⟨rfl, rfl⟩ := gives_get_iff.mp hget
    cases hc : w₁.store.bucket? name with
    | none => exact absurd (by simpa [hc] using hrest) not_gives_throw
    | some d =>
      simp only [hc, gives_pure_iff] at hrest
      exact ⟨by rw [hrest.1], hrest.2⟩
  · rintro ⟨hc, rfl⟩
    refine ⟨w', w', gives_get_iff.mpr ⟨rfl, rfl⟩, ?_⟩
    simp [hc, gives_pure_iff]

theorem gives_object_iff {bucketName key : String} {o : Object} :
    (object bucketName key).Gives w o w' ↔ w.store.object? bucketName key = some o ∧ w' = w := by
  unfold object
  rw [gives_bind_iff]
  constructor
  · rintro ⟨c, w₁, hbucket, hrest⟩
    obtain ⟨hc, rfl⟩ := gives_bucket_iff.mp hbucket
    cases ho : c.object? key with
    | none => exact absurd (by simpa [ho] using hrest) not_gives_throw
    | some p =>
      simp only [ho, gives_pure_iff] at hrest
      exact ⟨by simp [Store.object?, hc, ho, hrest.1], hrest.2⟩
  · rintro ⟨ho, rfl⟩
    obtain ⟨c, hc, hkey⟩ := Option.bind_eq_some_iff.mp ho
    refine ⟨c, w', gives_bucket_iff.mpr ⟨hc, rfl⟩, ?_⟩
    simp [hkey, gives_pure_iff]

theorem gives_store_iff {bucketName : String} {make : Store → Object} {u : Unit} :
    (store bucketName make).Gives w u w' ↔
      ∃ c, w.store.bucket? bucketName = some c ∧
        w' = w.setStore (w.store.setBucket bucketName (c.put (make w.store))) := by
  unfold store
  rw [gives_bind_iff]
  constructor
  · rintro ⟨c, w₁, hbucket, hrest⟩
    obtain ⟨hc, rfl⟩ := gives_bucket_iff.mp hbucket
    exact ⟨c, hc, gives_modify_iff.mp hrest⟩
  · rintro ⟨c, hc, hw'⟩
    exact ⟨c, w, gives_bucket_iff.mpr ⟨hc, rfl⟩, gives_modify_iff.mpr hw'⟩

end Giving

section Keeping

/-- The action relates the worlds before and after it, whatever comes of it. -/
def Keeps (R : World → World → Prop) (x : Action α) (w : World) : Prop := R w (x.run.run w).2

/-- A relation that a sequence of actions keeps if each of them does, and that requests and
outages cannot break. -/
structure Frame (R : World → World → Prop) : Prop where
  alike : ∀ {w w'}, World.Alike w w' → R w w'
  trans : ∀ {w w₁ w'}, R w w₁ → R w₁ w' → R w w'

theorem frame_alike : Frame World.Alike := ⟨fun h => h, fun h h' => h.trans h'⟩

variable {R : World → World → Prop} (hR : Frame R)

include hR

theorem Frame.refl (w : World) : R w w := hR.alike (World.Alike.refl w)

theorem keeps_pure (a : α) (w : World) : (pure a : Action α).Keeps R w := hR.refl w

theorem keeps_throw (f : Fault) (w : World) : (throw f : Action α).Keeps R w := hR.refl w

theorem keeps_liftExcept (x : Except Fault α) (w : World) : (liftExcept x).Keeps R w := by
  cases x with
  | ok a => exact keeps_pure hR a w
  | error f => exact keeps_throw hR f w

/-- A sequence keeps a relation if its first part does and its second part does wherever the
first one leads. -/
theorem keeps_bind {x : Action α} {f : α → Action β} (hx : x.Keeps R w)
    (hf : ∀ a w₁, x.Gives w a w₁ → (f a).Keeps R w₁) : (x >>= f).Keeps R w := by
  unfold Keeps at hx ⊢
  rw [run_bind]
  rcases hrun : x.run.run w with ⟨e | a, w₁⟩
  · simpa only [hrun] using hx
  · have hfirst : R w w₁ := by simpa only [hrun] using hx
    exact hR.trans hfirst (hf a w₁ hrun)

theorem keeps_get_bind {f : World → Action β} (hf : (f w).Keeps R w) :
    ((get : Action World) >>= f).Keeps R w := by
  refine keeps_bind hR (hR.refl w) ?_
  intro v w₁ hget
  obtain ⟨rfl, rfl⟩ := gives_get_iff.mp hget
  exact hf

theorem keeps_tryCatch {x : Action α} {handle : Fault → Action α} (hx : x.Keeps R w)
    (hhandle : ∀ f w₁, (handle f).Keeps R w₁) : (tryCatch x handle).Keeps R w := by
  unfold Keeps at hx ⊢
  rw [run_tryCatch]
  rcases hrun : x.run.run w with ⟨f | a, w₁⟩
  · have hfirst : R w w₁ := by simpa only [hrun] using hx
    exact hR.trans hfirst (hhandle f w₁)
  · simpa only [hrun] using hx

theorem keeps_note (client : Nat) (r : Request) (w : World) : (note client r).Keeps R w :=
  hR.alike (World.alike_note w client r)

theorem keeps_meet (point : Point) (key value : Option String) (w : World) :
    (meet point key value).Keeps R w := by
  unfold Keeps
  rw [run_meet]
  exact hR.alike (World.alike_meet w point key value)

theorem keeps_bucket (name operation : String) (w : World) :
    (bucket name operation).Keeps R w := by
  unfold bucket
  apply keeps_get_bind hR
  cases w.store.bucket? name with
  | none => exact keeps_throw hR _ w
  | some c => exact keeps_pure hR c w

theorem keeps_object (bucketName key : String) (w : World) :
    (object bucketName key).Keeps R w := by
  unfold object
  apply keeps_bind hR (keeps_bucket hR _ _ w)
  intro c w₁ _
  cases c.object? key with
  | none => exact keeps_throw hR _ w₁
  | some o => exact keeps_pure hR o w₁

/-- Storing keeps what putting an object into an existing bucket does. -/
theorem keeps_store {bucketName : String} {make : Store → Object}
    (hput : ∀ c, w.store.bucket? bucketName = some c →
      R w (w.setStore (w.store.setBucket bucketName (c.put (make w.store))))) :
    (store bucketName make).Keeps R w := by
  unfold store
  apply keeps_bind hR (keeps_bucket hR _ _ w)
  intro c w₁ hbucket
  obtain ⟨hc, rfl⟩ := gives_bucket_iff.mp hbucket
  exact hput c hc

omit hR in
theorem keeps_changeFiles {change : Files.Tree → Files.Tree × Option Fault}
    (hfiles : R w (w.setFiles (change w.files).1)) : (changeFiles change).Keeps R w := by
  have hrun : ((changeFiles change).run.run w).2 = w.setFiles (change w.files).1 := by
    unfold changeFiles
    rw [run_bind]
    change ((_ : Action Unit).run.run w).2 = _
    rw [run_bind]
    change ((_ : Action Unit).run.run (w.setFiles (change w.files).1)).2 = _
    rcases (change w.files).2 with _ | f <;> rfl
  rw [Keeps, hrun]
  exact hfiles

theorem keeps_replaceFiles {change : Files.Tree → Except Fault Files.Tree}
    (hfiles : ∀ t, change w.files = .ok t → R w (w.setFiles t)) :
    (replaceFiles change).Keeps R w := by
  unfold replaceFiles
  apply keeps_get_bind hR
  apply keeps_bind hR (keeps_liftExcept hR _ w)
  intro t w₁ hlift
  obtain ⟨ht, rfl⟩ := gives_liftExcept_iff.mp hlift
  exact hfiles t ht

end Keeping

end StoreSync.Action
