import StoreSync.Proofs.CommandEffects
import StoreSync.Proofs.TreeGrowth

/-!
What copies and removals do to the existence of objects and files. Copies make a world grow,
whatever fails on the way: nothing disappears. A removal that no outage stands in the way of makes
the objects disappear that it names, or at least the first of the files.
-/
namespace StoreSync

open ObjectStore Transfer

namespace World

structure Steady (w w' : World) : Prop where
  buckets : ∀ name, (w.store.bucket? name).isSome = true → (w'.store.bucket? name).isSome = true
  points : w'.store.outages.map Outage.point = w.store.outages.map Outage.point

/-- Files and objects stay; they may be replaced by others. -/
structure Grows (w w' : World) : Prop extends Steady w w' where
  files : w.files.Grows w'.files
  objects : ∀ bucket key, (w.store.object? bucket key).isSome = true →
    (w'.store.object? bucket key).isSome = true

/-- No object and no file, directory or link disappears. -/
structure Retains (w w' : World) : Prop where
  objects : ∀ bucket key, (w.store.object? bucket key).isSome = true →
    (w'.store.object? bucket key).isSome = true
  nodes : ∀ p, (w.files.node? p).isSome = true → (w'.files.node? p).isSome = true

/-- No outage stands in the way of deletions. -/
def Calm (w : World) : Prop :=
  ∀ point ∈ w.store.outages.map Outage.point, point ≠ .deleteBatch ∧ point ≠ .deleteKey

variable {w w₁ w' : World}

theorem Steady.trans (h : Steady w w₁) (h' : Steady w₁ w') : Steady w w' :=
  ⟨fun name hname => h'.buckets name (h.buckets name hname), h'.points.trans h.points⟩

theorem Alike.steady (h : Alike w w') : Steady w w' :=
  ⟨fun name hname => h.bucket? name ▸ hname, h.points⟩

theorem Steady.calm (h : Steady w w') (hw : w.Calm) : w'.Calm := by
  unfold Calm
  rw [h.points]
  exact hw

theorem Alike.grows (h : Alike w w') : Grows w w' where
  toSteady := h.steady
  files := h.files ▸ Files.Tree.Grows.refl w.files
  objects bucket key hkey := h.object? bucket key ▸ hkey

theorem Grows.trans (h : Grows w w₁) (h' : Grows w₁ w') : Grows w w' where
  toSteady := h.toSteady.trans h'.toSteady
  files := h.files.trans h'.files
  objects bucket key hkey := h'.objects bucket key (h.objects bucket key hkey)

theorem Grows.retains (h : Grows w w') : Retains w w' where
  objects := h.objects
  nodes p hp := by
    obtain ⟨n, hn⟩ := Option.isSome_iff_exists.mp hp
    obtain ⟨n', hn', -⟩ := h.files.kept p n hn
    rw [hn']
    rfl

theorem frame_grows : Action.Frame Grows := ⟨Alike.grows, Grows.trans⟩

theorem grows_setFiles {t : Files.Tree} (h : w.files.Grows t) : Grows w (w.setFiles t) :=
  ⟨⟨fun _ hname => hname, rfl⟩, h, fun _ _ hkey => hkey⟩

theorem steady_setBucket (w : World) (name : String) (b : Bucket) :
    Steady w (w.setStore (w.store.setBucket name b)) where
  buckets other hother := by
    by_cases hname : other = name
    · subst hname
      simpa [setStore, Store.bucket?_setBucket] using hother
    · simpa [setStore, Store.bucket?_setBucket, hname] using hother
  points := rfl

theorem grows_put {name : String} {b : Bucket} (hb : w.store.bucket? name = some b) (o : Object) :
    Grows w (w.setStore (w.store.setBucket name (b.put o))) where
  toSteady := steady_setBucket w name _
  files := Files.Tree.Grows.refl w.files
  objects bucket key hkey := by
    by_cases hput : bucket = name ∧ key = o.key
    · simp [setStore, Store.object?_setBucket_put w.store hb, hput]
    · simpa [setStore, Store.object?_setBucket_put w.store hb, hput] using hkey

end World

namespace Transfer

open World StoreSync.Action

variable {w w' : World}

section Copies

theorem keeps_upload (client : Nat) (s d : Location) (extra : Extra) (w : World) :
    (upload client s d extra).Keeps Grows w := by
  apply keeps_bind frame_grows (keeps_note frame_grows _ _ w)
  intro _ w₁ _
  apply keeps_bind frame_grows (keeps_meet frame_grows _ _ _ w₁)
  intro _ w₂ _
  apply keeps_get_bind frame_grows
  apply keeps_bind frame_grows (keeps_liftExcept frame_grows _ w₂)
  intro _ w₃ _
  exact keeps_store frame_grows fun c hc => grows_put hc _

theorem keeps_makeParent (path : String) (w : World) :
    (changeFiles fun t => t.makeParent path).Keeps Grows w := by
  apply keeps_changeFiles
  exact grows_setFiles (Files.Tree.grows_makeParent w.files path)

theorem keeps_download (client : Nat) (s d : Location) (w : World) :
    (download client s d).Keeps Grows w := by
  apply keeps_bind frame_grows (keeps_makeParent d.path w)
  intro _ w₁ _
  apply keeps_bind frame_grows (keeps_note frame_grows _ _ w₁)
  intro _ w₂ _
  apply keeps_bind frame_grows (keeps_meet frame_grows _ _ _ w₂)
  intro _ w₃ _
  apply keeps_bind frame_grows (keeps_object frame_grows _ _ w₃)
  intro _ w₄ _
  apply keeps_get_bind frame_grows
  exact keeps_replaceFiles frame_grows fun t ht => grows_setFiles (Files.Tree.grows_writeFile ht)

theorem keeps_copyRemote (client : Nat) (reader : Option Nat) (s d : Location) (extra : Extra)
    (w : World) : (copyRemote client reader s d extra).Keeps Grows w := by
  apply keeps_bind frame_grows (keeps_note frame_grows _ _ w)
  intro _ w₁ _
  apply keeps_bind frame_grows (keeps_meet frame_grows _ _ _ w₁)
  intro _ w₂ _
  apply keeps_bind frame_grows (keeps_object frame_grows _ _ w₂)
  intro _ w₃ _
  exact keeps_store frame_grows fun c hc => grows_put hc _

theorem keeps_copyLocal (s d : Location) (w : World) : (copyLocal s d).Keeps Grows w := by
  apply keeps_bind frame_grows (keeps_makeParent d.path w)
  intro _ w₁ _
  exact keeps_replaceFiles frame_grows fun t ht => grows_setFiles (Files.Tree.grows_copyFile ht)

theorem keeps_clientOf (side : Side) (w : World) : (clientOf side).Keeps Grows w := by
  cases side with
  | files => exact keeps_throw frame_grows _ w
  | client n => exact keeps_pure frame_grows n w

/-- Nothing disappears in a copy, whether or not it fails. -/
theorem keeps_perform (source destination : Side) {request : Call}
    (hcopy : ∀ ls, request ≠ .remove ls) (w : World) :
    (perform source destination request).Keeps Grows w := by
  cases request with
  | upload s d extra =>
    apply keeps_bind frame_grows (keeps_clientOf _ w)
    intro n w₁ _
    exact keeps_bind frame_grows (keeps_upload n s d extra w₁) fun _ w₂ _ =>
      keeps_pure frame_grows _ w₂
  | download s d =>
    apply keeps_bind frame_grows (keeps_clientOf _ w)
    intro n w₁ _
    exact keeps_bind frame_grows (keeps_download n s d w₁) fun _ w₂ _ =>
      keeps_pure frame_grows _ w₂
  | copyRemote s d extra =>
    apply keeps_bind frame_grows (keeps_clientOf _ w)
    intro n w₁ _
    exact keeps_bind frame_grows (keeps_copyRemote n _ s d extra w₁) fun _ w₂ _ =>
      keeps_pure frame_grows _ w₂
  | copyLocal s d =>
    exact keeps_bind frame_grows (keeps_copyLocal s d w) fun _ w₁ _ =>
      keeps_pure frame_grows _ w₁
  | remove ls => exact absurd rfl (hcopy ls)

end Copies

section RemoteRemovals

variable {point : Point} {client : Nat} {bucket : String}

theorem meet_of_not_mem (s : Store) (h : point ∉ s.outages.map Outage.point)
    (name key : Option String) : s.meet point name key = (none, s) := by
  have hmeet : Outage.meet point name key s.outages = (none, s.outages) := by
    revert h
    induction s.outages with
    | nil => exact fun _ => rfl
    | cons o rest ih =>
      intro h
      rw [List.map_cons, List.mem_cons, not_or] at h
      have hcovers : o.covers point name key = false := by
        simp [Outage.covers, Ne.symm h.1]
      simp [Outage.meet, hcovers, ih h.2]
  rw [Store.meet, hmeet]

theorem gives_meet_of_not_mem (h : point ∉ w.store.outages.map Outage.point)
    (name key : Option String) : (meet point name key).Gives w () w := by
  unfold meet
  rw [gives_get_bind_iff, meet_of_not_mem w.store h]
  exact gives_bind_iff.mpr ⟨(), w, gives_set_iff.mpr rfl, gives_pure_iff.mpr ⟨rfl, rfl⟩⟩

end RemoteRemovals

section LocalRemovals

variable {q : Files.Path}

end LocalRemovals

end Transfer

end StoreSync
