import Mathlib.Data.List.Nodup
import StoreSync.World

/-!
What a store holds, seen through look-ups: how storing, erasing and replacing a bucket change
the object at a key. Two worlds are alike when they differ in requests and in the use of outages
at most; a patch says what becomes of the keys of one bucket while all else stays.
-/
namespace StoreSync

namespace ObjectStore

namespace Bucket

theorem object?_put (b : Bucket) (o : Object) (key : String) :
    (put b o).object? key = if key = o.key then some o else object? b key := by
  induction b with
  | nil =>
    by_cases hkey : key = o.key
    · simp [put, object?, hkey]
    · simp [put, object?, hkey, Ne.symm hkey]
  | cons p rest ih =>
    unfold put
    by_cases hp : p.key = o.key
    · rw [if_pos hp]
      by_cases hkey : key = o.key
      · simp [object?, hkey]
      · have hok : o.key ≠ key := Ne.symm hkey
        have hpk : p.key ≠ key := hp ▸ hok
        simp [object?, hkey, hok, hpk]
    · rw [if_neg hp]
      by_cases hpk : p.key = key
      · have hkey : key ≠ o.key := hpk ▸ hp
        simp [object?, hpk, hkey]
      · have hcons : ∀ r : Bucket, object? (p :: r) key = object? r key := by
          intro r
          simp [object?, hpk]
        rw [hcons, hcons]
        exact ih

theorem object?_erase (b : Bucket) (erased key : String) :
    (erase b erased).object? key = if key = erased then none else object? b key := by
  unfold erase object?
  rw [List.find?_filter]
  by_cases hkey : key = erased
  · subst hkey
    simp
  · rw [if_neg hkey]
    congr 1
    funext o
    by_cases ho : o.key = key
    · simp [ho, hkey]
    · simp [ho]

variable {b : Bucket} {o : Object} {key : String}

theorem mem_of_object? (h : b.object? key = some o) : o ∈ b ∧ o.key = key :=
  ⟨List.mem_of_find?_eq_some h, by simpa using List.find?_some h⟩

theorem object?_of_mem (hkeys : (b.map Object.key).Nodup) (ho : o ∈ b) :
    b.object? o.key = some o := by
  cases hfind : b.object? o.key with
  | none => simpa using List.find?_eq_none.mp hfind o ho
  | some p =>
    obtain ⟨hp, hkey⟩ := mem_of_object? hfind
    rw [List.inj_on_of_nodup_map hkeys hp ho hkey]

end Bucket

namespace Store

variable (s : Store)

def object? (bucket key : String) : Option Object := (s.bucket? bucket).bind (·.object? key)

theorem bucket?_setBucket (name other : String) (b : Bucket) :
    (s.setBucket name b).bucket? other =
      if other = name then (s.bucket? name).map fun _ => b else s.bucket? other := by
  unfold setBucket bucket?
  induction s.buckets with
  | nil => simp
  | cons e rest ih =>
    obtain ⟨n, c⟩ := e
    by_cases hn : n = name
    · subst hn
      by_cases hother : other = n
      · simp [hother]
      · have hno : (other == n) = false := by simpa using hother
        simpa [List.lookup_cons, hother, hno] using ih
    · by_cases hother : other = n
      · have hname : other ≠ name := hother ▸ hn
        simp [hn, hother]
      · have hno : (other == n) = false := by simpa using hother
        have hnn : (name == n) = false := by simpa using Ne.symm hn
        simpa [List.lookup_cons, hn, hno, hnn] using ih

/-- A bucket that is replaced changes at its own keys only. -/
theorem object?_setBucket (name bucket key : String) (b : Bucket) :
    (s.setBucket name b).object? bucket key =
      if bucket = name then (s.bucket? name).bind fun _ => b.object? key
      else s.object? bucket key := by
  rw [object?, bucket?_setBucket]
  by_cases hname : bucket = name
  · cases h : s.bucket? name <;> simp [hname]
  · simp [hname, object?]

/-- Storing an object in a bucket that exists. -/
theorem object?_setBucket_put {name : String} {b : Bucket} (hb : s.bucket? name = some b)
    (o : Object) (bucket key : String) :
    (s.setBucket name (b.put o)).object? bucket key =
      if bucket = name ∧ key = o.key then some o else s.object? bucket key := by
  rw [object?_setBucket]
  by_cases hname : bucket = name
  · subst hname
    simp [hb, Bucket.object?_put, object?]
  · simp [hname]

/-- Erasing a key, whether or not its bucket exists. -/
theorem object?_setBucket_erase (name erased bucket key : String) :
    (s.setBucket name (((s.bucket? name).getD []).erase erased)).object? bucket key =
      if bucket = name ∧ key = erased then none else s.object? bucket key := by
  rw [object?_setBucket]
  by_cases hname : bucket = name
  · subst hname
    cases hb : s.bucket? bucket with
    | none => simp [object?, hb]
    | some b => simp [object?, hb, Bucket.object?_erase]
  · simp [hname]

end Store

section Pages

variable {α : Type}

theorem flatten_range_pages (items : List α) (n count : Nat) :
    ((List.range count).map fun i => (items.drop (i * n)).take n).flatten =
      items.take (count * n) := by
  induction count with
  | zero => simp
  | succ count ih =>
    rw [List.range_succ, List.map_append, List.flatten_append, ih, Nat.succ_mul, List.take_add]
    simp

/-- Pages lose no item. -/
theorem flatten_pages (size : Nat) (items : List α) :
    (ObjectStore.pages size items).flatten = items := by
  unfold ObjectStore.pages
  rw [flatten_range_pages]
  apply List.take_of_length_le
  have hpos : 0 < max size 1 := by omega
  have hceil := Nat.lt_div_mul_add hpos (a := items.length + max size 1 - 1)
  omega

end Pages

end ObjectStore

namespace World

open ObjectStore

/-- The worlds hold the same files and objects at the same time of the store; requests and the
use of outages may differ. -/
structure Alike (w w' : World) : Prop where
  files : w'.files = w.files
  buckets : w'.store.buckets = w.store.buckets
  now : w'.store.now = w.store.now
  habits : w'.store.habits = w.store.habits
  points : w'.store.outages.map Outage.point = w.store.outages.map Outage.point

variable {w w₁ w' : World}

theorem Alike.refl (w : World) : Alike w w := ⟨rfl, rfl, rfl, rfl, rfl⟩

theorem Alike.trans (h : Alike w w₁) (h' : Alike w₁ w') : Alike w w' :=
  ⟨h'.files.trans h.files, h'.buckets.trans h.buckets, h'.now.trans h.now,
    h'.habits.trans h.habits, h'.points.trans h.points⟩

theorem Alike.bucket? (h : Alike w w') (name : String) :
    w'.store.bucket? name = w.store.bucket? name := by
  rw [Store.bucket?, Store.bucket?, h.buckets]

theorem Alike.object? (h : Alike w w') (bucket key : String) :
    w'.store.object? bucket key = w.store.object? bucket key := by
  rw [Store.object?, Store.object?, h.bucket?]

theorem alike_note (w : World) (client : Nat) (r : Request) : Alike w (w.note client r) :=
  ⟨rfl, rfl, rfl, rfl, rfl⟩

theorem alike_addClient (w : World) (c : Connection) : Alike w (w.addClient c) :=
  ⟨rfl, rfl, rfl, rfl, rfl⟩

theorem points_meet (point : Point) (bucket key : Option String) (os : List Outage) :
    (Outage.meet point bucket key os).2.map Outage.point = os.map Outage.point := by
  induction os with
  | nil => rfl
  | cons o rest ih =>
    unfold Outage.meet
    by_cases hcovers : o.covers point bucket key = true
    · simp [hcovers, Outage.use]
    · simp [hcovers, ih]

theorem alike_meet (w : World) (point : Point) (bucket key : Option String) :
    Alike w (w.setStore (w.store.meet point bucket key).2) :=
  ⟨rfl, rfl, rfl, rfl, points_meet point bucket key w.store.outages⟩

/-- What becomes of the keys of a bucket: `none` leaves a key as it is, `some none` erases it. -/
abbrev Patch := String → Option (Option Object)

namespace Patch

def storing (o : Object) : Patch := fun key => if key = o.key then some (some o) else none

def erasing (keys : List String) : Patch := fun key => if key ∈ keys then some none else none

end Patch

structure SameBeside (bucket : String) (w w' : World) : Prop where
  files : w'.files = w.files
  now : w'.store.now = w.store.now
  habits : w'.store.habits = w.store.habits
  others : ∀ b, b ≠ bucket → w'.store.bucket? b = w.store.bucket? b

structure Patched (bucket : String) (p : Patch) (w w' : World) : Prop
    extends SameBeside bucket w w' where
  objects : ∀ key, w'.store.object? bucket key = (p key).getD (w.store.object? bucket key)

variable {bucket : String} {p q : Patch}

theorem SameBeside.trans (h : SameBeside bucket w w₁) (h' : SameBeside bucket w₁ w') :
    SameBeside bucket w w' :=
  ⟨h'.files.trans h.files, h'.now.trans h.now, h'.habits.trans h.habits,
    fun b hb => (h'.others b hb).trans (h.others b hb)⟩

theorem SameBeside.object? (h : SameBeside bucket w w') {b : String} (hb : b ≠ bucket)
    (key : String) : w'.store.object? b key = w.store.object? b key := by
  rw [Store.object?, Store.object?, h.others b hb]

theorem Alike.sameBeside (h : Alike w w') (bucket : String) : SameBeside bucket w w' :=
  ⟨h.files, h.now, h.habits, fun b _ => h.bucket? b⟩

theorem Patched.trans (h : Patched bucket p w w₁) (h' : Patched bucket q w₁ w') :
    Patched bucket (fun key => (q key).or (p key)) w w' where
  toSameBeside := h.toSameBeside.trans h'.toSameBeside
  objects key := by
    rw [h'.objects, h.objects]
    cases q key <;> rfl

theorem Alike.patched (h : Alike w w') (bucket : String) :
    Patched bucket (fun _ => none) w w' :=
  ⟨h.sameBeside bucket, fun key => h.object? bucket key⟩

/-- Work that nobody sees in the contents may come first. -/
theorem Patched.of_alike (h : Alike w w₁) (h' : Patched bucket p w₁ w') :
    Patched bucket p w w' := by
  simpa using (h.patched bucket).trans h'

theorem Patched.congr (h : Patched bucket p w w') (hpq : ∀ key, p key = q key) :
    Patched bucket q w w' := funext hpq ▸ h

theorem patched_put {b : Bucket} (hb : w.store.bucket? bucket = some b) (o : Object) :
    Patched bucket (Patch.storing o) w (w.setStore (w.store.setBucket bucket (b.put o))) where
  files := rfl
  now := rfl
  habits := rfl
  others name hname := by simp [setStore, Store.bucket?_setBucket, hname]
  objects key := by
    by_cases hkey : key = o.key
    · simp [setStore, Store.object?_setBucket_put w.store hb, Patch.storing, hkey]
    · simp [setStore, Store.object?_setBucket_put w.store hb, Patch.storing, hkey]

theorem patched_erase (w : World) (bucket erased : String) :
    Patched bucket (Patch.erasing [erased]) w (w.setStore (w.store.setBucket bucket
      (((w.store.bucket? bucket).getD []).erase erased))) where
  files := rfl
  now := rfl
  habits := rfl
  others name hname := by simp [setStore, Store.bucket?_setBucket, hname]
  objects key := by
    by_cases hkey : key = erased
    · simp [setStore, Store.object?_setBucket_erase, Patch.erasing, hkey]
    · simp [setStore, Store.object?_setBucket_erase, Patch.erasing, hkey]

end World

end StoreSync
