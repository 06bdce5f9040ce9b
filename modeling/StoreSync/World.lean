import StoreSync.Connection
import StoreSync.Files.Tree
import StoreSync.ObjectStore.Basic

/-!
The world that a run works on: a tree of files, a store of objects, and the clients of the store
with the requests that they made, in order.
-/
namespace StoreSync

inductive Request where
  | list (bucket : String) (start : Option String)
  | head (bucket key : String)
  | upload (file bucket key : String) (extra : Option (List (String × Scalar)))
  | download (bucket key file : String)
  /-- `reader` is the client that reads the source, if it is another one. -/
  | copy (sourceBucket sourceKey bucket key : String) (extra : Option (List (String × Scalar)))
      (reader : Option Nat)
  | delete (bucket : String) (keys : List String)

structure Client where
  connection : Connection
  requests : List Request

structure World where
  files : Files.Tree
  store : ObjectStore.Store
  clients : List Client

/-- Work on the world that a fault may end; what was done before stays. -/
abbrev Action := ExceptT Fault (StateM World)

namespace World

open ObjectStore

def note (w : World) (client : Nat) (r : Request) : World :=
  { w with clients := w.clients.modify client fun c => { c with requests := c.requests ++ [r] } }

def addClient (w : World) (c : Connection) : World := { w with clients := w.clients ++ [⟨c, []⟩] }

def setFiles (w : World) (t : Files.Tree) : World := { w with files := t }

def setStore (w : World) (s : Store) : World := { w with store := s }

end World

namespace Action

open ObjectStore

def liftExcept {α : Type} : Except Fault α → Action α
  | .ok a => pure a
  | .error f => throw f

def note (client : Nat) (r : Request) : Action Unit := modify fun w => w.note client r

def meet (point : Point) (bucket key : Option String) : Action Unit := do
  let w ← get
  let (found, store) := w.store.meet point bucket key
  set (w.setStore store)
  match found with
  | some (.fault f) => throw f
  | _ => pure ()

def bucket (name operation : String) : Action Bucket := do
  let w ← get
  match w.store.bucket? name with
  | some b => pure b
  | none => throw (noSuchBucket operation)

def object (bucketName key : String) : Action Object := do
  let b ← bucket bucketName "HeadObject"
  match b.object? key with
  | some o => pure o
  | none => throw noSuchKey

def store (bucketName : String) (make : Store → Object) : Action Unit := do
  let b ← bucket bucketName "PutObject"
  modify fun w => w.setStore (w.store.setBucket bucketName (b.put (make w.store)))

/-- Changes the files. What was changed stays, whether or not there is a fault. -/
def changeFiles (change : Files.Tree → Files.Tree × Option Fault) : Action Unit := do
  let w ← get
  let (t, fault) := change w.files
  set (w.setFiles t)
  match fault with
  | some f => throw f
  | none => pure ()

def replaceFiles (change : Files.Tree → Except Fault Files.Tree) : Action Unit := do
  let w ← get
  let t ← liftExcept (change w.files)
  set (w.setFiles t)

end Action

end StoreSync
