import StoreSync.Execution
import StoreSync.Files.Change
import StoreSync.World

/-!
Carrying out calls: copies between files and objects, and removals. Removals of objects go out
in batches of one bucket each; a batch or a key that fails does not stop the others.
-/
namespace StoreSync.Transfer

open ObjectStore

def extraOf (extra : Extra) : Option Extra := if extra.isEmpty then none else some extra

def upload (client : Nat) (source destination : Location) (extra : Extra) : Action Unit := do
  let (bucket, key) := (destination.bucket, destination.path)
  Action.note client (.upload source.path bucket key (extraOf extra))
  Action.meet .upload (some bucket) (some key)
  let w ← get
  let (data, _) ← Action.liftExcept (w.files.readFile source.path)
  Action.store bucket fun s => uploaded s key data extra

/-- Makes the directory for the file first. -/
def download (client : Nat) (source destination : Location) : Action Unit := do
  Action.changeFiles fun t => t.makeParent destination.path
  let (bucket, key) := (source.bucket, source.path)
  Action.note client (.download bucket key destination.path)
  Action.meet .download (some bucket) (some key)
  let o ← Action.object bucket key
  let modified := (← get).store.habits.fileTime o.modified
  Action.replaceFiles fun t => t.writeFile destination.path o.data modified

def copyRemote (client : Nat) (reader : Option Nat) (source destination : Location)
    (extra : Extra) : Action Unit := do
  let (bucket, key) := (destination.bucket, destination.path)
  Action.note client (.copy source.bucket source.path bucket key (extraOf extra) reader)
  Action.meet .copy (some bucket) (some key)
  let o ← Action.object source.bucket source.path
  Action.store bucket fun s => copied s key o extra

def copyLocal (source destination : Location) : Action Unit := do
  Action.changeFiles fun t => t.makeParent destination.path
  Action.replaceFiles fun t => t.copyFile source.path destination.path

def batchSize : Nat := 1000

/-- The keys of each bucket, buckets in the order in which they come first. -/
def byBucket (locations : List Location) : List (String × List String) :=
  (locations.map Location.bucket).eraseDups.map fun b =>
    (b, (locations.filter (·.bucket = b)).map Location.path)

def batches (locations : List Location) : List (String × List String) :=
  (byBucket locations).flatMap fun g => (pages batchSize g.2).map fun keys => (g.1, keys)

/-- Deletes keys one by one; those that meet an outage stay. -/
def eraseKeys (bucket : String) : List String → Store → List KeyFailure × Store
  | [], s => ([], s)
  | key :: rest, s =>
      match s.meet .deleteKey (some bucket) (some key) with
      | (some (.failure report), next) =>
          let (failures, last) := eraseKeys bucket rest next
          (report key :: failures, last)
      | (_, next) =>
          eraseKeys bucket rest (next.setBucket bucket (((next.bucket? bucket).getD []).erase key))

def deleteBatch (client : Nat) (bucket : String) (keys : List String) :
    Action (List KeyFailure) := do
  Action.note client (.delete bucket keys)
  Action.meet .deleteBatch (some bucket) keys.head?
  let _ ← Action.bucket bucket "DeleteObjects"
  let w ← get
  let (failures, store) := eraseKeys bucket keys w.store
  set (w.setStore store)
  pure failures

def shown (value : Option String) : String := value.getD "None"

def keyFault (bucket : String) (f : KeyFailure) : Fault :=
  .plain .storage s!"delete s3://{bucket}/{shown f.key}: {shown f.code} {shown f.message}"

def batchFault (f : Fault) : Fault := .plain .storage ("delete batch failed: " ++ f.message)

structure Tally where
  deleted : Int
  faults : List Fault

def Tally.zero : Tally := ⟨0, []⟩

/-- Sends a batch. Faults that come from no request end the work. -/
def sendBatch (client : Nat) (tally : Tally) (batch : String × List String) : Action Tally :=
  tryCatch (do
      let failures ← deleteBatch client batch.1 batch.2
      pure (Tally.mk (tally.deleted + (batch.2.length - failures.length))
        (tally.faults ++ failures.map (keyFault batch.1))))
    fun f =>
      if f.isRequest then pure { tally with faults := tally.faults ++ [batchFault f] }
      else throw f

def removeRemote (client : Nat) (locations : List Location) : Action Int := do
  let tally ← (batches locations).foldlM (sendBatch client) Tally.zero
  match Fault.single? tally.faults with
  | some f => throw f
  | none => pure tally.deleted

def removeFile (tally : Tally) (l : Location) : Action Tally := do
  let w ← get
  match w.files.removeFile l.path with
  | .ok t =>
      set (w.setFiles t)
      pure { tally with deleted := tally.deleted + 1 }
  | .error f =>
      if f.isSystem then pure { tally with faults := tally.faults ++ [f] } else throw f

def removeLocal (locations : List Location) : Action Int := do
  let tally ← locations.foldlM removeFile Tally.zero
  match tally.faults with
  | [] => pure tally.deleted
  | [f] => throw (.plain .storage ("delete " ++ f.message))
  | fs => throw (.many fs)

inductive Side where
  | files
  | client (number : Nat)
  deriving DecidableEq

def Side.number? : Side → Option Nat
  | .files => none
  | .client n => some n

def connect (l : Location) (c : Connection) : Action Side :=
  if l.isRemote then do
    Action.liftExcept c.check
    Action.meet .connect c.region none
    let w ← get
    set (w.addClient c)
    pure (.client w.clients.length)
  else pure .files

def noClient : Fault := .plain .general "no client for remote locations"

def clientOf (s : Side) : Action Nat :=
  match s with
  | .client n => pure n
  | .files => throw noClient

def remove (side : Side) (locations : List Location) : Action Int :=
  match side with
  | .files => removeLocal locations
  | .client n => removeRemote n locations

def perform (source destination : Side) : Call → Action Int
  | .upload s d extra => do
      upload (← clientOf destination) s d extra
      pure 1
  | .download s d => do
      download (← clientOf source) s d
      pure 1
  | .copyRemote s d extra => do
      copyRemote (← clientOf destination) source.number? s d extra
      pure 1
  | .copyLocal s d => do
      copyLocal s d
      pure 1
  | .remove ls => remove destination ls

end StoreSync.Transfer
