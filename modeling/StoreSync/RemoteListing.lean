import StoreSync.Glob.Reader
import StoreSync.Listing
import StoreSync.World

/-!
Listings of remote locations. An exact key stands for its object; a bucket, a folder or a
pattern stands for the objects whose keys it covers. The store hands out keys page by page, and
only those that start with the fixed part of the pattern.
-/
namespace StoreSync.RemoteListing

open ObjectStore

/-- The location of a key, with the path relative to the listing unless that is empty. -/
def locationOf (bucket key relative : String) : Location :=
  ⟨Location.remoteScheme, bucket, key, true, if relative = "" then none else some relative⟩

def kindOf (key : String) : EntryKind :=
  if Text.Slash.endsInSlash key.toList then .directory else .file

def entryOf (bucket relative : String) (o : Object) : Entry :=
  ⟨locationOf bucket o.key relative, kindOf o.key, if o.sized then o.data.size else 0,
    o.modified, Entry.cleanETag o.etag, o.storageClass.bind StorageClass.ofName?, none⟩

def storageFault (f : Fault) : Fault := .plain .storage f.message

def status (client : Nat) (l : Location) : Action Entry := do
  Action.note client (.head l.bucket l.path)
  let answer : Action Object := do
    Action.meet .head (some l.bucket) (some l.path)
    Action.object l.bucket l.path
  tryCatch (do
      let o ← answer
      pure (entryOf l.bucket l.base o))
    fun f =>
      if f.isMissing then throw (.notFound (some l.text))
      else if f.isRequest then throw (storageFault f)
      else throw f

def ofKey (client : Nat) (l : Location) : StateM World Listing := do
  match ← (status client l).run with
  | .ok e => pure (.single e)
  | .error f => pure (if f.isStorage then .single (.ofFault l f) else .failed f)

structure Progress where
  polls : Nat
  given : Nat

structure PageResult where
  entries : List Entry
  progress : Progress
  ended : Bool

def readPage (watch : Watch) (l : Location) (accepts : List Char → Bool) (base : Nat) :
    Progress → List Object → PageResult
  | p, [] => ⟨[], p, false⟩
  | p, o :: rest =>
      if watch p.polls p.given then ⟨[Listing.cancelled l], p, true⟩
      else if accepts o.key.toList then
        let e := entryOf l.bucket (String.ofList (o.key.toList.drop base)) o
        let r := readPage watch l accepts base ⟨p.polls + 1, p.given + 1⟩ rest
        { r with entries := e :: r.entries }
      else readPage watch l accepts base ⟨p.polls + 1, p.given⟩ rest

def endedBy (l : Location) (f : Fault) : Listing :=
  if f.isRequest then .single (.ofFault l (storageFault f)) else .failed f

def prepend (entries : List Entry) (l : Listing) : Listing :=
  { l with entries := entries ++ l.entries }

def readPages (watch : Watch) (l : Location) (accepts : List Char → Bool) (base : Nat) :
    Nat → Progress → List (List Object) → StateM World Listing
  | _, p, [] => pure (if p.given = 0 then .single (Listing.nothing l) else ⟨[], none⟩)
  | number, p, page :: rest => do
      match ← (Action.meet .page (some l.bucket) (some (toString number))).run with
      | .error f => pure (endedBy l f)
      | .ok () =>
          let r := readPage watch l accepts base p page
          if r.ended then pure ⟨r.entries, none⟩
          else do
            let tail ← readPages watch l accepts base (number + 1) r.progress rest
            pure (prepend r.entries tail)

/-- The keys that the location covers, page by page; there is always a first page. -/
def request (client : Nat) (l : Location) : Action (List (List Object)) := do
  let start := String.ofList l.fixedPart
  let given := if start = "" then none else some start
  Action.note client (.list l.bucket given)
  Action.meet .list (some l.bucket) given
  let b ← Action.bucket l.bucket "ListObjectsV2"
  let w ← get
  match pages w.store.pageSize (startingWith b start) with
  | [] => pure [[]]
  | ps => pure ps

def accepts (l : Location) : List Char → Bool :=
  if l.isWildcard then Glob.holds (Glob.read l.path) else fun _ => true

def list (client : Nat) (l : Location) (watch : Watch) : StateM World Listing := do
  if !(l.isWildcard || l.isFolder || l.isBucket) then ofKey client l
  else
    match ← (request client l).run with
    | .error f => pure (endedBy l f)
    | .ok ps => readPages watch l (accepts l) l.listBase.length 0 ⟨0, 0⟩ ps

end StoreSync.RemoteListing
