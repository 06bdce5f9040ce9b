import StoreSync.Fault
import StoreSync.Scalar

/-!
A store of objects in buckets. The objects of a bucket keep the order in which their keys were
stored first. Outages are faults that certain requests meet, each as often as it says.
-/
namespace StoreSync.ObjectStore

/-- `sized` says that listings report the size of the object. -/
structure Object where
  key : String
  data : ByteArray
  modified : Option Moment
  etag : Option String
  storageClass : Option String
  encryption : Option String
  sized : Bool

abbrev Bucket := List Object

namespace Bucket

def object? (b : Bucket) (key : String) : Option Object := List.find? (·.key = key) b

def put : Bucket → Object → Bucket
  | [], o => [o]
  | p :: rest, o => if p.key = o.key then o :: rest else p :: put rest o

def erase (b : Bucket) (key : String) : Bucket := b.filter (·.key ≠ key)

def ofList (objects : List Object) : Bucket := objects.foldl put []

end Bucket

inductive Point where
  | connect
  | head
  | upload
  | download
  | copy
  | list
  | page
  | deleteBatch
  | deleteKey
  deriving DecidableEq

/-- What is reported about a key that is not deleted; `none` stands for a value that is absent. -/
structure KeyFailure where
  key : Option String
  code : Option String
  message : Option String
  deriving DecidableEq

inductive Trouble where
  | fault (f : Fault)
  /-- The report on a key, given that key. -/
  | failure (report : String → KeyFailure)

/-- An outage meets the requests at a point as often as `left` says. It may be limited to the
requests of one bucket or key, or to those that name none. -/
structure Outage where
  point : Point
  bucket : Option (Option String)
  key : Option (Option String)
  trouble : Trouble
  left : Option Nat

namespace Outage

def covers (o : Outage) (point : Point) (bucket key : Option String) : Bool :=
  o.point = point && o.bucket.all (· = bucket) && o.key.all (· = key) && o.left ≠ some 0

def use (o : Outage) : Outage := { o with left := o.left.map (· - 1) }

def meet (point : Point) (bucket key : Option String) :
    List Outage → Option Trouble × List Outage
  | [] => (none, [])
  | o :: rest =>
      if o.covers point bucket key then (some o.trouble, o.use :: rest)
      else
        let (found, left) := meet point bucket key rest
        (found, o :: left)

end Outage

/-- What a store and the transfers from it leave open: the tag of contents that were uploaded, and
the time of a file that was downloaded. No result on runs depends on them. -/
structure Habits where
  tag : ByteArray → Option String
  fileTime : Option Moment → Int

def Habits.plain : Habits := ⟨fun _ => none, fun _ => 0⟩

/-- Times are in microseconds. Of what requests leave in the store, results on runs use that the
contents are stored, copied or removed under the key, the time of storing and the extra
arguments. -/
structure Store where
  buckets : List (String × Bucket)
  outages : List Outage
  pageSize : Nat
  now : Int
  habits : Habits

namespace Store

def bucket? (s : Store) (name : String) : Option Bucket := s.buckets.lookup name

def setBucket (s : Store) (name : String) (b : Bucket) : Store :=
  { s with buckets := s.buckets.map fun e => if e.1 = name then (name, b) else e }

def meet (s : Store) (point : Point) (bucket key : Option String) : Option Trouble × Store :=
  let (found, left) := Outage.meet point bucket key s.outages
  (found, { s with outages := left })

end Store

def noSuchBucket (operation : String) : Fault :=
  .response "NoSuchBucket" "The specified bucket does not exist" operation 404

def noSuchKey : Fault := .response "404" "Not Found" "HeadObject" 404

def extraText (extra : List (String × Scalar)) (name : String) : Option String :=
  (extra.lookup name).bind Scalar.shown?

def uploaded (s : Store) (key : String) (data : ByteArray) (extra : List (String × Scalar)) :
    Object :=
  ⟨key, data, some (.zoned s.now), s.habits.tag data,
    extraText extra "StorageClass", extraText extra "ServerSideEncryption", true⟩

/-- The object that a copy leaves; identity and contents are those of the source. -/
def copied (s : Store) (key : String) (source : Object) (extra : List (String × Scalar)) :
    Object :=
  ⟨key, source.data, some (.zoned s.now), source.etag, extraText extra "StorageClass",
    extraText extra "ServerSideEncryption", true⟩

def startingWith (b : Bucket) (start : String) : List Object :=
  b.filter fun o => start.toList.isPrefixOf o.key.toList

/-- Pages of at most so many items; a page size of zero counts as one. -/
def pages {α : Type} (size : Nat) (items : List α) : List (List α) :=
  let n := max size 1
  (List.range ((items.length + n - 1) / n)).map fun i => (items.drop (i * n)).take n

end StoreSync.ObjectStore
