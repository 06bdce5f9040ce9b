import StoreSync.Fault
import StoreSync.Location.Basic
import StoreSync.StorageClass

/-!
Entries of listings: a file or directory with what is known about it, or a fault that took the
place of an object.
-/
namespace StoreSync

inductive EntryKind where
  | file
  | directory
  deriving DecidableEq

structure Entry where
  location : Location
  kind : EntryKind
  size : Int
  modified : Option Moment
  etag : Option String
  storageClass : Option StorageClass
  fault : Option Fault

namespace Entry

def ofFault (location : Location) (fault : Fault) : Entry :=
  ⟨location, .file, 0, none, none, none, some fault⟩

def relative (e : Entry) : String := e.location.relative

def isDirectory (e : Entry) : Bool := e.kind = .directory

def cleanETag (reported : Option String) : Option String :=
  match reported with
  | none => none
  | some "" => none
  | some text =>
      let inner := text.toList.dropWhile (· = '"')
      some (String.ofList (inner.reverse.dropWhile (· = '"')).reverse)

end Entry

end StoreSync
