import StoreSync.Glob.Basic
import StoreSync.Text.Quoted
import StoreSync.Text.Slash

/-!
Locations: paths of the local file system and keys of buckets. Two locations are the same when
scheme, bucket and path agree; whether the path is taken literally and which relative path was
assigned to it do not matter for that.
-/
namespace StoreSync

/-- `literal` says that special characters in the path form no pattern. `assigned` is the path
relative to the listing that produced the location. -/
structure Location where
  scheme : String
  bucket : String
  path : String
  literal : Bool
  assigned : Option String
  deriving DecidableEq

inductive InvalidLocation where
  | empty
  | noBucket (text : String)
  | wildcardBucket (text : String)
  deriving DecidableEq

def InvalidLocation.message : InvalidLocation → String
  | empty => "location cannot be empty"
  | noBucket text => "s3 url should have a bucket: " ++ Text.Quoted.quote text
  | wildcardBucket text => "bucket name cannot contain wildcards: " ++ Text.Quoted.quote text

namespace Location

open Text

def remoteScheme : String := "s3"

def remoteStart : List Char := "s3://".toList

/-- Reads `s3://bucket/key` as a remote location and any other text as a local path. -/
def parse (text : String) (literal : Bool) : Except InvalidLocation Location :=
  let cs := text.toList
  if cs.isEmpty then .error .empty
  else if remoteStart.isPrefixOf cs then
    let rest := cs.drop remoteStart.length
    let bucket := rest.takeWhile (· ≠ '/')
    if bucket.isEmpty then .error (.noBucket text)
    else if Glob.hasSpecial bucket then .error (.wildcardBucket text)
    else
      let key := (rest.dropWhile (· ≠ '/')).drop 1
      .ok ⟨remoteScheme, String.ofList bucket, String.ofList key, literal, none⟩
  else .ok ⟨"", "", text, literal, none⟩

variable (l : Location)

def isRemote : Bool := l.scheme = remoteScheme

def isWildcard : Bool := !l.literal && Glob.hasSpecial l.path.toList

def isBucket : Bool := l.isRemote && l.path = ""

def isFolder : Bool := l.isRemote && Slash.endsInSlash l.path.toList

def fixedPart : List Char :=
  if l.isWildcard then l.path.toList.takeWhile (!Glob.isSpecial ·) else l.path.toList

/-- The directory part of the fixed part; relative paths start there. -/
def listBase : List Char :=
  let p := l.fixedPart
  Slash.directoryPart
    (if l.isWildcard || l.isFolder || l.isBucket then p else Slash.trimEnd p)

def base : String :=
  String.ofList (Slash.lastPart (Slash.trimEnd l.path.toList))

def relative : String := l.assigned.getD l.base

def assign (relative : String) : Location := { l with assigned := some relative }

def setLiteral (literal : Bool) : Location := { l with literal := literal }

/-- The location of a name below this one. A key gets a slash in between if it needs one; a local
path is joined by the rules of paths. -/
def join (name : String) : Location :=
  let p := l.path.toList
  let joined :=
    if l.isRemote then
      (if p.isEmpty || Slash.endsInSlash p then p else p ++ ['/']) ++ name.toList
    else Slash.join p name.toList
  { l with path := String.ofList joined, assigned := none }

def text : String :=
  if l.isRemote then
    if l.path = "" then "s3://" ++ l.bucket else "s3://" ++ l.bucket ++ "/" ++ l.path
  else l.path

def quoted : String := "URL(" ++ Quoted.quote l.text ++ ")"

def same (m : Location) : Bool :=
  l.scheme = m.scheme && l.bucket = m.bucket && l.path = m.path

theorem same_refl : l.same l = true := by simp [same]

theorem same_iff {m : Location} :
    l.same m = true ↔ l.scheme = m.scheme ∧ l.bucket = m.bucket ∧ l.path = m.path := by
  simp [same, and_assoc]

def distinct (ls : List Location) : List Location := ls.eraseDupsBy same

end Location

end StoreSync
