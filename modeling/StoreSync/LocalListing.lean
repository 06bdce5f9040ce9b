import StoreSync.Files.Walk
import StoreSync.Glob.Reader
import StoreSync.Listing

/-!
Listings of local paths. A path stands for itself, for every file below it if it is a directory,
or for every file whose path matches it if it is a pattern.
-/
namespace StoreSync.LocalListing

open Files

def locationOf (path relative : String) : Location :=
  ⟨"", "", path, true, if relative = "" then none else some relative⟩

/-- Links have no entries of their own. Directories have no size that matters. -/
def sizeOf : Node → Nat
  | .file data _ => data.size
  | _ => 0

/-- The time of a node, if the calendar reaches that far. -/
def timeOf (t : Tree) (p : Path) (n : Node) : Except Fault (Option Moment) :=
  match t.modified? p n with
  | none => .ok none
  | some modified =>
      match Moment.ofFileTime modified with
      | .ok m => .ok (some m)
      | .error f => .error (.clock f)

def entryOf (t : Tree) (p : Path) (path relative : String) (n : Node) : Except Fault Entry :=
  match timeOf t p n with
  | .error f => .error f
  | .ok time =>
      .ok ⟨locationOf path relative, if n.isDirectory then .directory else .file, sizeOf n,
        time, none, none, none⟩

def entryOfFault (l : Location) (f : Fault) : Except Fault Entry :=
  if f.isSystem then .ok (.ofFault l f) else .error f

def entryAt (t : Tree) (path relative : String) : Except Fault Entry :=
  match t.find .target path with
  | .ok (p, n) => entryOf t p path relative n
  | .error r =>
      entryOfFault (locationOf path relative) (r.fault path)

def status (t : Tree) (l : Location) : Except Fault Entry :=
  match t.find .target l.path with
  | .ok (p, n) => entryOf t p l.path l.base n
  | .error .noEntry => .error (.notFound (some l.text))
  | .error r => .error (r.fault l.path)

def directoryEntries (t : Tree) (root : String) (followLinks : Bool) :
    List (Except Fault Entry) :=
  (t.walk followLinks root).map fun
    | .unreadable f => entryOfFault (locationOf root "") f
    | .file path names => entryAt t path (String.intercalate "/" names)

/-- A path as it stands in a pattern that starts in the current directory. -/
def withoutDot (base : List Char) (path : String) : List Char :=
  match base, path.toList with
  | [], '.' :: '/' :: rest => rest
  | _, cs => cs

def patternEntries (t : Tree) (l : Location) (followLinks : Bool) : List (Except Fault Entry) :=
  let base := l.listBase
  let pattern := Glob.read l.path
  let root := if base = [] then "." else String.ofList base
  (t.walk followLinks root).filterMap fun
    | .unreadable f => some (entryOfFault l f)
    | .file path _ =>
        let cs := withoutDot base path
        if Glob.holds pattern cs then
          some (entryAt t (String.ofList cs) (String.ofList (cs.drop base.length)))
        else none

/-- Gives out entries until the run is cancelled or one of them cannot be made. -/
def giveOut (watch : Watch) (l : Location) : Nat → List (Except Fault Entry) → Listing
  | 0, [] => .single (Listing.nothing l)
  | _ + 1, [] => ⟨[], none⟩
  | _, .error f :: _ => .failed f
  | given, .ok e :: rest =>
      if watch given given then .single (Listing.cancelled l)
      else (giveOut watch l (given + 1) rest).push e

def ofPath (t : Tree) (l : Location) (followLinks : Bool) (watch : Watch) : Listing :=
  match t.find (if followLinks then .target else .entry) l.path with
  | .error .noEntry => .single (Listing.nothing l)
  | .error r =>
      match entryOfFault l (r.fault l.path) with
      | .ok e => .single e
      | .error f => .failed f
  | .ok (_, .link _) => ⟨[], none⟩
  | .ok (_, .directory) => giveOut watch l 0 (directoryEntries t l.path followLinks)
  | .ok (p, n) =>
      match entryOf t p l.path l.base n with
      | .ok e => .single e
      | .error f => .failed f

def list (t : Tree) (l : Location) (followLinks : Bool) (watch : Watch) : Listing :=
  if l.isWildcard then giveOut watch l 0 (patternEntries t l followLinks)
  else ofPath t l followLinks watch

end StoreSync.LocalListing
