import StoreSync.Files.Resolve

/-!
Operations that read and change a tree by the text of a path.
-/
namespace StoreSync.Files

open Text

def endsInSlash (text : String) : Bool := Slash.endsInSlash text.toList

def parentOf (text : String) : String := String.ofList (Slash.parent text.toList)

def nameOf (text : String) : String := String.ofList (Slash.lastPart text.toList)

def joinPath (path name : String) : String :=
  String.ofList (Slash.join path.toList name.toList)

namespace Tree

def refuse {α : Type} (path : String) : Except Refusal α → Except Fault α
  | .ok a => .ok a
  | .error r => .error (r.fault path)

/-- Makes a directory whose parent exists. Slashes at the end do not matter. -/
def makeDirectory (t : Tree) (text : String) : Except Fault Tree :=
  match t.locateTrimmed text with
  | .error r => .error (r.fault text)
  | .ok (.found _ _) => .error (Refusal.exists.fault text)
  | .ok (.vacant p) => .ok (t.put p .directory)

def isExistsFault : Fault → Bool := Fault.hasErrno 17

/-- The directory above a path and the name in it; slashes at the end do not count. -/
def splitPath (text : String) : String × String :=
  if nameOf text = "" then (parentOf (parentOf text), nameOf (parentOf text))
  else (parentOf text, nameOf text)

/-- Makes a directory unless it exists, with the directories above it. `fuel` bounds their
number; the length of the text is enough. -/
def makeDirectoriesWithin (t : Tree) : Nat → String → Tree × Option Fault
  | 0, _ => (t, none)
  | fuel + 1, text =>
      let (head, tail) := splitPath text
      let (above, fault) : Tree × Option Fault :=
        if head ≠ "" ∧ tail ≠ "" ∧ ¬t.existsAt head then
          match t.makeDirectoriesWithin fuel head with
          | (u, some f) => if isExistsFault f then (u, none) else (u, some f)
          | result => result
        else (t, none)
      match fault with
      | some f => (above, some f)
      | none =>
          if head ≠ "" ∧ tail = "." ∧ ¬t.existsAt head then (above, none)
          else
            match above.makeDirectory text with
            | .ok u => (u, none)
            | .error f => (above, if above.isDirectoryAt text then none else some f)

/-- The directories that could be made stay when a fault ends the work. -/
def makeDirectories (t : Tree) (text : String) : Tree × Option Fault :=
  t.makeDirectoriesWithin (text.length + 1) text

def makeParent (t : Tree) (text : String) : Tree × Option Fault :=
  let parent := parentOf text
  if parent = "" then (t, none) else t.makeDirectories parent

def readFile (t : Tree) (text : String) : Except Fault (ByteArray × Int) :=
  match t.find .target text with
  | .error r => .error (r.fault text)
  | .ok (_, .file data modified) => .ok (data, t.range.keep modified)
  | .ok _ => .error (Refusal.isDirectory.fault text)

def writeFile (t : Tree) (text : String) (data : ByteArray) (modified : Int) :
    Except Fault Tree :=
  match t.locate .writing text with
  | .error r => .error (r.fault text)
  | .ok (.found p (.file _ _)) => .ok (t.put p (.file data modified))
  | .ok (.found _ _) => .error (Refusal.isDirectory.fault text)
  | .ok (.vacant p) => .ok (t.put p (.file data modified))

def removeFile (t : Tree) (text : String) : Except Fault Tree :=
  match t.locateTrimmed text with
  | .error r => .error (r.fault text)
  | .ok (.vacant _) => .error (Refusal.noEntry.fault text)
  | .ok (.found _ .directory) => .error (Refusal.isDirectory.fault text)
  | .ok (.found p _) =>
      if endsInSlash text then .error (Refusal.notDirectory.fault text) else .ok (t.erase p)

def makeLink (t : Tree) (text target : String) : Except Fault Tree :=
  match t.locate .entry text with
  | .error r => .error (r.fault text)
  | .ok (.found _ _) => .error (Refusal.exists.fault text)
  | .ok (.vacant p) => .ok (t.put p (.link target))

/-- Copies contents and time of a file, into a directory if the target is one. -/
def copyFile (t : Tree) (source target : String) : Except Fault Tree :=
  let target := if t.isDirectoryAt target then joinPath target (nameOf source) else target
  if holdsZero source || holdsZero target then .error (Refusal.zeroCharacter.fault target)
  else if t.sameAt source target then .error (.sameFile source target)
  else
    match t.readFile source with
    | .error f => .error f
    | .ok (data, modified) =>
        match t.writeFile target data modified with
        | .ok u => .ok u
        | .error f =>
            .error (if Fault.hasErrno 21 f ∧ ¬t.existsAt target then .noDirectory target else f)

end Tree

end StoreSync.Files
