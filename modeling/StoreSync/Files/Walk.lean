import StoreSync.Files.Change

/-!
Walks through the files below a directory. Each directory gives its own files first, then what
lies below its subdirectories. What is not known to be a directory counts as a file.
-/
namespace StoreSync.Files

/-- What a walk meets: the path of a file with its names below the root, or a directory that
cannot be read. -/
inductive Visit where
  | file (path : String) (names : List String)
  | unreadable (fault : Fault)

namespace Tree

/-- Whether an entry is walked into: a directory, or a link that leads to one. A directory counts
even if its path is too long to be followed. -/
def entersAt (t : Tree) (path : String) : Node → Bool
  | .directory => true
  | .link _ => t.isDirectoryAt path
  | .file _ _ => false

/-- Links are left out unless they are followed. -/
def visitFiles (t : Tree) (followLinks : Bool) (directory : String) (above : List String)
    (entries : List (String × Node)) : List Visit :=
  entries.filterMap fun e =>
    let path := joinPath directory e.1
    if t.entersAt path e.2 then none
    else if followLinks = false ∧ t.isLinkAt path then none
    else some (.file path (above ++ [e.1]))

/-- Walks through at most `depth` levels. -/
def walkWithin (t : Tree) (followLinks : Bool) : Nat → String → List String → List Visit
  | 0, _, _ => []
  | depth + 1, directory, above =>
      match t.entriesAt directory with
      | .error r => [.unreadable (r.fault directory)]
      | .ok entries =>
          t.visitFiles followLinks directory above entries ++
            entries.flatMap fun e =>
              let path := joinPath directory e.1
              if t.entersAt path e.2 && (followLinks || !t.isLinkAt path) then
                walkWithin t followLinks depth path (above ++ [e.1])
              else []

/-- A path that can be read has fewer levels than bytes. -/
def walk (t : Tree) (followLinks : Bool) (root : String) : List Visit :=
  t.walkWithin followLinks pathLimit root []

end Tree

end StoreSync.Files
