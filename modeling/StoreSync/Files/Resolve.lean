import StoreSync.Fault
import StoreSync.Files.Tree
import StoreSync.Text.Slash

/-!
Following the text of a path through a tree: empty components and single dots stay, double dots
go up, links are replaced by their targets. At most forty links are followed.
-/
namespace StoreSync.Files

open Text

inductive Refusal where
  | noEntry
  | exists
  | notDirectory
  | isDirectory
  | nameTooLong
  | tooManyLinks
  /-- The path holds a character that ends texts. -/
  | zeroCharacter
  deriving DecidableEq

def Refusal.fault (path : String) : Refusal → Fault
  | noEntry => .system 2 "No such file or directory" (some path)
  | «exists» => .system 17 "File exists" (some path)
  | notDirectory => .system 20 "Not a directory" (some path)
  | isDirectory => .system 21 "Is a directory" (some path)
  | nameTooLong => .system 36 "File name too long" (some path)
  | tooManyLinks => .system 40 "Too many levels of symbolic links" (some path)
  | zeroCharacter => .plain .value "embedded null byte"

inductive Place where
  | found (p : Path) (n : Node)
  /-- Nothing is there, but the directory that would hold it is. -/
  | vacant (p : Path)

def linkLimit : Nat := 40

/-- The longest name and the shortest path that are too long, in bytes. -/
def nameLimit : Nat := 255

def pathLimit : Nat := 4096

def components : List Char → List (List Char)
  | [] => [[]]
  | c :: cs =>
      if c = '/' then [] :: components cs
      else
        match components cs with
        | [] => [[c]]
        | d :: ds => (c :: d) :: ds

theorem components_ne_nil (cs : List Char) : components cs ≠ [] := by
  cases cs with
  | nil => exact List.cons_ne_nil _ _
  | cons c rest =>
    unfold components
    split
    · exact List.cons_ne_nil _ _
    · cases components rest <;> exact List.cons_ne_nil _ _

theorem components_append (cs rest : List Char) :
    components (cs ++ '/' :: rest) = components cs ++ components rest := by
  induction cs with
  | nil => rfl
  | cons c cs ih =>
    by_cases hc : c = '/'
    · simp [components, hc, ih]
    · obtain ⟨d, ds, hcs⟩ := List.exists_cons_of_ne_nil (components_ne_nil cs)
      simp [components, hc, ih, hcs]

theorem components_of_not_mem {cs : List Char} (h : '/' ∉ cs) : components cs = [cs] := by
  induction cs with
  | nil => rfl
  | cons c cs ih =>
    have hc : c ≠ '/' := fun heq => h (heq ▸ List.mem_cons_self)
    have hcs := ih fun hmem => h (List.mem_cons_of_mem c hmem)
    simp [components, hc, hcs]

def componentsOf (text : String) : List String :=
  (components text.toList).map String.ofList

def trimSlashes (text : String) : String := String.ofList (Slash.trimEnd text.toList)

/-- Whether a text holds the character that ends texts. -/
def holdsZero (text : String) : Bool := text.toList.contains '\x00'

def isAbsolute (text : String) : Bool := text.toList.head? = some '/'

/-- What a path is followed for: what the last link leads to, the last component itself, or a
file that is to be written. A path that ends in a slash names no file that could be written. -/
inductive Aim where
  | target
  | entry
  | writing
  deriving DecidableEq

namespace Tree

def start (t : Tree) (text : String) : Path := if isAbsolute text then [] else t.current

inductive Stop where
  | ended (place : Place)
  | jump (directory : Path) (target : String) (rest : List String)

def onlySlashes (rest : List String) : Bool := !rest.isEmpty && rest.all (· = "")

def descend (t : Tree) (aim : Aim) : Path → Node → List String → Except Refusal Stop
  | p, n, [] => .ok (.ended (.found p n))
  | p, n, c :: rest =>
      if !n.isDirectory then .error .notDirectory
      else if c = "" ∨ c = "." then descend t aim p n rest
      else if c = ".." then descend t aim p.dropLast .directory rest
      else if aim = .writing ∧ onlySlashes rest then .error .isDirectory
      else if nameLimit < c.utf8ByteSize then .error .nameTooLong
      else
        match t.node? (p ++ [c]) with
        | none => if rest = [] then .ok (.ended (.vacant (p ++ [c]))) else .error .noEntry
        | some (.link target) =>
            if rest = [] ∧ aim = .entry then .ok (.ended (.found (p ++ [c]) (.link target)))
            else .ok (.jump p target rest)
        | some m => descend t aim (p ++ [c]) m rest

def follow (t : Tree) (aim : Aim) : Nat → Path → List String → Except Refusal Place
  | 0, p, cs =>
      match descend t aim p .directory cs with
      | .error r => .error r
      | .ok (.ended place) => .ok place
      | .ok (.jump _ _ _) => .error .tooManyLinks
  | left + 1, p, cs =>
      match descend t aim p .directory cs with
      | .error r => .error r
      | .ok (.ended place) => .ok place
      | .ok (.jump directory target rest) =>
          follow t aim left (if isAbsolute target then [] else directory)
            (componentsOf target ++ rest)

def textRefusal? (text : String) : Option Refusal :=
  if holdsZero text then some .zeroCharacter
  else if text = "" then some .noEntry
  else if pathLimit ≤ text.utf8ByteSize then some .nameTooLong
  else none

def locate (t : Tree) (aim : Aim) (text : String) : Except Refusal Place :=
  match textRefusal? text with
  | some r => .error r
  | none => t.follow aim linkLimit (t.start text) (componentsOf text)

/-- The entry that a path names when the slashes at its end do not count. -/
def locateTrimmed (t : Tree) (text : String) : Except Refusal Place :=
  match textRefusal? text with
  | some r => .error r
  | none => t.follow .entry linkLimit (t.start text) (componentsOf (trimSlashes text))

def find (t : Tree) (aim : Aim) (text : String) : Except Refusal (Path × Node) :=
  match t.locate aim text with
  | .error r => .error r
  | .ok (.vacant _) => .error .noEntry
  | .ok (.found p n) => .ok (p, n)

def existsAt (t : Tree) (text : String) : Bool := (t.find .target text).isOk

def isDirectoryAt (t : Tree) (text : String) : Bool :=
  match t.find .target text with
  | .ok (_, .directory) => true
  | _ => false

def isLinkAt (t : Tree) (text : String) : Bool :=
  match t.find .entry text with
  | .ok (_, .link _) => true
  | _ => false

def sameAt (t : Tree) (a b : String) : Bool :=
  match t.find .target a, t.find .target b with
  | .ok (p, _), .ok (q, _) => p = q
  | _, _ => false

def entriesAt (t : Tree) (text : String) : Except Refusal (List (String × Node)) :=
  match t.find .target text with
  | .error r => .error r
  | .ok (p, .directory) => .ok (t.entries p)
  | .ok _ => .error .notDirectory

end Tree

end StoreSync.Files
