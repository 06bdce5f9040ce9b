/-!
A tree of files. It is kept as a table from paths to nodes; a path is the list of the names on
the way from the root, which is itself a directory and not in the table.
-/
namespace StoreSync.Files

abbrev Path := List String

/-- Times are in microseconds. -/
inductive Node where
  | file (data : ByteArray) (modified : Int)
  | directory
  | link (target : String)

def Node.isDirectory : Node → Bool
  | directory => true
  | _ => false

/-- The times that a file system keeps, from one whole second to another, of which floating-point
numbers tell all seconds apart. -/
structure TimeRange where
  first : Int
  last : Int
  ordered : first ≤ last
  early : -4503599627370496 < first
  late : last < 4503599627370496

namespace TimeRange

/-- Seconds in 34 bits, an eighth of them before 1970: from 1901 to 2446. -/
def bits34 : TimeRange := ⟨-2147483648, 15032385535, by decide, by decide, by decide⟩

/-- What is kept of a time. What lies beyond an end becomes the end, and the ends have no
fractions. -/
def keep (r : TimeRange) (micros : Int) : Int :=
  let seconds := Int.fdiv micros 1000000
  if r.last ≤ seconds then r.last * 1000000
  else if seconds ≤ r.first then r.first * 1000000
  else micros

end TimeRange

/-- `current` is the directory where relative paths start. `changed` tells when it last changed
what a directory holds, and `now` what the clock shows. Times stand in a tree as they were given;
who looks at one sees what `range` keeps of it. -/
structure Tree where
  nodes : List (Path × Node)
  current : Path
  changed : Path → Int
  range : TimeRange
  now : Int

namespace Tree

def node? (t : Tree) (p : Path) : Option Node :=
  if p = [] then some .directory else t.nodes.lookup p

/-- The time of a node at a path. A link is looked at for what it leads to only. -/
def modified? (t : Tree) (p : Path) : Node → Option Int
  | .file _ modified => some (t.range.keep modified)
  | .directory => some (t.range.keep (t.changed p))
  | .link _ => none

def date (t : Tree) (p : Path) (micros : Int) : Tree :=
  { t with changed := fun q => if q = p then micros else t.changed q }

def touch (t : Tree) (p : Path) : Tree := t.date p t.now

/-- Puts a node at a path, in place of the one that is there. A new one changes the directory above
it, and has been changed itself if it is a directory. -/
def put (t : Tree) (p : Path) (n : Node) : Tree :=
  if t.nodes.any (·.1 = p) then
    { t with nodes := t.nodes.map fun e => if e.1 = p then (p, n) else e }
  else { (t.touch p.dropLast).touch p with nodes := t.nodes ++ [(p, n)] }

def erase (t : Tree) (p : Path) : Tree :=
  { t.touch p.dropLast with nodes := t.nodes.filter (·.1 ≠ p) }

/-- What a directory holds, by name, the newest entry first. -/
def entries (t : Tree) (p : Path) : List (String × Node) :=
  t.nodes.reverse.filterMap fun e => if e.1.dropLast = p then e.1.getLast?.map (·, e.2) else none

/-- A tree whose directories were last changed in 1970. -/
def ofNodes (nodes : List (Path × Node)) (current : Path) : Tree :=
  ⟨nodes, current, fun _ => 0, .bits34, 0⟩

@[simp]
theorem nodes_ofNodes (nodes : List (Path × Node)) (current : Path) :
    (ofNodes nodes current).nodes = nodes := rfl

def withCurrent (current : Path) : Tree :=
  ofNodes ((List.range current.length).map fun n => (current.take (n + 1), .directory)) current

def below? (t : Tree) (p : Path) : Option String :=
  if t.current.isPrefixOf p ∧ p ≠ t.current then
    some (String.intercalate "/" (p.drop t.current.length))
  else none

def seen (t : Tree) : Node → Node
  | .file data modified => .file data (t.range.keep modified)
  | n => n

def snapshot (t : Tree) : List (String × Node) :=
  (t.nodes.filterMap fun e => (t.below? e.1).map fun s => (s, t.seen e.2)).mergeSort
    fun a b => decide (a.1 ≤ b.1)

end Tree

end StoreSync.Files
