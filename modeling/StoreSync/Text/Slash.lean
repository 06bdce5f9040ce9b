/-!
Texts made of components with slashes between them. A text is its directory part, up to and
including the last slash, followed by its last component.
-/
namespace StoreSync.Text.Slash

def trimEnd (cs : List Char) : List Char :=
  (cs.reverse.dropWhile (· = '/')).reverse

def lastPart (cs : List Char) : List Char :=
  (cs.reverse.takeWhile (· ≠ '/')).reverse

def directoryPart (cs : List Char) : List Char :=
  (cs.reverse.dropWhile (· ≠ '/')).reverse

def endsInSlash (cs : List Char) : Bool := cs.getLast? = some '/'

theorem directoryPart_append_lastPart (cs : List Char) :
    directoryPart cs ++ lastPart cs = cs := by
  rw [directoryPart, lastPart, ← List.reverse_append, List.takeWhile_append_dropWhile,
    List.reverse_reverse]

theorem trimEnd_of_not_endsInSlash {cs : List Char} (h : endsInSlash cs = false) :
    trimEnd cs = cs := by
  have hlast : cs.reverse.head? ≠ some '/' := by
    simpa [endsInSlash, List.head?_reverse] using h
  unfold trimEnd
  cases hreverse : cs.reverse with
  | nil => exact (List.reverse_eq_nil_iff.mp hreverse).symm
  | cons c rest =>
    have hc : c ≠ '/' := by simpa [hreverse] using hlast
    rw [List.dropWhile_cons_of_neg (by simpa using hc), ← hreverse, List.reverse_reverse]

/-- Puts a name below a path. A name that starts with a slash replaces the path. -/
def join (path name : List Char) : List Char :=
  if name.head? = some '/' then name
  else if path.isEmpty || endsInSlash path then path ++ name
  else path ++ '/' :: name

/-- The path that a path lies in: the directory part without its slashes at the end, unless it
holds nothing else. -/
def parent (cs : List Char) : List Char :=
  let d := directoryPart cs
  if d.all (· = '/') then d else trimEnd d

end StoreSync.Text.Slash
