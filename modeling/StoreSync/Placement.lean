import StoreSync.Entry

/-!
Where the objects of a source land. A batch keeps relative paths below the destination; a single
object keeps its base name, or takes the exact key that the destination names.
-/
namespace StoreSync.Placement

/-- Whether a source stands for several objects: a pattern, a bucket or a folder of one, or a
local directory. -/
def isBatch (source : Location) (status : Option Entry) : Bool :=
  if source.isWildcard then true
  else if source.isRemote then source.isFolder || source.isBucket
  else status.any Entry.isDirectory

def isExactKey (destination : Location) (batch : Bool) : Bool :=
  destination.isRemote && !(batch || destination.isFolder || destination.isBucket)

def target (source destination : Location) (batch : Bool) : Location :=
  let name := if batch then source.relative else source.base
  let place := if isExactKey destination batch then destination else destination.join name
  place.setLiteral true

end StoreSync.Placement
