import StoreSync.Entry

/-!
Whether a destination is as fresh as its source. An answer gives the reason why nothing has to
be copied; no answer means that the source has to be copied.
-/
namespace StoreSync

inductive Strategy where
  | sizeOnly
  | sizeAndTime
  deriving DecidableEq

namespace Strategy

def name : Strategy → String
  | sizeOnly => "size-only"
  | sizeAndTime => "size-and-modification"

def ofName? (text : String) : Option Strategy :=
  [sizeOnly, sizeAndTime].find? fun s => s.name = text

def ofFlag (onlySizes : Bool) : Strategy := if onlySizes then sizeOnly else sizeAndTime

end Strategy

namespace Freshness

/-- Identities of objects that were stored in parts contain a hyphen and prove nothing. -/
def sameETag : Option String → Option String → Bool
  | some a, some b =>
      a ≠ "" && b ≠ "" && !a.toList.contains '-' && !b.toList.contains '-' && a = b
  | _, _ => false

def timesDisagree : Fault :=
  .plain .typeMismatch "can't compare offset-naive and offset-aware datetimes"

/-- Whether the destination is not older than the source. Unknown times decide nothing. -/
def notOlder (source destination : Option Moment) : Except Fault Bool :=
  match source, destination with
  | some s, some d =>
      match d.before? s with
      | some older => .ok (!older)
      | none => .error timesDisagree
  | _, _ => .ok false

def reason? (strategy : Strategy) (source destination : Entry) : Except Fault (Option InSync) :=
  match strategy with
  | .sizeOnly => .ok (if source.size = destination.size then some .sizes else none)
  | .sizeAndTime =>
      if source.size ≠ destination.size then .ok none
      else
        match notOlder source.modified destination.modified with
        | .error f => .error f
        | .ok true => .ok (some .newer)
        | .ok false =>
            .ok (if sameETag source.etag destination.etag then some .etags else none)

end Freshness

end StoreSync
