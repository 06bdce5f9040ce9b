import StoreSync.Entry
import StoreSync.Glob.Reader
import StoreSync.Notice

/-!
Which entries of a listing take part in the comparison. The rules are tried in order; only those
of the source are reported, for the destination is listed as well as it can be.
-/
namespace StoreSync.Eligibility

inductive Verdict where
  | eligible
  | directory
  | cancelled
  | faulty (fault : Fault)
  | archived
  | excluded

def judge (exclude : List String) (e : Entry) : Verdict :=
  if e.isDirectory then .directory
  else
    match e.fault with
    | some f => if f.isCancellation then .cancelled else .faulty f
    | none =>
        if e.storageClass.any StorageClass.isArchival then .archived
        else if Glob.matchesAny exclude e.relative then .excluded
        else .eligible

def isEligible (exclude : List String) (e : Entry) : Bool :=
  match judge exclude e with
  | .eligible => true
  | _ => false

def select (exclude : List String) (entries : List Entry) : List Entry :=
  entries.filter (isEligible exclude)

def notice? (command : String) (exclude : List String) (e : Entry) : Option Notice :=
  match judge exclude e with
  | .faulty f => some (.commandError command f.message)
  | .archived => some (.commandWarning command (Fault.archived e.location.text).message)
  | _ => none

def notices (command : String) (exclude : List String) (entries : List Entry) : List Notice :=
  entries.filterMap (notice? command exclude)

def journal? (exclude : List String) (e : Entry) : Option String :=
  match judge exclude e with
  | .excluded => some ("Excluding " ++ e.location.text)
  | _ => none

end StoreSync.Eligibility
