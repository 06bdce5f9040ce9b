import StoreSync.Moment
import StoreSync.Text.Quoted

/-!
Faults: what went wrong and with which text it is reported. A fault may wrap others: a command
that failed, the shortage of file descriptors, several faults at once. `isCancellation` and
`isDescriptorShortage` tell the faults that stop a run from those that are collected.
-/
namespace StoreSync

inductive InSync where
  | sizes
  | newer
  | etags
  deriving DecidableEq

def InSync.message : InSync → String
  | sizes => "object size matches"
  | newer => "object is newer or same age and object size matches"
  | etags => "object etag and size match"

/-- Kinds of faults that consist of a text alone. -/
inductive FaultKind where
  | cancelled
  | interrupted
  | value
  | runtime
  | typeMismatch
  | index
  | storage
  | validation
  | location
  | planning
  | inSync
  | general
  deriving DecidableEq

inductive Fault where
  /-- The operating system refused an operation. -/
  | system (errno : Int) (text : String) (file : Option String)
  /-- Source and target of a copy are one file. -/
  | sameFile (source target : String)
  /-- The directory of a target does not exist. -/
  | noDirectory (target : String)
  /-- The object store answered with an error. -/
  | response (code message operation : String) (status : Int)
  /-- The object store gave no answer. -/
  | service
  | unreachable (endpoint : String)
  /-- A client was to retry less than zero times. -/
  | negativeRetries (given : Int)
  | execution (command : String) (cause : Fault)
  /-- The process ran out of file descriptors. -/
  | exhausted
  | exhaustedBy (cause : Fault)
  | many (faults : List Fault)
  | notFound (location : Option String)
  | archived (location : String)
  | listingCancelled (text : String)
  | upToDate (reason : InSync)
  | clock (fault : ClockFault)
  | plain (kind : FaultKind) (text : String)
  /-- Nothing is known about what went wrong. -/
  | unknown
  deriving Inhabited

namespace Fault

open Text in
mutual

def message : Fault → String
  | system errno text none => s!"[Errno {errno}] {text}"
  | system errno text (some file) => s!"[Errno {errno}] {text}: {Quoted.quote file}"
  | sameFile a b => s!"{Quoted.quote a} and {Quoted.quote b} are the same file"
  | noDirectory target => "Directory does not exist: " ++ target
  | response code text operation _ =>
      s!"An error occurred ({code}) when calling the {operation} operation: {text}"
  | service => "An unspecified error occurred"
  | unreachable endpoint => "Could not connect to the endpoint URL: \"" ++ endpoint ++ "\""
  | negativeRetries given => "Value provided to \"max_attempts\": " ++ toString given ++
      " must be an integer greater than or equal to 0."
  | execution command cause => "\"" ++ command ++ "\": " ++ cause.message
  | exhausted => "too many open files"
  | exhaustedBy cause => cause.message
  | many faults =>
      (if faults.length = 1 then "1 error occurred:"
        else s!"{faults.length} errors occurred:") ++ "\n" ++ bullets faults
  | notFound none => "no object found"
  | notFound (some location) => "no object found: " ++ location
  | archived location => s!"object '{location}' is on Glacier storage"
  | listingCancelled text => text
  | upToDate reason => reason.message
  | clock fault => fault.message
  | plain _ text => text
  | unknown => "None"

def bullets : List Fault → String
  | [] => ""
  | [f] => "\t* " ++ f.message
  | f :: rest => "\t* " ++ f.message ++ "\n" ++ bullets rest

end

/-- Whether the fault only says that the run was cancelled. -/
def isCancellation : Fault → Bool
  | listingCancelled _ => true
  | plain .cancelled _ => true
  | execution _ cause => cause.isCancellation
  | _ => false

def tooManyFiles : Int := 24

def hasErrno (errno : Int) : Fault → Bool
  | system n _ _ => n = errno
  | _ => false

def holdsText (part : List Char) : List Char → Bool
  | [] => part.isEmpty
  | c :: cs => part.isPrefixOf (c :: cs) || holdsText part cs

/-- Whether the process ran out of file descriptors: by kind, by the text in any case of its
letters, or by the error number of the fault or of its cause. -/
def isDescriptorShortage (f : Fault) : Bool :=
  match f with
  | exhausted => true
  | exhaustedBy _ => true
  | _ =>
      holdsText "too many open files".toList (f.message.toList.map Char.toLower) ||
        hasErrno tooManyFiles f ||
        match f with
        | execution _ cause => hasErrno tooManyFiles cause
        | _ => false

def isStorage : Fault → Bool
  | notFound _ => true
  | plain .storage _ => true
  | _ => false

def isValidation : Fault → Bool
  | plain .validation _ => true
  | plain .location _ => true
  | _ => false

def isInSync : Fault → Bool
  | upToDate _ => true
  | plain .inSync _ => true
  | _ => false

/-- Whether the fault is one of the synchroniser's own, not of the system, of the object store or
of a caller's mistake. -/
def isOwn : Fault → Bool
  | execution _ _ => true
  | exhausted => true
  | exhaustedBy _ => true
  | many _ => true
  | archived _ => true
  | listingCancelled _ => true
  | plain .planning _ => true
  | plain .general _ => true
  | f => f.isStorage || f.isValidation || f.isInSync

/-- An interruption from the keyboard passes through what contains faults. -/
def isInterruption : Fault → Bool
  | plain .interrupted _ => true
  | _ => false

def isSystem : Fault → Bool
  | system _ _ _ => true
  | sameFile _ _ => true
  | noDirectory _ => true
  | clock .beyondCalendar => true
  | _ => false

def isRequest : Fault → Bool
  | response _ _ _ _ => true
  | service => true
  | unreachable _ => true
  | _ => false

def missingCodes : List String := ["404", "NoSuchKey", "NotFound"]

def isMissing : Fault → Bool
  | response code _ _ status => missingCodes.contains code || status = 404
  | _ => false

def combine? (faults : List Fault) : Option Fault :=
  if faults.isEmpty then none else some (many faults)

def single? : List Fault → Option Fault
  | [] => none
  | [f] => some f
  | fs => some (many fs)

theorem isCancellation_execution (command : String) (cause : Fault) :
    (execution command cause).isCancellation = cause.isCancellation := rfl

end Fault

end StoreSync
