import StoreSync.Document.Basic

/-!
Notices of a run: what it tells its user, before a console decides what is shown.
-/
namespace StoreSync

inductive Notice where
  | info (text : String)
  | success (text : String)
  | warning (text : String)
  | error (text : String)
  | document (d : Document)
  /-- Both listings have ended. -/
  | listed

namespace Notice

def inCommand (command text : String) : String := "\"" ++ command ++ "\": " ++ text

def commandError (command text : String) : Notice := error (inCommand command text)

def commandWarning (command text : String) : Notice := warning (inCommand command text)

end Notice

end StoreSync
