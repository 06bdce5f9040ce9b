import StoreSync.Text.Integer

/-!
Settings taken from environment variables. A variable that is empty counts as absent, and of
several names the first that is present wins.
-/
namespace StoreSync

abbrev Environment := List (String × String)

namespace Environment

def get? (env : Environment) (name : String) : Option String :=
  (env.lookup name).filter (· ≠ "")

def first? (env : Environment) (names : List String) : Option String :=
  names.findSome? env.get?

def positive (env : Environment) (name : String) (default : Int) : Int :=
  match (env.get? name).bind Text.Integer.read? with
  | some n => if 0 < n then n else default
  | none => default

end Environment

structure Settings where
  endpoint : Option String
  region : Option String
  skipVerification : Bool
  workers : Int
  maxRetries : Int
  deriving DecidableEq

namespace Settings

def defaultWorkers : Int := 16

def defaultRetries : Int := 10

def affirmative : List String := ["1", "true", "yes", "on"]

def isAffirmative (text : String) : Bool :=
  affirmative.contains (String.ofList (text.toList.map Char.toLower))

def ofEnvironment (env : Environment) : Settings where
  endpoint := env.first? ["BUCKETSYNC_ENDPOINT_URL", "S3_ENDPOINT_URL"]
  region := env.first? ["AWS_REGION", "AWS_DEFAULT_REGION"]
  skipVerification := (env.get? "BUCKETSYNC_NO_VERIFY_SSL").any isAffirmative
  workers := env.positive "BUCKETSYNC_WORKERS" defaultWorkers
  maxRetries := env.positive "BUCKETSYNC_MAX_RETRIES" defaultRetries

end Settings

end StoreSync
