import StoreSync.CommandLine.Exit

/-!
The program. It takes in the files below the current directory, runs the command line on them,
and puts back what the run changed. Buckets live in memory for the length of a run, and links
count as the files that they lead to.
-/
namespace StoreSync.Main

open Files

def variableNames : List String :=
  ["BUCKETSYNC_ENDPOINT_URL", "S3_ENDPOINT_URL", "AWS_REGION", "AWS_DEFAULT_REGION",
    "BUCKETSYNC_NO_VERIFY_SSL", "BUCKETSYNC_WORKERS", "BUCKETSYNC_MAX_RETRIES"]

def environment : IO Environment := do
  let values ← variableNames.mapM fun name => do
    pure ((← IO.getEnv name).map fun value => (name, value))
  pure (values.filterMap id)

def microseconds (t : IO.FS.SystemTime) : Int := t.sec * 1000000 + t.nsec.toNat / 1000

partial def load (above : Path) (t : Tree) (entry : IO.FS.DirEntry) : IO Tree := do
  let path := above ++ [entry.fileName]
  let status ← entry.path.symlinkMetadata
  if status.type == .dir then
    let mut t := t.put path .directory
    for e in ← entry.path.readDir do
      t ← load path t e
    pure (t.date path (microseconds status.modified))
  else
    match ← (IO.FS.readBinFile entry.path).toBaseIO with
    | .ok data =>
        let status ← entry.path.metadata
        pure (t.put path (.file data (microseconds status.modified)))
    | .error _ => pure t

def place : Path := ["files"]

def loadCurrent : IO Tree := do
  let mut t := Tree.withCurrent place
  let current ← IO.currentDir
  for e in ← current.readDir do
    t ← load place t e
  pure (t.date place (microseconds (← current.metadata).modified))

def sameNode : Node → Node → Bool
  | .file a _, .file b _ => a.data = b.data
  | .directory, .directory => true
  | .link a, .link b => a = b
  | _, _ => false

def store (before after : Tree) : IO Unit := do
  for (path, node) in after.snapshot do
    if before.find .entry path |>.toOption.all (!sameNode ·.2 node) then
      match node with
      | .file data _ => IO.FS.writeBinFile path data
      | .directory => IO.FS.createDirAll path
      | .link _ => pure ()
  for (path, _) in before.snapshot do
    unless after.existsAt path do IO.FS.removeFile path

end StoreSync.Main

def main (words : List String) : IO UInt32 := do
  let env ← StoreSync.Main.environment
  let before ← StoreSync.Main.loadCurrent
  let (exit, after) := (StoreSync.CommandLine.runWords env words).run
    ⟨before, ⟨[], [], 1000, 0, .plain⟩, []⟩
  StoreSync.Main.store before after.files
  (← IO.getStdout).putStr exit.out
  (← IO.getStderr).putStr exit.err
  pure (UInt32.ofNat exit.code)
