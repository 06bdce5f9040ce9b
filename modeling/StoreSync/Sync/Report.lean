import StoreSync.Execution
import StoreSync.Plan

/-!
The outcome of a run: how the two sides differed, what was planned and what was done.
-/
namespace StoreSync.Sync

structure Report where
  sourceOnly : Int
  destinationOnly : Int
  common : Int
  plan : Plan.Summary
  stats : Execution.Stats
  faults : List Fault
  trial : Bool

namespace Report

def combined? (r : Report) : Option Fault := Fault.combine? r.faults

def document (r : Report) : Document :=
  .fields [("source_only", .int r.sourceOnly), ("destination_only", .int r.destinationOnly),
    ("common", .int r.common), ("in_sync", .int r.plan.inSync), ("copied", .int r.stats.copied),
    ("deleted", .int r.stats.deleted), ("failed", .int r.stats.failed),
    ("errors", .list (r.faults.map fun f => .text f.message)), ("dry_run", .bool r.trial)]

def headline (r : Report) : String :=
  if r.trial then "Dry run complete!" else "Sync complete!"

def countLine (label : String) (count : Int) : List Notice :=
  if 0 < count then [.info (label ++ toString count)] else []

def actionLines (r : Report) : List Notice :=
  let total := r.stats.copied + r.stats.deleted
  if 0 < total then
    .info ("Total actions: " ++ toString total) :: countLine "  Copied: " r.stats.copied ++
      countLine "  Deleted: " r.stats.deleted
  else if r.stats.failed = 0 then [.info "No changes needed - everything is in sync!"]
  else []

def summary (r : Report) : List Notice :=
  .success r.headline :: r.actionLines ++
    if 0 < r.stats.failed then [.warning (toString r.stats.failed ++ " operation(s) failed")]
    else []

end Report

end StoreSync.Sync
