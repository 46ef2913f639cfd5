import Mathlib.Data.List.Lex
import Mathlib.Order.Fin.Basic
import RexHunter.Implementation.Viewstate

set_option autoImplicit false

/-! # The reconnect snapshot (`snapshot_state` of `server.py`)

What a fresh client is shown: it is read off the tables alone, the pen from the maintained `prey`
rows rather than from the log. -/

namespace RexHunter

structure OpenRun where
  id : PyStr
  territory : PyStr
  startedAt : PyStr
deriving DecidableEq, Repr

structure PenEntry where
  id : PyStr
  territory : PyStr
  posting : PyStr
  status : PreyStatus
  capturedAt : PyStr
deriving DecidableEq, Repr

structure Snapshot where
  latestId : Nat
  openRuns : List OpenRun
  pen : List PenEntry
  territories : List TerritoryView

namespace Tables

/-- `SELECT COALESCE(MAX(id), 0) FROM trajectory_events`. -/
def latestId (t : Tables) : Nat := (t.trajectoryEvents.map TrajectoryRow.id).max?.getD 0

/-- `SELECT … FROM runs WHERE outcome IS NULL ORDER BY started_at`. -/
def openRuns (t : Tables) : List OpenRun :=
  (Table.sortOn Run.startedAt (t.runs.filter (fun r => r.outcome = none))).map
    (fun r => ⟨r.id, r.territory, r.startedAt⟩)

/-- `SELECT … FROM prey ORDER BY captured_at`. -/
def snapshotPen (t : Tables) : List PenEntry :=
  (Table.sortOn Prey.capturedAt t.prey).map
    (fun p => ⟨p.id, p.territory, p.posting, p.status, p.capturedAt⟩)

/-- `SELECT territory, outcome, MAX(started_at) FROM runs GROUP BY territory ORDER BY territory`. -/
def latestByTerritory (t : Tables) : List TerritoryView :=
  ((t.runs.map Run.territory).dedup.insertionSort (· ≤ ·)).filterMap (fun name =>
    (t.latestRun name).map (fun r => ⟨name, r.outcome, some r.startedAt⟩))

/-- `snapshot_state`. -/
def snapshot (t : Tables) : Snapshot :=
  ⟨t.latestId, t.openRuns, t.snapshotPen, t.latestByTerritory⟩

end Tables

end RexHunter
