import RexHunter.Implementation.Verdicts
import RexHunter.Implementation.View

set_option autoImplicit false

/-! # The assembler (`viewstate.py`)

The log is read by one of two cursors and projected; over the projection come the columns of `runs`,
the latest run of each territory, and for each prey the fold of its verdict log. -/

namespace RexHunter

namespace Tables

/-- A row as `read_log_rows` returns it. -/
def logRow (r : TrajectoryRow) : LogRow := ⟨r.id, r.seq, r.runId, r.createdAt, r.payload⟩

/-- `read_log_rows`: all runs by `id`, or one run by `seq`. -/
def readLogRows (t : Tables) : Option PyStr → List LogRow
  | none => (Table.orderBy TrajectoryRow.id t.trajectoryEvents).map logRow
  | some runId =>
      (Table.orderBy TrajectoryRow.seq
        (t.trajectoryEvents.filter (fun r => r.runId = runId))).map logRow

/-- The view of a run with the facts of its `runs` row, if it has one. -/
def overlayRun (t : Tables) (view : RunView) : RunView :=
  match t.runs.find? (fun r => r.id = view.runId) with
  | none => view
  | some r =>
      { view with
        territory := some r.territory
        outcome := r.outcome
        costCeilingUsd := r.costCeilingUsd
        maxIterations := r.maxIterations }

/-- The run of a territory with the greatest `started_at`; the first of them, if there are more. -/
def latestRun (t : Tables) (territory : PyStr) : Option Run :=
  Table.pick (fun b r : Run => b.startedAt < r.startedAt)
    (t.runs.filter (fun r => r.territory = territory))

/-- The tiles of the scheduled territories and of those with a run, by name. -/
def territoryTiles (t : Tables) (base : List TerritoryView) : List TerritoryView :=
  let names := base.map TerritoryView.territory ++ t.runs.map Run.territory
  (names.dedup.insertionSort (· ≤ ·)).map (fun name =>
    match t.latestRun name with
    | none => ⟨name, none, none⟩
    | some r => ⟨name, r.outcome, some r.startedAt⟩)

/-- A card with the fold of its prey's verdict log. -/
def overlayCard (t : Tables) (card : PreyCard) : PreyCard :=
  let (status, reason, provenance) := fold (t.readPenEvents card.preyId)
  { card with status := status, reason := reason, provenance := provenance }

/-- `build_viewstate`. -/
def buildViewstate (t : Tables) (hour : Nat) (runId : Option PyStr)
    (daemonSpendCeilingUsd : Option ℚ) (schedule : List PyStr) : ViewState :=
  let state := project (t.readLogRows runId) hour daemonSpendCeilingUsd schedule
  { state with
    runs := state.runs.map t.overlayRun
    territories := t.territoryTiles state.territories
    pen := state.pen.map t.overlayCard }

end Tables

end RexHunter
