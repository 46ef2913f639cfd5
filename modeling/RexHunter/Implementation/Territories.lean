import RexHunter.Implementation.Snapshot

set_option autoImplicit false

/-! # The territory tier of `build_viewstate`

The dormant tiles of the schedule are put into a dictionary, the rows of a SELECT over `runs` replace
their twins in it or join it, and the values are sorted by name. The SELECT takes `outcome` from a
row that has the greatest `started_at` of its territory; if there are several it is SQLite that
chooses. `Tables.buildViewstate` is the assembler with the first of them
(`Tables.latestByTerritory`). -/

namespace RexHunter

/-- `merged`, sorted. -/
def mergeTiles (base latest : List TerritoryView) : List TerritoryView :=
  let merged := base.foldl (Table.upsert TerritoryView.territory) []
  let merged := latest.foldl (Table.upsert TerritoryView.territory) merged
  Table.sortOn TerritoryView.territory merged

/-- A run with the greatest `started_at` of its territory. -/
def Tables.IsLatest (t : Tables) (r : Run) : Prop :=
  r ∈ t.runs ∧ ∀ r' ∈ t.runs, r'.territory = r.territory → r'.startedAt ≤ r.startedAt

/-- A result of
    `SELECT territory, outcome, MAX(started_at) FROM runs GROUP BY territory ORDER BY territory`. -/
structure Tables.Latest (t : Tables) (rows : List TerritoryView) : Prop where
  ordered : (rows.map TerritoryView.territory).Pairwise (· < ·)
  grouped : ∀ name, name ∈ rows.map TerritoryView.territory ↔ name ∈ t.runs.map Run.territory
  greatest : ∀ row ∈ rows, ∃ r, t.IsLatest r ∧ row = ⟨r.territory, r.outcome, some r.startedAt⟩

/-- `build_viewstate`, when the SELECT over `runs` returned these rows. -/
def Tables.buildViewstateFrom (t : Tables) (latest : List TerritoryView) (hour : Nat)
    (runId : Option PyStr) (daemonSpendCeilingUsd : Option ℚ) (schedule : List PyStr) : ViewState :=
  let state := project (t.readLogRows runId) hour daemonSpendCeilingUsd schedule
  { t.buildViewstate hour runId daemonSpendCeilingUsd schedule with
    territories := mergeTiles state.territories latest }

end RexHunter
