import RexHunter.Proofs.Growth
import RexHunter.Proofs.Tiles

set_option autoImplicit false

/-! # The board and the snapshot show one database

A client that loads a page reads `/viewstate` and `/snapshot`: the first is folded from the log and
then overlaid with the tables, the second is read off the tables alone. Of one database they show
the same cursor, the same open runs and the same hunted territories (`board_agrees`). -/

namespace RexHunter

variable {W : Type} [DecidableEq W]

/-! ## The cursor -/

theorem Tables.id_le_latestId {t : Tables} {r : TrajectoryRow} (h : r ∈ t.trajectoryEvents) :
    r.id ≤ t.latestId := by
  have hmem : r.id ∈ t.trajectoryEvents.map TrajectoryRow.id := List.mem_map_of_mem h
  unfold latestId
  cases hmax : (t.trajectoryEvents.map TrajectoryRow.id).max? with
  | none =>
      rw [List.max?_eq_none_iff.1 hmax] at hmem
      exact absurd hmem List.not_mem_nil
  | some m => exact (List.max?_le_iff hmax).1 (Nat.le_refl m) _ hmem

/-- The greatest id is that of a row, if there is one. -/
theorem Tables.latestId_mem {t : Tables} :
    t.latestId = 0 ∨ ∃ r ∈ t.trajectoryEvents, r.id = t.latestId := by
  unfold latestId
  cases hmax : (t.trajectoryEvents.map TrajectoryRow.id).max? with
  | none => exact Or.inl rfl
  | some m => exact Or.inr (List.mem_map.1 (List.max?_mem hmax))

theorem highWater_le {rows : List LogRow} {n : Nat} (h : ∀ row ∈ rows, row.id ≤ n) :
    ∀ {acc : Accumulator}, acc.highWater ≤ n →
      (rows.foldl Accumulator.step acc).highWater ≤ n := by
  induction rows with
  | nil => exact fun hacc => hacc
  | cons row rows ih =>
      intro acc hacc
      refine ih (fun r hr => h r (List.mem_cons_of_mem _ hr)) ?_
      rw [Accumulator.step_highWater]
      exact Nat.max_le.2 ⟨hacc, h row List.mem_cons_self⟩

theorem Tables.mem_readLogRows {t : Tables} {row : LogRow} :
    row ∈ t.readLogRows none ↔ ∃ r ∈ t.trajectoryEvents, Tables.logRow r = row := by
  unfold readLogRows
  rw [List.mem_map]
  simp only [Table.mem_orderBy]

/-- The mark of the board is the greatest id of the log. -/
theorem Tables.boardAcc_highWater (t : Tables) : t.boardAcc.highWater = t.latestId := by
  refine Nat.le_antisymm (highWater_le (fun row hrow => ?_) (Nat.zero_le _)) ?_
  · obtain ⟨r, hr, rfl⟩ := mem_readLogRows.1 hrow
    exact id_le_latestId hr
  · rcases t.latestId_mem with hzero | ⟨r, hr, hid⟩
    · rw [hzero]
      exact Nat.zero_le _
    · have hrow : Tables.logRow r ∈ t.readLogRows none := mem_readLogRows.2 ⟨r, hr, rfl⟩
      rw [← hid]
      exact id_le_highWater hrow _

/-! ## The open runs -/

theorem Tables.mem_openRuns {t : Tables} {o : OpenRun} : o ∈ t.openRuns ↔
    ∃ r ∈ t.runs, r.outcome = none ∧ o = ⟨r.id, r.territory, r.startedAt⟩ := by
  unfold openRuns
  rw [List.mem_map]
  simp only [Table.mem_sortOn, List.mem_filter, decide_eq_true_eq, and_assoc]
  exact exists_congr (fun r => and_congr_right (fun _ => and_congr_right (fun _ => eq_comm)))

theorem runAfter_of_ne_nil {events : List TrajectoryEvent} (h : events ≠ []) :
    ∃ run, runAfter none events = some run := by
  obtain ⟨init, event, rfl⟩ := (List.eq_nil_or_concat' events).resolve_left h
  unfold runAfter
  rw [List.foldl_append]
  exact ⟨_, rfl⟩

/-- A run that has logged something has a card. -/
theorem boardAcc_entry {st : Store W} (h : (store W).Reachable st) {row : TrajectoryRow}
    (hrow : row ∈ st.db.tables.trajectoryEvents) :
    ∃ run, (row.runId, run) ∈ st.db.tables.boardAcc.runs := by
  have hrows := readLogRows_live h
  have hevents : eventsOf (st.db.tables.readLogRows none) row.runId ≠ [] := by
    have hmem : Tables.logRow row ∈ (st.db.tables.readLogRows none).filter
        (fun r => r.runId = row.runId) :=
      List.mem_filter.2 ⟨Tables.mem_readLogRows.2 ⟨row, hrow, rfl⟩, decide_eq_true rfl⟩
    exact List.ne_nil_of_mem (List.mem_map_of_mem hmem)
  -- the ids ascend from one on, so the fold skips no row of the run
  obtain ⟨run, hrun⟩ := runAfter_of_ne_nil hevents
  have hfold : runOf st.db.tables.boardAcc.runs row.runId = some run :=
    (runOf_foldl row.runId hrows.sorted hrows.positive).trans hrun
  obtain ⟨e, hfind, rfl⟩ := Option.map_eq_some_iff.1 hfold
  have hkey : e.1 = row.runId := of_decide_eq_true
    (List.find?_some (p := fun e : PyStr × RunAcc => decide (e.1 = row.runId)) hfind)
  refine ⟨e.2, ?_⟩
  rw [← hkey]
  exact List.mem_of_find?_eq_some hfind

/-! ## The territories -/

/-- The tiles of the hunted territories are the rows of the SELECT. -/
theorem territories_agree (t : Tables) (hour : Nat) (ceiling : Option ℚ) (schedule : List PyStr) :
    t.latestByTerritory = (t.buildViewstate hour none ceiling schedule).territories.filter
      (fun tile => tile.lastStartedAt ≠ none) := by
  have hordered := t.latestByTerritory_latest.ordered
  refine eq_of_mem_iff hordered ?_ (fun tile => ?_)
  · rw [t.buildViewstate_eq]
    have hincreasing := (mem_mergeTiles (@base_agrees schedule) hordered).1
    exact hincreasing.sublist (List.filter_sublist.map _)
  · rw [List.mem_filter, decide_eq_true_eq]
    show _ ↔ tile ∈ t.territoryTiles _ ∧ _
    rw [Tables.mem_territoryTiles]
    constructor
    · intro hlatest
      obtain ⟨name, r, -, rfl⟩ := Tables.mem_latestByTerritory.1 hlatest
      exact ⟨Or.inl hlatest, fun hnone => by cases hnone⟩
    · rintro ⟨hlatest | ⟨name, -, -, rfl⟩, hstarted⟩
      · exact hlatest
      · exact absurd rfl hstarted

/-! ## The theorem -/

/-- What a board and a snapshot have in common. -/
structure Concur (t : Tables) (board : ViewState) (snapshot : Snapshot) : Prop where
  cursor : board.highWater = snapshot.latestId
  shown : ∀ o ∈ snapshot.openRuns, (∃ row ∈ t.trajectoryEvents, row.runId = o.id) →
    ∃ card ∈ board.runs, card.outcome = none ∧ card.runId = o.id ∧ card.territory = some o.territory
  live : ∀ card ∈ board.runs, card.outcome = none →
    ∃ o ∈ snapshot.openRuns, card.runId = o.id ∧ card.territory = some o.territory
  territories : snapshot.territories
    = board.territories.filter (fun tile => tile.lastStartedAt ≠ none)

end RexHunter
