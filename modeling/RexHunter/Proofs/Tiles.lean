import Mathlib.Data.List.Dedup
import RexHunter.Implementation.Render
import RexHunter.Implementation.Territories
import RexHunter.Proofs.Timestamps

set_option autoImplicit false

/-! # The tiles of the board

Whatever rows the SELECT returns, the merge is the union of the two sources with the runs winning
(`mem_mergeTiles`), so a tile is dormant exactly if its territory has no run and otherwise carries one
of its latest runs; the renderer decodes the pair of nullable fields back. -/

namespace RexHunter

/-! ## The merge -/

/-- The tile of a territory that was never hunted. -/
def dormantTile (name : PyStr) : TerritoryView := ⟨name, none, none⟩

/-- The base of the merge: a dormant tile for each scheduled territory, repeats included. -/
theorem project_territories (rows : List LogRow) (hour : Nat) (ceiling : Option ℚ)
    (schedule : List PyStr) : (project rows hour ceiling schedule).territories
      = (schedule.insertionSort (· ≤ ·)).map dormantTile := rfl

theorem mem_base {schedule : List PyStr} {tile : TerritoryView} :
    tile ∈ (schedule.insertionSort (· ≤ ·)).map dormantTile ↔
      ∃ name ∈ schedule, tile = dormantTile name := by
  simp only [List.mem_map, List.mem_insertionSort, eq_comm]

/-- **What the merge contains, and its order.** -/
theorem mem_mergeTiles {base latest : List TerritoryView}
    (hbase : ∀ a ∈ base, ∀ b ∈ base, a.territory = b.territory → a = b)
    (hlatest : (latest.map TerritoryView.territory).Pairwise (· < ·)) :
    ((mergeTiles base latest).map TerritoryView.territory).Pairwise (· < ·) ∧
    ∀ tile, tile ∈ mergeTiles base latest ↔
      tile ∈ latest ∨ (tile ∈ base ∧ tile.territory ∉ latest.map TerritoryView.territory) := by
  have hnodup : (latest.map TerritoryView.territory).Nodup := hlatest.imp ne_of_lt
  have hdistinct : ∀ a ∈ latest, ∀ b ∈ latest, a.territory = b.territory → a = b :=
    fun a ha b hb => List.inj_on_of_nodup_map hnodup ha hb
  have hempty : (([] : List TerritoryView).map TerritoryView.territory).Nodup := List.nodup_nil
  obtain ⟨hkeys, hmem⟩ := Table.foldl_upsert hempty hbase
  obtain ⟨hkeys', hmem'⟩ := Table.foldl_upsert hkeys hdistinct
  have hperm := Table.sortOn_perm TerritoryView.territory
    (latest.foldl (Table.upsert TerritoryView.territory)
      (base.foldl (Table.upsert TerritoryView.territory) []))
  refine ⟨?_, fun tile => ?_⟩
  · have hsorted := Table.sortOn_pairwise TerritoryView.territory
      (latest.foldl (Table.upsert TerritoryView.territory)
        (base.foldl (Table.upsert TerritoryView.territory) []))
    rw [List.pairwise_map]
    have hne := List.pairwise_map.1 ((hperm.map TerritoryView.territory).nodup_iff.2 hkeys')
    exact hsorted.imp₂ (fun _ _ hle hne => lt_of_le_of_ne hle hne) hne
  · unfold mergeTiles
    rw [hperm.mem_iff, hmem', hmem]
    simp

/-! ## The rows of the SELECT -/

/-- Names without repeats, sorted. -/
theorem sorted_names (names : List PyStr) :
    (names.dedup.insertionSort (· ≤ ·)).Pairwise (· < ·) := by
  have hnodup : (names.dedup.insertionSort (· ≤ ·)).Nodup :=
    (List.perm_insertionSort _ _).nodup_iff.2 (List.nodup_dedup names)
  exact (List.pairwise_insertionSort (· ≤ ·) names.dedup).imp₂
    (fun _ _ hle hne => lt_of_le_of_ne hle hne) hnodup

theorem mem_sorted_names {names : List PyStr} {name : PyStr} :
    name ∈ names.dedup.insertionSort (· ≤ ·) ↔ name ∈ names := by
  rw [List.mem_insertionSort, List.mem_dedup]

/-- A strictly increasing column determines the list. -/
theorem eq_of_mem_iff {tiles tiles' : List TerritoryView}
    (h : (tiles.map TerritoryView.territory).Pairwise (· < ·))
    (h' : (tiles'.map TerritoryView.territory).Pairwise (· < ·))
    (hmem : ∀ tile, tile ∈ tiles ↔ tile ∈ tiles') : tiles = tiles' := by
  rw [List.pairwise_map] at h h'
  have hne : ∀ {a b : TerritoryView}, a.territory < b.territory → a ≠ b := by
    rintro a _ hlt rfl
    exact lt_irrefl _ hlt
  have hperm : tiles.Perm tiles' :=
    (List.perm_ext_iff_of_nodup (h.imp hne) (h'.imp hne)).2 hmem
  exact hperm.eq_of_pairwise (fun a b _ _ hab hba => absurd (lt_trans hab hba) (lt_irrefl _)) h h'

namespace Tables

variable {t : Tables}

theorem latestRun_eq_none {name : PyStr} :
    t.latestRun name = none ↔ name ∉ t.runs.map Run.territory := by
  rw [latestRun, Table.pick_eq_none, List.filter_eq_nil_iff]
  simp

theorem latestRun_isLatest {name : PyStr} {r : Run} (h : t.latestRun name = some r) :
    t.IsLatest r ∧ r.territory = name := by
  obtain ⟨⟨hmem, hterritory⟩, hmax⟩ := latestRun_eq_some h
  exact ⟨⟨hmem, fun r' hr' ht => not_lt.1 (hmax r' hr' (ht.trans hterritory))⟩, hterritory⟩

theorem mem_latestByTerritory {tile : TerritoryView} : tile ∈ t.latestByTerritory ↔
    ∃ name r, t.latestRun name = some r ∧ tile = ⟨name, r.outcome, some r.startedAt⟩ := by
  simp only [latestByTerritory, List.mem_filterMap, mem_sorted_names, Option.map_eq_some_iff]
  constructor
  · rintro ⟨name, -, r, hr, rfl⟩
    exact ⟨name, r, hr, rfl⟩
  · rintro ⟨name, r, hr, rfl⟩
    obtain ⟨⟨hmem, -⟩, rfl⟩ := latestRun_isLatest hr
    exact ⟨r.territory, List.mem_map_of_mem hmem, r, hr, rfl⟩

theorem mem_territoryTiles {base : List TerritoryView} {tile : TerritoryView} :
    tile ∈ t.territoryTiles base ↔ tile ∈ t.latestByTerritory ∨
      ∃ name ∈ base.map TerritoryView.territory, t.latestRun name = none ∧ tile = dormantTile name := by
  unfold territoryTiles
  rw [List.mem_map]
  simp only [mem_sorted_names, List.mem_append, mem_latestByTerritory]
  constructor
  · rintro ⟨name, hname, rfl⟩
    cases hr : t.latestRun name with
    | none =>
        exact Or.inr ⟨name, hname.resolve_right (latestRun_eq_none.1 hr), hr, rfl⟩
    | some r => exact Or.inl ⟨name, r, hr, rfl⟩
  · rintro (⟨name, r, hr, rfl⟩ | ⟨name, hname, hr, rfl⟩)
    · obtain ⟨⟨hmem, -⟩, rfl⟩ := latestRun_isLatest hr
      exact ⟨r.territory, Or.inr (List.mem_map_of_mem hmem), by rw [hr]⟩
    · exact ⟨name, Or.inl hname, by rw [hr]; rfl⟩

/-- The rows the model selects are a result of the SELECT. -/
theorem latestByTerritory_latest (t : Tables) : t.Latest t.latestByTerritory where
  ordered := by
    rw [List.pairwise_map]
    refine (sorted_names _).filterMap _ (fun name name' hlt tile htile tile' htile' => ?_)
    obtain ⟨r, -, rfl⟩ := Option.map_eq_some_iff.1 htile
    obtain ⟨r', -, rfl⟩ := Option.map_eq_some_iff.1 htile'
    exact hlt
  grouped := by
    intro name
    simp only [List.mem_map (f := TerritoryView.territory), mem_latestByTerritory]
    constructor
    · rintro ⟨_, ⟨_, r, hr, rfl⟩, rfl⟩
      obtain ⟨⟨hmem, -⟩, rfl⟩ := latestRun_isLatest hr
      exact List.mem_map_of_mem hmem
    · intro hname
      cases hr : t.latestRun name with
      | none => exact absurd hname (latestRun_eq_none.1 hr)
      | some r => exact ⟨_, ⟨name, r, hr, rfl⟩, rfl⟩
  greatest := by
    intro row hrow
    obtain ⟨_, r, hr, rfl⟩ := mem_latestByTerritory.1 hrow
    obtain ⟨hlatest, rfl⟩ := latestRun_isLatest hr
    exact ⟨r, hlatest, rfl⟩

end Tables

/-- Dormant tiles of one name are one tile. -/
theorem base_agrees {schedule : List PyStr} :
    ∀ a ∈ (schedule.insertionSort (· ≤ ·)).map dormantTile,
    ∀ b ∈ (schedule.insertionSort (· ≤ ·)).map dormantTile, a.territory = b.territory → a = b := by
  simp only [mem_base]
  rintro _ ⟨a, -, rfl⟩ _ ⟨b, -, rfl⟩ hname
  exact congrArg dormantTile hname

/-- **The model's assembler merges the rows of its own selection.** -/
theorem Tables.buildViewstate_eq (t : Tables) (hour : Nat) (runId : Option PyStr)
    (daemonSpendCeilingUsd : Option ℚ) (schedule : List PyStr) :
    t.buildViewstate hour runId daemonSpendCeilingUsd schedule
      = t.buildViewstateFrom t.latestByTerritory hour runId daemonSpendCeilingUsd schedule := by
  have hlatest := t.latestByTerritory_latest
  obtain ⟨hordered, hmem⟩ := mem_mergeTiles (@base_agrees schedule) hlatest.ordered
  have htiles : t.territoryTiles ((schedule.insertionSort (· ≤ ·)).map dormantTile)
      = mergeTiles ((schedule.insertionSort (· ≤ ·)).map dormantTile) t.latestByTerritory := by
    refine eq_of_mem_iff ?_ hordered (fun tile => ?_)
    · unfold Tables.territoryTiles
      rw [List.pairwise_map, List.pairwise_map]
      refine (sorted_names _).imp (fun {name name'} hlt => ?_)
      cases t.latestRun name <;> cases t.latestRun name' <;> exact hlt
    · rw [hmem, Tables.mem_territoryTiles, mem_base]
      refine or_congr_right ⟨?_, ?_⟩
      · rintro ⟨name, hname, hr, rfl⟩
        obtain ⟨_, hbase, rfl⟩ := List.mem_map.1 hname
        obtain ⟨name, hscheduled, rfl⟩ := mem_base.1 hbase
        exact ⟨⟨name, hscheduled, rfl⟩, fun hin =>
          Tables.latestRun_eq_none.1 hr ((hlatest.grouped name).1 hin)⟩
      · rintro ⟨⟨name, hscheduled, rfl⟩, hnot⟩
        refine ⟨name, List.mem_map.2 ⟨dormantTile name, mem_base.2 ⟨name, hscheduled, rfl⟩, rfl⟩, ?_,
          rfl⟩
        exact Tables.latestRun_eq_none.2 (fun hin => hnot ((hlatest.grouped name).2 hin))
  unfold Tables.buildViewstateFrom Tables.buildViewstate
  simp only [project_territories, htiles]

/-! ## The theorem -/

/-- The renderer's reading of the two nullable fields. -/
theorem tileState_hunting {tile : TerritoryView} : tileState tile = "hunting" ↔
    tile.latestOutcome = none ∧ tile.lastStartedAt ≠ none := by
  unfold tileState
  cases tile.latestOutcome with
  | none => cases tile.lastStartedAt <;> simp
  | some outcome => cases outcome <;> simp

/-- The tile carries one of the latest runs of its territory. -/
def Tables.Carries (t : Tables) (tile : TerritoryView) (r : Run) : Prop :=
  t.IsLatest r ∧ tile = ⟨r.territory, r.outcome, some r.startedAt⟩

/-- What the tiles of a board say of the schedule and of the runs. -/
structure TerritoryTier (t : Tables) (schedule : List PyStr) (tiles : List TerritoryView) : Prop where
  increasing : (tiles.map TerritoryView.territory).Pairwise (· < ·)
  union : ∀ name, name ∈ tiles.map TerritoryView.territory ↔
    name ∈ schedule ∨ name ∈ t.runs.map Run.territory
  dormant : ∀ tile ∈ tiles, (tile.latestOutcome = none ∧ tile.lastStartedAt = none) ↔
    tile.territory ∉ t.runs.map Run.territory
  carries : ∀ tile ∈ tiles, tile.territory ∈ t.runs.map Run.territory → ∃ r, t.Carries tile r
  hunting : ∀ tile ∈ tiles, tileState tile = "hunting" ↔ ∃ r, t.Carries tile r ∧ r.outcome = none

/-- Two runs that started together. -/
def tiedTables : Tables where
  runs :=
    [⟨py "r", py "a", py "t", none, some .completed, none, none, none⟩,
      ⟨py "s", py "a", py "t", none, none, none, none, none⟩]
  trajectoryEvents := []
  trajectorySeq := 0
  prey := []
  penEvents := []
  penSeq := 0
  jobs := []

end RexHunter
