import Mathlib.Data.Rat.Defs
import RexHunter.Lib.Table
import RexHunter.Implementation.Events

set_option autoImplicit false

/-! # The database: five tables, their constraints, and every statement the program runs

`Stmt` lists the writing statements of `db.py` and `verdicts.py`, `Stmt.exec` is their effect on
the tables. SQLite enforces the keys and the references of `_SCHEMA`; `Db` carries them as a field,
and `Stmt.exec` refuses what SQLite refuses, so no sequence of statements leaves them. A payload
column is represented by the event it is the JSON text of; numbers that SQLite stores as `REAL` are
exact. -/

namespace RexHunter

inductive RunOutcome where
  | completed
  | needsHelp
  | aborted
  | crashed
deriving DecidableEq, Repr

/-- A row of `runs`. -/
structure Run where
  id : PyStr
  territory : PyStr
  startedAt : PyStr
  endedAt : Option PyStr
  outcome : Option RunOutcome
  abortReason : Option PyStr
  costCeilingUsd : Option ℚ
  maxIterations : Option Int
deriving DecidableEq, Repr

/-- A row of `trajectory_events`. -/
structure TrajectoryRow where
  id : Nat
  runId : PyStr
  seq : Nat
  type : PyStr
  payload : TrajectoryEvent
  createdAt : PyStr
deriving DecidableEq, Repr

inductive PreyStatus where
  | awaitingVerdict
  | feasted
  | released
  | ambered
deriving DecidableEq, Repr

/-- A row of `prey`. -/
structure Prey where
  id : PyStr
  runId : PyStr
  territory : PyStr
  posting : PyStr
  status : PreyStatus
  capturedAt : PyStr
  decidedAt : Option PyStr
  reason : Option PyStr
  provenance : Option PyStr
deriving DecidableEq, Repr

/-- A row of `pen_events`. -/
structure PenRow where
  id : Nat
  preyId : PyStr
  payload : VerdictEvent
  createdAt : PyStr
deriving DecidableEq, Repr

inductive JobStatus where
  | queued
  | running
  | done
deriving DecidableEq, Repr

/-- A row of `jobs`. -/
structure Job where
  id : PyStr
  kind : PyStr
  preyId : PyStr
  status : JobStatus
  result : Option PyStr
  createdAt : PyStr
deriving DecidableEq, Repr

/-- The tables; the two counters are the `AUTOINCREMENT` high-water marks of `sqlite_sequence`. -/
structure Tables where
  runs : List Run
  trajectoryEvents : List TrajectoryRow
  trajectorySeq : Nat
  prey : List Prey
  penEvents : List PenRow
  penSeq : Nat
  jobs : List Job
deriving DecidableEq, Repr

/-- The declared keys and references. -/
structure Tables.Schema (t : Tables) : Prop where
  runsKey : (t.runs.map Run.id).Nodup
  eventsKey : t.trajectoryEvents.Pairwise (fun a b => a.id < b.id)
  eventsIssued : ∀ r ∈ t.trajectoryEvents, r.id ≤ t.trajectorySeq
  eventsUnique : t.trajectoryEvents.Pairwise (fun a b => a.runId = b.runId → a.seq ≠ b.seq)
  eventsRun : ∀ r ∈ t.trajectoryEvents.map TrajectoryRow.runId, r ∈ t.runs.map Run.id
  preyKey : (t.prey.map Prey.id).Nodup
  preyRun : ∀ r ∈ t.prey.map Prey.runId, r ∈ t.runs.map Run.id
  penKey : t.penEvents.Pairwise (fun a b => a.id < b.id)
  penIssued : ∀ r ∈ t.penEvents, r.id ≤ t.penSeq
  penPrey : ∀ p ∈ t.penEvents.map PenRow.preyId, p ∈ t.prey.map Prey.id
  jobsKey : (t.jobs.map Job.id).Nodup
  jobsPrey : ∀ p ∈ t.jobs.map Job.preyId, p ∈ t.prey.map Prey.id

/-- A database: tables that meet their schema. -/
structure Db where
  tables : Tables
  schema : tables.Schema

/-- The empty database `connect` creates. -/
def Db.empty : Db where
  tables := ⟨[], [], 0, [], [], 0, []⟩
  schema := by
    constructor
    all_goals first | exact List.nodup_nil | exact List.Pairwise.nil | simp

/-! ## Statements -/

/-- The writing statements. -/
inductive Stmt where
  | insertRun (id territory startedAt : PyStr) (costCeilingUsd : Option ℚ)
      (maxIterations : Option Int)
  | appendEvent (runId : PyStr) (event : TrajectoryEvent) (createdAt : PyStr)
  | finishRun (endedAt : PyStr) (outcome : RunOutcome) (abortReason : Option PyStr) (id : PyStr)
  | markCrashedRuns
  | insertPrey (id runId territory posting : PyStr) (status : PreyStatus) (capturedAt : PyStr)
  | updatePrey (target : PreyStatus) (decidedAt reason provenance : Option PyStr) (id : PyStr)
      (source : PreyStatus)
  | insertPenEvent (preyId : PyStr) (event : VerdictEvent) (createdAt : PyStr)
  | insertJob (id kind preyId : PyStr) (status : JobStatus) (createdAt : PyStr)
  | claimJob (id : PyStr)
  | completeJob (result id : PyStr)
  | requeueRunningJobs
deriving DecidableEq, Repr

/-- What the program reads off the cursor: `rowcount` of an UPDATE, `lastrowid` of an INSERT into
    one of the two logs. -/
structure Cursor where
  rowcount : Nat
  lastrowid : Option Nat
deriving DecidableEq, Repr

/-- The texts bound to the statement that come from outside, the prey id of a client's verdict among
    them. The ids the program draws and its timestamps are ASCII. -/
def Stmt.texts : Stmt → List PyStr
  | insertRun _ territory _ _ _ => [territory]
  | finishRun _ _ abortReason _ => abortReason.toList
  | insertPrey _ _ territory posting _ _ => [territory, posting]
  | updatePrey _ _ reason provenance id _ => id :: (reason.toList ++ provenance.toList)
  | completeJob result _ => [result]
  | _ => []

/-- `COALESCE(MAX(seq) + 1, 0)` over the rows of one run. -/
def Tables.nextSeq (t : Tables) (runId : PyStr) : Nat :=
  match ((t.trajectoryEvents.filter (fun r => r.runId = runId)).map TrajectoryRow.seq).max? with
  | some m => m + 1
  | none => 0

/-- `MAX` of a text column. -/
def maxText : List PyStr → Option PyStr
  | [] => none
  | a :: as =>
      match maxText as with
      | some b => some (if a < b then b else a)
      | none => some a

theorem maxText_eq_none {texts : List PyStr} : maxText texts = none ↔ texts = [] := by
  cases texts with
  | nil => simp [maxText]
  | cons a texts =>
      simp only [maxText]
      split <;> simp

/-- `SELECT MAX(created_at) FROM trajectory_events WHERE run_id = ?`. -/
def Tables.lastEventAt (t : Tables) (runId : PyStr) : Option PyStr :=
  maxText ((t.trajectoryEvents.filter (fun r => r.runId = runId)).map TrajectoryRow.createdAt)

/-- The effect of a statement whose texts could be bound. -/
def Stmt.apply (s : Stmt) (t : Tables) : Except PyExc (Cursor × Tables) :=
  match s with
  | insertRun id territory startedAt costCeilingUsd maxIterations =>
      if id ∈ t.runs.map Run.id then .error (.databaseError (py "UNIQUE constraint failed: runs.id"))
      else .ok (⟨1, none⟩,
        { t with
          runs := t.runs ++
            [⟨id, territory, startedAt, none, none, none, costCeilingUsd, maxIterations⟩] })
  | appendEvent runId event createdAt =>
      if runId ∈ t.runs.map Run.id then
        .ok (⟨1, some (t.trajectorySeq + 1)⟩,
          { t with
            trajectoryEvents := t.trajectoryEvents ++
              [⟨t.trajectorySeq + 1, runId, t.nextSeq runId, event.type, event, createdAt⟩]
            trajectorySeq := t.trajectorySeq + 1 })
      else .error (.databaseError (py "FOREIGN KEY constraint failed"))
  | finishRun endedAt outcome abortReason id =>
      let isOpen := fun r : Run => decide (r.id = id ∧ r.outcome = none)
      .ok (⟨t.runs.countP isOpen, none⟩,
        { t with
          runs := Table.updateWhere isOpen
            (fun r => { r with
              endedAt := some endedAt, outcome := some outcome, abortReason := abortReason })
            t.runs })
  | markCrashedRuns =>
      let isOpen := fun r : Run => decide (r.outcome = none)
      .ok (⟨t.runs.countP isOpen, none⟩,
        { t with
          runs := Table.updateWhere isOpen
            (fun r => { r with outcome := some .crashed, endedAt := t.lastEventAt r.id }) t.runs })
  | insertPrey id runId territory posting status capturedAt =>
      if id ∈ t.prey.map Prey.id then .error (.databaseError (py "UNIQUE constraint failed: prey.id"))
      else if runId ∈ t.runs.map Run.id then
        .ok (⟨1, none⟩,
          { t with
            prey := t.prey ++
              [⟨id, runId, territory, posting, status, capturedAt, none, none, none⟩] })
      else .error (.databaseError (py "FOREIGN KEY constraint failed"))
  | updatePrey target decidedAt reason provenance id source =>
      let guard := fun p : Prey => decide (p.id = id ∧ p.status = source)
      .ok (⟨t.prey.countP guard, none⟩,
        { t with
          prey := Table.updateWhere guard
            (fun p => { p with
              status := target
              decidedAt := decidedAt
              reason := reason <|> p.reason
              provenance := provenance <|> p.provenance })
            t.prey })
  | insertPenEvent preyId event createdAt =>
      if preyId ∈ t.prey.map Prey.id then
        .ok (⟨1, some (t.penSeq + 1)⟩,
          { t with
            penEvents := t.penEvents ++ [⟨t.penSeq + 1, preyId, event, createdAt⟩]
            penSeq := t.penSeq + 1 })
      else .error (.databaseError (py "FOREIGN KEY constraint failed"))
  | insertJob id kind preyId status createdAt =>
      if id ∈ t.jobs.map Job.id then .error (.databaseError (py "UNIQUE constraint failed: jobs.id"))
      else if preyId ∈ t.prey.map Prey.id then
        .ok (⟨1, none⟩, { t with jobs := t.jobs ++ [⟨id, kind, preyId, status, none, createdAt⟩] })
      else .error (.databaseError (py "FOREIGN KEY constraint failed"))
  | claimJob id =>
      let guard := fun j : Job => decide (j.id = id ∧ j.status = .queued)
      .ok (⟨t.jobs.countP guard, none⟩,
        { t with jobs := Table.updateWhere guard (fun j => { j with status := .running }) t.jobs })
  | completeJob result id =>
      let guard := fun j : Job => decide (j.id = id)
      .ok (⟨t.jobs.countP guard, none⟩,
        { t with
          jobs := Table.updateWhere guard
            (fun j => { j with status := .done, result := some result }) t.jobs })
  | requeueRunningJobs =>
      let guard := fun j : Job => decide (j.status = .running)
      .ok (⟨t.jobs.countP guard, none⟩,
        { t with jobs := Table.updateWhere guard (fun j => { j with status := .queued }) t.jobs })

/-- Binding a text that holds a lone surrogate raises before the statement runs. -/
def Stmt.execTables (s : Stmt) (t : Tables) : Except PyExc (Cursor × Tables) :=
  if s.texts.all encodable then s.apply t else .error .unicodeEncodeError

/-! ## What a statement did, once it was accepted -/

theorem Stmt.apply_insertRun {t t' : Tables} {c : Cursor} {id territory startedAt : PyStr}
    {costCeilingUsd : Option ℚ} {maxIterations : Option Int}
    (h : (insertRun id territory startedAt costCeilingUsd maxIterations).apply t = .ok (c, t')) :
    id ∉ t.runs.map Run.id ∧
      t' = { t with
        runs := t.runs ++
          [⟨id, territory, startedAt, none, none, none, costCeilingUsd, maxIterations⟩] } := by
  simp only [apply] at h
  split at h
  · cases h
  · next hid =>
      cases h
      exact ⟨hid, rfl⟩

theorem Stmt.apply_appendEvent {t t' : Tables} {c : Cursor} {runId createdAt : PyStr}
    {event : TrajectoryEvent} (h : (appendEvent runId event createdAt).apply t = .ok (c, t')) :
    runId ∈ t.runs.map Run.id ∧ c.lastrowid = some (t.trajectorySeq + 1) ∧
      t' = { t with
        trajectoryEvents := t.trajectoryEvents ++
          [⟨t.trajectorySeq + 1, runId, t.nextSeq runId, event.type, event, createdAt⟩]
        trajectorySeq := t.trajectorySeq + 1 } := by
  simp only [apply] at h
  split at h
  · next hrun =>
      cases h
      exact ⟨hrun, rfl, rfl⟩
  · cases h

theorem Stmt.apply_insertPrey {t t' : Tables} {c : Cursor}
    {id runId territory posting capturedAt : PyStr} {status : PreyStatus}
    (h : (insertPrey id runId territory posting status capturedAt).apply t = .ok (c, t')) :
    id ∉ t.prey.map Prey.id ∧ runId ∈ t.runs.map Run.id ∧
      t' = { t with
        prey := t.prey ++
          [⟨id, runId, territory, posting, status, capturedAt, none, none, none⟩] } := by
  simp only [apply] at h
  split at h
  · cases h
  · next hid =>
      split at h
      · next hrun =>
          cases h
          exact ⟨hid, hrun, rfl⟩
      · cases h

theorem Stmt.apply_insertPenEvent {t t' : Tables} {c : Cursor} {preyId createdAt : PyStr}
    {event : VerdictEvent} (h : (insertPenEvent preyId event createdAt).apply t = .ok (c, t')) :
    preyId ∈ t.prey.map Prey.id ∧
      t' = { t with
        penEvents := t.penEvents ++ [⟨t.penSeq + 1, preyId, event, createdAt⟩]
        penSeq := t.penSeq + 1 } := by
  simp only [apply] at h
  split at h
  · next hprey =>
      cases h
      exact ⟨hprey, rfl⟩
  · cases h

theorem Stmt.apply_insertJob {t t' : Tables} {c : Cursor} {id kind preyId createdAt : PyStr}
    {status : JobStatus} (h : (insertJob id kind preyId status createdAt).apply t = .ok (c, t')) :
    id ∉ t.jobs.map Job.id ∧ preyId ∈ t.prey.map Prey.id ∧
      t' = { t with jobs := t.jobs ++ [⟨id, kind, preyId, status, none, createdAt⟩] } := by
  simp only [apply] at h
  split at h
  · cases h
  · next hid =>
      split at h
      · next hprey =>
          cases h
          exact ⟨hid, hprey, rfl⟩
      · cases h

/-- What a statement appends to the trajectory log. -/
def Stmt.appended : Stmt → Option (PyStr × TrajectoryEvent)
  | appendEvent runId event _ => some (runId, event)
  | _ => none

/-- Only an append touches the log. -/
theorem Stmt.apply_trajectoryEvents {s : Stmt} {t t' : Tables} {c : Cursor}
    (h : s.apply t = .ok (c, t')) (hs : s.appended = none) :
    t'.trajectoryEvents = t.trajectoryEvents := by
  cases s with
  | appendEvent runId event createdAt => cases hs
  | insertRun id territory startedAt costCeilingUsd maxIterations =>
      obtain ⟨_, rfl⟩ := apply_insertRun h
      rfl
  | insertPrey id runId territory posting status capturedAt =>
      obtain ⟨_, _, rfl⟩ := apply_insertPrey h
      rfl
  | insertPenEvent preyId event createdAt =>
      obtain ⟨_, rfl⟩ := apply_insertPenEvent h
      rfl
  | insertJob id kind preyId status createdAt =>
      obtain ⟨_, _, rfl⟩ := apply_insertJob h
      rfl
  | finishRun | markCrashedRuns | updatePrey | claimJob | completeJob | requeueRunningJobs =>
      cases h
      rfl

/-! ## Statements keep the schema -/

/-- `max?` bounds every element. -/
theorem le_of_max_eq_some {l : List Nat} {m n : Nat} (h : l.max? = some m) (hn : n ∈ l) : n ≤ m :=
  (List.max?_eq_some_iff.1 h).2 n hn

/-- The next `seq` of a run is above every `seq` it has. -/
theorem Tables.seq_lt_nextSeq {t : Tables} {runId : PyStr} {r : TrajectoryRow}
    (hr : r ∈ t.trajectoryEvents) (hrun : r.runId = runId) : r.seq < t.nextSeq runId := by
  have hmem : r.seq ∈ (t.trajectoryEvents.filter (fun r => r.runId = runId)).map
      TrajectoryRow.seq :=
    List.mem_map.2 ⟨r, List.mem_filter.2 ⟨hr, decide_eq_true hrun⟩, rfl⟩
  unfold nextSeq
  cases hmax : ((t.trajectoryEvents.filter (fun r => r.runId = runId)).map
      TrajectoryRow.seq).max? with
  | some m => exact Nat.lt_succ_of_le (le_of_max_eq_some hmax hmem)
  | none =>
      rw [List.max?_eq_none_iff] at hmax
      rw [hmax] at hmem
      exact absurd hmem List.not_mem_nil

theorem nodup_append_key {κ : Type} {l : List κ} {k : κ} (h : l.Nodup) (hk : k ∉ l) :
    (l ++ [k]).Nodup :=
  h.append (List.nodup_singleton k) (List.disjoint_singleton.2 hk)

theorem mem_append_of_forall {κ : Type} {l m : List κ} (n : List κ) (h : ∀ x ∈ l, x ∈ m) :
    ∀ x ∈ l, x ∈ m ++ n :=
  fun x hx => List.mem_append_left n (h x hx)

theorem forall_mem_snoc {κ : Type} {P : κ → Prop} {l : List κ} {k : κ} (h : ∀ x ∈ l, P x)
    (hk : P k) : ∀ x ∈ l ++ [k], P x := by
  intro x hx
  rcases List.mem_append.1 hx with hx | hx
  · exact h x hx
  · rw [List.mem_singleton.1 hx]
    exact hk

/-- An update of `runs` that keeps the ids. -/
theorem Tables.Schema.setRuns {t : Tables} (h : t.Schema) {runs : List Run}
    (hid : runs.map Run.id = t.runs.map Run.id) : { t with runs := runs }.Schema := by
  refine { h with runsKey := ?_, eventsRun := ?_, preyRun := ?_ }
  · show (runs.map Run.id).Nodup
    rw [hid]
    exact h.runsKey
  · show ∀ r ∈ t.trajectoryEvents.map TrajectoryRow.runId, r ∈ runs.map Run.id
    rw [hid]
    exact h.eventsRun
  · show ∀ r ∈ t.prey.map Prey.runId, r ∈ runs.map Run.id
    rw [hid]
    exact h.preyRun

/-- An update of `prey` that keeps the ids and the owning runs. -/
theorem Tables.Schema.setPrey {t : Tables} (h : t.Schema) {prey : List Prey}
    (hid : prey.map Prey.id = t.prey.map Prey.id)
    (hrun : prey.map Prey.runId = t.prey.map Prey.runId) : { t with prey := prey }.Schema := by
  refine { h with preyKey := ?_, preyRun := ?_, penPrey := ?_, jobsPrey := ?_ }
  · show (prey.map Prey.id).Nodup
    rw [hid]
    exact h.preyKey
  · show ∀ r ∈ prey.map Prey.runId, r ∈ t.runs.map Run.id
    rw [hrun]
    exact h.preyRun
  · show ∀ p ∈ t.penEvents.map PenRow.preyId, p ∈ prey.map Prey.id
    rw [hid]
    exact h.penPrey
  · show ∀ p ∈ t.jobs.map Job.preyId, p ∈ prey.map Prey.id
    rw [hid]
    exact h.jobsPrey

/-- An update of `jobs` that keeps the ids and the prey. -/
theorem Tables.Schema.setJobs {t : Tables} (h : t.Schema) {jobs : List Job}
    (hid : jobs.map Job.id = t.jobs.map Job.id)
    (hprey : jobs.map Job.preyId = t.jobs.map Job.preyId) : { t with jobs := jobs }.Schema := by
  refine { h with jobsKey := ?_, jobsPrey := ?_ }
  · show (jobs.map Job.id).Nodup
    rw [hid]
    exact h.jobsKey
  · show ∀ p ∈ jobs.map Job.preyId, p ∈ t.prey.map Prey.id
    rw [hprey]
    exact h.jobsPrey

/-- **No statement leaves the schema.** -/
theorem Stmt.apply_schema {s : Stmt} {t t' : Tables} {c : Cursor} (h : t.Schema)
    (hs : s.apply t = .ok (c, t')) : t'.Schema := by
  cases s with
  | insertRun id territory startedAt costCeilingUsd maxIterations =>
      obtain ⟨hid, rfl⟩ := apply_insertRun hs
      refine { h with runsKey := ?_, eventsRun := ?_, preyRun := ?_ }
      all_goals rw [List.map_append]
      · exact nodup_append_key h.runsKey hid
      · exact mem_append_of_forall _ h.eventsRun
      · exact mem_append_of_forall _ h.preyRun
  | appendEvent runId event createdAt =>
      obtain ⟨hrun, _, rfl⟩ := apply_appendEvent hs
      refine { h with eventsKey := ?_, eventsIssued := ?_, eventsUnique := ?_, eventsRun := ?_ }
      · refine List.pairwise_append.2 ⟨h.eventsKey, List.pairwise_singleton _ _, ?_⟩
        intro a ha b hb
        rw [List.mem_singleton.1 hb]
        exact Nat.lt_succ_of_le (h.eventsIssued a ha)
      · exact forall_mem_snoc (fun r hr => Nat.le_succ_of_le (h.eventsIssued r hr)) (Nat.le_refl _)
      · refine List.pairwise_append.2 ⟨h.eventsUnique, List.pairwise_singleton _ _, ?_⟩
        intro a ha b hb hab
        rw [List.mem_singleton.1 hb] at hab ⊢
        exact Nat.ne_of_lt (Tables.seq_lt_nextSeq ha hab)
      · rw [List.map_append]
        exact forall_mem_snoc h.eventsRun hrun
  | finishRun endedAt outcome abortReason id =>
      cases hs
      exact h.setRuns (Table.map_updateWhere (fun _ => rfl))
  | markCrashedRuns =>
      cases hs
      exact h.setRuns (Table.map_updateWhere (fun _ => rfl))
  | insertPrey id runId territory posting status capturedAt =>
      obtain ⟨hid, hrun, rfl⟩ := apply_insertPrey hs
      refine { h with preyKey := ?_, preyRun := ?_, penPrey := ?_, jobsPrey := ?_ }
      all_goals rw [List.map_append]
      · exact nodup_append_key h.preyKey hid
      · exact forall_mem_snoc h.preyRun hrun
      · exact mem_append_of_forall _ h.penPrey
      · exact mem_append_of_forall _ h.jobsPrey
  | updatePrey target decidedAt reason provenance id source =>
      cases hs
      exact h.setPrey (Table.map_updateWhere (fun _ => rfl)) (Table.map_updateWhere (fun _ => rfl))
  | insertPenEvent preyId event createdAt =>
      obtain ⟨hprey, rfl⟩ := apply_insertPenEvent hs
      refine { h with penKey := ?_, penIssued := ?_, penPrey := ?_ }
      · refine List.pairwise_append.2 ⟨h.penKey, List.pairwise_singleton _ _, ?_⟩
        intro a ha b hb
        rw [List.mem_singleton.1 hb]
        exact Nat.lt_succ_of_le (h.penIssued a ha)
      · exact forall_mem_snoc (fun r hr => Nat.le_succ_of_le (h.penIssued r hr)) (Nat.le_refl _)
      · rw [List.map_append]
        exact forall_mem_snoc h.penPrey hprey
  | insertJob id kind preyId status createdAt =>
      obtain ⟨hid, hprey, rfl⟩ := apply_insertJob hs
      refine { h with jobsKey := ?_, jobsPrey := ?_ }
      all_goals rw [List.map_append]
      · exact nodup_append_key h.jobsKey hid
      · exact forall_mem_snoc h.jobsPrey hprey
  | claimJob id =>
      cases hs
      exact h.setJobs (Table.map_updateWhere (fun _ => rfl)) (Table.map_updateWhere (fun _ => rfl))
  | completeJob result id =>
      cases hs
      exact h.setJobs (Table.map_updateWhere (fun _ => rfl)) (Table.map_updateWhere (fun _ => rfl))
  | requeueRunningJobs =>
      cases hs
      exact h.setJobs (Table.map_updateWhere (fun _ => rfl)) (Table.map_updateWhere (fun _ => rfl))

theorem Stmt.execTables_schema {s : Stmt} {t t' : Tables} {c : Cursor} (h : t.Schema)
    (hs : s.execTables t = .ok (c, t')) : t'.Schema := by
  unfold execTables at hs
  split at hs
  · exact apply_schema h hs
  · cases hs

/-- A statement on a database. -/
def Stmt.exec (s : Stmt) (db : Db) : Except PyExc (Cursor × Db) :=
  match h : s.execTables db.tables with
  | .ok (c, t) => .ok (c, ⟨t, execTables_schema db.schema h⟩)
  | .error e => .error e

/-- An accepted statement could bind its texts. -/
theorem Stmt.exec_texts {s : Stmt} {db db' : Db} {c : Cursor} (h : s.exec db = .ok (c, db')) :
    s.texts.all encodable = true := by
  unfold exec at h
  split at h
  · next c₁ t₁ ht =>
      unfold execTables at ht
      split at ht
      · next htexts => exact htexts
      · cases ht
  · cases h

/-- A statement whose texts can be bound and that the tables accept. -/
theorem Stmt.exec_of_apply {s : Stmt} {db : Db} {c : Cursor} {t : Tables}
    (htexts : s.texts.all encodable = true) (h : s.apply db.tables = .ok (c, t)) :
    ∃ db', s.exec db = .ok (c, db') ∧ db'.tables = t := by
  have ht : s.execTables db.tables = .ok (c, t) := by
    unfold execTables
    rw [if_pos htexts, h]
  unfold exec
  split
  · next c₁ t₁ ht₁ =>
      rw [ht] at ht₁
      cases ht₁
      exact ⟨_, rfl, rfl⟩
  · next e he =>
      rw [ht] at he
      cases he

theorem Stmt.exec_ok {s : Stmt} {db db' : Db} {c : Cursor} (h : s.exec db = .ok (c, db')) :
    s.apply db.tables = .ok (c, db'.tables) := by
  unfold exec at h
  split at h
  · next c₁ t₁ ht =>
      cases h
      unfold execTables at ht
      split at ht
      · exact ht
      · cases ht
  · cases h

end RexHunter
