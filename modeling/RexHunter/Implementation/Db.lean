import RexHunter.Lib.Connection
import RexHunter.Implementation.Database

set_option autoImplicit false

/-! # The write-ahead log (`db.py`)

Every function is a coroutine on one connection, statement by statement and await by await. What a
program draws from outside the database (`uuid4`, the clock) comes from streams in its variables,
and what it hands out (the publish and notify hooks) is recorded there. -/

namespace RexHunter

/-- The steps that write nothing. `select` stands for a SELECT and its fetch, `dump` and `encode` are
    steps without an await that can raise, `call` calls the brain on a context, `request` is a request
    to the provider, `brain` and `tool` are awaits of code that is injected, `connect` and `close` open
    and close the connection. -/
inductive Act where
  | select
  | dump
  | encode
  | call (context : List TrajectoryEvent)
  | request
  | brain
  | tool
  | connect
  | close
deriving DecidableEq, Repr

/-- The steps of the coroutines on an open connection, other than the calls of the brain and the
    requests. -/
def Act.inner : Act → Bool
  | call _ => false
  | request => false
  | connect => false
  | close => false
  | _ => true

/-- The operations of a run. -/
abbrev Op : Type := SqlOp Stmt Act

/-- The part of `run_hunt` a step belongs to; `request` is a coroutine on its own connection. -/
inductive Frame where
  | request
  | starting
  | driving
  | handling
  | cleaning
  | closing
deriving DecidableEq, Repr

/-- The variables of a session: the streams it draws from, with how much of each is used, and what
    it handed to the hooks. `decisions` and `reached` are history: the decisions that brain calls
    returned, and the outcome `run_hunt` arrived at. -/
structure Vars where
  uuid4 : Nat → PyStr
  uuids : Nat
  utcnow : Nat → PyStr
  reads : Nat
  brainCalls : Nat
  toolCalls : Nat
  published : List (Nat × TrajectoryEvent)
  notified : List (PyStr × RunOutcome)
  decisions : List Decision
  reached : Option (RunOutcome × Option PyStr)

/-- A session on the database. -/
abbrev Sess : Type := Session Db Op PyExc Frame Vars

/-- A coroutine of the program. -/
abbrev Prog : Type → Type := Coro Sess PyExc

/-! ## The connection -/

/-- `str(uuid.uuid4())`. -/
def uuid4 : Prog PyStr :=
  Session.useVars fun v => (v.uuid4 v.uuids, { v with uuids := v.uuids + 1 })

/-- `_utcnow`. -/
def utcnow : Prog PyStr :=
  Session.useVars fun v => (v.utcnow v.reads, { v with reads := v.reads + 1 })

/-- `await conn.execute(…)` of a writing statement. -/
def execute (s : Stmt) : Prog Cursor := Session.await (.execute s) (Session.execute s.exec)

/-- `await conn.commit()`. -/
def commit : Prog PUnit := Session.await .commit Session.commit

/-- `await conn.rollback()`. -/
def rollback : Prog PUnit := Session.await .rollback Session.rollback

/-- A SELECT with its fetch: any fault at one of its awaits ends it without an effect. -/
def select {α : Type} (read : Tables → α) : Prog α :=
  Session.await (.other .select) (Session.query (fun db => read db.tables))

/-- `event.model_dump_json()`. -/
def dump (dumpable : Bool) : Prog PUnit :=
  Session.attempt (.other .dump) (if dumpable then .ok ⟨⟩ else .error .serializationError)

/-- One await of `connect`. On a database that has the schema none of them changes a row. -/
def connecting : Prog PUnit := Session.await (.other .connect) (Session.elsewhere (.ok ⟨⟩))

/-- `connect`, on a file whose table `runs` has these columns. -/
def connect (columns : List PyStr) : Prog PUnit := do
  connecting -- `aiosqlite.connect`
  connecting -- `PRAGMA journal_mode`
  connecting -- `PRAGMA busy_timeout`
  connecting -- `PRAGMA foreign_keys`
  connecting -- the schema
  connecting -- `PRAGMA table_info`
  [py "cost_ceiling_usd", py "max_iterations"].forM fun name =>
    if name ∈ columns then pure ⟨⟩ else connecting
  connecting -- `commit`

/-- `await conn.close()`; an open transaction is lost. -/
def close : Prog PUnit := Session.await (.other .close) Session.rollback

/-- Hand an event to the publish hook, if there is one. -/
def publishEvent (publish : Bool) (eventId : Nat) (event : TrajectoryEvent) : Prog PUnit :=
  Session.useVars fun v =>
    (⟨⟩, if publish then { v with published := v.published ++ [(eventId, event)] } else v)

/-! ## The functions of the module -/

/-- `start_run`. -/
def startRun (territory : PyStr) (costCeilingUsd : Option ℚ) (maxIterations : Option Int) :
    Prog PyStr := do
  let runId ← uuid4
  let now ← utcnow
  let _ ← execute (.insertRun runId territory now costCeilingUsd maxIterations)
  commit
  return runId

/-- `append_event`. -/
def appendEvent (runId : PyStr) (event : TrajectoryEvent) (publish : Bool) : Prog Nat := do
  dump event.dumpable
  let now ← utcnow
  let cursor ← execute (.appendEvent runId event now)
  commit
  match cursor.lastrowid with
  | none => Coro.raise (.other (py "append_event: INSERT returned no rowid"))
  | some eventId => do
      publishEvent publish eventId event
      return eventId

/-- The rows `read_events` returns. -/
def Tables.readEvents (t : Tables) (runId : PyStr) : List TrajectoryEvent :=
  (Table.orderBy TrajectoryRow.seq (t.trajectoryEvents.filter (fun r => r.runId = runId))).map
    TrajectoryRow.payload

/-- `read_events`. -/
def readEvents (runId : PyStr) : Prog (List TrajectoryEvent) :=
  select (fun t => t.readEvents runId)

/-- The rows `read_usage` returns. -/
def Tables.readUsage (t : Tables) : List TrajectoryEvent :=
  (Table.orderBy TrajectoryRow.id (t.trajectoryEvents.filter (fun r => r.type = py "usage"))).map
    TrajectoryRow.payload

/-- `read_usage`. -/
def readUsage : Prog (List TrajectoryEvent) := select Tables.readUsage

/-- `finish_run`. -/
def finishRun (runId : PyStr) (outcome : RunOutcome) (abortReason : Option PyStr) : Prog PUnit := do
  let now ← utcnow
  let _ ← execute (.finishRun now outcome abortReason runId)
  commit

/-- `mark_crashed_runs`. -/
def markCrashedRuns : Prog Nat := do
  let cursor ← execute .markCrashedRuns
  commit
  return cursor.rowcount

end RexHunter
