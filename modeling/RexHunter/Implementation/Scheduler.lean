import RexHunter.Lib.TaskGroup
import RexHunter.Implementation.Store
import RexHunter.Implementation.Loop

set_option autoImplicit false

/-! # The daemon's budget (`scheduler.py`)

A launch is one pass of `_bounded_hunt` on a connection of its own: the budget gate, which folds the
whole log, and behind it the hunt. -/

namespace RexHunter

/-- `daemon_spend_usd`. -/
def daemonSpendUsd : Prog ℚ := do
  let events ← readUsage
  return foldCost events

/-- Whether the gate of `_bounded_hunt` refuses the launch; without a ceiling nothing is read. -/
def overBudget : Option ℚ → Prog Bool
  | none => return false
  | some daemonSpendCeilingUsd => do
      let spend ← daemonSpendUsd
      return decide (daemonSpendCeilingUsd ≤ spend)

section Launches

variable [PyRuntime] (daemonSpendCeilingUsd : Option ℚ)

/-- `_bounded_hunt`, once the connection is open; an exception that escapes the hunt is only
    logged. -/
def boundedHunt (h : Hunt) : Prog (Option PyStr) :=
  tryCatch
    (do
      if ← overBudget daemonSpendCeilingUsd then return none
      else do
        let runId ← runHunt h
        return some runId)
    (fun e =>
      match e with
      | .cancelled => throw .cancelled
      | .raised _ => return none)

/-- A launch: the hunt, and what the environment brings to its connection. -/
structure Launch where
  hunt : Hunt
  env : Env

/-- The session of a launch, right before its connection is closed. -/
def Launch.session (l : Launch) (db : Db) : Sess :=
  ((boundedHunt daemonSpendCeilingUsd l.hunt).exec (l.env.session db)).2

/-- The sessions of launches that follow one another. -/
def sessions : List Launch → Db → List (Launch × Sess)
  | [], _ => []
  | l :: ls, db =>
      (l, l.session daemonSpendCeilingUsd db) ::
        sessions ls (l.session daemonSpendCeilingUsd db).conn.committed

/-- The database they leave behind. -/
def afterLaunches : List Launch → Db → Db
  | [], db => db
  | l :: ls, db => afterLaunches ls (l.session daemonSpendCeilingUsd db).conn.committed

end Launches

/-! ## Hunts side by side

`run_scheduler` runs one task for each territory, under one semaphore. A step of the system `daemon`
is one await of one task, or a crash of the process with its restart. Nobody else writes to the log
of a run, and its hunt reads nothing else, so the awaits of a hunt are those of its run on the
database it was launched on, in the same order; what they commit, they commit to the database all
tasks share. -/

/-- What `run_scheduler` is called with. -/
structure Limits where
  maxConcurrent : Nat
  costCeilingUsd : ℚ
  daemonSpendCeilingUsd : ℚ

/-- Where the task of a territory is: outside the semaphore, on its connection before the gate, past
    the gate, or in `run_hunt`, with the awaits it has behind it and those still to come. `gate` is
    history: when the gate was read. -/
inductive Slot where
  | waiting
  | connected
  | admitted (gate : Nat)
  | hunting (gate : Nat) (past rest : List (Step Frame Op))
deriving DecidableEq

/-- The database, the tasks, and the free permits of the semaphore. As history: the time, and for
    each run row that was created when the gate of its launch was read. -/
structure Daemon (T : Type) where
  db : Db
  slots : T → Slot
  free : Nat
  clock : Nat
  created : List Nat

/-- One step of one task. -/
inductive DaemonAction (T : Type) where
  | acquire (t : T)
  | gate (t : T) (env : Env)
  | launch (t : T) (hunt : Hunt) (env : Env)
  | advance (t : T)
  | release (t : T)
  | crash

/-- The statements an await commits. -/
def commits (past : List (Step Frame Op)) (st : Step Frame Op) : List Stmt :=
  (Session.enter ([], (Session.ledger past).2) st).1

/-- The statement creates a run row. -/
def Stmt.createsRun : Stmt → Bool
  | insertRun .. => true
  | _ => false

section Daemon

variable {T : Type} [DecidableEq T] [PyRuntime] (limits : Limits)

namespace Daemon

def setSlot (st : Daemon T) (t : T) (slot : Slot) : Daemon T :=
  { st with slots := Function.update st.slots t slot }

/-- The task leaves the semaphore; its connection is closed. -/
def leave (st : Daemon T) (t : T) : Daemon T :=
  { st.setSlot t .waiting with free := st.free + 1 }

def act (st : Daemon T) : DaemonAction T → Option (Daemon T)
  | .acquire t =>
      if st.slots t = .waiting ∧ 0 < st.free then
        some { st.setSlot t .connected with free := st.free - 1 }
      else none
  | .gate t env =>
      match st.slots t with
      | .connected =>
          match ((overBudget (some limits.daemonSpendCeilingUsd)).exec (env.session st.db)).1 with
          | .ok false => some (st.setSlot t (.admitted st.clock))
          | _ => some (st.leave t)
      | _ => none
  | .launch t hunt env =>
      match st.slots t with
      | .admitted gate =>
          if hunt.costCeilingUsd = limits.costCeilingUsd then
            some (st.setSlot t
              (.hunting gate [] ((runHunt hunt).exec (env.session st.db)).2.trace))
          else none
      | _ => none
  | .advance t =>
      match st.slots t with
      | .hunting gate past (st' :: rest) =>
          match Session.execAll Stmt.exec (commits past st') st.db with
          | some db =>
              some { st.setSlot t (.hunting gate (past ++ [st']) rest) with
                db := db
                created := st.created ++
                  ((commits past st').filter Stmt.createsRun).map (fun _ => gate) }
          | none => some (st.leave t)
      | _ => none
  | .release t =>
      match st.slots t with
      | .hunting _ _ [] => some (st.leave t)
      | _ => none
  | .crash => some { st with slots := fun _ => .waiting, free := limits.maxConcurrent }

def step (st : Daemon T) (a : DaemonAction T) : Option (Daemon T) :=
  (st.act limits a).map fun st' => { st' with clock := st.clock + 1 }

/-- Nothing runs yet. -/
structure Idle (st : Daemon T) : Prop where
  slots : ∀ t, st.slots t = .waiting
  free : st.free = limits.maxConcurrent
  created : st.created = []

end Daemon

/-- The system. -/
def daemon (T : Type) [DecidableEq T] : Transition.System (Daemon T) (DaemonAction T) where
  Init := Daemon.Idle limits
  step := Daemon.step limits

end Daemon

/-! ## The task group

`run_hunts` and `run_scheduler` start one task for each territory in one task group, and each task
runs `_bounded_hunt`, once or forever. Here a pass of `_bounded_hunt` goes from the opening of its
connection to its close, and only its exceptions matter: what its siblings commit meanwhile is part
of the database and the faults it meets. -/

section TaskGroup

variable [PyRuntime] (daemonSpendCeilingUsd : Option ℚ)

/-- The `try` of `_bounded_hunt`. `hunt` is the hunt with the brain that `brain_for` makes for the
    territory, or what `brain_for` raises. -/
def tryHunt (hunt : Except PyExc Hunt) : Prog (Option PyStr) :=
  tryCatch
    (do
      if ← overBudget daemonSpendCeilingUsd then return none
      else
        match hunt with
        | .error e => Coro.raise e
        | .ok h => do
            let runId ← runHunt h
            return some runId)
    (fun e =>
      match e with
      | .cancelled => throw .cancelled
      | .raised _ => return none)

/-- `_bounded_hunt`, once it is past the semaphore. -/
def openedHunt (columns : List PyStr) (hunt : Except PyExc Hunt) : Prog (Option PyStr) := do
  connect columns
  let r ← Coro.observe (tryHunt daemonSpendCeilingUsd hunt)
  close
  match r with
  | .ok runId => return runId
  | .error e => throw e

/-- One pass of `_bounded_hunt`: what it is called with, the file it opens, and what it meets there.
    A `CancelledError` comes from a cancellation, not from the injected code. -/
structure Pass where
  columns : List PyStr
  hunt : Except PyExc Hunt
  db : Db
  env : Env
  genuine : ((openedHunt daemonSpendCeilingUsd columns hunt).exec (env.session db)).1
      = .error .cancelled →
    ∃ st ∈ ((openedHunt daemonSpendCeilingUsd columns hunt).exec (env.session db)).2.trace,
      st.fate.isCancelled = true

variable {daemonSpendCeilingUsd}

/-- How the pass ends. -/
def Pass.result (pass : Pass daemonSpendCeilingUsd) : Except (Exn PyExc) (Option PyStr) :=
  ((openedHunt daemonSpendCeilingUsd pass.columns pass.hunt).exec (pass.env.session pass.db)).1

/-- The steps of the pass. -/
def Pass.trace (pass : Pass daemonSpendCeilingUsd) : List (Step Frame Op) :=
  ((openedHunt daemonSpendCeilingUsd pass.columns pass.hunt).exec
    (pass.env.session pass.db)).2.trace

variable (daemonSpendCeilingUsd)

/-- Where the task of a territory is: at the semaphore, in a pass with the steps it has behind it
    and those still to come, or in `asyncio.sleep`. -/
inductive TerritoryLoop where
  | queueing
  | inside (pass : Pass daemonSpendCeilingUsd) (past rest : List (Step Frame Op))
  | sleeping

inductive LoopAction where
  | acquire (pass : Pass daemonSpendCeilingUsd)
  | advance
  | leave
  | wake
  | interrupt

variable {daemonSpendCeilingUsd} (forever : Bool)

/-- What the task of a territory is after a pass: `territory_loop` goes on, `_store` is done. -/
def Pass.outcome (pass : Pass daemonSpendCeilingUsd) :
    TaskGroup.Task (TerritoryLoop daemonSpendCeilingUsd) (Option PyStr) PyExc :=
  match pass.result with
  | .ok runId => if forever then .running .sleeping else .returned runId
  | .error (.raised e) => .failed e
  | .error .cancelled => .cancelled

/-- The next step of a task. Its share is the free permits of the semaphore; it is cancelled only
    after the group has asked for it. -/
def TerritoryLoop.next (free : Nat) (asked : Bool) :
    TerritoryLoop daemonSpendCeilingUsd → LoopAction daemonSpendCeilingUsd →
      Option (Nat × TaskGroup.Task (TerritoryLoop daemonSpendCeilingUsd) (Option PyStr) PyExc)
  | .queueing, .acquire pass =>
      if 0 < free then some (free - 1, .running (.inside pass [] pass.trace)) else none
  | .inside pass past (st :: rest), .advance =>
      if st.fate.isCancelled ∧ asked = false then none
      else some (free, .running (.inside pass (past ++ [st]) rest))
  | .inside pass _ [], .leave => some (free + 1, pass.outcome forever)
  | .sleeping, .wake => some (free, .running .queueing)
  | .queueing, .interrupt => if asked then some (free, .cancelled) else none
  | .sleeping, .interrupt => if asked then some (free, .cancelled) else none
  | _, _ => none

/-- The group right after its tasks are created. -/
structure Started {T : Type} (maxConcurrent : Nat)
    (g : TaskGroup.Group T Nat (TerritoryLoop daemonSpendCeilingUsd) (Option PyStr) PyExc) :
    Prop where
  shared : g.shared = maxConcurrent
  tasks : ∀ t, g.tasks t = .running .queueing
  asked : ∀ t, g.asked t = false
  aborting : g.aborting = false

/-- The tasks of `run_scheduler` (`forever`) or of `run_hunts`. -/
def territories (T : Type) [DecidableEq T] (maxConcurrent : Nat) :
    Transition.System
      (TaskGroup.Group T Nat (TerritoryLoop daemonSpendCeilingUsd) (Option PyStr) PyExc)
      (T × LoopAction daemonSpendCeilingUsd) :=
  TaskGroup.system (TerritoryLoop.next forever) (Started maxConcurrent)

end TaskGroup

end RexHunter
