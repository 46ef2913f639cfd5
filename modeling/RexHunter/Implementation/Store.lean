import RexHunter.Lib.Transition
import RexHunter.Implementation.Verdicts

set_option autoImplicit false

/-! # Everyone around the database

The database is written by hunts, by verdict requests, by the follow-up workers and by the boot
sweep, each on its own connection; SQLite serialises their transactions. A step of the system `store`
is one party's coroutine run to its end on a fresh connection, under faults of the environment's
choice, after which the connection is closed. A worker's claim is two such steps, because the SELECT
of `claim_job` is outside the transaction of its UPDATE; the party in between is arbitrary. -/

namespace RexHunter

/-- What the environment brings to one connection: its faults, the random ids and the clock. -/
structure Env where
  faults : List (Fault PyExc)
  uuid4 : Nat → PyStr
  utcnow : Nat → PyStr

/-- An environment that never interferes; its `uuid4` returns `ids` in turn. -/
def Env.calm (ids : List PyStr) : Env := ⟨[], fun n => ids.getD n [], fun _ => py "t"⟩

/-- A session on a fresh connection. -/
def Env.session (env : Env) (db : Db) : Sess where
  conn := Conn.opened db
  faults := env.faults
  frame := .request
  shielded := false
  trace := []
  vars :=
    { uuid4 := env.uuid4
      uuids := 0
      utcnow := env.utcnow
      reads := 0
      brainCalls := 0
      toolCalls := 0
      published := []
      notified := []
      decisions := []
      reached := none }

/-- One write of a hunt to the log. -/
inductive Write where
  | append (event : TrajectoryEvent)
  | capture (territory posting : PyStr)

/-- The write; however it ends, the hunt's handlers may go on writing on the same connection. -/
def Write.run (runId : PyStr) (write : Write) : Prog PUnit :=
  tryCatch
    (match write with
      | .append event => do
          let _ ← appendEvent runId event true
      | .capture territory posting => do
          let _ ← capturePrey runId territory posting true)
    (fun _ => pure ⟨⟩)

/-- What a party asks of the database, each on a connection of its own. -/
inductive Call where
  | startRun (territory : PyStr) (costCeilingUsd : Option ℚ) (maxIterations : Option Int)
  | hunt (runId : PyStr) (writes : List Write)
  | finishRun (runId : PyStr) (outcome : RunOutcome) (abortReason : Option PyStr)
  | submitVerdict (request : VerdictEvent)

/-- The coroutine of a call. -/
def Call.run : Call → Prog PUnit
  | startRun territory costCeilingUsd maxIterations => do
      let _ ← RexHunter.startRun territory costCeilingUsd maxIterations
  | hunt runId writes => writes.forM (Write.run runId)
  | finishRun runId outcome abortReason => RexHunter.finishRun runId outcome abortReason
  | submitVerdict request => do
      let _ ← RexHunter.submitVerdict request

/-- The boot sweep of the lifespan, on one connection. -/
def bootSweep : Prog PUnit := do
  let _ ← markCrashedRuns
  let _ ← requeueRunningJobs

/-- Where a worker of `run_job_worker` is: polling, between the SELECT and the UPDATE of
    `claim_job`, drafting the pitch of a claimed job, or gone. -/
inductive Worker where
  | idle
  | selected (jobId preyId : PyStr)
  | drafting (jobId preyId : PyStr)
  | dead
deriving DecidableEq, Repr

/-- The database, the workers, whether the process is up, and, as history, every statement
    committed so far. -/
structure Store (W : Type) where
  db : Db
  workers : W → Worker
  up : Bool
  history : List Stmt

/-- One step of one party. `burnIds` is a gap SQLite may leave in the ids of the two logs. -/
inductive StoreAction (W : Type) where
  | call (c : Call) (env : Env)
  | spawn (w : W)
  | poll (w : W) (env : Env)
  | claim (w : W) (env : Env)
  | finish (w : W) (draft : PyStr) (env : Env)
  | die (w : W)
  | crash
  | boot (env : Env)
  | burnIds (n m : Nat)

/-- The counters of `sqlite_sequence` moved ahead. -/
def Db.burnIds (db : Db) (n m : Nat) : Db where
  tables :=
    { db.tables with
      trajectorySeq := db.tables.trajectorySeq + n
      penSeq := db.tables.penSeq + m }
  schema :=
    { db.schema with
      eventsIssued := fun r hr => Nat.le_add_right_of_le (db.schema.eventsIssued r hr)
      penIssued := fun r hr => Nat.le_add_right_of_le (db.schema.penIssued r hr) }

variable {W : Type} [DecidableEq W]

namespace Store

/-- The connection of a session is closed: what it had not committed is gone. -/
def close (st : Store W) (s : Sess) : Store W :=
  { st with db := s.conn.committed, history := st.history ++ Session.durable s.trace }

def setWorker (st : Store W) (w : W) (phase : Worker) : Store W :=
  { st with workers := Function.update st.workers w phase }

/-- The phase after the SELECT of `claim_job`. -/
def afterPoll : Except (Exn PyExc) (Option (PyStr × PyStr)) → Worker
  | .ok (some (jobId, preyId)) => .selected jobId preyId
  | .ok none => .idle
  | .error _ => .dead

/-- The phase after the UPDATE of `claim_job`. -/
def afterClaim (jobId preyId : PyStr) : Except (Exn PyExc) Bool → Worker
  | .ok true => .drafting jobId preyId
  | .ok false => .idle
  | .error _ => .dead

/-- The phase after `complete_job`. -/
def afterFinish : Except (Exn PyExc) PUnit → Worker
  | .ok _ => .idle
  | .error _ => .dead

def step (st : Store W) : StoreAction W → Option (Store W)
  | .call c env => some (st.close (c.run.exec (env.session st.db)).2)
  | .spawn w =>
      if st.up ∧ st.workers w = .dead then some (st.setWorker w .idle) else none
  | .poll w env =>
      match st.workers w with
      | .idle =>
          let (r, s) := selectQueued.exec (env.session st.db)
          some ((st.close s).setWorker w (afterPoll r))
      | _ => none
  | .claim w env =>
      match st.workers w with
      | .selected jobId preyId =>
          let (r, s) := (flipQueued jobId).exec (env.session st.db)
          some ((st.close s).setWorker w (afterClaim jobId preyId r))
      | _ => none
  | .finish w draft env =>
      match st.workers w with
      | .drafting jobId _ =>
          let (r, s) := (completeJob jobId draft).exec (env.session st.db)
          some ((st.close s).setWorker w (afterFinish r))
      | _ => none
  | .die w => some (st.setWorker w .dead)
  | .crash => some { st with workers := fun _ => .dead, up := false }
  | .boot env =>
      if st.up then none
      else
        let (r, s) := bootSweep.exec (env.session st.db)
        some { st.close s with up := match r with | .ok _ => true | .error _ => false }
  | .burnIds n m => some { st with db := st.db.burnIds n m }

end Store

/-- An empty database before the first boot. -/
structure Store.Fresh (st : Store W) : Prop where
  db : st.db = Db.empty
  workers : ∀ w, st.workers w = .dead
  up : st.up = false
  history : st.history = []

/-- The state `Fresh` describes. -/
def Store.new (W : Type) : Store W := ⟨Db.empty, fun _ => .dead, false, []⟩

omit [DecidableEq W] in
theorem Store.new_fresh : (Store.new W).Fresh := ⟨rfl, fun _ => rfl, rfl, rfl⟩

/-- The system. -/
def store (W : Type) [DecidableEq W] : Transition.System (Store W) (StoreAction W) where
  Init := Store.Fresh
  step := Store.step

end RexHunter
