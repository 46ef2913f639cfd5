import RexHunter.Implementation.Db

set_option autoImplicit false

/-! # The prey pen and the human-verdict state machine (`verdicts.py`)

`capture_prey` and `submit_verdict` write several rows in one transaction; `claim_job` reads and
then flips, in two steps that other workers can come between, so its two halves are functions of
their own, and what `claim_job` returns of them is the worker's next phase. -/

namespace RexHunter

/-! ## Captures -/

/-- `posting.encode()`. -/
def encodePosting (posting : PyStr) : Prog PyBytes :=
  Session.attempt (.other .encode) (match encode posting with
    | some raw => .ok raw
    | none => .error .unicodeEncodeError)

/-- `capture_prey`. -/
def capturePrey (runId territory posting : PyStr) (publish : Bool) : Prog PyStr := do
  let preyId ← uuid4
  let now ← utcnow
  let raw ← encodePosting posting
  let event := TrajectoryEvent.preyCaptured ⟨preyId, territory, raw⟩
  dump event.dumpable
  let cursor ← execute (.appendEvent runId event now)
  let _ ← execute (.insertPrey preyId runId territory posting .awaitingVerdict now)
  commit
  match cursor.lastrowid with
  | none => return preyId
  | some eventId => do
      publishEvent publish eventId event
      return preyId

/-! ## Verdicts -/

/-- `_TRANSITIONS`: the status a verdict requires and the status it leads to. -/
def Verdict.transition : Verdict → PreyStatus × PreyStatus
  | feast => (.awaitingVerdict, .feasted)
  | release => (.awaitingVerdict, .released)
  | amber => (.awaitingVerdict, .ambered)
  | reenter => (.ambered, .awaitingVerdict)

/-- `_TRANSITIONS[verdict][0]`. -/
def Verdict.source (v : Verdict) : PreyStatus := v.transition.1

/-- `_TRANSITIONS[verdict][1]`. -/
def Verdict.target (v : Verdict) : PreyStatus := v.transition.2

def draftPitch : PyStr := py "draft_pitch"

/-- `submit_verdict`; a request is the verdict event it would log. -/
def submitVerdict (request : VerdictEvent) : Prog Bool :=
  if request.verdict = .release ∧ request.reason = none then
    Coro.raise (.valueError (py "RELEASE requires a reason (labelled rejection data)"))
  else do
    let now ← utcnow
    -- re-entry returns to pending: clear it
    let decidedAt := if request.verdict.target = .awaitingVerdict then none else some now
    let cursor ← execute (.updatePrey request.verdict.target decidedAt request.reason
      request.provenance request.preyId request.verdict.source)
    if cursor.rowcount ≠ 1 then do
      rollback
      return false
    else do
      dump request.dumpable
      let _ ← execute (.insertPenEvent request.preyId request now)
      if request.verdict = .feast then do
        let jobId ← uuid4
        let _ ← execute (.insertJob jobId draftPitch request.preyId .queued now)
        commit
        return true
      else do
        commit
        return true

/-- The rows `read_pen_events` returns. -/
def Tables.readPenEvents (t : Tables) (preyId : PyStr) : List VerdictEvent :=
  (Table.orderBy PenRow.id (t.penEvents.filter (fun r => r.preyId = preyId))).map PenRow.payload

/-- One turn of the loop of `fold`. -/
def foldStep (acc : PreyStatus × Option PyStr × Option PyStr) (event : VerdictEvent) :
    PreyStatus × Option PyStr × Option PyStr :=
  if acc.1 ≠ event.verdict.source then acc
  else (event.verdict.target, event.reason <|> acc.2.1, event.provenance <|> acc.2.2)

/-- `fold`: `(status, reason, provenance)` from the verdict log. -/
def fold (events : List VerdictEvent) : PreyStatus × Option PyStr × Option PyStr :=
  events.foldl foldStep (.awaitingVerdict, none, none)

/-! ## The follow-up worker -/

/-- `ORDER BY created_at, id LIMIT 1`. -/
def Tables.oldestQueued (t : Tables) : Option Job :=
  Table.pick
    (fun b j : Job => j.createdAt < b.createdAt ∨ (j.createdAt = b.createdAt ∧ j.id < b.id))
    (t.jobs.filter (fun j => j.status = .queued))

/-- The SELECT of `claim_job`. -/
def selectQueued : Prog (Option (PyStr × PyStr)) :=
  select (fun t => t.oldestQueued.map (fun j => (j.id, j.preyId)))

/-- The guarded UPDATE of `claim_job`; whether this worker won the job. -/
def flipQueued (jobId : PyStr) : Prog Bool := do
  let cursor ← execute (.claimJob jobId)
  commit
  return decide (cursor.rowcount = 1)

/-- `complete_job`. -/
def completeJob (jobId result : PyStr) : Prog PUnit := do
  let _ ← execute (.completeJob result jobId)
  commit

/-- `requeue_running_jobs`. -/
def requeueRunningJobs : Prog Nat := do
  let cursor ← execute .requeueRunningJobs
  commit
  return cursor.rowcount

end RexHunter
