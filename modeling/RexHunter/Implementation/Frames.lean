import RexHunter.Implementation.Codec
import RexHunter.Implementation.Hub

set_option autoImplicit false

/-! # The frames of the live stream (`Envelope.sse` of `hub.py`)

What the three callers put on a viewer queue, and the text of each envelope: a published event has an
id line, a notification is a bare data line, a heartbeat a comment. -/

namespace RexHunter

/-! ## What is offered -/

/-- A member of a compact object. -/
def compactMember (e : PyStr × PyStr) : PyStr := quoted e.1 ++ py ":" ++ quoted e.2

/-- `json.dumps(entries, separators=(",", ":"))`, of texts. -/
def compactText (entries : List (PyStr × PyStr)) : PyStr :=
  py "\x7b" ++ List.intercalate (py ",") (entries.map compactMember) ++ py "\x7d"

/-- `runs.outcome`. -/
def RunOutcome.value : RunOutcome → PyStr
  | completed => py "completed"
  | needsHelp => py "needs_help"
  | aborted => py "aborted"
  | crashed => py "crashed"

/-- The payload of the run-finished pulse. -/
def pulsePayload (runId : PyStr) (outcome : RunOutcome) : PyStr :=
  compactText [(py "type", py "run_finished"), (py "run_id", runId), (py "outcome", outcome.value)]

/-- `Envelope(None, "")`. -/
def heartbeat : Envelope := ⟨none, []⟩

/-- The envelopes of `publish`, of `notify` and of the heartbeat. -/
inductive Envelope.Offered [PydanticJson] : Envelope → Prop where
  | publish (id : Nat) {e : TrajectoryEvent} {payload : PyStr} :
      e.modelDumpJson = .ok payload → Offered ⟨some id, payload⟩
  | notifyVerdict {e : VerdictEvent} {payload : PyStr} :
      e.modelDumpJson = .ok payload → Offered ⟨none, payload⟩
  | notifyFinished (runId : PyStr) (outcome : RunOutcome) : Offered ⟨none, pulsePayload runId outcome⟩
  | beat : Offered heartbeat

/-! ## Frames -/

section

variable [PyRuntime]

/-- `f"{n}"`, which refuses a number with too many digits. -/
def formatInt (n : Nat) : Except PyExc PyStr :=
  if PyRuntime.maxStrDigits < (decimalDigits n).length then
    .error (.valueError (py "Exceeds the limit for integer string conversion"))
  else .ok (decimalDigits n)

/-- `Envelope.sse`. -/
def Envelope.sse (env : Envelope) : Except PyExc PyStr :=
  match env.id with
  | none =>
      if env.data = [] then .ok (py ": keep-alive\n\n")
      else .ok (py "data: " ++ env.data ++ py "\n\n")
  | some id => do
      let id ← formatInt id
      return py "id: " ++ id ++ py "\ndata: " ++ env.data ++ py "\n\n"

end

end RexHunter
