import RexHunter.Lib.Json

set_option autoImplicit false

/-! # Typed events (`events.py`), decisions, and the exceptions the loop tells apart

The trajectory union and the verdict event are the two things the database stores as JSON text. An
event value can exist and still have no JSON text: `model_dump_json` raises on a `str` that holds a
lone surrogate (`dumpable`). -/

namespace RexHunter

/-! ## Exceptions -/

/-- A Python `Exception`, by the classes `classify`, `run_hunt` and the JSON readers distinguish. -/
inductive PyExc where
  | timeoutError
  | retryableToolError (message : PyStr)
  | transportError (message : PyStr)
  | httpStatusError (code : Nat) (content : PyBytes)
  | brainParseError (raw : PyBytes) (detail : PyStr)
  | validationError (detail : PyStr)
  | serializationError
  | unicodeEncodeError
  | unicodeDecodeError
  | jsonDecodeError
  | recursionError
  | keyError (key : PyStr)
  | typeError
  | attributeError
  | valueError (message : PyStr)
  | overflowError
  | databaseError (message : PyStr)
  | other (message : PyStr)
deriving DecidableEq, Repr

/-! ## Trajectory events -/

structure SniffEvent where
  prey : PyStr
deriving DecidableEq, Repr

/-- The dispatch: a tool is about to run. -/
structure ToolCallEvent where
  tool : PyStr
  rawRequest : PyBytes
  toolUseId : PyStr
  thinking : PyBytes
deriving DecidableEq, Repr

structure ToolResultEvent where
  tool : PyStr
  rawRequest : PyBytes
  rawResponse : PyBytes
  toolUseId : PyStr
deriving DecidableEq, Repr

structure ErrorEvent where
  tool : PyStr
  retryable : Bool
  error : PyStr
  rawRequest : PyBytes
  rawResponse : Option PyBytes
  detail : Option PyStr
deriving DecidableEq, Repr

structure PreyCapturedEvent where
  preyId : PyStr
  territory : PyStr
  rawPosting : PyBytes
deriving DecidableEq, Repr

structure UsageEvent where
  model : PyStr
  inputTokens : Int
  outputTokens : Int
deriving DecidableEq, Repr

structure ThinkingDelta where
  text : PyStr
deriving DecidableEq, Repr

/-- The discriminated union. -/
inductive TrajectoryEvent where
  | sniff (e : SniffEvent)
  | toolCall (e : ToolCallEvent)
  | toolResult (e : ToolResultEvent)
  | error (e : ErrorEvent)
  | preyCaptured (e : PreyCapturedEvent)
  | usage (e : UsageEvent)
  | thinkingDelta (e : ThinkingDelta)
deriving DecidableEq, Repr

namespace TrajectoryEvent

/-- The `type` tag. -/
def type : TrajectoryEvent → PyStr
  | sniff _ => py "sniff"
  | toolCall _ => py "tool_call"
  | toolResult _ => py "tool_result"
  | error _ => py "error"
  | preyCaptured _ => py "prey_captured"
  | usage _ => py "usage"
  | thinkingDelta _ => py "thinking_delta"

/-- The text fields; raw bytes travel as base64. -/
def texts : TrajectoryEvent → List PyStr
  | sniff e => [e.prey]
  | toolCall e => [e.tool, e.toolUseId]
  | toolResult e => [e.tool, e.toolUseId]
  | error e => e.tool :: e.error :: e.detail.toList
  | preyCaptured e => [e.preyId, e.territory]
  | usage e => [e.model]
  | thinkingDelta e => [e.text]

/-- `model_dump_json` succeeds. -/
def dumpable (e : TrajectoryEvent) : Bool := e.texts.all encodable

/-- The prey id a capture event carries. -/
def capturedId : TrajectoryEvent → Option PyStr
  | preyCaptured e => some e.preyId
  | _ => none

/-- The usage a `UsageEvent` records. -/
def usage? : TrajectoryEvent → Option UsageEvent
  | usage e => some e
  | _ => none

end TrajectoryEvent

/-! ## Verdict events -/

inductive Verdict where
  | feast
  | release
  | amber
  | reenter
deriving DecidableEq, Repr

/-- A human verdict, as the pen log stores it. -/
structure VerdictEvent where
  preyId : PyStr
  verdict : Verdict
  reason : Option PyStr
  provenance : Option PyStr
deriving DecidableEq, Repr

/-- `model_dump_json` succeeds. -/
def VerdictEvent.dumpable (e : VerdictEvent) : Bool :=
  (e.preyId :: (e.reason.toList ++ e.provenance.toList)).all encodable

/-! ## Decisions of a brain -/

/-- Run a tool with these arguments. -/
structure ToolCallDecision where
  tool : PyStr
  args : Dict
  toolUseId : PyStr
  usage : Option UsageEvent
  thinking : PyBytes

inductive Decision where
  | toolCall (decision : ToolCallDecision)
  | huntComplete (catches : List PyStr) (usage : Option UsageEvent)
  | needsHelp (usage : Option UsageEvent)

/-- `decision.usage`. -/
def Decision.usage : Decision → Option UsageEvent
  | toolCall decision => decision.usage
  | huntComplete _ usage => usage
  | needsHelp usage => usage

end RexHunter
