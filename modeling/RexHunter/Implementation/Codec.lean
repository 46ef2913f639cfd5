import RexHunter.Lib.Base64
import RexHunter.Lib.Record
import RexHunter.Implementation.Brain

set_option autoImplicit false

/-! # The text of an event (`events.py`)

`model_dump_json`, `decode_event` and `decode_verdict_event`. Each class of events is its list of
fields, in the order of the source; what `extra="forbid"`, a `Literal` tag, the discriminated union
and base64 bytes mean is written out. Of pydantic the writer of JSON, the conversions to `bool` and
`int` and the texts of the errors are parameters. -/

namespace RexHunter

/-! ## What pydantic does -/

/-- What the codec relies on of pydantic. It writes no text that UTF-8 does not encode; it writes ints
    of any length, and a flat object that it wrote, it reads unless one of its ints is too long for
    the reader. -/
class PydanticJson extends Pydantic where
  /-- `none` is `PydanticSerializationError`. -/
  writeJson : Dict → Option PyStr
  readBool : Json → Option Bool
  readInt : Json → Option Int
  eventError : PyStr → PyStr
  verdictEventError : PyStr → PyStr
  surrogateFree_writeJson : ∀ d s, writeJson d = some s → Json.surrogateFreeEntries d = true
  read_writeJson : ∀ d s, Dict.Flat d → writeJson d = some s →
    (Json.obj d).intsWithin intChars = true →
    ∃ raw, encode s = some raw ∧ readJson raw = .ok (.obj d)
  unread_writeJson : ∀ d s, Dict.Flat d → writeJson d = some s →
    (Json.obj d).intsWithin intChars = false →
    ∃ raw detail, encode s = some raw ∧ readJson raw = .error detail
  readBool_bool : ∀ b, readBool (.bool b) = some b
  readInt_int : ∀ i, readInt (.int i) = some i

/-! ## Fields -/

/-- The type of a field. -/
inductive FieldType where
  | literal (s : PyStr)
  | str
  | bytes
  | bool
  | int
  | verdict
  | optional (t : FieldType)

/-- The value of a field. -/
inductive FieldValue where
  | none
  | str (s : PyStr)
  | bytes (b : PyBytes)
  | bool (b : Bool)
  | int (i : Int)
  | verdict (v : Verdict)
deriving DecidableEq

/-- The values of the `StrEnum`. -/
def Verdict.value : Verdict → PyStr
  | feast => py "feast"
  | release => py "release"
  | amber => py "amber"
  | reenter => py "reenter"

/-- `Verdict(value)`. -/
def Verdict.ofValue (s : PyStr) : Option Verdict :=
  [Verdict.feast, .release, .amber, .reenter].find? (fun v => decide (v.value = s))

/-- `val_json_bytes="base64"`: the URL-safe alphabet, else the standard one. -/
def bytesOfText (s : PyStr) : Option PyBytes :=
  match Base64.decode Base64.urlSafe s with
  | some b => some b
  | none => Base64.decode Base64.standard s

/-- What a field holds in JSON; `ser_json_bytes="base64"` writes the URL-safe alphabet. -/
def FieldValue.write : FieldValue → Json
  | none => .null
  | str s => .str s
  | bytes b => .str (Base64.encode Base64.urlSafe b)
  | bool b => .bool b
  | int i => .int i
  | verdict v => .str v.value

section Codec

variable [PydanticJson]

/-- The value a field takes from JSON. -/
def FieldType.read : FieldType → Json → Option FieldValue
  | literal s, v =>
      match v with
      | .str t => if t = s then some (.str t) else Option.none
      | _ => Option.none
  | str, v =>
      match v with
      | .str t => some (.str t)
      | _ => Option.none
  | bytes, v =>
      match v with
      | .str t => (bytesOfText t).map .bytes
      | _ => Option.none
  | bool, v => (PydanticJson.readBool v).map .bool
  | int, v => (PydanticJson.readInt v).map .int
  | verdict, v =>
      match v with
      | .str t => (Verdict.ofValue t).map .verdict
      | _ => Option.none
  | optional t, v =>
      match v with
      | .null => some .none
      | v => t.read v

/-- How an `_Event` reads and writes its fields. -/
def fieldCodec : ValueCodec FieldType FieldValue := ⟨FieldType.read, FieldValue.write⟩

end Codec

/-! ## The classes -/

/-- A field without a default. -/
def required (name : String) (t : FieldType) : RecordField FieldType FieldValue := ⟨py name, t, none⟩

/-- A field with a default. -/
def defaulted (name : String) (t : FieldType) (v : FieldValue) : RecordField FieldType FieldValue :=
  ⟨py name, t, some v⟩

/-- A subclass of `_Event`: its tag, its other fields, and the event that has their values. -/
structure EventClass (E : Type) where
  type : PyStr
  fields : RecordType FieldType FieldValue
  construct : List FieldValue → Option E

/-- All the fields of the class. -/
def EventClass.model {E : Type} (c : EventClass E) : RecordType FieldType FieldValue :=
  ⟨py "type", .literal c.type, some (.str c.type)⟩ :: c.fields

def sniffEvent : EventClass TrajectoryEvent where
  type := py "sniff"
  fields := [required "prey" .str]
  construct
    | [.str prey] => some (.sniff ⟨prey⟩)
    | _ => none

def toolCallEvent : EventClass TrajectoryEvent where
  type := py "tool_call"
  fields := [required "tool" .str, required "raw_request" .bytes,
    defaulted "tool_use_id" .str (.str []), defaulted "thinking" .bytes (.bytes [])]
  construct
    | [.str tool, .bytes rawRequest, .str toolUseId, .bytes thinking] =>
        some (.toolCall ⟨tool, rawRequest, toolUseId, thinking⟩)
    | _ => none

def toolResultEvent : EventClass TrajectoryEvent where
  type := py "tool_result"
  fields := [required "tool" .str, required "raw_request" .bytes, required "raw_response" .bytes,
    defaulted "tool_use_id" .str (.str [])]
  construct
    | [.str tool, .bytes rawRequest, .bytes rawResponse, .str toolUseId] =>
        some (.toolResult ⟨tool, rawRequest, rawResponse, toolUseId⟩)
    | _ => none

def preyCapturedEvent : EventClass TrajectoryEvent where
  type := py "prey_captured"
  fields := [required "prey_id" .str, required "territory" .str, required "raw_posting" .bytes]
  construct
    | [.str preyId, .str territory, .bytes rawPosting] =>
        some (.preyCaptured ⟨preyId, territory, rawPosting⟩)
    | _ => none

/-- A value of an optional `bytes` field. -/
def FieldValue.optionalBytes : FieldValue → Option (Option PyBytes)
  | none => some Option.none
  | bytes b => some (some b)
  | _ => Option.none

/-- A value of an optional `str` field. -/
def FieldValue.optionalStr : FieldValue → Option (Option PyStr)
  | none => some Option.none
  | str s => some (some s)
  | _ => Option.none

def errorEvent : EventClass TrajectoryEvent where
  type := py "error"
  fields := [required "tool" .str, required "retryable" .bool, required "error" .str,
    required "raw_request" .bytes, defaulted "raw_response" (.optional .bytes) .none,
    defaulted "detail" (.optional .str) .none]
  construct
    | [.str tool, .bool retryable, .str error, .bytes rawRequest, rawResponse, detail] => do
        let rawResponse ← rawResponse.optionalBytes
        let detail ← detail.optionalStr
        return .error ⟨tool, retryable, error, rawRequest, rawResponse, detail⟩
    | _ => none

def thinkingDelta : EventClass TrajectoryEvent where
  type := py "thinking_delta"
  fields := [required "text" .str]
  construct
    | [.str text] => some (.thinkingDelta ⟨text⟩)
    | _ => none

def usageEvent : EventClass TrajectoryEvent where
  type := py "usage"
  fields := [required "model" .str, required "input_tokens" .int, required "output_tokens" .int]
  construct
    | [.str model, .int inputTokens, .int outputTokens] =>
        some (.usage ⟨model, inputTokens, outputTokens⟩)
    | _ => none

/-- The members of the union. -/
def trajectoryEvents : List (EventClass TrajectoryEvent) :=
  [sniffEvent, toolCallEvent, toolResultEvent, errorEvent, preyCapturedEvent, usageEvent,
    thinkingDelta]

def verdictEvent : EventClass VerdictEvent where
  type := py "verdict"
  fields := [required "prey_id" .str, required "verdict" .verdict,
    defaulted "reason" (.optional .str) .none, defaulted "provenance" (.optional .str) .none]
  construct
    | [.str preyId, .verdict verdict, reason, provenance] => do
        let reason ← reason.optionalStr
        let provenance ← provenance.optionalStr
        return ⟨preyId, verdict, reason, provenance⟩
    | _ => none

/-! ## Writing -/

def FieldValue.ofBytes : Option PyBytes → FieldValue
  | some b => bytes b
  | Option.none => none

def FieldValue.ofStr : Option PyStr → FieldValue
  | some s => str s
  | Option.none => none

namespace TrajectoryEvent

/-- `type(event)`. -/
def eventClass : TrajectoryEvent → EventClass TrajectoryEvent
  | sniff _ => sniffEvent
  | toolCall _ => toolCallEvent
  | toolResult _ => toolResultEvent
  | error _ => errorEvent
  | preyCaptured _ => preyCapturedEvent
  | usage _ => usageEvent
  | thinkingDelta _ => RexHunter.thinkingDelta

/-- The values of the fields after `type`. -/
def values : TrajectoryEvent → List FieldValue
  | sniff e => [.str e.prey]
  | toolCall e => [.str e.tool, .bytes e.rawRequest, .str e.toolUseId, .bytes e.thinking]
  | toolResult e => [.str e.tool, .bytes e.rawRequest, .bytes e.rawResponse, .str e.toolUseId]
  | error e => [.str e.tool, .bool e.retryable, .str e.error, .bytes e.rawRequest,
      .ofBytes e.rawResponse, .ofStr e.detail]
  | preyCaptured e => [.str e.preyId, .str e.territory, .bytes e.rawPosting]
  | usage e => [.str e.model, .int e.inputTokens, .int e.outputTokens]
  | thinkingDelta e => [.str e.text]

end TrajectoryEvent

/-- The values of the fields after `type`. -/
def VerdictEvent.values (e : VerdictEvent) : List FieldValue :=
  [.str e.preyId, .verdict e.verdict, .ofStr e.reason, .ofStr e.provenance]

section Boundary

variable [PydanticJson]

/-- `model_dump()` of an event of the class, as JSON. -/
def EventClass.dict {E : Type} (c : EventClass E) (values : List FieldValue) : Dict :=
  c.model.dump fieldCodec (.str c.type :: values)

/-- `model_dump_json`. -/
def EventClass.modelDumpJson {E : Type} (c : EventClass E) (values : List FieldValue) :
    Except PyExc PyStr :=
  match PydanticJson.writeJson (c.dict values) with
  | some payload => .ok payload
  | none => .error .serializationError

def TrajectoryEvent.modelDumpJson (e : TrajectoryEvent) : Except PyExc PyStr :=
  e.eventClass.modelDumpJson e.values

def VerdictEvent.modelDumpJson (e : VerdictEvent) : Except PyExc PyStr :=
  verdictEvent.modelDumpJson e.values

/-! ## Reading -/

/-- The event of the class in the object. -/
def EventClass.validate {E : Type} (c : EventClass E) (d : Dict) : Option E :=
  match c.model.validate fieldCodec d with
  | some (_ :: values) => c.construct values
  | _ => none

/-- The discriminated union: the tag says which class reads the object. -/
def validateEvent : Json → Option TrajectoryEvent
  | .obj d =>
      match Dict.get d (py "type") with
      | some (.str type) =>
          match trajectoryEvents.find? (fun c => decide (c.type = type)) with
          | some c => c.validate d
          | none => none
      | _ => none
  | _ => none

def validateVerdictEvent : Json → Option VerdictEvent
  | .obj d => verdictEvent.validate d
  | _ => none

/-- The JSON value in the payload. -/
def readPayload (payload : PyStr) : Option Json :=
  match encode payload with
  | none => none
  | some raw =>
      match Pydantic.readJson raw with
      | .ok v => some v
      | .error _ => none

/-- `decode_event`. -/
def decodeEvent (payload : PyStr) : Except PyExc TrajectoryEvent :=
  match (readPayload payload).bind validateEvent with
  | some e => .ok e
  | none => .error (.validationError (PydanticJson.eventError payload))

/-- `decode_verdict_event`. -/
def decodeVerdictEvent (payload : PyStr) : Except PyExc VerdictEvent :=
  match (readPayload payload).bind validateVerdictEvent with
  | some e => .ok e
  | none => .error (.validationError (PydanticJson.verdictEventError payload))

end Boundary

end RexHunter
