import RexHunter.Lib.JsonReader
import RexHunter.Implementation.Loop

set_option autoImplicit false

/-! # The brain socket (`brain.py`)

The provider adapter: the projection of the log into messages, the two transports, the assembly of a
stream, and the one boundary where raw bytes become a `Decision`. Of pydantic the model takes what it
cannot read here as a parameter (`Pydantic`): the JSON reader of `model_validate_json`, the
conversions of an optional usage, and the texts of validation errors. What a model accepts is
written out. -/

namespace RexHunter

/-- What the program relies on of pydantic. The errors are `str(exc)`, which is made from a Rust
    string, so it has no surrogates; nor has what the reader of JSON yields. -/
class Pydantic where
  readJson : PyBytes → Except PyStr Json
  /-- How many characters of an int, its sign included, the reader of JSON takes. -/
  intChars : Nat
  /-- `HuntComplete.usage` accepts the value. -/
  acceptsUsage : Json → Bool
  responseError : Json → PyStr
  blockError : Dict → PyStr
  catchError : Dict → PyStr
  surrogateFree_readJson : ∀ raw v, readJson raw = .ok v → v.surrogateFree = true
  encodable_readJson : ∀ raw detail, readJson raw = .error detail → encodable detail = true
  encodable_responseError : ∀ v, encodable (responseError v) = true
  encodable_blockError : ∀ d, encodable (blockError d) = true
  encodable_catchError : ∀ d, encodable (catchError d) = true

/-! ## The envelope -/

/-- `_ProviderResponse`. -/
structure ProviderResponse where
  stopReason : Option PyStr
  content : List Dict
  model : Option PyStr
  usage : Option Dict

/-- A field `str | None = None`; the outer `none` is a validation error. -/
def optionalStr (d : Dict) (key : PyStr) : Option (Option PyStr) :=
  match d.get key with
  | none => some none
  | some .null => some none
  | some (.str s) => some (some s)
  | some _ => none

/-- A field `dict[str, Any] | None = None`. -/
def optionalDict (d : Dict) (key : PyStr) : Option (Option Dict) :=
  match d.get key with
  | none => some none
  | some .null => some none
  | some (.obj entries) => some (some entries)
  | some _ => none

/-- The items of a `list[dict[str, Any]]`. -/
def objects : List Json → Option (List Dict)
  | [] => some []
  | .obj entries :: vs => (objects vs).map (entries :: ·)
  | _ :: _ => none

/-- A field `list[dict[str, Any]]`. -/
def requiredObjects (d : Dict) (key : PyStr) : Option (List Dict) :=
  match d.get key with
  | some (.arr items) => objects items
  | _ => none

/-- The fields of `_ProviderResponse`; unknown ones are ignored. -/
def validateResponse : Json → Option ProviderResponse
  | .obj d =>
      match optionalStr d (py "stop_reason"), requiredObjects d (py "content"),
        optionalStr d (py "model"), optionalDict d (py "usage") with
      | some stopReason, some content, some model, some usage =>
          some ⟨stopReason, content, model, usage⟩
      | _, _, _, _ => none
  | _ => none

/-- `_ToolUseBlock`. -/
structure ToolUseBlock where
  type : PyStr
  id : PyStr
  name : PyStr
  input : Dict

/-- `_ToolUseBlock.model_validate`. -/
def validateBlock (d : Dict) : Option ToolUseBlock :=
  match d.get (py "type"), d.get (py "id"), d.get (py "name"), d.get (py "input") with
  | some (.str type), some (.str id), some (.str name), some (.obj input) =>
      some ⟨type, id, name, input⟩
  | _, _, _, _ => none

/-- The items of a `list[str]`. -/
def strings : List Json → Option (List PyStr)
  | [] => some []
  | .str s :: vs => (strings vs).map (s :: ·)
  | _ :: _ => none

/-- `HuntComplete.catch`, a `list[str]` that defaults to the empty one. -/
def catchField (d : Dict) : Option (List PyStr) :=
  match d.get (py "catch") with
  | none => some []
  | some (.arr items) => strings items
  | some _ => none

/-- `HuntComplete.usage`, optional. -/
def usageField [Pydantic] (d : Dict) : Bool :=
  match d.get (py "usage") with
  | none => true
  | some .null => true
  | some v => Pydantic.acceptsUsage v

/-- `HuntComplete.model_validate`. -/
def validateComplete [Pydantic] (d : Dict) : Option (List PyStr) :=
  if usageField d then catchField d else none

/-! ## The boundary -/

/-- `int(value)`. -/
def pyInt [PyRuntime] : Json → Except PyExc Int
  | .null => .error .typeError
  | .bool b => .ok (if b then 1 else 0)
  | .int i => .ok i
  | .float x =>
      match x with
      | .nan => .error (.valueError (py "cannot convert float NaN to integer"))
      | .inf _ => .error .overflowError
      | .finite negative mantissa exponent =>
          let n := if 0 ≤ exponent then mantissa * 2 ^ exponent.toNat
            else mantissa / 2 ^ (-exponent).toNat
          .ok (if negative then -(n : Int) else n)
  | .str s =>
      match intOfText s with
      | some i => .ok i
      | none => .error (.valueError (py "invalid literal for int() with base 10"))
  | .arr _ => .error .typeError
  | .obj _ => .error .typeError

/-- `int(usage.get(key, 0))`. -/
def tokenCount [PyRuntime] (usage : Dict) (key : PyStr) : Except PyExc Int :=
  pyInt ((usage.get key).getD (.int 0))

/-- `_extract_usage`. -/
def extractUsage [PyRuntime] (response : ProviderResponse) : Except PyExc (Option UsageEvent) :=
  match response.usage with
  | none => .ok none
  | some usage =>
      match tokenCount usage (py "input_tokens") with
      | .error e => .error e
      | .ok inputTokens =>
          match tokenCount usage (py "output_tokens") with
          | .error e => .error e
          | .ok outputTokens =>
              .ok (some ⟨response.model.getD [], inputTokens, outputTokens⟩)

/-- `_TOOL_USE`. -/
def toolUse : PyStr := py "tool_use"

/-- `block.get("type") == type`. -/
def hasType (type : PyStr) (block : Dict) : Bool :=
  match block.get (py "type") with
  | some (.str s) => decide (s = type)
  | _ => false

/-- `HUNT_COMPLETE`. -/
def huntComplete : PyStr := py "hunt_complete"

/-- `NEEDS_HELP`. -/
def needsHelp : PyStr := py "needs_help"

/-- The detail of an envelope without exactly one `tool_use` block. -/
def blockCountDetail (n : Nat) : PyStr :=
  py "expected exactly one tool_use block, found " ++ decimalDigits n ++
    py ": the loop acts on one native tool call per iteration, never on free text or a batch"

/-- `_ProviderResponse.model_validate_json`. -/
def readResponse [Pydantic] (raw : PyBytes) : Except PyStr ProviderResponse :=
  match Pydantic.readJson raw with
  | .error detail => .error detail
  | .ok v =>
      match validateResponse v with
      | some response => .ok response
      | none => .error (Pydantic.responseError v)

/-- The decision of the one `tool_use` block; the error is `str(exc)`. -/
def decideBlock [Pydantic] (block : Dict) (usage : Option UsageEvent) : Except PyStr Decision :=
  match validateBlock block with
  | none => .error (Pydantic.blockError block)
  | some b =>
      if b.name = huntComplete then
        match validateComplete b.input with
        | some catches => .ok (.huntComplete catches usage)
        | none => .error (Pydantic.catchError b.input)
      else if b.name = needsHelp then .ok (.needsHelp usage)
      else .ok (.toolCall ⟨b.name, b.input, b.id, usage, []⟩)

/-- What `parse_decision` does with a valid envelope. -/
def decideResponse [Pydantic] (response : ProviderResponse) (usage : Option UsageEvent) :
    Except PyStr Decision :=
  match response.content.filter (hasType toolUse) with
  | [block] => decideBlock block usage
  | blocks => .error (blockCountDetail blocks.length)

/-- `parse_decision`. -/
def parseDecision [PyRuntime] [Pydantic] (raw : PyBytes) : Except PyExc Decision :=
  match readResponse raw with
  | .error detail => .error (.brainParseError raw detail)
  | .ok response =>
      match extractUsage response with
      | .error e => .error e
      | .ok usage =>
          match decideResponse response usage with
          | .ok decision => .ok decision
          | .error detail => .error (.brainParseError raw detail)

/-! ## The stream assembler -/

/-- `value.get(…)` needs a `dict`. -/
def asDict : Json → Except PyExc Dict
  | .obj entries => .ok entries
  | _ => .error .attributeError

/-- `d[key]`. -/
def item (d : Dict) (key : PyStr) : Except PyExc Json :=
  match d.get key with
  | some v => .ok v
  | none => .error (.keyError key)

/-- Iteration over a value. -/
def iterate : Json → Except PyExc (List Json)
  | .arr items => .ok items
  | .str s => .ok (s.map (fun c => .str [c]))
  | .obj entries => .ok (entries.map (fun e => match e.1 with
      | .str s => .str s
      | .int i => .int i
      | .float x => .float x
      | .bool b => .bool b
      | .null => .null))
  | _ => .error .typeError

/-- A value as a key; lists and dictionaries are unhashable. -/
def asKey : Json → Except PyExc Key
  | .str s => .ok (.str s)
  | .int i => .ok (.int i)
  | .float x => .ok (.float x)
  | .bool b => .ok (.bool b)
  | .null => .ok .null
  | _ => .error .typeError

/-- The entries of a sequence of pairs. -/
def pairs : List Json → Except PyExc (List (Key × Json))
  | [] => .ok []
  | v :: vs => do
      match ← iterate v with
      | [k, x] => do
          let key ← asKey k
          let rest ← pairs vs
          return (key, x) :: rest
      | _ => .error (.valueError (py "dictionary update sequence element has the wrong length"))

/-- What `dict(value)` and `d.update(value)` take the entries from. -/
def entriesOf : Json → Except PyExc (List (Key × Json))
  | .obj entries => .ok entries
  | v => do
      let items ← iterate v
      pairs items

/-- `StreamAssembler`. -/
structure StreamAssembler where
  blocks : List (Int × Dict)
  jsonBuf : List (Int × PyStr)
  model : Json
  stopReason : Json
  usage : Dict
  complete : Bool

/-- `StreamAssembler()`. -/
def StreamAssembler.new : StreamAssembler := ⟨[], [], .null, .null, [], false⟩

/-- `m.get(index)` of a `dict` with `int` keys. -/
def lookup {α : Type} (m : List (Int × α)) (index : Int) : Option α :=
  (m.find? (fun e => e.1 = index)).map Prod.snd

/-- `m[index] = value`. -/
def assign {α : Type} (m : List (Int × α)) (index : Int) (value : α) : List (Int × α) :=
  match m with
  | [] => [(index, value)]
  | e :: es => if e.1 = index then (index, value) :: es else e :: assign es index value

namespace StreamAssembler

variable [PyRuntime]

/-- `str(d.get(key, ""))`. -/
def fieldText (d : Dict) (key : PyStr) : PyStr := ((d.get key).getD (.str [])).text

/-- `block[key] = str(block.get(key, "")) + text`. -/
def extend (block : Dict) (key text : PyStr) : Dict :=
  block.set (.str key) (.str (fieldText block key ++ text))

/-- `_apply_delta`. -/
def applyDelta (asm : StreamAssembler) (index : Int) (delta : Json) :
    Except PyExc (Option PyStr × StreamAssembler) :=
  match lookup asm.blocks index with
  | none => .ok (none, asm)
  | some block => do
      let delta ← asDict delta
      if hasType (py "thinking_delta") delta then
        let text := fieldText delta (py "thinking")
        let block := extend block (py "thinking") text
        return (some text, { asm with blocks := assign asm.blocks index block })
      else if hasType (py "signature_delta") delta then
        let block := extend block (py "signature") (fieldText delta (py "signature"))
        return (none, { asm with blocks := assign asm.blocks index block })
      else if hasType (py "text_delta") delta then
        let block := extend block (py "text") (fieldText delta (py "text"))
        return (none, { asm with blocks := assign asm.blocks index block })
      else if hasType (py "input_json_delta") delta then
        let buf := (lookup asm.jsonBuf index).getD [] ++ fieldText delta (py "partial_json")
        return (none, { asm with jsonBuf := assign asm.jsonBuf index buf })
      else return (none, asm)

/-- The parsed input of a finished block. -/
def parsedInput (buf : PyStr) : Except PyExc Json :=
  if buf = [] then .ok (.obj [])
  else
    match Json.loads buf with
    | .ok v => .ok v
    | .error e => .error (jsonExc e)

/-- `_finalize`. -/
def finalize (asm : StreamAssembler) (index : Int) : Except PyExc StreamAssembler :=
  match lookup asm.blocks index with
  | none => .ok asm
  | some block =>
      if hasType toolUse block then do
        let input ← parsedInput ((lookup asm.jsonBuf index).getD [])
        return { asm with blocks := assign asm.blocks index (block.set (.str (py "input")) input) }
      else .ok asm

/-- `feed`. -/
def feed (asm : StreamAssembler) (event : Json) : Except PyExc (Option PyStr × StreamAssembler) := do
  let event ← asDict event
  if hasType (py "message_start") event then
    let message ← asDict ((event.get (py "message")).getD (.obj []))
    let usage ← entriesOf ((message.get (py "usage")).getD (.obj []))
    return (none, { asm with
      model := (message.get (py "model")).getD .null
      usage := asm.usage.update usage })
  else if hasType (py "content_block_start") event then
    let block ← item event (py "content_block")
    let entries ← entriesOf block
    let index ← item event (py "index")
    let index ← pyInt index
    return (none, { asm with blocks := assign asm.blocks index (Dict.update [] entries) })
  else if hasType (py "content_block_delta") event then
    let index ← item event (py "index")
    let index ← pyInt index
    let delta ← item event (py "delta")
    applyDelta asm index delta
  else if hasType (py "content_block_stop") event then
    let index ← item event (py "index")
    let index ← pyInt index
    let asm ← finalize asm index
    return (none, asm)
  else if hasType (py "message_delta") event then
    let delta ← asDict ((event.get (py "delta")).getD (.obj []))
    let usage ← entriesOf ((event.get (py "usage")).getD (.obj []))
    match (delta.get (py "stop_reason")).getD .null with
    | .null => return (none, { asm with usage := asm.usage.update usage })
    | stopReason =>
        return (none, { asm with
          stopReason := stopReason
          complete := true
          usage := asm.usage.update usage })
  else if hasType (py "message_stop") event then return (none, { asm with complete := true })
  else return (none, asm)

/-- The blocks in content-index order. -/
def sortedBlocks (asm : StreamAssembler) : List Dict :=
  (asm.blocks.insertionSort (fun a b => a.1 ≤ b.1)).map Prod.snd

/-- `assembled`. -/
def assembled (asm : StreamAssembler) : Json :=
  .obj [(.str (py "type"), .str (py "message")), (.str (py "role"), .str (py "assistant")),
    (.str (py "model"), asm.model), (.str (py "stop_reason"), asm.stopReason),
    (.str (py "content"), .arr (asm.sortedBlocks.map .obj)), (.str (py "usage"), .obj asm.usage)]

end StreamAssembler

/-! ## The transports -/

section Transports

variable [PyRuntime] [Pydantic]

/-- A brain call that ends with a result. -/
def finish (r : Except PyExc Decision) : BrainCall :=
  match r with
  | .ok decision => .ret decision
  | .error e => .raise (.raised e)

/-- `_extract_thinking_block`: the first thinking block of the content. -/
def firstThinking : List Json → Except PyExc PyBytes
  | [] => .ok []
  | v :: vs => do
      let block ← asDict v
      if hasType (py "thinking") block then dumpsBytes (.obj block) else firstThinking vs

/-- `json.loads(raw)` of bytes. -/
def loadsBytes (raw : PyBytes) : Except PyExc Json :=
  match jsonText raw with
  | none => .error .unicodeDecodeError
  | some s =>
      match Json.loads s with
      | .ok v => .ok v
      | .error e => .error (jsonExc e)

/-- `_extract_thinking_block`. -/
def extractThinkingBlock (raw : PyBytes) : Except PyExc PyBytes := do
  let v ← loadsBytes raw
  let response ← asDict v
  let content ← iterate ((response.get (py "content")).getD (.arr []))
  firstThinking content

/-- `parse_decision` of the assembled stream, and the thinking block of a tool call. -/
def parseStreamed (raw : PyBytes) : Except PyExc Decision :=
  match parseDecision raw with
  | .error e => .error e
  | .ok (.toolCall decision) =>
      match extractThinkingBlock raw with
      | .ok thinking => .ok (.toolCall { decision with thinking := thinking })
      | .error e => .error e
  | .ok decision => .ok decision

/-- One frame of the stream, closed by a blank line. -/
def feedFrame (asm : StreamAssembler) (dataBuf : List PyStr) :
    Except PyExc (Option PyStr × StreamAssembler) :=
  match Json.loads dataBuf.flatten with
  | .error e => .error (jsonExc e)
  | .ok event => asm.feed event

/-- The lines are at their end: a frame not closed by a blank line is fed, its text not relayed. -/
def assembleEnd (asm : StreamAssembler) (dataBuf : List PyStr) : Except PyExc PyBytes :=
  match dataBuf with
  | [] => dumpsBytes asm.assembled
  | _ => do
      let r ← feedFrame asm dataBuf
      dumpsBytes r.2.assembled

/-- The loop of `_drive_stream`, and what `brain` does after it; every line is awaited. -/
def driveStream (broken : Option PyExc) (asm : StreamAssembler) (dataBuf : List PyStr) :
    List PyStr → BrainCall
  | [] => .pause fun r =>
      match r, broken with
      | .error e, _ => .raise e
      | .ok _, some e => .raise (.raised e)
      | .ok _, none =>
          match assembleEnd asm dataBuf with
          | .error e => .raise (.raised e)
          | .ok raw => .pause fun r =>
              match r with
              | .error e => .raise e
              | .ok _ => finish (parseStreamed raw)
  | line :: lines => .pause fun r =>
      match r with
      | .error e => .raise e
      | .ok _ =>
          match afterPrefix (py "data:") line with
          | some rest => driveStream broken asm (dataBuf ++ [strip PyRuntime.isSpace rest]) lines
          | none =>
              if strip PyRuntime.isSpace line = [] then
                match dataBuf with
                | [] => driveStream broken asm [] lines
                | _ =>
                    match feedFrame asm dataBuf with
                    | .error e => .raise (.raised e)
                    | .ok (text, asm') =>
                        match text.getD [] with
                        | [] => driveStream broken asm' [] lines
                        | text => .relay text fun r =>
                            match r with
                            | .error e => .raise e
                            | .ok _ => driveStream broken asm' [] lines
              else driveStream broken asm dataBuf lines

/-- `response.is_success`. -/
def Response.isSuccess (response : Response) : Bool :=
  decide (200 ≤ response.status ∧ response.status < 300)

/-- `raise_for_status` and what follows it. -/
def raiseForStatus (response : Response) (k : BrainCall) : BrainCall :=
  if response.isSuccess then k
  else .raise (.raised (.httpStatusError response.status response.content))

/-- What the adapter does with a response. -/
def reply (stream : Bool) (response : Response) : BrainCall :=
  if stream then
    if response.status = 200 then driveStream response.broken .new [] response.lines
    else .pause fun r =>
      match r with
      | .error e => .raise e
      | .ok _ => raiseForStatus response (driveStream response.broken .new [] response.lines)
  else raiseForStatus response (finish (parseDecision response.content))

end Transports

/-! ## The messages -/

section Messages

variable [PyRuntime]

/-- An object with text keys. -/
def object (entries : List (String × Json)) : Json :=
  .obj (entries.map (fun e => (.str (py e.1), e.2)))

/-- `_seed_directive`. -/
def seedDirective (territory : PyStr) : PyStr :=
  py "Hunt " ++ territory ++ py " for AI-engineering job postings. Call sniff to investigate; " ++
    py "call hunt_complete with your catch when done, or needs_help if you are stuck."

/-- The assistant turn of a tool call. -/
def assistantTurn (event : ToolCallEvent) : Except PyExc Json := do
  let thinking ← if event.thinking = [] then pure [] else do
    let block ← loadsBytes event.thinking
    pure [block]
  let input ← loadsBytes event.rawRequest
  return object [("role", .str (py "assistant")), ("content", .arr (thinking ++
    [object [("type", .str toolUse), ("id", .str event.toolUseId), ("name", .str event.tool),
      ("input", input)]]))]

/-- A user turn with one `tool_result` block. -/
def resultTurn (toolUseId content : PyStr) (rest : List (String × Json)) : Json :=
  object [("role", .str (py "user")), ("content", .arr [object ([("type", .str (py "tool_result")),
    ("tool_use_id", .str toolUseId), ("content", .str content)] ++ rest)])]

/-- One event of `project_messages`: the messages so far, and the open `tool_use`. -/
def projectEvent (acc : List Json × PyStr) (event : TrajectoryEvent) :
    Except PyExc (List Json × PyStr) :=
  match event with
  | .toolCall e => do
      let turn ← assistantTurn e
      return (acc.1 ++ [turn], e.toolUseId)
  | .toolResult e =>
      match decode false e.rawResponse with
      | none => .error .unicodeDecodeError
      | some content => .ok (acc.1 ++ [resultTurn e.toolUseId content []], [])
  | .error e =>
      if e.retryable = true ∨ e.tool = py "<brain>" ∨ e.tool = py "<loop>" then .ok acc
      else .ok (acc.1 ++ [resultTurn acc.2 e.error [("is_error", .bool true)]], [])
  | _ => .ok acc

/-- `project_messages`. -/
def projectMessages (territory : PyStr) (context : Context) : Except PyExc (List Json) := do
  let acc ← context.foldlM projectEvent
    ([object [("role", .str (py "user")), ("content", .str (seedDirective territory))]], [])
  return acc.1

/-- The brain of `adapter_brain_for`, up to the request body, which only the provider reads. -/
def adapterBrain [Pydantic] (territory : PyStr) (stream : Bool) (context : Context) : BrainCall :=
  match projectMessages territory context with
  | .error e => .raise (.raised e)
  | .ok _ => .request fun r =>
      match r with
      | .error e => .raise e
      | .ok response => reply stream response

end Messages

/-! ## A pydantic to compute with -/

/-- The reader of `model_validate_json`: UTF-8 only, and `json.loads` up to the surrogates and the
    length of an int, whose sign it counts. -/
def readUtf8 [PyRuntime] (raw : PyBytes) : Except PyStr Json :=
  match decode false raw with
  | none => .error (py "Invalid JSON")
  | some s =>
      match Json.loads s with
      | .error _ => .error (py "Invalid JSON")
      | .ok v =>
          if v.surrogateFree && v.intsWithin PyRuntime.maxStrDigits then .ok v
          else .error (py "Invalid JSON")

/-- A pydantic that reads what `json.loads` reads and does not explain its errors. -/
@[reducible] def Pydantic.plain [PyRuntime] : Pydantic where
  readJson := readUtf8
  intChars := PyRuntime.maxStrDigits
  acceptsUsage := fun v => match v with
    | .obj _ => true
    | _ => false
  responseError := fun _ => py "validation error for _ProviderResponse"
  blockError := fun _ => py "validation error for _ToolUseBlock"
  catchError := fun _ => py "validation error for HuntComplete"
  surrogateFree_readJson := by
    intro raw v h
    unfold readUtf8 at h
    split at h
    · cases h
    split at h
    · cases h
    · split at h
      · next hfree =>
          cases h
          exact (Bool.and_eq_true_iff.1 hfree).1
      · cases h
  encodable_readJson := by
    intro raw detail h
    have hascii : encodable (py "Invalid JSON") = true := by decide
    unfold readUtf8 at h
    split at h
    · cases h
      exact hascii
    split at h
    · cases h
      exact hascii
    · split at h
      · cases h
      · cases h
        exact hascii
  encodable_responseError := fun _ => by decide
  encodable_blockError := fun _ => by decide
  encodable_catchError := fun _ => by decide

end RexHunter
