import RexHunter.Lib.Json
import RexHunter.Implementation.Cost
import RexHunter.Implementation.Verdicts

set_option autoImplicit false

/-! # The agent loop (`loop.py`)

`run_hunt` and the functions it drives, await by await. The brain and the tools are injected: a
brain call is the tree of what it may do next (`BrainCall`), so any code that awaits and hands text
to the sink is covered, and a tool is a function of how often tools have been run before. A step of
`run_hunt` outside every `try`, in the `try`, in the `except Exception` handlers, in the shielded
clean-up and in the closing write is marked with its `Frame`. -/

namespace RexHunter

/-! ## Error taxonomy -/

/-- `classify`: whether a failure is worth another attempt. -/
def classify : PyExc → Bool
  | .timeoutError => true
  | .retryableToolError _ => true
  | .transportError _ => true
  | .httpStatusError code _ => decide (code = 429 ∨ (500 ≤ code ∧ code < 600))
  | _ => false

/-! ## Brains -/

/-- The log of the run, as the brain reads it. -/
abbrev Context : Type := List TrajectoryEvent

/-- What comes back from the provider: the status, the body as a whole, the body as
    `aiter_lines` yields it, and the transport error that ends the lines early, if one does. -/
structure Response where
  status : Nat
  content : PyBytes
  lines : List PyStr
  broken : Option PyExc
deriving DecidableEq, Repr

/-- What a brain call does next: return, raise, ask the provider, await something of its own, or
    hand a thinking delta to the sink. The continuations see how the await ended, so a brain may
    also catch. -/
inductive BrainCall where
  | ret (decision : Decision)
  | raise (e : Exn PyExc)
  | request (k : Except (Exn PyExc) Response → BrainCall)
  | pause (k : Except (Exn PyExc) PUnit → BrainCall)
  | relay (text : PyStr) (k : Except (Exn PyExc) PUnit → BrainCall)

/-! ## Tools -/

/-- What a tool returns, by the cases of `_to_bytes`. -/
inductive ToolResult where
  | model (dumped : Except PyExc PyBytes)
  | bytes (b : PyBytes)
  | value (v : Json)
  | unserialisable

/-- A tool behind its args-model. `validate` gives the keyword arguments; `dumpJson` is
    `model_dump_json().encode()` of the validated model; `fn` is one attempt under the deadline,
    where the number tells attempts of one run apart. -/
structure RegisteredTool where
  name : PyStr
  validate : Dict → Except PyExc Dict
  dumpJson : Dict → Except PyExc PyBytes
  fn : Nat → Dict → Except PyExc ToolResult

/-- The registered tools, in registration order. -/
abbrev ToolRegistry : Type := List RegisteredTool

/-- `ToolRegistry.get`; `none` is the `KeyError`. -/
def ToolRegistry.get (registry : ToolRegistry) (name : PyStr) : Option RegisteredTool :=
  registry.find? (fun tool => tool.name = name)

/-- The texts of exceptions, which the loop only stores. -/
structure Texts where
  reprStr : PyStr → PyStr
  reprExc : PyExc → PyStr
  formatExc : PyExc → PyStr

/-- What `run_hunt` is called with. `brain n context` is the `n`-th call of the brain, `server n` the
    answer to the `n`-th request of the run; `publish` and `notify` say whether the hooks are
    there. -/
structure Hunt where
  territory : PyStr
  brain : Nat → Context → BrainCall
  server : Nat → Except PyExc Response
  registry : ToolRegistry
  retryBudget : Int
  maxIterations : Int
  costCeilingUsd : ℚ
  publish : Bool
  notify : Bool
  texts : Texts

/-- `range(retry_budget + 1)`. -/
def Hunt.attempts (h : Hunt) : Nat := (h.retryBudget + 1).toNat

/-! ## Steps that can raise -/

/-- The exception a JSON function raises. -/
def jsonExc : JsonError → PyExc
  | .decodeError => .jsonDecodeError
  | .recursionError => .recursionError
  | .valueError => .valueError (py "Exceeds the limit for integer string conversion")

/-- `json.dumps(value).encode()`. -/
def dumpsBytes [PyRuntime] (v : Json) : Except PyExc PyBytes :=
  match v.dumps with
  | .error e => .error (jsonExc e)
  | .ok s =>
      match encode s with
      | some raw => .ok raw
      | none => .error .unicodeEncodeError

/-- `_to_bytes`. -/
def toBytes [PyRuntime] : ToolResult → Except PyExc PyBytes
  | .model dumped => dumped
  | .bytes b => .ok b
  | .value v => dumpsBytes v
  | .unserialisable => .error .typeError

/-- A step without an await, which may raise. -/
def attempt {α : Type} (r : Except PyExc α) : Prog α := Session.attempt (.other .encode) r

/-- `execute_once`. -/
def executeOnce [PyRuntime] (tool : RegisteredTool) (kwargs : Dict) : Prog PyBytes := do
  let n ← Session.useVars fun v => (v.toolCalls, { v with toolCalls := v.toolCalls + 1 })
  let result ← Session.await (.other .tool) (Session.elsewhere (tool.fn n kwargs))
  attempt (toBytes result)

/-! ## The loop -/

section Loop

variable [PyRuntime] (h : Hunt)

/-- `append_event` of the hunt. -/
def append (runId : PyStr) (event : TrajectoryEvent) : Prog PUnit := do
  let _ ← appendEvent runId event h.publish

/-- The attempt loop of `_run_tool`; the number is the attempts left. -/
def attemptTool (runId : PyStr) (decision : ToolCallDecision) (tool : RegisteredTool)
    (kwargs : Dict) (rawRequest : PyBytes) : Nat → Prog Bool
  | 0 => return false
  | remaining + 1 => do
      match ← Coro.observe (executeOnce tool kwargs) with
      | .ok rawResponse => do
          append h runId (.toolResult ⟨decision.tool, rawRequest, rawResponse, decision.toolUseId⟩)
          return true
      | .error .cancelled => throw .cancelled
      | .error (.raised exc) => do
          append h runId (.error ⟨decision.tool, classify exc, h.texts.reprExc exc, rawRequest,
            none, some (h.texts.formatExc exc)⟩)
          if classify exc ∧ remaining ≠ 0 then
            attemptTool runId decision tool kwargs rawRequest remaining
          else return false

/-- A call that is refused before it runs. -/
def refuseTool (runId : PyStr) (decision : ToolCallDecision) (error detail : PyStr) :
    Prog Bool := do
  let rawRequest ← attempt (dumpsBytes (.obj decision.args))
  append h runId (.error ⟨decision.tool, false, error, rawRequest, none, some detail⟩)
  return false

/-- `_run_tool`; whether the hunt goes on. -/
def runTool (runId : PyStr) (decision : ToolCallDecision) : Prog Bool :=
  match h.registry.get decision.tool with
  | none =>
      refuseTool h runId decision (py "unknown tool: " ++ h.texts.reprStr decision.tool)
        (h.texts.reprExc (.keyError (py "unknown tool: " ++ h.texts.reprStr decision.tool)))
  | some tool => do
      match tool.validate decision.args with
      | .error (.validationError detail) =>
          refuseTool h runId decision (py "invalid tool args") detail
      | .error exc => Coro.raise exc
      | .ok kwargs => do
          let rawRequest ← attempt (tool.dumpJson kwargs)
          append h runId
            (.toolCall ⟨decision.tool, rawRequest, decision.toolUseId, decision.thinking⟩)
          attemptTool h runId decision tool kwargs rawRequest h.attempts

/-- The sink of `_call_brain`. -/
def sink (runId text : PyStr) : Prog PUnit := append h runId (.thinkingDelta ⟨text⟩)

/-- How many requests a run has made. -/
def requestCount (trace : List (Step Frame Op)) : Nat :=
  trace.countP (fun st => decide (st.op = .other .request))

/-- Ask the provider. -/
def ask : Prog Response := do
  let n ← Coro.ofExec fun w => (.ok (requestCount w.trace), w)
  Session.await (.other .request) (Session.elsewhere (h.server n))

/-- Run a brain call. -/
def runBrain (runId : PyStr) : BrainCall → Prog Decision
  | .ret decision => return decision
  | .raise e => throw e
  | .request k => do
      let r ← Coro.observe (ask h)
      runBrain runId (k r)
  | .pause k => do
      let r ← Coro.observe (Session.await (.other .brain) (Session.elsewhere (.ok ⟨⟩)))
      runBrain runId (k r)
  | .relay text k => do
      let r ← Coro.observe (sink h runId text)
      runBrain runId (k r)

/-- The failures `_call_brain` owns, with `exc.response.content` where there is a response. -/
def httpFailure : PyExc → Option (Option PyBytes)
  | .httpStatusError _ content => some (some content)
  | .transportError _ => some none
  | _ => none

/-- The brain is called on a context; the number tells the calls of a run apart. -/
def callNumber (context : Context) : Prog Nat := do
  Session.attempt (.other (.call context)) (.ok ⟨⟩)
  Session.useVars fun v => (v.brainCalls, { v with brainCalls := v.brainCalls + 1 })

/-- The call has returned a decision. -/
def decided (decision : Decision) : Prog PUnit :=
  Session.useVars fun v => (⟨⟩, { v with decisions := v.decisions ++ [decision] })

/-- The attempt loop of `_call_brain`. -/
def attemptBrain (runId : PyStr) (context : Context) : Nat → Prog (Option Decision)
  | 0 => return none
  | remaining + 1 => do
      let n ← callNumber context
      match ← Coro.observe (runBrain h runId (h.brain n context)) with
      | .ok decision => do
          decided decision
          return some decision
      | .error .cancelled => throw .cancelled
      | .error (.raised exc) =>
          match httpFailure exc with
          | none => Coro.raise exc
          | some rawResponse => do
              append h runId (.error ⟨py "<brain>", classify exc, h.texts.reprExc exc, [],
                rawResponse, some (h.texts.formatExc exc)⟩)
              if classify exc ∧ remaining ≠ 0 then attemptBrain runId context remaining
              else return none

/-- `_call_brain`; `none` is an exhausted or fatal HTTP failure. -/
def callBrain (runId : PyStr) (context : Context) : Prog (Option Decision) :=
  attemptBrain h runId context h.attempts

/-- The usage a decision carries is appended before the loop acts on it. -/
def appendUsage (runId : PyStr) : Option UsageEvent → Prog PUnit
  | none => return ⟨⟩
  | some usage => append h runId (.usage usage)

/-- The iterations of `_drive`. -/
def driveFor (runId : PyStr) : Nat → Prog (RunOutcome × Option PyStr)
  | 0 => return (.aborted, some (py "max iterations"))
  | remaining + 1 => do
      let context ← readEvents runId
      if h.costCeilingUsd ≤ foldCost context then return (.aborted, some (py "cost ceiling"))
      else
        match ← callBrain h runId context with
        | none => return (.aborted, some (py "brain call failed"))
        | some decision => do
            appendUsage h runId decision.usage
            match decision with
            | .toolCall decision => do
                if ← runTool h runId decision then driveFor runId remaining
                else return (.aborted, some (py "tool failure"))
            | .huntComplete catches _ => do
                catches.forM fun posting => do
                  let _ ← capturePrey runId h.territory posting h.publish
                return (.completed, none)
            | .needsHelp _ => return (.needsHelp, none)

/-- `_drive`. -/
def drive (runId : PyStr) : Prog (RunOutcome × Option PyStr) :=
  driveFor h runId h.maxIterations.toNat

/-- The outcome is known. -/
def reach (outcome : RunOutcome) (abortReason : Option PyStr) :
    Prog (RunOutcome × Option PyStr) :=
  Session.useVars fun v =>
    ((outcome, abortReason), { v with reached := some (outcome, abortReason) })

/-- The event and the abort reason of the two handlers. -/
def handled : PyExc → ErrorEvent × PyStr
  | .brainParseError raw detail =>
      (⟨py "<brain>", false, py "malformed provider response", [], some raw, some detail⟩,
        py "malformed provider response")
  | exc =>
      (⟨py "<loop>", false, h.texts.reprExc exc, [], none, some (h.texts.formatExc exc)⟩,
        py "unhandled exception in loop")

/-- The handlers of `run_hunt`. The clean-up is waited for until it is done, however often the wait
    is cancelled. -/
def settle (runId : PyStr) :
    Except (Exn PyExc) (RunOutcome × Option PyStr) → Prog (RunOutcome × Option PyStr)
  | .ok (outcome, abortReason) => reach outcome abortReason
  | .error .cancelled => do
      let _ ← reach .aborted (some (py "daemon shutdown"))
      Session.inFrame .cleaning
        (Session.shield (finishRun runId .aborted (some (py "daemon shutdown"))))
      throw .cancelled
  | .error (.raised exc) => do
      Session.inFrame .handling (append h runId (.error (handled h exc).1))
      reach .aborted (some (handled h exc).2)

/-- The run-finished pulse. -/
def pulse (runId : PyStr) (outcome : RunOutcome) : Prog PUnit :=
  Session.useVars fun v =>
    (⟨⟩, if h.notify then { v with notified := v.notified ++ [(runId, outcome)] } else v)

/-- `run_hunt`. -/
def runHunt : Prog PyStr := do
  let runId ← Session.inFrame .starting
    (startRun h.territory (some h.costCeilingUsd) (some h.maxIterations))
  let result ← Coro.observe (Session.inFrame .driving (drive h runId))
  let (outcome, abortReason) ← settle h runId result
  Session.inFrame .closing (finishRun runId outcome abortReason)
  pulse h runId outcome
  return runId

end Loop

end RexHunter
