import RexHunter.Proofs.Contexts
import RexHunter.Proofs.Malformed
import RexHunter.Proofs.Thinking

set_option autoImplicit false

/-! # When the log can be projected

`project_messages` parses three fields of the log again. The arguments of a call and its thinking
block were written as JSON, so they can be read back on every log of a run. What a tool returned is
decoded as UTF-8, and `_to_bytes` passes raw bytes straight through: it is the only field on which
the projection can raise, and it raises on exactly the results that are not UTF-8. -/

namespace RexHunter

open Coro (Keeps Triple)

section Fold

variable [PyRuntime]

/-- The fields of a call that the projection parses are JSON. -/
def Parsable : TrajectoryEvent → Prop
  | .toolCall e => (e.thinking = [] ∨ Returns (loadsBytes e.thinking)) ∧
      Returns (loadsBytes e.rawRequest)
  | _ => True

omit [PyRuntime] in
/-- If the event is the result of a tool, it is UTF-8. -/
def Decodes (event : TrajectoryEvent) : Prop :=
  ∀ result, event = .toolResult result → ∃ text, decode false result.rawResponse = some text

theorem assistantTurn_returns {call : ToolCallEvent} (h : Parsable (.toolCall call)) :
    Returns (assistantTurn call) := by
  obtain ⟨hthinking, input, hinput⟩ := h
  unfold assistantTurn
  by_cases hnone : call.thinking = []
  · rw [if_pos hnone, hinput]
    exact returns_ok _
  · obtain ⟨block, hblock⟩ := hthinking.resolve_left hnone
    rw [if_neg hnone, hblock, hinput]
    exact returns_ok _

omit [PyRuntime] in
/-- Only a tool result has to decode. -/
theorem decodes_of_ne {event : TrajectoryEvent} (h : ∀ result, event ≠ .toolResult result) :
    Decodes event :=
  fun result hresult => absurd hresult (h result)

theorem projectEvent_returns_iff {event : TrajectoryEvent} (h : Parsable event)
    (acc : List Json × PyStr) : Returns (projectEvent acc event) ↔ Decodes event := by
  cases event with
  | toolCall call =>
      obtain ⟨turn, hturn⟩ := assistantTurn_returns h
      unfold projectEvent
      simp only [hturn]
      exact iff_of_true (returns_ok _) (decodes_of_ne (by simp))
  | toolResult result =>
      unfold projectEvent Decodes
      cases hdecode : decode false result.rawResponse with
      | none =>
          simp only [hdecode, not_returns_error, false_iff]
          intro h
          obtain ⟨text, htext⟩ := h result rfl
          rw [hdecode] at htext
          cases htext
      | some text =>
          simp only [hdecode]
          refine iff_of_true (returns_ok _) ?_
          rintro _ ⟨⟩
          exact ⟨text, hdecode⟩
  | error e =>
      unfold projectEvent
      refine iff_of_true ?_ (decodes_of_ne (by simp))
      by_cases hskip : e.retryable = true ∨ e.tool = py "<brain>" ∨ e.tool = py "<loop>"
      · simp only [if_pos hskip]
        exact returns_ok _
      · simp only [if_neg hskip]
        exact returns_ok _
  | sniff | preyCaptured | usage | thinkingDelta =>
      exact iff_of_true (returns_ok _) (decodes_of_ne (by simp))

/-- The fold, by induction on the log. -/
theorem foldlM_returns_iff {log : Context} (h : ∀ event ∈ log, Parsable event) :
    ∀ acc, Returns (log.foldlM projectEvent acc) ↔ ∀ event ∈ log, Decodes event := by
  induction log with
  | nil => exact fun acc => iff_of_true (returns_ok _) nofun
  | cons event log ih =>
      intro acc
      have hevent := projectEvent_returns_iff (h event List.mem_cons_self) acc
      have hlog := ih (fun e he => h e (List.mem_cons_of_mem _ he))
      rw [List.foldlM_cons, returns_bind, List.forall_mem_cons, ← hevent]
      constructor
      · rintro ⟨acc', hacc', hrest⟩
        exact ⟨⟨acc', hacc'⟩, (hlog acc').1 hrest⟩
      · rintro ⟨⟨acc', hacc'⟩, hrest⟩
        exact ⟨acc', hacc', (hlog acc').2 hrest⟩

theorem projectMessages_returns_iff {territory : PyStr} {log : Context}
    (h : ∀ event ∈ log, Parsable event) :
    Returns (projectMessages territory log) ↔ ∀ event ∈ log, Decodes event := by
  unfold projectMessages
  rw [returns_bind]
  exact Iff.trans ⟨fun ⟨acc, hacc, _⟩ => ⟨acc, hacc⟩, fun ⟨acc, hacc⟩ => ⟨acc, hacc, returns_ok _⟩⟩
    (foldlM_returns_iff h _)

end Fold

/-! ## The log of a run -/

section Run

variable [PyRuntime] {hunt : Hunt} {runId : PyStr}

/-- If the event is the result of a tool, a tool of the registry has yielded it. -/
def Yielded (hunt : Hunt) (event : TrajectoryEvent) : Prop :=
  ∀ result, event = .toolResult result → ∃ tool ∈ hunt.registry, tool.Yields result.rawResponse

/-- What an event of a hunt is like. -/
def Stored (hunt : Hunt) (event : TrajectoryEvent) : Prop := Parsable event ∧ Yielded hunt event

/-- The thinking of a decision can be read. -/
def Decision.Parsable : Decision → Prop
  | .toolCall d => d.thinking = [] ∨ Returns (loadsBytes d.thinking)
  | _ => True

theorem TrajectoryEvent.Interlude.stored {event : TrajectoryEvent} (h : event.Interlude) :
    Stored hunt event := by
  cases event with
  | sniff | toolCall | toolResult => exact h.elim
  | error | preyCaptured | usage | thinkingDelta => exact ⟨trivial, nofun⟩

omit [PyRuntime] in
theorem mem_of_get {registry : ToolRegistry} {name : PyStr} {tool : RegisteredTool}
    (h : registry.get name = some tool) : tool ∈ registry :=
  List.mem_of_find?_eq_some h

/-- What a tool call appends is stored like this, if the dumped arguments of a tool are JSON. -/
theorem Dispatch.stored {decision : ToolCallDecision} {event : TrajectoryEvent}
    (hdump : ∀ tool ∈ hunt.registry, ∀ args kwargs raw, tool.validate args = .ok kwargs →
      tool.dumpJson kwargs = .ok raw → Returns (loadsBytes raw))
    (hdecision : (Decision.toolCall decision).Parsable) (h : Dispatch hunt decision event) :
    Stored hunt event := by
  cases h with
  | called htool hvalid hraw =>
      exact ⟨⟨hdecision, hdump _ (mem_of_get htool) _ _ _ hvalid hraw⟩, nofun⟩
  | returned htool hraw =>
      refine ⟨trivial, ?_⟩
      rintro _ ⟨⟩
      exact ⟨_, mem_of_get htool, hraw⟩
  | failed => exact ⟨trivial, nofun⟩

/-- The log of every brain call is stored like this. -/
theorem runHunt_stored
    (hdump : ∀ tool ∈ hunt.registry, ∀ args kwargs raw, tool.validate args = .ok kwargs →
      tool.dumpJson kwargs = .ok raw → Returns (loadsBytes raw))
    (hbrain : ∀ n context, (hunt.brain n context).Gives (fun _ => True) Decision.Parsable)
    (env : Env) (db : Db) :
    CallsOn (fun log => ∀ event ∈ log, Stored hunt event)
      ((runHunt hunt).exec (env.session db)).2.trace := by
  have hsnoc : ∀ (log : Context) event, (∀ e ∈ log, Stored hunt e) → Stored hunt event →
      ∀ e ∈ log ++ [event], Stored hunt e := by
    intro log event hlog hevent e he
    rcases List.mem_append.1 he with he | he
    · exact hlog e he
    · rw [List.mem_singleton.1 he]
      exact hevent
  refine runHunt_contexts (fun log event hlog hevent => hsnoc log event hlog hevent.stored)
    (fun _ he => nomatch he) (fun _ _ _ => trivial) hbrain (fun runId decision hdecision => ?_)
    env db
  have htool : Keeps (OnLog (fun log => ∀ event ∈ log, Stored hunt event) runId)
      (runTool hunt runId decision) :=
    runTool_gives (log_closed hsnoc) (appendsOnly_controls _)
      (fun _ now hevent => appendsOnly_append (hevent.stored hdump hdecision) now)
  exact htool.triple.conseq (fun _ hw => hw) (fun _ _ hw _ => hw) (fun _ _ _ => trivial)

/-- What a tool yields is UTF-8, unless it has returned the bytes itself. -/
theorem RegisteredTool.Yields.decodes {tool : RegisteredTool} {raw : PyBytes} (h : tool.Yields raw)
    (hmodel : ∀ n kwargs dumped, tool.fn n kwargs = .ok (.model (.ok dumped)) →
      ∃ text, decode false dumped = some text)
    (hbytes : ∀ n kwargs b, tool.fn n kwargs = .ok (.bytes b) → ∃ text, decode false b = some text) :
    ∃ text, decode false raw = some text := by
  obtain ⟨n, kwargs, result, hresult, hraw⟩ := h
  cases result with
  | model dumped =>
      unfold toBytes at hraw
      cases hraw
      exact hmodel n kwargs raw hresult
  | bytes b =>
      cases hraw
      exact hbytes n kwargs raw hresult
  | value v =>
      obtain ⟨-, rfl⟩ := dumpsBytes_ok hraw
      exact ⟨_, decode_of_isAscii false (isAscii_write v)⟩
  | unserialisable => cases hraw

end Run

/-! ## The theorem -/

/-- **The log can be projected exactly if every result in it is UTF-8**, at every brain call of
    every run of `run_hunt` with the adapter; and it always can if the tools that return raw bytes
    return UTF-8. -/
theorem projection_returns_iff [PyRuntime] [Pydantic] {hunt : Hunt} {stream : Bool}
    (hbrain : ∀ n context, hunt.brain n context = adapterBrain hunt.territory stream context)
    (hdump : ∀ tool ∈ hunt.registry, ∀ args kwargs raw, tool.validate args = .ok kwargs →
      tool.dumpJson kwargs = .ok raw → ∃ v, loadsBytes raw = .ok v)
    (hmodel : ∀ tool ∈ hunt.registry, ∀ n kwargs dumped,
      tool.fn n kwargs = .ok (.model (.ok dumped)) → ∃ text, decode false dumped = some text)
    (env : Env) (db : Db) :
    ∀ st ∈ ((runHunt hunt).exec (env.session db)).2.trace,
      ∀ context, st.op = .other (.call context) →
        ((∃ messages, projectMessages hunt.territory context = .ok messages) ↔
          ∀ result, .toolResult result ∈ context →
            ∃ text, decode false result.rawResponse = some text) ∧
        ((∀ tool ∈ hunt.registry, ∀ n kwargs b, tool.fn n kwargs = .ok (.bytes b) →
            ∃ text, decode false b = some text) →
          ∃ messages, projectMessages hunt.territory context = .ok messages) := by
  intro st hst context hcall
  have hgives : ∀ n context, (hunt.brain n context).Gives (fun _ => True) Decision.Parsable := by
    intro n context
    rw [hbrain]
    refine (adapterBrain_gives (fun _ => True) hunt.territory stream context).mono ?_
    rintro d ⟨response, -, hverdict⟩
    cases d with
    | toolCall d =>
        rcases verdict_block hverdict with hnone | ⟨block, -, -, hloads⟩
        · exact Or.inl hnone
        · exact Or.inr ⟨_, hloads⟩
    | huntComplete | needsHelp => trivial
  have hstored := runHunt_stored hdump hgives env db st hst context hcall
  have hiff : Returns (projectMessages hunt.territory context) ↔ ∀ event ∈ context, Decodes event :=
    projectMessages_returns_iff (fun event hevent => (hstored event hevent).1)
  have hresults : (∀ event ∈ context, Decodes event) ↔
      ∀ result, .toolResult result ∈ context →
        ∃ text, decode false result.rawResponse = some text := by
    constructor
    · exact fun h result hresult => h _ hresult result rfl
    · rintro h _ hevent result rfl
      exact h result hevent
  refine ⟨hiff.trans hresults, fun hbytes => (hiff.trans hresults).2 (fun result hresult => ?_)⟩
  obtain ⟨tool, htool, hyields⟩ := (hstored _ hresult).2 result rfl
  exact hyields.decodes (hmodel tool htool) (hbytes tool htool)

/-- A `tool_use` block for the tool of the hunts below. -/
def fetchCall : Response :=
  .ofBody ("\x7b\"content\":[\x7b\"type\":\"tool_use\",\"id\":\"t1\"," ++
    "\"name\":\"fetch\",\"input\":\x7b\x7d\x7d]\x7d")

/-- A hunt that calls a tool twice; the tool returns these bytes. -/
def fetchHunt [PyRuntime] [Pydantic] (b : PyBytes) : Hunt :=
  { adapterHunt false fetchCall with
    registry := [⟨py "fetch", .ok, fun _ => .ok ((py "\x7b\x7d").map (fun c => UInt8.ofNat c.val)),
      fun _ _ => .ok (.bytes b)⟩]
    maxIterations := 2 }

/-- Its run. -/
def fetchRun (b : PyBytes) : Sess :=
  ((@runHunt .ascii (@fetchHunt .ascii (@Pydantic.plain .ascii) b)).exec
    ((Env.calm [py "r"]).session Db.empty)).2

/-- The last log can be projected. -/
def lastProjects (territory : PyStr) (trace : List (Step Frame Op)) : Bool :=
  match (contexts trace).getLast? with
  | some context => (@projectMessages .ascii territory context).toBool
  | none => true

/-- A tool that returns the byte `0xff`: the log of the second brain call cannot be projected. -/
theorem bytes_stop_projection : ∃ st ∈ (fetchRun [0xff]).trace, ∃ context,
    st.op = .other (.call context) ∧ ∀ messages, @projectMessages .ascii
      (@fetchHunt .ascii (@Pydantic.plain .ascii) [0xff]).territory context ≠ .ok messages := by
  have hlast : lastProjects (@fetchHunt .ascii (@Pydantic.plain .ascii) [0xff]).territory
      (fetchRun [0xff]).trace = false := by decide +kernel
  unfold lastProjects at hlast
  split at hlast
  · next context hcontext =>
      obtain ⟨st, hst, hop⟩ := op_of_mem_contexts (List.mem_of_getLast? hcontext)
      refine ⟨st, hst, context, hop, fun messages hmessages => ?_⟩
      rw [hmessages] at hlast
      cases hlast
  · cases hlast

/-- A tool that returns the byte `0x6f`: both logs can be projected. -/
theorem fetch_projects : (contexts (fetchRun [0x6f]).trace).length = 2 ∧
    ∀ st ∈ (fetchRun [0x6f]).trace, ∀ context, st.op = .other (.call context) →
      ∃ messages, @projectMessages .ascii
        (@fetchHunt .ascii (@Pydantic.plain .ascii) [0x6f]).territory context = .ok messages := by
  refine ⟨by decide +kernel, ?_⟩
  intro st hst context hop
  unfold fetchRun at hst
  refine (@projection_returns_iff .ascii (@Pydantic.plain .ascii)
    (@fetchHunt .ascii (@Pydantic.plain .ascii) [0x6f]) false (fun _ _ => rfl) ?_ ?_
    (Env.calm [py "r"]) Db.empty st hst context hop).2 ?_
  · rintro tool htool args kwargs raw - hraw
    rw [List.mem_singleton.1 htool] at hraw
    cases hraw
    exact ⟨.obj [], by rfl⟩
  · intro tool htool n kwargs dumped hdumped
    rw [List.mem_singleton.1 htool] at hdumped
    cases hdumped
  · intro tool htool n kwargs b hb
    rw [List.mem_singleton.1 htool] at hb
    cases hb
    exact ⟨py "o", by decide +kernel⟩

end RexHunter
