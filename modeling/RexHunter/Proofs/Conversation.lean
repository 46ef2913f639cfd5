import RexHunter.Proofs.Contexts
import RexHunter.Proofs.Malformed
import RexHunter.Proofs.Thinking

set_option autoImplicit false

/-! # The reconstructed conversation

The provider keeps no chat: each brain call sends the log again, folded into messages, and a single
`tool_use` without its `tool_result` makes the provider refuse. The fold does not check the log. What
makes it right is the shape the loop gives the log (`Trail`): a dispatched call is closed by its own
result before the next brain call, and whatever else is appended is nothing the fold looks at. -/

namespace RexHunter

open Session (Closed)
open Coro (Keeps Triple)

/-! ## Well-formed conversations -/

/-- The block is a `dict` of this type. -/
def IsBlock (type : PyStr) : Json → Prop
  | .obj block => hasType type block = true
  | _ => False

/-- An assistant turn with exactly one `tool_use` block, in last position. -/
def CallsTool (turn : Json) (toolUseId : PyStr) : Prop :=
  ∃ (d : Dict) (before : List Json) (block : Dict), turn = .obj d ∧
    d.get (py "role") = some (.str (py "assistant")) ∧
    d.get (py "content") = some (.arr (before ++ [.obj block])) ∧
    (∀ v ∈ before, ¬ IsBlock toolUse v) ∧ hasType toolUse block = true ∧
    block.get (py "id") = some (.str toolUseId)

/-- A user turn with exactly one block, the `tool_result` of this id. -/
def AnswersTool (turn : Json) (toolUseId : PyStr) : Prop :=
  ∃ (d : Dict) (block : Dict), turn = .obj d ∧ d.get (py "role") = some (.str (py "user")) ∧
    d.get (py "content") = some (.arr [.obj block]) ∧
    hasType (py "tool_result") block = true ∧
    block.get (py "tool_use_id") = some (.str toolUseId)

/-- Assistant turns and user turns that alternate, each call answered by the turn after it. -/
inductive Exchanges : List Json → Prop where
  | nil : Exchanges []
  | cons {call answer : Json} {rest : List Json} (toolUseId : PyStr) (hcall : CallsTool call toolUseId)
      (hanswer : AnswersTool answer toolUseId) (hrest : Exchanges rest) :
      Exchanges (call :: answer :: rest)

/-- The seed user turn. -/
def seedTurn (territory : PyStr) : Json :=
  object [("role", .str (py "user")), ("content", .str (seedDirective territory))]

/-- The seed turn, and exchanges up to a final user turn. -/
def Conversation (territory : PyStr) (messages : List Json) : Prop :=
  ∃ rest, messages = seedTurn territory :: rest ∧ Exchanges rest

theorem Exchanges.snoc {l : List Json} (h : Exchanges l) {call answer : Json} {toolUseId : PyStr}
    (hcall : CallsTool call toolUseId) (hanswer : AnswersTool answer toolUseId) :
    Exchanges (l ++ [call, answer]) := by
  induction h with
  | nil => exact .cons toolUseId hcall hanswer .nil
  | cons id hcall' hanswer' _ ih => exact .cons id hcall' hanswer' ih

theorem Conversation.snoc {territory : PyStr} {before : List Json} {turn answer : Json}
    {toolUseId : PyStr} (h : Conversation territory before) (hcall : CallsTool turn toolUseId)
    (hanswer : AnswersTool answer toolUseId) :
    Conversation territory (before ++ [turn] ++ [answer]) := by
  obtain ⟨rest, rfl, hrest⟩ := h
  refine ⟨rest ++ [turn, answer], ?_, hrest.snoc hcall hanswer⟩
  rw [List.append_assoc]
  rfl

/-- A turn that ends with its `tool_use` block. -/
theorem callsTool_object {before : List Json} (hbefore : ∀ v ∈ before, ¬ IsBlock toolUse v)
    (toolUseId name : PyStr) (input : Json) :
    CallsTool (object [("role", .str (py "assistant")), ("content", .arr (before ++
      [object [("type", .str toolUse), ("id", .str toolUseId), ("name", .str name),
        ("input", input)]]))]) toolUseId :=
  let block : Dict := [(.str (py "type"), .str toolUse), (.str (py "id"), .str toolUseId),
    (.str (py "name"), .str name), (.str (py "input"), input)]
  ⟨[(.str (py "role"), .str (py "assistant")), (.str (py "content"), .arr (before ++ [.obj block]))],
    before, block, rfl, rfl, rfl, hbefore, rfl, rfl⟩

theorem resultTurn_answersTool (toolUseId content : PyStr) (rest : List (String × Json)) :
    AnswersTool (resultTurn toolUseId content rest) toolUseId :=
  let block : Dict := (.str (py "type"), .str (py "tool_result")) ::
    (.str (py "tool_use_id"), .str toolUseId) :: (.str (py "content"), .str content) ::
    rest.map (fun e => (.str (py e.1), e.2))
  ⟨[(.str (py "role"), .str (py "user")), (.str (py "content"), .arr [.obj block])], block,
    rfl, rfl, rfl, rfl, rfl⟩

/-! ## The shape of the log -/

/-- The thinking block of a call, if it has one, is no `tool_use` block. -/
def Mute [PyRuntime] (thinking : PyBytes) : Prop :=
  thinking = [] ∨ ∀ v, loadsBytes thinking = .ok v → ¬ IsBlock toolUse v

/-- The event is no turn of the conversation. -/
def Silent : TrajectoryEvent → Prop
  | .toolCall _ => False
  | .toolResult _ => False
  | .error e => e.retryable = true ∨ e.tool = py "<brain>" ∨ e.tool = py "<loop>"
  | _ => True

/-- A log whose calls are answered, but for the one that is open, if any. -/
inductive Trail [PyRuntime] : Option ToolCallEvent → List TrajectoryEvent → Prop where
  | empty : Trail none []
  | silent {call : Option ToolCallEvent} {log : List TrajectoryEvent} {event : TrajectoryEvent}
      (h : Trail call log) (hevent : Silent event) : Trail call (log ++ [event])
  | called {log : List TrajectoryEvent} {call : ToolCallEvent} (h : Trail none log)
      (hmute : Mute call.thinking) : Trail (some call) (log ++ [.toolCall call])
  | answered {log : List TrajectoryEvent} {call : ToolCallEvent} {result : ToolResultEvent}
      (h : Trail (some call) log) (hid : result.toolUseId = call.toolUseId) :
      Trail none (log ++ [.toolResult result])

section Projection

variable [PyRuntime]

theorem projectEvent_silent {event : TrajectoryEvent} (h : Silent event) (acc : List Json × PyStr) :
    projectEvent acc event = .ok acc := by
  cases event with
  | toolCall | toolResult => exact h.elim
  | error e =>
      unfold projectEvent
      exact if_pos h
  | sniff | preyCaptured | usage | thinkingDelta => rfl

/-- The turn of a call whose thinking is mute. -/
theorem assistantTurn_callsTool {call : ToolCallEvent} {turn : Json} (hmute : Mute call.thinking)
    (h : assistantTurn call = .ok turn) : CallsTool turn call.toolUseId := by
  unfold assistantTurn at h
  by_cases hthinking : call.thinking = []
  · rw [if_pos hthinking] at h
    cases hinput : loadsBytes call.rawRequest with
    | error e =>
        rw [hinput] at h
        cases h
    | ok input =>
        rw [hinput] at h
        cases h
        have hnone : ∀ v ∈ ([] : List Json), ¬ IsBlock toolUse v := nofun
        exact callsTool_object hnone _ _ _
  · have hblock := hmute.resolve_left hthinking
    rw [if_neg hthinking] at h
    cases hloads : loadsBytes call.thinking with
    | error e =>
        rw [hloads] at h
        cases h
    | ok block =>
        rw [hloads] at h
        cases hinput : loadsBytes call.rawRequest with
        | error e =>
            rw [hinput] at h
            cases h
        | ok input =>
            rw [hinput] at h
            cases h
            have hthought : ∀ v ∈ [block], ¬ IsBlock toolUse v := by
              intro v hv
              rw [List.mem_singleton.1 hv]
              exact hblock block hloads
            exact callsTool_object hthought _ _ _

/-- What the fold has made of a log: exchanges, and the turn of the open call. -/
def Folded (territory : PyStr) (call : Option ToolCallEvent) (messages : List Json) : Prop :=
  match call with
  | none => Conversation territory messages
  | some call => ∃ before turn, messages = before ++ [turn] ∧ Conversation territory before ∧
      CallsTool turn call.toolUseId

/-- The last event of a log is folded last. -/
theorem foldlM_snoc_ok {log : List TrajectoryEvent} {event : TrajectoryEvent}
    {init acc : List Json × PyStr}
    (h : (log ++ [event]).foldlM projectEvent init = .ok acc) :
    ∃ acc', log.foldlM projectEvent init = .ok acc' ∧ projectEvent acc' event = .ok acc := by
  rw [List.foldlM_append] at h
  cases hlog : log.foldlM projectEvent init with
  | error e =>
      rw [hlog] at h
      cases h
  | ok acc' =>
      rw [hlog] at h
      change List.foldlM projectEvent acc' [event] = .ok acc at h
      rw [List.foldlM_cons] at h
      cases hevent : projectEvent acc' event with
      | error e =>
          rw [hevent] at h
          cases h
      | ok acc'' =>
          rw [hevent] at h
          cases h
          exact ⟨acc', rfl, hevent⟩

/-- **The fold over a log of this shape**, by induction on how the log came about. -/
theorem Trail.folded {territory : PyStr} {call : Option ToolCallEvent} {log : List TrajectoryEvent}
    (h : Trail call log) : ∀ {acc : List Json × PyStr},
    log.foldlM projectEvent ([seedTurn territory], []) = .ok acc → Folded territory call acc.1 := by
  induction h with
  | empty =>
      rintro acc ⟨⟩
      exact ⟨[], rfl, .nil⟩
  | silent _ hevent ih =>
      intro acc hacc
      obtain ⟨acc', hlog, hlast⟩ := foldlM_snoc_ok hacc
      rw [projectEvent_silent hevent] at hlast
      cases hlast
      exact ih hlog
  | @called log call _ hmute ih =>
      intro acc hacc
      obtain ⟨acc', hlog, hlast⟩ := foldlM_snoc_ok hacc
      unfold projectEvent at hlast
      cases hturn : assistantTurn call with
      | error e =>
          simp only [hturn] at hlast
          cases hlast
      | ok turn =>
          simp only [hturn] at hlast
          cases hlast
          exact ⟨acc'.1, turn, rfl, ih hlog, assistantTurn_callsTool hmute hturn⟩
  | @answered log call result _ hid ih =>
      intro acc hacc
      obtain ⟨acc', hlog, hlast⟩ := foldlM_snoc_ok hacc
      obtain ⟨before, turn, hmessages, hbefore, hcall⟩ := ih hlog
      unfold projectEvent at hlast
      cases hcontent : decode false result.rawResponse with
      | none =>
          simp only [hcontent] at hlast
          cases hlast
      | some content =>
          simp only [hcontent] at hlast
          cases hlast
          rw [hmessages]
          rw [← hid] at hcall
          exact hbefore.snoc hcall (resultTurn_answersTool _ _ _)

/-- **What `project_messages` makes of a log whose calls are answered.** -/
theorem conversation_of_trail {territory : PyStr} {log : Context} {messages : List Json}
    (h : Trail none log) (hproject : projectMessages territory log = .ok messages) :
    Conversation territory messages := by
  unfold projectMessages at hproject
  cases hfold : log.foldlM projectEvent ([seedTurn territory], []) with
  | error e =>
      unfold seedTurn at hfold
      rw [hfold] at hproject
      cases hproject
  | ok acc =>
      have hfolded := h.folded hfold
      unfold seedTurn at hfold
      rw [hfold] at hproject
      cases hproject
      exact hfolded

end Projection

/-! ## The thinking block -/

/-- The decision carries no `tool_use` block as its thinking. -/
def Decision.Mute [PyRuntime] : Decision → Prop
  | .toolCall decision => RexHunter.Mute decision.thinking
  | _ => True

/-- A block of type `thinking` is no `tool_use` block, also after it was written and read again. -/
theorem mute_of_thinking [PyRuntime] {block : Dict} {thinking : PyBytes} (htextual : block.Textual)
    (htype : hasType (py "thinking") block = true)
    (h : loadsBytes thinking = .ok (Json.obj block).reread) : Mute thinking := by
  have hget : block.get (py "type") = some (.str (py "thinking")) := by
    unfold hasType at htype
    split at htype
    · next s hs => rw [hs, of_decide_eq_true htype]
    · cases htype
  refine Or.inr (fun v hv => ?_)
  rw [h] at hv
  cases hv
  have hreread := htextual.get_reread rfl rfl hget
  have hplain : (Json.str (py "thinking")).reread = .str (py "thinking") := rfl
  show ¬ hasType toolUse (Json.rereadEntries [] block) = true
  unfold hasType
  rw [hreread, hplain]
  exact of_decide_eq_false (by decide)

/-- **The adapter decides on mute calls only.** -/
theorem verdict_mute [PyRuntime] [Pydantic] {stream : Bool} {response : Response} {d : Decision}
    (h : verdict stream response = .ok d) : d.Mute := by
  cases d with
  | toolCall d =>
      rcases verdict_block h with hnone | ⟨block, htextual, htype, hloads⟩
      · exact Or.inl hnone
      · exact mute_of_thinking htextual htype hloads
  | huntComplete | needsHelp => trivial

/-! ## The loop keeps the shape -/

theorem TrajectoryEvent.Interlude.silent {event : TrajectoryEvent} (h : event.Interlude) :
    Silent event := by
  cases event with
  | error e => exact Or.inr (Or.inl h)
  | sniff | toolCall | toolResult => exact h.elim
  | preyCaptured | usage | thinkingDelta => trivial

section Loop

variable [PyRuntime] {hunt : Hunt} {runId : PyStr}

/-- **The attempts of a tool answer the open call, or the run is closed.** -/
theorem attemptTool_threads {call : ToolCallEvent} {d : ToolCallDecision} {tool : RegisteredTool}
    {kwargs : Dict} {rawRequest : PyBytes} (hid : d.toolUseId = call.toolUseId) (n : Nat) :
    Triple (OnLog (Trail (some call)) runId)
      (attemptTool hunt runId d tool kwargs rawRequest n)
      (fun goesOn w => goesOn = true → OnLog (Trail none) runId w) (fun _ _ => True) := by
  induction n with
  | zero => exact Triple.pure (fun _ _ => nofun)
  | succ remaining ih =>
      have hrun : Keeps (OnLog (Trail (some call)) runId) (executeOnce tool kwargs) :=
        executeOnce_keeps (onTables_inert _) inert_controls
      refine hrun.observe.triple.seq (fun _ _ _ => trivial) (fun r => ?_)
      cases r with
      | ok rawResponse =>
          refine (append_log (fun log hlog => hlog.answered hid)).bind (fun _ => ?_)
          exact Triple.pure (fun _ hw _ => hw)
      | error e =>
          cases e with
          | cancelled => exact Triple.throw (fun _ _ => trivial)
          | raised exc =>
              by_cases hretry : classify exc ∧ remaining ≠ 0
              · -- a retryable error is no turn
                refine (append_log (fun log hlog => hlog.silent
                  (by exact Or.inl hretry.1))).bind (fun _ => ?_)
                rw [if_pos hretry]
                exact ih
              · refine Triple.bind (Q := fun _ _ => True) ?_ (fun _ => ?_)
                · exact (Triple.of_final (T := fun _ => True) (fun _ _ => trivial)).pre
                    (fun _ _ => trivial)
                · rw [if_neg hretry]
                  exact Triple.pure (fun _ _ => nofun)

/-- **A tool call leaves an answered log, or the run is closed.** -/
theorem runTool_threads {d : ToolCallDecision} (hmute : Mute d.thinking) :
    Triple (OnLog (Trail none) runId) (runTool hunt runId d)
      (fun goesOn w => goesOn = true → OnLog (Trail none) runId w) (fun _ _ => True) := by
  have hrefuse : ∀ error detail, Triple (OnLog (Trail none) runId)
      (refuseTool hunt runId d error detail)
      (fun goesOn w => goesOn = true → OnLog (Trail none) runId w) (fun _ _ => True) :=
    fun error detail => refuseTool_stops.conseq (fun _ hw => hw)
      (fun goesOn w hfalse htrue => absurd (hfalse.symm.trans htrue) (by simp)) (fun _ _ hw => hw)
  unfold runTool
  cases hunt.registry.get d.tool with
  | none => exact hrefuse _ _
  | some tool =>
      dsimp only
      split
      · exact hrefuse _ _
      · exact Triple.throw (fun _ _ => trivial)
      · next kwargs _ =>
          have hdump : Keeps (OnLog (Trail none) runId) (attempt (tool.dumpJson kwargs)) :=
            attempt_keeps (onTables_inert _) inert_controls
          refine hdump.triple.seq (fun _ _ _ => trivial) (fun rawRequest => ?_)
          refine (append_log (fun log hlog => hlog.called hmute)).bind (fun _ => ?_)
          exact attemptTool_threads rfl hunt.attempts

/-- Every brain call of a hunt is made on an answered log, whatever faults meet the run. -/
theorem runHunt_answered
    (hbrain : ∀ n context, (hunt.brain n context).Gives (fun _ => True) Decision.Mute) (env : Env)
    (db : Db) : CallsOn (Trail none) ((runHunt hunt).exec (env.session db)).2.trace :=
  runHunt_contexts (fun _ _ hlog hevent => hlog.silent hevent.silent) .empty
    (fun _ _ _ => trivial) hbrain (fun _ _ hmute => runTool_threads hmute) env db

end Loop

/-! ## The theorem -/

/-- **Every reconstructed conversation is valid.** In every run of `run_hunt` with the adapter, on
    every schedule of faults, what `project_messages` makes of the log at a brain call starts with
    the seed turn and goes on in pairs of an assistant turn, with exactly one `tool_use` block in
    last position, and a user turn with exactly one block, the `tool_result` of that id. -/
theorem conversation_valid [PyRuntime] [Pydantic] {hunt : Hunt} {stream : Bool}
    (hbrain : ∀ n context, hunt.brain n context = adapterBrain hunt.territory stream context)
    (env : Env) (db : Db) :
    ∀ st ∈ ((runHunt hunt).exec (env.session db)).2.trace,
      ∀ context, st.op = .other (.call context) →
        ∀ messages, projectMessages hunt.territory context = .ok messages →
          Conversation hunt.territory messages := by
  intro st hst context hcall messages hproject
  refine conversation_of_trail (runHunt_answered (fun n context => ?_) env db st hst context hcall)
    hproject
  rw [hbrain]
  exact (adapterBrain_gives (fun _ => True) hunt.territory stream context).mono
    (fun d ⟨_, _, hverdict⟩ => verdict_mute hverdict)

/-- A hunt with a transport failure, a tool call whose first attempt times out, and no more. -/
def noisyHunt [PyRuntime] [Pydantic] : Hunt :=
  { adapterHunt false prose with
    server := fun n => match n with
      | 0 => .error (.transportError (py "reset"))
      | 1 => .ok (.ofBody ("\x7b\"content\":[\x7b\"type\":\"tool_use\",\"id\":\"t1\"," ++
          "\"name\":\"sniff\",\"input\":\x7b\x7d\x7d]\x7d"))
      | _ => .ok prose
    registry := [⟨py "sniff", .ok, fun _ => .ok ((py "\x7b\x7d").map (fun c => UInt8.ofNat c.val)),
      fun n _ => match n with
        | 0 => .error .timeoutError
        | _ => .ok (.bytes [])⟩]
    retryBudget := 1
    maxIterations := 2 }

/-- Its run. -/
def noisyRun : Sess :=
  ((@runHunt .ascii (@noisyHunt .ascii (@Pydantic.plain .ascii))).exec
    ((Env.calm [py "r"]).session Db.empty)).2

/-- How many messages the last call of the run has sent. -/
def lastLength (territory : PyStr) (trace : List (Step Frame Op)) : Option Nat :=
  ((contexts trace).getLast?.bind
    (fun context => (@projectMessages .ascii territory context).toOption)).map List.length

theorem of_lastLength {territory : PyStr} {trace : List (Step Frame Op)} {n : Nat}
    (h : lastLength territory trace = some n) :
    ∃ context messages, context ∈ contexts trace ∧
      @projectMessages .ascii territory context = .ok messages ∧ messages.length = n := by
  obtain ⟨messages, hmessages, hlength⟩ := Option.map_eq_some_iff.1 h
  obtain ⟨context, hcontext, hproject⟩ := Option.bind_eq_some_iff.1 hmessages
  refine ⟨context, messages, List.mem_of_getLast? hcontext, ?_, hlength⟩
  cases hok : @projectMessages .ascii territory context with
  | ok m =>
      rw [hok] at hproject
      cases hproject
      rfl
  | error e =>
      rw [hok] at hproject
      cases hproject

theorem noisy_lastLength :
    lastLength (@noisyHunt .ascii (@Pydantic.plain .ascii)).territory noisyRun.trace = some 3 := by
  decide +kernel

/-- The last brain call of a hunt with one lost response, one answer, a tool that times out and is
    retried sends the seed turn and one exchange. -/
theorem noisy_conversation : ∃ context messages, context ∈ contexts noisyRun.trace ∧
    @projectMessages .ascii (@noisyHunt .ascii (@Pydantic.plain .ascii)).territory context
      = .ok messages ∧ messages.length = 3 ∧
    Conversation (@noisyHunt .ascii (@Pydantic.plain .ascii)).territory messages := by
  obtain ⟨context, messages, hcontext, hproject, hlength⟩ := of_lastLength noisy_lastLength
  obtain ⟨st, hst, hop⟩ := op_of_mem_contexts hcontext
  refine ⟨context, messages, hcontext, hproject, hlength, ?_⟩
  unfold noisyRun at hst
  exact @conversation_valid .ascii (@Pydantic.plain .ascii)
    (@noisyHunt .ascii (@Pydantic.plain .ascii)) false (fun _ _ => rfl) (Env.calm [py "r"])
    Db.empty st hst context hop messages hproject

end RexHunter
