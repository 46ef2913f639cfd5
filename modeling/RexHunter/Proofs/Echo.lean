import RexHunter.Proofs.Contexts
import RexHunter.Proofs.Malformed
import RexHunter.Proofs.Responses
import RexHunter.Proofs.Thinking

set_option autoImplicit false

/-! # What becomes of the thinking of a turn

A streamed response is assembled, written, read back, and its first `thinking` block is written again
into the event of the tool call; `project_messages` reads it from there. Each of these steps changes
at most what reading back changes, and reading back twice is reading back once. So the block that is
echoed is the block of the response. It is one block: the event has room for no second one. -/

namespace RexHunter

open Session (Closed Frameless Before)
open Coro (Keeps Triple)

/-! ## The assistant turns of a conversation -/

def TrajectoryEvent.call? : TrajectoryEvent → Option ToolCallEvent
  | .toolCall call => some call
  | _ => none

/-- The tool calls in a log. -/
def calls (log : Context) : List ToolCallEvent := log.filterMap TrajectoryEvent.call?

def isAssistant : Json → Bool
  | .obj d =>
      match Dict.get d (py "role") with
      | some (.str role) => decide (role = py "assistant")
      | _ => false
  | _ => false

section Projection

variable [PyRuntime]

/-- The content of the assistant turn of a call. -/
def assistantContent (thinking : List Json) (call : ToolCallEvent) (input : Json) : Json :=
  object [("role", .str (py "assistant")), ("content", .arr (thinking ++
    [object [("type", .str toolUse), ("id", .str call.toolUseId), ("name", .str call.tool),
      ("input", input)]]))]

theorem assistantTurn_ok {call : ToolCallEvent} {turn : Json} (h : assistantTurn call = .ok turn) :
    ∃ thinking input, loadsBytes call.rawRequest = .ok input ∧
      turn = assistantContent thinking call input ∧
      ((call.thinking = [] ∧ thinking = []) ∨
        (call.thinking ≠ [] ∧ ∃ block, loadsBytes call.thinking = .ok block ∧ thinking = [block])) := by
  unfold assistantTurn at h
  by_cases hnone : call.thinking = []
  · rw [if_pos hnone] at h
    cases hinput : loadsBytes call.rawRequest with
    | error e =>
        rw [hinput] at h
        cases h
    | ok input =>
        rw [hinput] at h
        cases h
        exact ⟨[], input, rfl, rfl, Or.inl ⟨hnone, rfl⟩⟩
  · rw [if_neg hnone] at h
    cases hblock : loadsBytes call.thinking with
    | error e =>
        rw [hblock] at h
        cases h
    | ok block =>
        rw [hblock] at h
        cases hinput : loadsBytes call.rawRequest with
        | error e =>
            rw [hinput] at h
            cases h
        | ok input =>
            rw [hinput] at h
            cases h
            exact ⟨[block], input, rfl, rfl, Or.inr ⟨hnone, block, rfl, rfl⟩⟩

/-- An event adds the turn of its call, and no other assistant turn. -/
theorem projectEvent_turns {event : TrajectoryEvent} {acc acc' : List Json × PyStr}
    (h : projectEvent acc event = .ok acc') : ∃ new, acc'.1 = acc.1 ++ new ∧
      List.Forall₂ (fun turn call => assistantTurn call = .ok turn) (new.filter isAssistant)
        event.call?.toList := by
  cases event with
  | toolCall call =>
      unfold projectEvent at h
      cases hturn : assistantTurn call with
      | error e =>
          simp only [hturn] at h
          cases h
      | ok turn =>
          simp only [hturn] at h
          cases h
          obtain ⟨thinking, input, -, hcontent, -⟩ := assistantTurn_ok hturn
          have hassistant : isAssistant turn = true := by
            rw [hcontent]
            rfl
          refine ⟨[turn], rfl, ?_⟩
          rw [List.filter_cons_of_pos hassistant]
          exact .cons hturn .nil
  | toolResult result =>
      unfold projectEvent at h
      cases hcontent : decode false result.rawResponse with
      | none =>
          simp only [hcontent] at h
          cases h
      | some content =>
          simp only [hcontent] at h
          cases h
          exact ⟨_, rfl, .nil⟩
  | error e =>
      unfold projectEvent at h
      by_cases hskip : e.retryable = true ∨ e.tool = py "<brain>" ∨ e.tool = py "<loop>"
      · simp only [if_pos hskip] at h
        cases h
        exact ⟨[], (List.append_nil _).symm, .nil⟩
      · simp only [if_neg hskip] at h
        cases h
        exact ⟨_, rfl, .nil⟩
  | sniff | preyCaptured | usage | thinkingDelta =>
      cases h
      exact ⟨[], (List.append_nil _).symm, .nil⟩

/-- The fold, by induction on the log. -/
theorem foldlM_turns {log : Context} : ∀ {acc acc' : List Json × PyStr},
    log.foldlM projectEvent acc = .ok acc' → ∃ new, acc'.1 = acc.1 ++ new ∧
      List.Forall₂ (fun turn call => assistantTurn call = .ok turn) (new.filter isAssistant)
        (calls log) := by
  induction log with
  | nil =>
      rintro acc _ ⟨⟩
      exact ⟨[], (List.append_nil _).symm, .nil⟩
  | cons event log ih =>
      intro acc acc' h
      rw [List.foldlM_cons] at h
      cases hevent : projectEvent acc event with
      | error e =>
          rw [hevent] at h
          cases h
      | ok mid =>
          rw [hevent] at h
          obtain ⟨first, hfirst, hturn⟩ := projectEvent_turns hevent
          obtain ⟨rest, hrest, hturns⟩ := ih h
          refine ⟨first ++ rest, by rw [hrest, hfirst, List.append_assoc], ?_⟩
          have hcalls : calls (event :: log) = event.call?.toList ++ calls log := by
            unfold calls
            cases hcall : event.call? with
            | none => rw [List.filterMap_cons_none hcall]; rfl
            | some call => rw [List.filterMap_cons_some hcall]; rfl
          rw [hcalls, List.filter_append]
          exact List.rel_append hturn hturns

/-- The assistant turns of the messages are those of the calls in the log, in order. -/
theorem projectMessages_turns {territory : PyStr} {log : Context} {messages : List Json}
    (h : projectMessages territory log = .ok messages) :
    List.Forall₂ (fun turn call => assistantTurn call = .ok turn) (messages.filter isAssistant)
      (calls log) := by
  unfold projectMessages at h
  cases hfold : log.foldlM projectEvent
    ([object [("role", .str (py "user")), ("content", .str (seedDirective territory))]], []) with
  | error e =>
      rw [hfold] at h
      cases h
  | ok acc =>
      rw [hfold] at h
      cases h
      obtain ⟨new, hnew, hturns⟩ := foldlM_turns hfold
      rw [hnew]
      exact hturns

end Projection

/-! ## The turns of a run -/

/-- A tool call that is appended ends the turn of the response received last. -/
def turnOf (server : Nat → Except PyExc Response) (pre : List (Step Frame Op))
    (st : Step Frame Op) : Option (Response × ToolCallEvent) :=
  match st.op with
  | .execute (.appendEvent _ (.toolCall call) _) =>
      if st.fate.effective then
        (received server pre).getLast?.map (fun response => (response, call))
      else none
  | _ => none

def turnsFrom (server : Nat → Except PyExc Response) (pre : List (Step Frame Op)) :
    List (Step Frame Op) → List (Response × ToolCallEvent)
  | [] => []
  | st :: rest => (turnOf server pre st).toList ++ turnsFrom server (pre ++ [st]) rest

/-- The turns of a trace that ended in a tool call, each with its response. -/
def turns (server : Nat → Except PyExc Response) (trace : List (Step Frame Op)) :
    List (Response × ToolCallEvent) :=
  turnsFrom server [] trace

theorem turnsFrom_snoc (server : Nat → Except PyExc Response) (trace : List (Step Frame Op))
    (st : Step Frame Op) : ∀ pre, turnsFrom server pre (trace ++ [st])
      = turnsFrom server pre trace ++ (turnOf server (pre ++ trace) st).toList := by
  induction trace with
  | nil =>
      intro pre
      rw [List.append_nil]
      exact List.append_nil _
  | cons st' trace ih =>
      intro pre
      have hpre : pre ++ st' :: trace = (pre ++ [st']) ++ trace := by simp
      rw [List.cons_append, turnsFrom, turnsFrom, ih, hpre]
      exact (List.append_assoc ..).symm

theorem turns_snoc (server : Nat → Except PyExc Response) (trace : List (Step Frame Op))
    (st : Step Frame Op) :
    turns server (trace ++ [st]) = turns server trace ++ (turnOf server trace st).toList :=
  turnsFrom_snoc server trace st []

/-- The operation appends no tool call. -/
def Tacit (op : Op) : Prop :=
  ∀ runId event now, op = .execute (.appendEvent runId event now) → event.call? = none

theorem turnOf_tacit {server : Nat → Except PyExc Response} {pre : List (Step Frame Op)}
    {st : Step Frame Op} (h : Tacit st.op) : turnOf server pre st = none := by
  unfold turnOf
  split
  · next runId call now hop => exact nomatch h runId (.toolCall call) now hop
  · rfl

theorem tacit_of_other {op : Op} (h : ∀ s, op ≠ .execute s) : Tacit op :=
  fun _ _ _ hop => absurd hop (h _)

theorem tacit_controls : Controls Tacit :=
  ⟨tacit_of_other (fun _ h => nomatch h), tacit_of_other (fun _ h => nomatch h),
    fun _ _ => tacit_of_other (fun _ h => nomatch h)⟩

theorem tacit_append {runId now : PyStr} {event : TrajectoryEvent} (h : event.call? = none) :
    Tacit (.execute (.appendEvent runId event now)) := by
  rintro _ _ _ ⟨⟩
  exact h

theorem tacit_unappended {s : Stmt} (h : s.appended = none) : Tacit (.execute s) := by
  rintro _ _ _ ⟨⟩
  cases h

theorem Tacit.appendsOnly {runId : PyStr} {op : Op} (h : Tacit op) :
    AppendsOnly runId (fun event => event.call? = none) op := by
  rintro s event rfl hevent
  cases s with
  | appendEvent runId' event' now =>
      cases hevent
      exact h _ _ _ rfl
  | _ => cases hevent

theorem TrajectoryEvent.Interlude.call? {event : TrajectoryEvent} (h : event.Interlude) :
    event.call? = none := by
  cases event with
  | sniff | toolCall | toolResult => exact h.elim
  | error | preyCaptured | usage | thinkingDelta => rfl

theorem TrajectoryEvent.OfAttempt.call? {event : TrajectoryEvent} (h : event.OfAttempt) :
    event.call? = none := by
  cases event with
  | sniff | toolCall | preyCaptured | usage | thinkingDelta => exact h.elim
  | error | toolResult => rfl

/-- What holds of the session for each list of turns holds of it for the turns so far. -/
theorem turns_closed {hunt : Hunt} {I : List (Response × ToolCallEvent) → Sess → Prop}
    (h : ∀ T, Closed Stmt.exec Tacit (I T)) :
    Closed Stmt.exec Tacit (fun w => I (turns hunt.server w.trace) w) := by
  have hturns : ∀ (w : Sess) st, Tacit st.op →
      turns hunt.server (w.trace ++ [st]) = turns hunt.server w.trace := by
    intro w st hst
    rw [turns_snoc, turnOf_tacit hst]
    exact List.append_nil _
  refine ⟨fun w op fate hop hw hpossible => ?_, fun w x passed hop hw => ?_,
    fun w v hw => (h _).vars w v hw⟩
  · have hnext := (h (turns hunt.server w.trace)).step w op fate hop hw hpossible
    rwa [← hturns w ⟨w.frame, op, fate⟩ hop] at hnext
  · have hnext := (h (turns hunt.server w.trace)).noted w x passed hop hw
    rwa [← hturns w ⟨w.frame, .other x, if passed then .done else .raised false⟩ hop] at hnext

theorem last_closed {hunt : Hunt} (response : Response) :
    Closed Stmt.exec (fun op : Op => op ≠ .other .request)
    (fun w : Sess => (received hunt.server w.trace).getLast? = some response) := by
  refine Session.closed_trace
    (J := fun trace => (received hunt.server trace).getLast? = some response) ?_
  intro trace st hop h
  rw [received_snoc hunt.server trace hop]
  exact h

/-! ### The operations between two tool calls -/

/-- The operation is no brain call. -/
def Uncalled (op : Op) : Prop := ∀ context, op ≠ .other (.call context)

/-- What a brain call on this context may do, with its retries. -/
def Musing (context : Context) (op : Op) : Prop :=
  Tacit op ∧ ∀ context', op = .other (.call context') → context' = context

theorem musing_controls (context : Context) : Controls (Musing context) where
  commit := ⟨tacit_controls.commit, fun _ h => nomatch h⟩
  rollback := ⟨tacit_controls.rollback, fun _ h => nomatch h⟩
  other := by
    intro x hx
    refine ⟨tacit_controls.other x hx, ?_⟩
    rintro context' ⟨⟩
    cases hx

theorem musing_ofCall {runId : PyStr} {context : Context} :
    Appends (Musing context) runId TrajectoryEvent.OfCall :=
  fun _ _ hevent => ⟨tacit_append hevent.interlude.call?, fun _ h => nomatch h⟩

theorem uncalled_execute (s : Stmt) : Uncalled (.execute s) := fun _ h => nomatch h

theorem uncalled_controls : Controls Uncalled where
  commit := fun _ h => nomatch h
  rollback := fun _ h => nomatch h
  other := by
    rintro x hx context ⟨⟩
    cases hx

/-- What is done once a decision is there, up to the append of its call. -/
def Acting (op : Op) : Prop := Tacit op ∧ Uncalled op ∧ op ≠ .other .request

theorem acting_controls : Controls Acting where
  commit := ⟨tacit_controls.commit, fun _ h => (nomatch h), nofun⟩
  rollback := ⟨tacit_controls.rollback, fun _ h => (nomatch h), nofun⟩
  other := by
    intro x hx
    refine ⟨tacit_controls.other x hx, ?_, ?_⟩
    · rintro context ⟨⟩
      cases hx
    · rintro ⟨⟩
      cases hx

theorem acting_append {runId : PyStr} {event : TrajectoryEvent} (h : event.call? = none)
    (now : PyStr) :
    Acting (.execute (.appendEvent runId event now)) :=
  ⟨tacit_append h, fun _ h => (nomatch h), nofun⟩

/-- The response to a request is the last one. -/
theorem ask_last {hunt : Hunt} : Triple (fun _ : Sess => True) (ask hunt)
    (fun response w => (received hunt.server w.trace).getLast? = some response)
    (fun _ _ => True) := by
  refine Triple.bind (Q := fun n (w : Sess) => requestCount w.trace = n) (fun _ _ => rfl)
    (fun n => ?_)
  refine Session.await_triple ?_ (fun _ _ _ _ _ _ _ => trivial)
  intro w response c hcount hact
  have hserver := (Session.elsewhere_ok hact).1
  show (received hunt.server (w.trace ++ [⟨w.frame, .other .request, .done⟩])).getLast? = _
  rw [received_request hunt.server w.trace rfl, if_pos rfl, hcount, hserver]
  exact List.getLast?_concat

/-! ### What is told -/

section Run

variable [PyRuntime] [Pydantic] {hunt : Hunt} {runId : PyStr}

/-- The response of a turn has brought the decision that its call carries out. -/
def Decided (turn : Response × ToolCallEvent) : Prop :=
  ∃ d, verdict true turn.1 = .ok (.toolCall d) ∧ turn.2.tool = d.tool ∧
    turn.2.toolUseId = d.toolUseId ∧ turn.2.thinking = d.thinking

/-- The turns have been decided like this, and the log of the run has their calls. -/
def Recounts (T : List (Response × ToolCallEvent)) (log : Context) : Prop :=
  (∀ turn ∈ T, Decided turn) ∧ calls log = T.map Prod.snd

/-- The log of the run has the calls of the turns so far. -/
def Told (hunt : Hunt) (runId : PyStr) (w : Sess) : Prop :=
  OnLog (Recounts (turns hunt.server w.trace)) runId w

/-- A brain call is made on a log that has the calls of the turns so far. -/
def Retold (hunt : Hunt) (pre : List (Step Frame Op)) (st : Step Frame Op) : Prop :=
  ∀ context, st.op = .other (.call context) → Recounts (turns hunt.server pre) context

theorem Recounts.snoc {T : List (Response × ToolCallEvent)} {log : Context} {event : TrajectoryEvent}
    (h : Recounts T log) (hevent : event.call? = none) : Recounts T (log ++ [event]) := by
  refine ⟨h.1, ?_⟩
  unfold calls
  rw [List.filterMap_append, List.filterMap_cons_none hevent, List.filterMap_nil, List.append_nil]
  exact h.2

theorem told_closed : Closed Stmt.exec Tacit (Told hunt runId) :=
  turns_closed (fun _ => (log_closed (fun _ _ hlog hevent => hlog.snoc hevent)).mono
    (fun _ hop => hop.appendsOnly))

/-- The context has the calls of the turns so far, as the log has. -/
def Standing (hunt : Hunt) (runId : PyStr) (context : Context) (w : Sess) : Prop :=
  Recounts (turns hunt.server w.trace) context ∧ Told hunt runId w

theorem standing_closed (context : Context) :
    Closed Stmt.exec Tacit (Standing hunt runId context) := by
  have hcontext : ∀ T, Closed Stmt.exec Tacit (fun _ : Sess => Recounts T context) :=
    fun T => ⟨fun _ _ _ _ hw _ => hw, fun _ _ _ _ hw => hw, fun _ _ hw => hw⟩
  exact (turns_closed hcontext).and told_closed

/-- Every brain call so far was made on the calls of the turns before it. -/
def Past (hunt : Hunt) (w : Sess) : Prop := Before (Retold hunt) w.trace

theorem past_closed : Closed Stmt.exec Uncalled (Past hunt) := by
  refine Session.closed_trace (J := Before (Retold hunt)) ?_
  exact fun _ _ hop h => h.snoc (fun context hcall => absurd hcall (hop context))

theorem past_frameless : Frameless (Past hunt) := Session.frameless_trace (Before (Retold hunt))

/-- The provider has answered last what brought this decision. -/
def Answered (hunt : Hunt) (decision : Decision) (w : Sess) : Prop :=
  ∃ response, (received hunt.server w.trace).getLast? = some response ∧
    verdict true response = .ok decision

/-! ### The parts of an iteration -/

theorem musing_closed (context : Context) : Closed Stmt.exec (Musing context)
    (fun w => Standing hunt runId context w ∧ Past hunt w) := by
  refine ((standing_closed context).mono (fun _ hop => hop.1)).before ?_
  intro w op fate hop hw context' hcall
  rw [hop.2 context' hcall]
  exact hw.1

/-- A decision of the brain is the verdict on the last response. -/
theorem adapterBrain_answered {territory : PyStr} {context context' : Context} :
    Triple (fun w => Standing hunt runId context w ∧ Past hunt w)
      (runBrain hunt runId (adapterBrain territory true context'))
      (fun d w => Answered hunt d w ∧ Standing hunt runId context w ∧ Past hunt w)
      (fun _ w => Standing hunt runId context w ∧ Past hunt w) := by
  have h := @musing_closed _ _ hunt runId context
  unfold adapterBrain
  cases projectMessages territory context' with
  | error e => exact Triple.throw (fun _ hw => hw)
  | ok messages =>
      have hrequest : Musing context (.other .request) :=
        ⟨tacit_of_other (fun _ h => nomatch h), fun _ h => nomatch h⟩
      have hask : Keeps (fun w => Standing hunt runId context w ∧ Past hunt w) (ask hunt) :=
        ask_keeps h hrequest
      refine ((hask.and_triple ask_last).conseq (fun _ hw => ⟨trivial, hw⟩) (fun _ _ hw => hw)
        (fun _ _ hw => hw.2)).observe.bind (fun r => ?_)
      cases r with
      | error e => exact Triple.throw (fun _ hw => hw)
      | ok response =>
          have hlast : Closed Stmt.exec (fun op => op ≠ .other .request ∧ Musing context op)
              (fun w => (received hunt.server w.trace).getLast? = some response ∧
                Standing hunt runId context w ∧ Past hunt w) :=
            ((last_closed response).mono (fun _ hop => hop.1)).and (h.mono (fun _ hop => hop.2))
          have hA : Controls (fun op => op ≠ .other .request ∧ Musing context op) := by
            refine ⟨⟨nofun, (musing_controls context).commit⟩,
              ⟨nofun, (musing_controls context).rollback⟩,
              fun x hx => ⟨?_, (musing_controls context).other x hx⟩⟩
            rintro ⟨⟩
            cases hx
          have hreply := reply_strict true response
          refine (runBrain_gives hlast hA
            (fun event now hevent => ⟨nofun, musing_ofCall event now hevent⟩)
            (fun _ _ _ => trivial) (reply true response) (Or.inl hreply.offline)
            (hreply.gives (fun _ => True) (.ok response))).conseq (fun _ hw => hw) ?_
            (fun _ _ hw => hw.2)
          exact fun d w hw => ⟨⟨response, hw.2.1, hw.1⟩, hw.2.2⟩

theorem answered_closed (decision : Decision) :
    Closed Stmt.exec Acting (Answered hunt decision) := by
  have hlast : ∀ response, Closed Stmt.exec Acting
      (fun w : Sess => (received hunt.server w.trace).getLast? = some response) :=
    fun response => (last_closed response).mono (fun _ hop => hop.2.2)
  refine ⟨?_, ?_, fun _ _ hw => hw⟩
  · rintro w op fate hop ⟨response, hw, hverdict⟩ hpossible
    exact ⟨response, (hlast response).step w op fate hop hw hpossible, hverdict⟩
  · rintro w x passed hop ⟨response, hw, hverdict⟩
    exact ⟨response, (hlast response).noted w x passed hop hw, hverdict⟩

/-- Until its call is appended, the decision is that of the last response. -/
theorem acting_closed (decision : Decision) : Closed Stmt.exec Acting
    (fun w => Answered hunt decision w ∧ Told hunt runId w) :=
  (answered_closed decision).and (told_closed.mono (fun _ hop => hop.1))

omit [PyRuntime] [Pydantic] in
/-- The append of a call ends its turn. -/
theorem append_ends {T : List (Response × ToolCallEvent)} {response : Response}
    {call : ToolCallEvent} :
    Triple (fun w : Sess => (received hunt.server w.trace).getLast? = some response ∧
        turns hunt.server w.trace = T) (append hunt runId (.toolCall call))
      (fun _ w => turns hunt.server w.trace = T ++ [(response, call)]) (fun _ _ => True) := by
  have hturns : ∀ T' : List (Response × ToolCallEvent),
      Closed Stmt.exec Acting (fun w : Sess => turns hunt.server w.trace = T') :=
    fun T' => (turns_closed (I := fun T _ => T = T')
      (fun _ => ⟨fun _ _ _ _ hw _ => hw, fun _ _ _ _ hw => hw, fun _ _ hw => hw⟩)).mono
      (fun _ hop => hop.1)
  have hlast : Closed Stmt.exec Acting
      (fun w : Sess => (received hunt.server w.trace).getLast? = some response) :=
    (last_closed response).mono (fun _ hop => hop.2.2)
  refine Triple.bind (appendEvent_step (hlast.and (hturns T)) acting_controls
    (hturns (T ++ [(response, call)])) (fun _ _ => trivial) (fun _ _ => trivial) (fun now => ?_))
    (fun _ => Triple.pure (fun _ hw => hw))
  refine Session.await_triple ?_ (fun _ _ _ _ _ _ _ => trivial)
  rintro w cursor c ⟨hlast, hT⟩ -
  show turns hunt.server (w.trace ++ [⟨w.frame, _, .done⟩]) = _
  rw [turns_snoc, hT]
  unfold turnOf
  simp only [Fate.effective, if_true, hlast]
  rfl

/-- The turn ends in the trace, and its call is in the log. -/
theorem append_told {T : List (Response × ToolCallEvent)} {response : Response}
    {call : ToolCallEvent} {d : ToolCallDecision}
    (hturn : verdict true response = .ok (.toolCall d) ∧ call.tool = d.tool ∧
      call.toolUseId = d.toolUseId ∧ call.thinking = d.thinking) :
    Triple (fun w => ((received hunt.server w.trace).getLast? = some response ∧
        turns hunt.server w.trace = T) ∧ OnLog (Recounts T) runId w)
      (append hunt runId (.toolCall call)) (fun _ => Told hunt runId) (fun _ _ => True) := by
  have hstep : ∀ log, Recounts T log →
      Recounts (T ++ [(response, call)]) (log ++ [.toolCall call]) := by
    rintro log ⟨hdecided, hcalls⟩
    refine ⟨forall_mem_snoc hdecided ⟨d, hturn⟩, ?_⟩
    unfold calls
    rw [List.filterMap_append, List.map_append]
    exact congrArg (· ++ [call]) hcalls
  refine ((append_ends.pre (fun _ hw => hw.1)).and
    ((append_log hstep).pre (fun _ hw => hw.2))).conseq (fun _ hw => hw) ?_ (fun _ _ _ => trivial)
  rintro _ w ⟨hturns, hlog⟩
  unfold Told
  rw [hturns]
  exact hlog

/-- **A tool call that lets the hunt go on is told.** -/
theorem runTool_told {d : ToolCallDecision} :
    Triple (fun w => Answered hunt (.toolCall d) w ∧ Told hunt runId w) (runTool hunt runId d)
      (fun goesOn w => goesOn = true → Told hunt runId w) (fun _ _ => True) := by
  have hrefuse : ∀ error detail, Triple
      (fun w => Answered hunt (.toolCall d) w ∧ Told hunt runId w)
      (refuseTool hunt runId d error detail) (fun goesOn w => goesOn = true → Told hunt runId w)
      (fun _ _ => True) :=
    fun error detail => refuseTool_stops.conseq (fun _ hw => hw)
      (fun goesOn w hfalse htrue => absurd (hfalse.symm.trans htrue) (by simp)) (fun _ _ hw => hw)
  unfold runTool
  cases hunt.registry.get d.tool with
  | none => exact hrefuse _ _
  | some tool =>
      dsimp only
      split
      · exact hrefuse _ _
      · exact Triple.throw (fun _ _ => trivial)
      · next kwargs _ =>
          have hdump : Keeps (fun w => Answered hunt (.toolCall d) w ∧ Told hunt runId w)
              (attempt (tool.dumpJson kwargs)) :=
            attempt_keeps (acting_closed (.toolCall d)) acting_controls
          refine hdump.triple.seq (fun _ _ _ => trivial) (fun rawRequest => ?_)
          refine Triple.bind (Q := fun _ => Told hunt runId) ?_ (fun _ => ?_)
          · rintro w ⟨⟨response, hlast, hverdict⟩, htold⟩
            exact append_told ⟨hverdict, rfl, rfl, rfl⟩ w ⟨⟨hlast, rfl⟩, htold⟩
          · have hattempts : Appends Tacit runId TrajectoryEvent.OfAttempt :=
              fun _ _ hevent => tacit_append hevent.call?
            exact (attemptTool_keeps told_closed tacit_controls hattempts
              hunt.attempts).triple.conseq (fun _ hw => hw) (fun _ _ hw _ => hw)
              (fun _ _ _ => trivial)

/-! ### A run -/

/-- What holds at the places of the loop. -/
def toldPlaces (hunt : Hunt) (runId : PyStr) : LoopPlaces where
  head _ w := Told hunt runId w ∧ Past hunt w
  called _ context w := Standing hunt runId context w ∧ Past hunt w
  decided _ _ decision w := (Answered hunt decision w ∧ Told hunt runId w) ∧ Past hunt w
  paid _ decision w := (Answered hunt decision w ∧ Told hunt runId w) ∧ Past hunt w
  left := Past hunt
  failed _ := Past hunt

theorem toldPlaces_holds
    (hbrain : ∀ n context, hunt.brain n context = adapterBrain hunt.territory true context) :
    (toldPlaces hunt runId).Holds hunt runId := by
  have hacting : ∀ decision, Closed Stmt.exec Acting (fun w =>
      (Answered hunt decision w ∧ Told hunt runId w) ∧ Past hunt w) :=
    fun decision => (acting_closed decision).and (past_closed.mono (fun _ hop => hop.2.1))
  refine ⟨fun _ hw => hw.2, fun n => ?_, fun _ _ _ hw => hw.2, fun n context _ => ?_,
    fun n context decision _ => ?_, fun n decision => ?_, fun n decision posting => ?_,
    fun _ _ _ hw => hw.2⟩
  · have htold : Closed Stmt.exec Acting (fun w => Told hunt runId w ∧ Past hunt w) :=
      (told_closed.mono (fun _ hop => hop.1)).and (past_closed.mono (fun _ hop => hop.2.1))
    refine (select_triple htold acting_controls).conseq (fun _ hw => hw) ?_ (fun _ _ hw => hw.2)
    rintro context w ⟨hread, hw⟩
    exact ⟨⟨hread ▸ hw.1.2, hw.1⟩, hw.2⟩
  · have hnumber : Keeps (fun w => Standing hunt runId context w ∧ Past hunt w)
        (callNumber context) := by
      refine callNumber_keeps (musing_closed context) ⟨tacit_of_other (fun _ h => nomatch h), ?_⟩
      rintro _ ⟨⟩
      rfl
    refine (attemptBrain_rule (musing_closed context) (musing_controls context) musing_ofCall hnumber
      (Q := fun d w => Answered hunt d w ∧ Standing hunt runId context w ∧ Past hunt w)
        (fun n => ?_) (fun _ _ _ hw => hw) hunt.attempts).conseq (fun _ hw => hw) ?_
      (fun _ _ hw => hw.2)
    · rw [hbrain]
      exact adapterBrain_answered
    · intro r w hw
      cases r with
      | none => exact hw.2
      | some decision => exact ⟨⟨hw.1, hw.2.1.2⟩, hw.2.2⟩
  · exact (appendUsage_keeps (hacting decision) acting_controls
      (fun u _ now => acting_append rfl now)).triple.conseq (fun _ hw => hw) (fun _ _ hw => hw)
      (fun _ _ hw => hw.2)
  · have hpast : Keeps (Past hunt) (runTool hunt runId decision) :=
      runTool_keeps past_closed uncalled_controls (fun _ _ _ => uncalled_execute _)
    refine (hpast.and_triple runTool_told).conseq (fun _ hw => hw) ?_ (fun _ _ hw => hw.2)
    intro goesOn w hw
    cases goesOn with
    | true => exact ⟨hw.1 rfl, hw.2⟩
    | false => exact hw.2
  · exact (capturePrey_keeps (hacting decision) acting_controls (fun _ _ => acting_append rfl _)
      (fun _ _ => ⟨tacit_unappended rfl, fun _ h => (nomatch h), nofun⟩)).triple.conseq
      (fun _ hw => hw) (fun _ _ hw => hw) (fun _ _ hw => hw.2)

/-- A run starts with no turn. -/
theorem startRun_told {env : Env} {db : Db} {territory : PyStr} {costCeilingUsd : Option ℚ}
    {maxIterations : Option Int} :
    Triple (fun w => w = env.session db)
      (Session.inFrame .starting (startRun territory costCeilingUsd maxIterations))
      (fun id w => Told hunt id w ∧ Past hunt w) (fun _ => Past hunt) := by
  have hturns : Closed Stmt.exec Acting (fun w : Sess => turns hunt.server w.trace = []) :=
    (turns_closed (I := fun T _ => T = [])
      (fun _ => ⟨fun _ _ _ _ hw _ => hw, fun _ _ _ _ hw => hw, fun _ _ hw => hw⟩)).mono
      (fun _ hop => hop.1)
  have hstart : Keeps (fun w : Sess => turns hunt.server w.trace = [] ∧ Past hunt w)
      (startRun territory costCeilingUsd maxIterations) :=
    startRun_keeps (hturns.and (past_closed.mono (fun _ hop => hop.2.1))) acting_controls
      (fun _ _ => ⟨tacit_unappended rfl, uncalled_execute _, nofun⟩)
  have hempty : Recounts [] [] := ⟨fun _ hturn => (nomatch hturn), rfl⟩
  refine (startRun_onLog hempty ((Session.frameless_trace (fun trace =>
    turns hunt.server trace = [])).and past_frameless) hstart ⟨rfl, Session.before_nil _⟩).conseq
    (fun _ hw => hw) ?_ (fun _ _ hw => hw.2)
  rintro id w ⟨hlog, hnone, hpast⟩
  refine ⟨?_, hpast⟩
  unfold Told
  rw [hnone]
  exact hlog

/-- **Every brain call of a run is made on the calls of the turns before it.** -/
theorem runHunt_retold
    (hbrain : ∀ n context, hunt.brain n context = adapterBrain hunt.territory true context)
    (env : Env) (db : Db) :
    Before (Retold hunt) ((runHunt hunt).exec (env.session db)).2.trace := by
  have hrun : Triple (fun w => w = env.session db) (runHunt hunt) (fun _ => Past hunt)
      (fun _ => Past hunt) := by
    refine runHunt_rule past_closed uncalled_controls past_frameless (fun _ => True)
      (fun id w => Told hunt id w ∧ Past hunt w) (fun _ _ _ _ => uncalled_execute _)
      (fun _ _ _ _ _ => uncalled_execute _)
      (startRun_told.conseq (fun _ hw => hw) (fun _ _ hw => ⟨trivial, hw⟩) (fun _ _ hw => hw))
      (fun runId _ => ?_)
    refine Session.inFrame_triple (fun _ _ hw => hw) (fun _ _ _ hw => hw) (fun _ _ _ hw => hw) ?_
    exact (driveFor_rule (toldPlaces_holds hbrain) _).pre (fun _ hw => hw.2)
  exact hrun.final rfl

/-! ## The theorem -/

/-- The assistant turn consists of what is kept of the thinking blocks of the response, and of the
    `tool_use` block of the call. -/
def Echoes (kept : List Json → List Json) (turn : Json) (t : Response × ToolCallEvent) : Prop :=
  ∃ blocks input, contentBlocks (payload true t.1) = .ok blocks ∧
    loadsBytes t.2.rawRequest = .ok input ∧
    turn = assistantContent (kept (blocks.filter isThinking)) t.2 input

theorem Decided.echoes (hfloat : FloatsReread) {turn : Json} {t : Response × ToolCallEvent}
    (h : Decided t) (hturn : assistantTurn t.2 = .ok turn) : Echoes (List.take 1) turn t := by
  obtain ⟨d, hverdict, -, -, hthinking⟩ := h
  rcases verdict_thinking hverdict with ⟨hstream, -⟩ | ⟨-, blocks, hcontent, hleads⟩
  · cases hstream
  obtain ⟨thinking, input, hinput, hcall, hblock⟩ := assistantTurn_ok hturn
  rw [hthinking] at hblock
  have hkept : thinking = List.take 1 ((Json.rereadItems (blocks.map .obj)).filter isThinking) := by
    cases hfilter : (Json.rereadItems (blocks.map .obj)).filter isThinking with
    | nil =>
        rw [hfilter] at hleads
        rcases hblock with ⟨-, hnone⟩ | ⟨hsome, -⟩
        · exact hnone
        · exact absurd hleads hsome
    | cons v rest =>
        rw [hfilter] at hleads
        have hv : v ∈ (Json.rereadItems (blocks.map .obj)).filter isThinking := by
          rw [hfilter]
          exact List.mem_cons_self
        obtain ⟨hmem, htype⟩ := List.mem_filter.1 hv
        rcases hblock with ⟨hnone, -⟩ | ⟨-, block, hloads, hthought⟩
        · exact absurd hnone (thinking_ne_nil htype hleads)
        · -- the block has been read before, so writing and reading it changes nothing
          obtain ⟨entries, hentries⟩ := mem_rereadItems hmem
          have hsame : v.reread = v := by
            rw [hentries]
            exact reread_reread hfloat (.obj entries)
          rw [loadsBytes_thinking htype hleads, hsame] at hloads
          rw [hthought, ← Except.ok.inj hloads]
          rfl
  rw [hkept] at hcall
  exact ⟨_, input, hcontent, hinput, hcall⟩

/-- **The first thinking block of a turn is echoed, as it is.** At every brain call of every run of
    `run_hunt` with the streaming adapter, the assistant turns that `project_messages` makes are
    those of the turns before that ended in a tool call, in order: each consists of the first
    thinking block of the response of its turn, if there is one, and of the `tool_use` block of the
    call. -/
theorem thinking_echoed {hunt : Hunt}
    (hbrain : ∀ n context, hunt.brain n context = adapterBrain hunt.territory true context)
    (hfloat : FloatsReread) (env : Env) (db : Db) :
    ∀ pre st post, ((runHunt hunt).exec (env.session db)).2.trace = pre ++ st :: post →
      ∀ context, st.op = .other (.call context) →
        ∀ messages, projectMessages hunt.territory context = .ok messages →
          List.Forall₂ (fun turn t => Decided t ∧ Echoes (List.take 1) turn t)
            (messages.filter isAssistant) (turns hunt.server pre) := by
  intro pre st post htrace context hcall messages hproject
  obtain ⟨hdecided, hcalls⟩ := runHunt_retold hbrain env db pre st post htrace context hcall
  have hturns := projectMessages_turns hproject
  rw [hcalls, List.forall₂_map_right_iff] at hturns
  have hboth := (List.forall₂_and_left (turns hunt.server pre) (messages.filter isAssistant)).2
    ⟨hdecided, hturns.flip⟩
  exact hboth.flip.imp (fun turn t ht => ⟨ht.1, ht.1.echoes hfloat ht.2⟩)

end Run

/-- A stream with two thinking blocks and a `tool_use` block. -/
def twoThoughts : Response :=
  .ofEvents [
    "\x7b\"type\":\"content_block_start\",\"index\":0,\"content_block\":" ++
      "\x7b\"type\":\"thinking\",\"thinking\":\"a\",\"signature\":\"s\"\x7d\x7d",
    "\x7b\"type\":\"content_block_start\",\"index\":1,\"content_block\":" ++
      "\x7b\"type\":\"thinking\",\"thinking\":\"b\",\"signature\":\"u\"\x7d\x7d",
    "\x7b\"type\":\"content_block_start\",\"index\":2,\"content_block\":" ++
      "\x7b\"type\":\"tool_use\",\"id\":\"t\",\"name\":\"fetch\",\"input\":\x7b\x7d\x7d\x7d",
    "\x7b\"type\":\"message_stop\"\x7d"]

/-- A hunt whose brain thinks twice and calls a tool. -/
def thoughtHunt [PyRuntime] [Pydantic] : Hunt :=
  { adapterHunt true twoThoughts with
    registry := [⟨py "fetch", .ok, fun _ => .ok ((py "\x7b\x7d").map (fun c => UInt8.ofNat c.val)),
      fun _ _ => .ok (.bytes [])⟩]
    maxIterations := 2 }

/-- Its run. -/
def thoughtRun : Sess :=
  ((@runHunt .ascii (@thoughtHunt .ascii (@Pydantic.plain .ascii))).exec
    ((Env.calm [py "r"]).session Db.empty)).2

/-- How many blocks the content of a message has. -/
def contentLength : Json → Nat
  | .obj d =>
      match Dict.get d (py "content") with
      | some (.arr items) => items.length
      | _ => 0
  | _ => 0

/-- How many thinking blocks a response has. -/
def thoughts [PyRuntime] (response : Response) : Nat :=
  (((contentBlocks (payload true response)).toOption.getD []).filter isThinking).length

theorem contentLength_assistantContent (thinking : List Json) (call : ToolCallEvent)
    (input : Json) : contentLength (assistantContent thinking call input) = thinking.length + 1 := by
  let block : Dict := [(.str (py "type"), .str toolUse), (.str (py "id"), .str call.toolUseId),
    (.str (py "name"), .str call.tool), (.str (py "input"), input)]
  have hget : Dict.get [(.str (py "role"), .str (py "assistant")),
      (.str (py "content"), .arr (thinking ++ [.obj block]))] (py "content")
      = some (.arr (thinking ++ [.obj block])) := rfl
  unfold contentLength assistantContent object
  simp only [List.map_cons, List.map_nil]
  rw [hget]
  simp

/-- What a turn with all the thinking blocks of its response contains. -/
theorem Echoes.length [PyRuntime] {turn : Json} {t : Response × ToolCallEvent}
    (h : Echoes id turn t) : contentLength turn = thoughts t.1 + 1 := by
  obtain ⟨blocks, input, hcontent, -, rfl⟩ := h
  unfold thoughts
  rw [hcontent]
  exact contentLength_assistantContent _ _ _

/-- At the step with this number: the lengths of the assistant turns, and how many thinking blocks
    the responses of the turns before have. -/
def lengthsAt (trace : List (Step Frame Op)) (server : Nat → Except PyExc Response) (k : Nat) :
    Option (List Nat × List Nat) := do
  let st ← (trace.drop k).head?
  let context ← callContext st.op
  let messages ← (@projectMessages .ascii (py "x") context).toOption
  return ((messages.filter isAssistant).map contentLength,
    (turns server (trace.take k)).map (fun t => @thoughts .ascii t.1))

theorem of_lengthsAt {trace : List (Step Frame Op)} {server : Nat → Except PyExc Response}
    {k : Nat} {lengths : List Nat × List Nat} (h : lengthsAt trace server k = some lengths) :
    ∃ pre st post context messages, trace = pre ++ st :: post ∧ st.op = .other (.call context) ∧
      @projectMessages .ascii (py "x") context = .ok messages ∧
      (messages.filter isAssistant).map contentLength = lengths.1 ∧
      (turns server pre).map (fun t => @thoughts .ascii t.1) = lengths.2 := by
  unfold lengthsAt at h
  obtain ⟨st, hst, h⟩ := Option.bind_eq_some_iff.1 h
  obtain ⟨context, hcontext, h⟩ := Option.bind_eq_some_iff.1 h
  obtain ⟨messages, hmessages, h⟩ := Option.bind_eq_some_iff.1 h
  cases h
  obtain ⟨post, hpost⟩ := List.head?_eq_some_iff.1 hst
  refine ⟨trace.take k, st, post, context, messages, ?_, ?_, ?_, rfl, rfl⟩
  · rw [← hpost, List.take_append_drop]
  · unfold callContext at hcontext
    split at hcontext
    · next hop =>
        cases hcontext
        exact hop
    · cases hcontext
  · cases hproject : @projectMessages .ascii (py "x") context with
    | ok messages' =>
        rw [hproject] at hmessages
        cases hmessages
        rfl
    | error e =>
        rw [hproject] at hmessages
        cases hmessages

/-- Of two thinking blocks one is echoed: not every assistant turn has all the thinking blocks of its
    response. -/
theorem two_thoughts_echo_one : ¬ ∀ pre st post, thoughtRun.trace = pre ++ st :: post →
    ∀ context, st.op = .other (.call context) →
      ∀ messages, @projectMessages .ascii (@thoughtHunt .ascii (@Pydantic.plain .ascii)).territory
        context = .ok messages →
        List.Forall₂ (@Echoes .ascii id) (messages.filter isAssistant)
          (turns (@thoughtHunt .ascii (@Pydantic.plain .ascii)).server pre) := by
  intro hall
  have hlengths : lengthsAt thoughtRun.trace
      (@thoughtHunt .ascii (@Pydantic.plain .ascii)).server 28 = some ([2], [2]) := by
    decide +kernel
  obtain ⟨pre, st, post, context, messages, htrace, hop, hproject, hturns, hthoughts⟩ :=
    of_lengthsAt hlengths
  have hechoes := hall pre st post htrace context hop messages hproject
  have hmap : List.Forall₂ (fun n m => n = m + 1)
      ((messages.filter isAssistant).map contentLength)
      ((turns (@thoughtHunt .ascii (@Pydantic.plain .ascii)).server pre).map
        (fun t => @thoughts .ascii t.1)) := by
    rw [List.forall₂_map_left_iff, List.forall₂_map_right_iff]
    exact hechoes.imp (fun _ _ h => @Echoes.length .ascii _ _ h)
  rw [hturns, hthoughts] at hmap
  cases hmap with
  | cons h _ => cases h

/-- The run has a turn that ended in a tool call, and at each of its brain calls the turns before it
    are echoed. -/
theorem thoughtRun_echoes :
    turns (@thoughtHunt .ascii (@Pydantic.plain .ascii)).server thoughtRun.trace ≠ [] ∧
    ∀ pre st post, thoughtRun.trace = pre ++ st :: post →
      ∀ context, st.op = .other (.call context) →
        ∀ messages, @projectMessages .ascii
          (@thoughtHunt .ascii (@Pydantic.plain .ascii)).territory context = .ok messages →
          List.Forall₂ (fun turn t => @Decided .ascii (@Pydantic.plain .ascii) t ∧
            @Echoes .ascii (List.take 1) turn t) (messages.filter isAssistant)
            (turns (@thoughtHunt .ascii (@Pydantic.plain .ascii)).server pre) := by
  refine ⟨List.length_pos_iff.1 (by decide +kernel), ?_⟩
  unfold thoughtRun
  exact @thinking_echoed .ascii (@Pydantic.plain .ascii)
    (@thoughtHunt .ascii (@Pydantic.plain .ascii)) (fun _ _ => rfl) (fun _ => rfl)
    (Env.calm [py "r"]) Db.empty

end RexHunter
