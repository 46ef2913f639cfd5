import RexHunter.Implementation.Loop
import RexHunter.Proofs.Programs

set_option autoImplicit false

/-! # What the loop keeps

`run_hunt` is a program over the statements of `db.py` and `capture_prey`. A session predicate that
these keep is kept by every function of the loop, for every brain, every registry and every schedule
of faults: the brain and the tools reach the database only through the loop. -/

namespace RexHunter

open Session (Closed Frameless)
open Coro (Keeps Triple)

variable {A : Op → Prop} {I : Sess → Prop}

/-- The set contains the appends of the events `P` to the log of the run. -/
def Appends (A : Op → Prop) (runId : PyStr) (P : TrajectoryEvent → Prop) : Prop :=
  ∀ event now, P event → A (.execute (.appendEvent runId event now))

/-- The events `_run_tool` appends. -/
def TrajectoryEvent.OfTool : TrajectoryEvent → Prop
  | .toolCall _ => True
  | .toolResult _ => True
  | .error e => e.rawResponse = none
  | _ => False

/-- The events `_run_tool` appends other than the call itself. -/
def TrajectoryEvent.OfAttempt : TrajectoryEvent → Prop
  | .toolResult _ => True
  | .error e => e.rawResponse = none
  | _ => False

/-- The events `_call_brain` appends. -/
def TrajectoryEvent.OfCall : TrajectoryEvent → Prop
  | .error e => e.tool = py "<brain>"
  | .thinkingDelta _ => True
  | _ => False

/-- The events of the loop itself, which are no captures. -/
def TrajectoryEvent.OfLoop (event : TrajectoryEvent) : Prop := event.capturedId = none

theorem TrajectoryEvent.OfTool.ofLoop {event : TrajectoryEvent} (h : event.OfTool) :
    event.OfLoop := by
  cases event with
  | preyCaptured e => exact h.elim
  | sniff | toolCall | toolResult | error | usage | thinkingDelta => rfl

theorem TrajectoryEvent.OfCall.ofLoop {event : TrajectoryEvent} (h : event.OfCall) :
    event.OfLoop := by
  cases event with
  | preyCaptured e => exact h.elim
  | sniff | toolCall | toolResult | error | usage | thinkingDelta => rfl

theorem Appends.mono {runId : PyStr} {P Q : TrajectoryEvent → Prop} (h : Appends A runId P)
    (hQ : ∀ event, Q event → P event) : Appends A runId Q :=
  fun event now hevent => h event now (hQ event hevent)

/-- A run of the tool can come to these bytes. -/
def RegisteredTool.Yields [PyRuntime] (tool : RegisteredTool) (raw : PyBytes) : Prop :=
  ∃ n kwargs result, tool.fn n kwargs = .ok result ∧ toBytes result = .ok raw

/-- What `_run_tool` appends for a decision: the call of a registered tool with the arguments it has
    validated, what the tool has returned, or an error. -/
inductive Dispatch [PyRuntime] (hunt : Hunt) (decision : ToolCallDecision) :
    TrajectoryEvent → Prop where
  | called {tool : RegisteredTool} {kwargs : Dict} {rawRequest : PyBytes}
      (htool : hunt.registry.get decision.tool = some tool)
      (hvalid : tool.validate decision.args = .ok kwargs)
      (hdump : tool.dumpJson kwargs = .ok rawRequest) :
      Dispatch hunt decision
        (.toolCall ⟨decision.tool, rawRequest, decision.toolUseId, decision.thinking⟩)
  | returned {tool : RegisteredTool} {raw : PyBytes}
      (htool : hunt.registry.get decision.tool = some tool) (hraw : tool.Yields raw)
      (rawRequest : PyBytes) :
      Dispatch hunt decision (.toolResult ⟨decision.tool, rawRequest, raw, decision.toolUseId⟩)
  | failed (retryable : Bool) (error : PyStr) (rawRequest : PyBytes) (detail : PyStr) :
      Dispatch hunt decision
        (.error ⟨decision.tool, retryable, error, rawRequest, none, some detail⟩)

theorem Dispatch.ofTool [PyRuntime] {hunt : Hunt} {decision : ToolCallDecision}
    {event : TrajectoryEvent} (h : Dispatch hunt decision event) : event.OfTool := by
  cases h with
  | called | returned => trivial
  | failed => rfl

/-! ## What a brain call can return -/

/-- Every decision the call can return satisfies `D`, if the responses satisfy `answers`; a text
    that cannot be encoded never passes the sink. -/
def BrainCall.Gives (answers : Response → Prop) (D : Decision → Prop) : BrainCall → Prop
  | .ret decision => D decision
  | .raise _ => True
  | .request k =>
      (∀ e, (k (.error e)).Gives answers D) ∧
        ∀ response, answers response → (k (.ok response)).Gives answers D
  | .pause k => ∀ r, (k r).Gives answers D
  | .relay text k =>
      (encodable text = true → (k (.ok ⟨⟩)).Gives answers D) ∧ ∀ e, (k (.error e)).Gives answers D

/-- The call asks the provider for nothing. -/
def BrainCall.Offline : BrainCall → Prop
  | .ret _ => True
  | .raise _ => True
  | .request _ => False
  | .pause k => ∀ r, (k r).Offline
  | .relay _ k => ∀ r, (k r).Offline

theorem BrainCall.gives_any (call : BrainCall) :
    call.Gives (fun _ => True) (fun _ => True) := by
  induction call with
  | ret | raise => trivial
  | request k ih => exact ⟨fun e => ih _, fun response _ => ih _⟩
  | pause k ih => exact ih
  | relay text k ih => exact ⟨fun _ => ih _, fun e => ih _⟩

theorem BrainCall.Gives.mono {answers : Response → Prop} {D E : Decision → Prop}
    {call : BrainCall} (h : call.Gives answers D) (hE : ∀ decision, D decision → E decision) :
    call.Gives answers E := by
  induction call with
  | ret decision => exact hE decision h
  | raise => trivial
  | request k ih => exact ⟨fun e => ih _ (h.1 e), fun response hr => ih _ (h.2 response hr)⟩
  | pause k ih => exact fun r => ih r (h r)
  | relay text k ih => exact ⟨fun htext => ih _ (h.1 htext), fun e => ih _ (h.2 e)⟩

section Keeps

variable {answers : Response → Prop} {D : Decision → Prop}

variable (h : Closed Stmt.exec A I) (hA : Controls A) {hunt : Hunt} {runId : PyStr}
  (hattempts : Appends A runId TrajectoryEvent.OfAttempt)
  (htools : Appends A runId TrajectoryEvent.OfTool)
  (hcall : Appends A runId TrajectoryEvent.OfCall) (hrequest : A (.other .request))
  (hcontexts : ∀ context, A (.other (.call context)))

include h

theorem reach_keeps {outcome : RunOutcome} {abortReason : Option PyStr} :
    Keeps I (reach outcome abortReason) := h.useVars

theorem pulse_keeps {outcome : RunOutcome} : Keeps I (pulse hunt runId outcome) := h.useVars

include hrequest in
theorem ask_keeps : Keeps I (ask hunt) :=
  Keeps.bind (fun _ hw => hw) (fun _ => h.elsewhere hrequest)

theorem decided_keeps {decision : Decision} : Keeps I (decided decision) := h.useVars

theorem callNumber_keeps {context : Context} (hcontext : A (.other (.call context))) :
    Keeps I (callNumber context) :=
  Keeps.bind (h.attempt hcontext) (fun _ => h.useVars)

include hA

theorem attempt_keeps {α : Type} {r : Except PyExc α} : Keeps I (attempt r) :=
  h.attempt (hA.other .encode rfl)

/-- What it returns is what was computed. -/
theorem attempt_gives {α : Type} {r : Except PyExc α} :
    Triple I (attempt r) (fun a w => r = .ok a ∧ I w) (fun _ => I) := by
  have hvalue : Triple (fun _ : Sess => True) (attempt r) (fun a _ => r = .ok a)
      (fun _ _ => True) := by
    intro w _
    cases r with
    | ok a => exact rfl
    | error e => trivial
  exact ((attempt_keeps h hA).and_triple hvalue).conseq (fun _ hw => ⟨trivial, hw⟩)
    (fun _ _ hw => hw) (fun _ _ hw => hw.2)

/-- What it returns is what the tool yields. -/
theorem executeOnce_gives [PyRuntime] {tool : RegisteredTool} {kwargs : Dict} :
    Triple I (executeOnce tool kwargs) (fun raw w => tool.Yields raw ∧ I w) (fun _ => I) := by
  refine h.useVars.triple.bind (fun n => ?_)
  have hresult : Triple (fun _ : Sess => True)
      (Session.await (.other .tool) (Session.elsewhere (tool.fn n kwargs)))
      (fun result _ => tool.fn n kwargs = .ok result) (fun _ _ => True) :=
    Session.await_triple (fun _ _ _ _ hact => (Session.elsewhere_ok hact).1)
      (fun _ _ _ _ _ _ _ => trivial)
  have hrun : Keeps I (Session.await (.other .tool) (Session.elsewhere (tool.fn n kwargs))) :=
    h.elsewhere (hA.other .tool rfl)
  refine ((hrun.and_triple hresult).conseq (fun _ hw => ⟨trivial, hw⟩) (fun _ _ hw => hw)
    (fun _ _ hw => hw.2)).bind (fun result => Triple.of_and (fun hok => ?_))
  exact (attempt_gives h hA).conseq (fun _ hw => hw)
    (fun _ _ hw => ⟨⟨n, kwargs, result, hok, hw.1⟩, hw.2⟩) (fun _ _ hw => hw)

theorem executeOnce_keeps [PyRuntime] {tool : RegisteredTool} {kwargs : Dict} :
    Keeps I (executeOnce tool kwargs) :=
  Keeps.of_triple ((executeOnce_gives h hA).conseq (fun _ hw => hw) (fun _ _ hw => hw.2)
    (fun _ _ hw => hw))

theorem append_keeps {event : TrajectoryEvent}
    (hevent : ∀ now, A (.execute (.appendEvent runId event now))) :
    Keeps I (append hunt runId event) :=
  (appendEvent_keeps h hA hevent).bind (fun _ => Keeps.pure _)

/-- An event that is appended had a JSON text. -/
theorem append_dumped {event : TrajectoryEvent}
    (hevent : ∀ now, A (.execute (.appendEvent runId event now))) :
    Triple I (append hunt runId event) (fun _ w => event.dumpable = true ∧ I w) (fun _ => I) := by
  cases hdump : event.dumpable with
  | true =>
      exact (append_keeps h hA hevent).triple.conseq (fun _ hw => hw) (fun _ _ hw => ⟨rfl, hw⟩)
        (fun _ _ hw => hw)
  | false =>
      refine Triple.bind (Q := fun _ _ => False) ?_ (fun _ _ h => h.elim)
      refine Triple.bind (Q := fun _ _ => False) ?_ (fun _ _ h => h.elim)
      intro w hw
      rw [hdump]
      exact (dump_keeps h hA w hw : I (Coro.exec (dump false) w).2)

include hattempts

omit hattempts in
/-- The attempts keep what the appends of their errors and of what the tool yields keep. -/
theorem attemptTool_gives [PyRuntime] {decision : ToolCallDecision} {tool : RegisteredTool}
    {kwargs : Dict} {rawRequest : PyBytes}
    (hresult : ∀ raw now, tool.Yields raw → A (.execute (.appendEvent runId
      (.toolResult ⟨decision.tool, rawRequest, raw, decision.toolUseId⟩) now)))
    (herror : ∀ retryable error detail now, A (.execute (.appendEvent runId
      (.error ⟨decision.tool, retryable, error, rawRequest, none, some detail⟩) now))) (n : Nat) :
    Keeps I (attemptTool hunt runId decision tool kwargs rawRequest n) := by
  induction n with
  | zero => exact Keeps.pure false
  | succ remaining ih =>
      refine Keeps.of_triple ((executeOnce_gives h hA).observe.bind (fun r => ?_))
      cases r with
      | ok rawResponse =>
          refine Triple.of_and (fun hraw => Keeps.triple ?_)
          exact (append_keeps h hA (fun now => hresult _ now hraw)).bind (fun _ => Keeps.pure true)
      | error e =>
          refine Keeps.triple ?_
          cases e with
          | cancelled => exact Keeps.throw _
          | raised exc =>
              refine (append_keeps h hA (herror _ _ _)).bind (fun _ => ?_)
              by_cases hretry : classify exc ∧ remaining ≠ 0
              · rw [if_pos hretry]
                exact ih
              · rw [if_neg hretry]
                exact Keeps.pure false

theorem attemptTool_keeps [PyRuntime] {decision : ToolCallDecision} {tool : RegisteredTool}
    {kwargs : Dict} {rawRequest : PyBytes} (n : Nat) :
    Keeps I (attemptTool hunt runId decision tool kwargs rawRequest n) :=
  attemptTool_gives h hA (fun _ now _ => hattempts _ now (by trivial))
    (fun _ _ _ now => hattempts _ now (by rfl)) n

omit hattempts in
theorem refuseTool_gives [PyRuntime] {decision : ToolCallDecision} {error detail : PyStr}
    (herror : ∀ rawRequest now, A (.execute (.appendEvent runId
      (.error ⟨decision.tool, false, error, rawRequest, none, some detail⟩) now))) :
    Keeps I (refuseTool hunt runId decision error detail) :=
  (attempt_keeps h hA).bind (fun rawRequest =>
    (append_keeps h hA (herror rawRequest)).bind (fun _ => Keeps.pure false))

theorem refuseTool_keeps [PyRuntime] {decision : ToolCallDecision} {error detail : PyStr} :
    Keeps I (refuseTool hunt runId decision error detail) :=
  refuseTool_gives h hA (fun _ now => hattempts _ now (by rfl))

omit hattempts

/-- **A tool call keeps what the appends of its dispatch keep.** -/
theorem runTool_gives [PyRuntime] {decision : ToolCallDecision}
    (hdispatch : Appends A runId (Dispatch hunt decision)) :
    Keeps I (runTool hunt runId decision) := by
  have hrefuse : ∀ error detail, Keeps I (refuseTool hunt runId decision error detail) :=
    fun error detail => refuseTool_gives h hA
      (fun rawRequest now => hdispatch _ now (.failed false error rawRequest detail))
  unfold runTool
  cases htool : hunt.registry.get decision.tool with
  | none => exact hrefuse _ _
  | some tool =>
      dsimp only
      split
      · exact hrefuse _ _
      · exact Keeps.raise _
      · next kwargs hvalid =>
          refine Keeps.of_triple ((attempt_gives h hA).bind (fun rawRequest =>
            Triple.of_and (fun hdump => Keeps.triple ?_)))
          refine (append_keeps h hA
            (fun now => hdispatch _ now (.called htool hvalid hdump))).bind (fun _ => ?_)
          exact attemptTool_gives h hA
            (fun raw now hraw => hdispatch _ now (.returned htool hraw rawRequest))
            (fun retryable error detail now =>
              hdispatch _ now (.failed retryable error rawRequest detail)) hunt.attempts

include htools

theorem runTool_keeps [PyRuntime] {decision : ToolCallDecision} :
    Keeps I (runTool hunt runId decision) :=
  runTool_gives h hA (htools.mono (fun _ => Dispatch.ofTool))

omit htools

theorem appendUsage_keeps {usage : Option UsageEvent}
    (husage : ∀ u, usage = some u → ∀ now, A (.execute (.appendEvent runId (.usage u) now))) :
    Keeps I (appendUsage hunt runId usage) := by
  cases usage with
  | none => exact Keeps.pure _
  | some usage => exact append_keeps h hA (husage usage rfl)

include hcall

/-- A brain call returns what it gives; a call that is offline makes no request. -/
theorem runBrain_gives (hserver : ∀ n response, hunt.server n = .ok response → answers response)
    (call : BrainCall) (hrequest : call.Offline ∨ A (.other .request))
    (hgives : call.Gives answers D) :
    Triple I (runBrain hunt runId call) (fun decision w => D decision ∧ I w) (fun _ => I) := by
  induction call with
  | ret decision => exact Triple.pure (fun _ hw => ⟨hgives, hw⟩)
  | raise e => exact Triple.throw (fun _ hw => hw)
  | request k ih =>
      have hasked : A (.other .request) := hrequest.resolve_left id
      have hask : Triple I (ask hunt) (fun response w => answers response ∧ I w) (fun _ => I) := by
        refine Triple.bind (Q := fun _ => I) (fun _ hw => hw) (fun n => ?_)
        refine ((h.elsewhere hasked).triple.and (Session.await_triple
          (Q := fun response _ => answers response) (R := fun _ _ => True) ?_ ?_)).conseq
          (fun _ hw => hw) (fun _ _ hw => ⟨hw.2, hw.1⟩) (fun _ _ hw => hw.1)
        · intro w response c _ hact
          exact hserver n response (Session.elsewhere_ok hact).1
        · exact fun _ _ _ _ _ _ _ => trivial
      refine hask.observe.bind (fun r => ?_)
      cases r with
      | ok response =>
          exact Triple.of_and (fun hresponse => ih _ (Or.inr hasked) (hgives.2 response hresponse))
      | error e => exact ih _ (Or.inr hasked) (hgives.1 e)
  | pause k ih =>
      exact (h.elsewhere (hA.other .brain rfl)).observe.triple.bind
        (fun r => ih r (hrequest.imp_left (fun hoffline => hoffline r)) (hgives r))
  | relay text k ih =>
      have hdump : (TrajectoryEvent.thinkingDelta ⟨text⟩).dumpable = encodable text := by
        simp [TrajectoryEvent.dumpable, TrajectoryEvent.texts]
      have hsink : Triple I (sink hunt runId text) (fun _ w => encodable text = true ∧ I w)
          (fun _ => I) := by
        rw [← hdump]
        exact append_dumped h hA (fun now => hcall _ now (by trivial))
      refine hsink.observe.bind (fun r => ?_)
      have hrest := hrequest.imp_left (fun hoffline => hoffline r)
      cases r with
      | ok _ => exact Triple.of_and (fun htext => ih _ hrest (hgives.1 htext))
      | error e => exact ih _ hrest (hgives.2 e)

/-- The rule for the attempts of a brain call: what a run of the brain comes to, the call comes
    to. -/
theorem attemptBrain_rule {context : Context} {Q : Decision → Sess → Prop}
    (hnumber : Keeps I (callNumber context))
    (hrun : ∀ n, Triple I (runBrain hunt runId (hunt.brain n context)) Q (fun _ => I))
    (hdecided : ∀ decision w v, Q decision w → Q decision { w with vars := v }) (n : Nat) :
    Triple I (attemptBrain hunt runId context n)
      (fun r w => match r with
        | none => I w
        | some decision => Q decision w) (fun _ => I) := by
  induction n with
  | zero => exact Triple.pure (fun _ hw => hw)
  | succ remaining ih =>
      refine hnumber.triple.bind (fun n => ?_)
      refine (hrun n).observe.bind (fun r => ?_)
      cases r with
      | ok decision =>
          exact Triple.bind (Session.useVars_triple (fun w _ hw => hdecided decision w _ hw))
            (fun _ => Triple.pure (fun _ hw => hw))
      | error e =>
          cases e with
          | cancelled => exact Triple.throw (fun _ hw => hw)
          | raised exc =>
              dsimp only
              cases httpFailure exc with
              | none => exact Triple.throw (fun _ hw => hw)
              | some rawResponse =>
                  refine (append_keeps h hA (fun now => hcall _ now (by trivial))).triple.bind
                    (fun _ => ?_)
                  by_cases hretry : classify exc ∧ remaining ≠ 0
                  · rw [if_pos hretry]
                    exact ih
                  · rw [if_neg hretry]
                    exact Triple.pure (fun _ hw => hw)

include hrequest

theorem attemptBrain_gives
    (hserver : ∀ n response, hunt.server n = .ok response → answers response)
    (hbrain : ∀ n context, (hunt.brain n context).Gives answers D) {context : Context}
    (hcontext : A (.other (.call context))) (n : Nat) :
    Triple I (attemptBrain hunt runId context n)
      (fun r w => (∀ decision, r = some decision → D decision) ∧ I w) (fun _ => I) := by
  refine (attemptBrain_rule h hA hcall (callNumber_keeps h hcontext)
    (fun n => runBrain_gives h hA hcall hserver _ (Or.inr hrequest) (hbrain n context))
    (fun _ w v hw => ⟨hw.1, h.vars w v hw.2⟩) n).conseq (fun _ hw => hw) ?_ (fun _ _ hw => hw)
  intro r w hw
  cases r with
  | none => exact ⟨fun _ hnone => (nomatch hnone), hw⟩
  | some decision =>
      refine ⟨?_, hw.2⟩
      rintro _ ⟨⟩
      exact hw.1

theorem runBrain_keeps (call : BrainCall) : Keeps I (runBrain hunt runId call) :=
  Keeps.of_triple ((runBrain_gives h hA hcall (fun _ _ _ => trivial) call (Or.inr hrequest)
    call.gives_any).conseq (fun _ hw => hw) (fun _ _ hw => hw.2) (fun _ _ hw => hw))

theorem attemptBrain_keeps {context : Context} (hcontext : A (.other (.call context))) (n : Nat) :
    Keeps I (attemptBrain hunt runId context n) :=
  Keeps.of_triple ((attemptBrain_gives h hA hcall hrequest (fun _ _ _ => trivial)
    (fun n context => (hunt.brain n context).gives_any) hcontext n).conseq (fun _ hw => hw)
    (fun _ _ hw => hw.2) (fun _ _ hw => hw))

include htools hcontexts

/-- The loop keeps what its statements keep; its usages are those of the decisions the brain
    gives. -/
theorem driveFor_gives [PyRuntime]
    (hserver : ∀ n response, hunt.server n = .ok response → answers response)
    (hbrain : ∀ n context, (hunt.brain n context).Gives answers D)
    (husage : ∀ decision, D decision → ∀ u, decision.usage = some u →
      ∀ now, A (.execute (.appendEvent runId (.usage u) now)))
    (hcapture : ∀ posting, Keeps I (capturePrey runId hunt.territory posting hunt.publish))
    (n : Nat) : Keeps I (driveFor hunt runId n) := by
  induction n with
  | zero => exact Keeps.pure _
  | succ remaining ih =>
      refine (select_keeps h hA).bind (fun context => ?_)
      by_cases hceiling : hunt.costCeilingUsd ≤ foldCost context
      · rw [if_pos hceiling]
        exact Keeps.pure _
      rw [if_neg hceiling]
      refine Keeps.of_triple ((attemptBrain_gives h hA hcall hrequest hserver hbrain
        (hcontexts context) hunt.attempts).bind (fun r => Triple.of_and (fun hr => Keeps.triple ?_)))
      cases r with
      | none => exact Keeps.pure _
      | some decision =>
          have hdecision := husage decision (hr decision rfl)
          refine (appendUsage_keeps h hA hdecision).bind (fun _ => ?_)
          cases decision with
          | toolCall decision =>
              refine (runTool_keeps h hA htools).bind (fun goesOn => ?_)
              cases goesOn with
              | true => exact ih
              | false => exact Keeps.pure _
          | huntComplete catches usage =>
              have hloop : Keeps I (catches.forM fun posting => do
                  let _ ← capturePrey runId hunt.territory posting hunt.publish) :=
                Keeps.forM (fun posting => (hcapture posting).bind (fun _ => Keeps.pure _)) catches
              exact hloop.bind (fun _ => Keeps.pure _)
          | needsHelp usage => exact Keeps.pure _

omit hcall htools

theorem driveFor_keeps [PyRuntime] (happend : Appends A runId TrajectoryEvent.OfLoop)
    (hcapture : ∀ posting, Keeps I (capturePrey runId hunt.territory posting hunt.publish))
    (n : Nat) : Keeps I (driveFor hunt runId n) :=
  driveFor_gives h hA (happend.mono (fun _ => TrajectoryEvent.OfTool.ofLoop))
    (happend.mono (fun _ => TrajectoryEvent.OfCall.ofLoop)) hrequest hcontexts
    (fun _ _ _ => trivial)
    (fun n context => (hunt.brain n context).gives_any) (fun _ _ u _ now => happend (.usage u) now rfl)
    hcapture n

omit hrequest hcontexts

/-- What the statements of the handlers keep, the handlers keep. -/
theorem settle_keeps (hframe : Frameless I)
    (herror : ∀ exc now, A (.execute (.appendEvent runId (.error (handled hunt exc).1) now)))
    (hfinish : ∀ now outcome abortReason,
      A (.execute (.finishRun now outcome abortReason runId)))
    (r : Except (Exn PyExc) (RunOutcome × Option PyStr)) : Keeps I (settle hunt runId r) := by
  cases r with
  | ok result => exact reach_keeps h
  | error e =>
      cases e with
      | cancelled =>
          refine (reach_keeps h).bind (fun _ => ?_)
          refine (hframe.inFrame (hframe.shield (finishRun_keeps h hA ?_))).bind
            (fun _ => Keeps.throw _)
          exact fun now => hfinish now _ _
      | raised exc =>
          refine (hframe.inFrame (append_keeps h hA (fun now => herror _ now))).bind (fun _ => ?_)
          exact reach_keeps h

/-- The rule for the hunt: `Head` holds once the run has started with one of the ids, and what the
    loop is left with the handlers keep. -/
theorem runHunt_rule [PyRuntime] (hframe : Frameless I) (ids : PyStr → Prop)
    (Head : PyStr → Sess → Prop)
    (herror : ∀ runId exc now, ids runId →
      A (.execute (.appendEvent runId (.error (handled hunt exc).1) now)))
    (hfinish : ∀ now outcome abortReason runId, ids runId →
      A (.execute (.finishRun now outcome abortReason runId)))
    {P : Sess → Prop}
    (hstart : Triple P (Session.inFrame .starting
      (startRun hunt.territory (some hunt.costCeilingUsd) (some hunt.maxIterations)))
      (fun runId w => ids runId ∧ Head runId w) (fun _ => I))
    (hdrive : ∀ runId, ids runId → Triple (Head runId)
      (Session.inFrame .driving (drive hunt runId)) (fun _ => I) (fun _ => I)) :
    Triple P (runHunt hunt) (fun _ => I) (fun _ => I) := by
  refine hstart.bind (fun runId => Triple.of_and (fun hid => ?_))
  have hresult : Triple (Head runId)
      (Coro.observe (Session.inFrame .driving (drive hunt runId))) (fun _ => I) (fun _ => I) := by
    refine (hdrive runId hid).observe.conseq (fun _ hw => hw) ?_ (fun _ _ hw => hw)
    intro r w hw
    cases r with
    | ok result => exact hw
    | error e => exact hw
  refine hresult.bind (fun r => Keeps.triple ?_)
  refine (settle_keeps h hA hframe (fun e now => herror runId e now hid)
    (fun now o a => hfinish now o a runId hid) r).bind (fun result => ?_)
  refine (hframe.inFrame (finishRun_keeps h hA (fun now => hfinish now _ _ runId hid))).bind
    (fun _ => ?_)
  exact (pulse_keeps h).bind (fun _ => Keeps.pure runId)

/-- What the statements of the handlers and the loop keep, the hunt keeps. -/
theorem runHunt_of_drive [PyRuntime] (hframe : Frameless I)
    (herror : ∀ runId exc now,
      A (.execute (.appendEvent runId (.error (handled hunt exc).1) now)))
    (hstart : ∀ runId now, A (.execute (.insertRun runId hunt.territory now
      (some hunt.costCeilingUsd) (some hunt.maxIterations))))
    (hfinish : ∀ now outcome abortReason runId,
      A (.execute (.finishRun now outcome abortReason runId)))
    (hdrive : ∀ runId, Keeps I (drive hunt runId)) : Keeps I (runHunt hunt) :=
  Keeps.of_triple (runHunt_rule h hA hframe (fun _ => True) (fun _ => I)
    (fun runId e now _ => herror runId e now) (fun now o a runId _ => hfinish now o a runId)
    ((hframe.inFrame (startRun_keeps h hA hstart)).triple.conseq (fun _ hw => hw)
      (fun _ _ hw => ⟨trivial, hw⟩) (fun _ _ hw => hw))
    (fun runId _ => (hframe.inFrame (hdrive runId)).triple))

include hrequest hcontexts

/-- **Whatever the statements of the loop keep, the hunt keeps.** -/
theorem runHunt_keeps [PyRuntime] (hframe : Frameless I)
    (happend : ∀ runId, Appends A runId TrajectoryEvent.OfLoop)
    (hstart : ∀ runId now, A (.execute (.insertRun runId hunt.territory now
      (some hunt.costCeilingUsd) (some hunt.maxIterations))))
    (hfinish : ∀ now outcome abortReason runId,
      A (.execute (.finishRun now outcome abortReason runId)))
    (hcapture : ∀ runId posting, Keeps I (capturePrey runId hunt.territory posting hunt.publish)) :
    Keeps I (runHunt hunt) :=
  runHunt_of_drive h hA hframe (fun runId _ now => happend runId _ now (by rfl)) hstart hfinish
    (fun runId => driveFor_keeps h hA hrequest hcontexts (happend runId) (hcapture runId) _)

end Keeps

/-! ## An append that changes what holds of the tables -/

/-- What is no statement keeps every property of the tables. -/
theorem onTables_inert (P : Tables → Prop) :
    Closed Stmt.exec (fun op : Op => ∀ s, op ≠ .execute s) (OnTables P) :=
  closed_onTables (fun s _ _ _ hs _ _ _ => absurd rfl (hs s))

theorem inert_controls : Controls (fun op : Op => ∀ s, op ≠ .execute s) :=
  ⟨nofun, nofun, fun _ _ => nofun⟩

/-- An append leads from `P` to `Q`; if it fails on the way, both databases are still in `R`. -/
theorem append_moves {hunt : Hunt} {runId : PyStr} {event : TrajectoryEvent}
    {P Q R : Tables → Prop} (hP : ∀ t, P t → R t) (hQ : ∀ t, Q t → R t)
    (hstep : ∀ now t t' c, P t → (Stmt.appendEvent runId event now).apply t = .ok (c, t') → Q t') :
    Triple (OnTables P) (append hunt runId event) (fun _ => OnTables Q) (fun _ => OnTables R) := by
  have hstart : ∀ w, OnTables P w → OnTables R w := fun _ hw => ⟨hP _ hw.1, hP _ hw.2⟩
  have hend : ∀ w, OnTables Q w → OnTables R w := fun _ hw => ⟨hQ _ hw.1, hQ _ hw.2⟩
  refine Triple.bind ?_ (fun _ => Triple.pure (fun _ hw => hw))
  refine (dump_keeps (onTables_inert P) inert_controls).triple.seq (fun _ => hstart) (fun _ => ?_)
  refine (utcnow_keeps (onTables_inert P)).triple.seq (fun _ => hstart) (fun now => ?_)
  refine Triple.bind (Q := fun _ w => P w.conn.committed.tables ∧ Q w.conn.view.tables) ?_
    (fun cursor => ?_)
  · -- the INSERT
    refine Session.await_triple ?_ ?_
    · intro w cursor c hw hact
      obtain ⟨d, hd, rfl⟩ := Session.execute_ok hact
      exact ⟨hw.1, hstep now _ _ _ hw.2 (Stmt.exec_ok hd)⟩
    · intro w e fate c hw _ hland
      cases hland with
      | done a c hact | executed a c hact =>
          obtain ⟨d, hd, rfl⟩ := Session.execute_ok hact
          exact ⟨hP _ hw.1, hQ _ (hstep now _ _ _ hw.2 (Stmt.exec_ok hd))⟩
      | raised | skipped => exact hstart w hw
      | rolledBack => exact ⟨hP _ hw.1, hP _ hw.1⟩
  refine Triple.bind (Q := fun _ => OnTables Q) ?_ (fun _ => ?_)
  · -- the COMMIT
    refine Session.await_triple ?_ ?_
    · intro w a c hw hact
      cases hact
      exact ⟨hw.2, hw.2⟩
    · intro w e fate c hw _ hland
      cases hland with
      | done a c hact | executed a c hact =>
          cases hact
          exact ⟨hQ _ hw.2, hQ _ hw.2⟩
      | raised | skipped => exact ⟨hP _ hw.1, hQ _ hw.2⟩
      | rolledBack => exact ⟨hP _ hw.1, hP _ hw.1⟩
  · cases cursor.lastrowid with
    | none => exact Triple.throw hend
    | some eventId =>
        exact ((publishEvent_keeps (onTables_inert Q)).bind (fun _ => Keeps.pure eventId)).triple.conseq
          (fun _ hw => hw) (fun _ _ hw => hw) (fun _ => hend)

/-! ## The loop, with an invariant for each of its places -/

/-- What holds at the places of the loop: at its head with so many iterations left, once the log is
    folded, when the brain has returned a decision, after the append of the usage, and when the loop
    is left. -/
structure LoopPlaces where
  head : Nat → Sess → Prop
  called : Nat → Context → Sess → Prop
  decided : Nat → Context → Decision → Sess → Prop
  paid : Nat → Decision → Sess → Prop
  left : Sess → Prop
  failed : Exn PyExc → Sess → Prop

/-- Each part of an iteration leads from its place to the next. -/
structure LoopPlaces.Holds [PyRuntime] (at' : LoopPlaces) (hunt : Hunt) (runId : PyStr) : Prop where
  exhausted : ∀ w, at'.head 0 w → at'.left w
  read : ∀ n, Triple (at'.head (n + 1)) (readEvents runId) (at'.called n) at'.failed
  spent : ∀ n context w, at'.called n context w → at'.left w
  call : ∀ n context, foldCost context < hunt.costCeilingUsd →
    Triple (at'.called n context) (callBrain hunt runId context)
      (fun r w => match r with
        | none => at'.left w
        | some decision => at'.decided n context decision w) at'.failed
  pay : ∀ n context decision, foldCost context < hunt.costCeilingUsd →
    Triple (at'.decided n context decision) (appendUsage hunt runId decision.usage)
      (fun _ => at'.paid n decision) at'.failed
  tool : ∀ n decision, Triple (at'.paid n (.toolCall decision)) (runTool hunt runId decision)
    (fun goesOn w => if goesOn then at'.head n w else at'.left w) at'.failed
  capture : ∀ n decision posting, Triple (at'.paid n decision)
    (capturePrey runId hunt.territory posting hunt.publish) (fun _ => at'.paid n decision) at'.failed
  closed : ∀ n decision w, at'.paid n decision w → at'.left w

/-- **The rule for the loop**, by induction on the iterations left. -/
theorem driveFor_rule [PyRuntime] {at' : LoopPlaces} {hunt : Hunt} {runId : PyStr}
    (h : at'.Holds hunt runId) (n : Nat) :
    Triple (at'.head n) (driveFor hunt runId n) (fun _ => at'.left) at'.failed := by
  induction n with
  | zero => exact Triple.pure h.exhausted
  | succ remaining ih =>
      refine (h.read remaining).bind (fun context => ?_)
      by_cases hceiling : hunt.costCeilingUsd ≤ foldCost context
      · rw [if_pos hceiling]
        exact Triple.pure (h.spent remaining context)
      rw [if_neg hceiling]
      have hbelow := not_le.1 hceiling
      refine (h.call remaining context hbelow).bind (fun r => ?_)
      cases r with
      | none => exact Triple.pure (fun _ hw => hw)
      | some decision =>
          refine (h.pay remaining context decision hbelow).bind (fun _ => ?_)
          cases decision with
          | toolCall decision =>
              refine (h.tool remaining decision).bind (fun goesOn => ?_)
              cases goesOn with
              | true => exact ih
              | false => exact Triple.pure (fun _ hw => hw)
          | huntComplete catches usage =>
              have hcapture : ∀ posting, Triple (at'.paid remaining (.huntComplete catches usage)) (do
                  let _ ← capturePrey runId hunt.territory posting hunt.publish)
                  (fun _ => at'.paid remaining (.huntComplete catches usage)) at'.failed :=
                fun posting => (h.capture remaining _ posting).bind
                  (fun _ => Triple.pure (fun _ hw => hw))
              exact (Triple.forM hcapture catches).bind
                (fun _ => Triple.pure (h.closed remaining _))
          | needsHelp usage => exact Triple.pure (h.closed remaining _)

end RexHunter
