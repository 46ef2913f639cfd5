import RexHunter.Proofs.Backstop
import RexHunter.Proofs.Usage

set_option autoImplicit false

/-! # The logs on which the brain is called

A brain call is given the log of the run as it stands at the head of an iteration. A property of
logs holds at every brain call if it holds of the empty log and the events between two turns keep
it, and if a tool call that lets the hunt go on leaves a log of which it holds again. -/

namespace RexHunter

open Session (Closed Frameless)
open Coro (Keeps Triple)

/-- Every brain call of the trace was made on a log with this property. -/
def CallsOn (L : Context → Prop) (trace : List (Step Frame Op)) : Prop :=
  ∀ st ∈ trace, ∀ context, st.op = .other (.call context) → L context

/-- If the operation is a brain call, it is made on a log with this property. -/
def OnCall (L : Context → Prop) (op : Op) : Prop := ∀ context, op = .other (.call context) → L context

/-- The log of the run has this property, in the database and in the open transaction. -/
abbrev OnLog (L : Context → Prop) (runId : PyStr) : Sess → Prop :=
  OnTables (fun t => L (t.readEvents runId))

/-- The events that are appended between the tool calls. -/
def TrajectoryEvent.Interlude : TrajectoryEvent → Prop
  | .error e => e.tool = py "<brain>"
  | .thinkingDelta _ => True
  | .usage _ => True
  | .preyCaptured _ => True
  | _ => False

theorem TrajectoryEvent.OfCall.interlude {event : TrajectoryEvent} (h : event.OfCall) :
    event.Interlude := by
  cases event with
  | error e => exact h
  | thinkingDelta e => trivial
  | sniff | toolCall | toolResult | preyCaptured | usage => exact h.elim

/-! ## The contexts of a trace -/

/-- The context of a brain call. -/
def callContext : Op → Option Context
  | .other (.call context) => some context
  | _ => none

/-- The contexts of the brain calls of a run. -/
def contexts (trace : List (Step Frame Op)) : List Context :=
  trace.filterMap (fun st => callContext st.op)

theorem op_of_mem_contexts {trace : List (Step Frame Op)} {context : Context}
    (h : context ∈ contexts trace) : ∃ st ∈ trace, st.op = .other (.call context) := by
  obtain ⟨st, hst, hcall⟩ := List.mem_filterMap.1 h
  refine ⟨st, hst, ?_⟩
  unfold callContext at hcall
  split at hcall
  · next hop =>
      cases hcall
      exact hop
  · cases hcall

/-! ## An append -/

variable {L L' : Context → Prop} {D : Decision → Prop} {runId : PyStr} {hunt : Hunt}

theorem callsOn_closed : Closed Stmt.exec (OnCall L) (fun w : Sess => CallsOn L w.trace) := by
  refine Session.closed_trace (J := CallsOn L) ?_
  intro trace st hop h st' hst' context hcall
  rcases List.mem_append.1 hst' with hst' | hst'
  · exact h st' hst' context hcall
  · rw [List.mem_singleton.1 hst'] at hcall
    exact hop context hcall

theorem callsOn_frameless : Frameless (fun w : Sess => CallsOn L w.trace) :=
  Session.frameless_trace (CallsOn L)

theorem onCall_execute (s : Stmt) : OnCall L (.execute s) := fun _ h => nomatch h

theorem onCall_controls : Controls (OnCall L) where
  commit := fun _ h => nomatch h
  rollback := fun _ h => nomatch h
  other := by
    intro x hx context hcall
    cases hcall
    cases hx

/-- An append takes the log from one property to another. -/
theorem append_log {event : TrajectoryEvent} (hstep : ∀ log, L log → L' (log ++ [event])) :
    Triple (OnLog L runId) (append hunt runId event) (fun _ => OnLog L' runId)
      (fun _ _ => True) := by
  refine (append_moves (R := fun _ => True) (fun _ _ => trivial) (fun _ _ => trivial)
    (Q := fun t => L' (t.readEvents runId)) (fun now t t' c hlog happly => ?_)).conseq
    (fun _ hw => hw) (fun _ _ hw => hw) (fun _ _ _ => trivial)
  rw [Tables.readEvents_append runId happly, if_pos rfl]
  exact hstep _ hlog

/-- A call that is refused closes the run. -/
theorem refuseTool_stops [PyRuntime] {P : Sess → Prop} {d : ToolCallDecision} {error detail : PyStr} :
    Triple P (refuseTool hunt runId d error detail) (fun goesOn _ => goesOn = false)
      (fun _ _ => True) := by
  have hany : ∀ {α : Type} (m : Prog α), Triple P m (fun _ _ => True) (fun _ _ => True) :=
    fun m => (Triple.of_final (T := fun _ => True) (fun _ _ => trivial)).pre (fun _ _ => trivial)
  refine (hany _).bind (fun rawRequest => ?_)
  exact ((Triple.of_final (T := fun _ => True) (fun _ _ => trivial)).bind
    (fun _ => Triple.pure (fun _ _ => rfl)))

/-! ## A run -/

/-- What holds at the places of the loop. -/
def contextPlaces (L : Context → Prop) (D : Decision → Prop) (runId : PyStr) : LoopPlaces where
  head _ w := OnLog L runId w ∧ CallsOn L w.trace
  called _ context w := L context ∧ OnLog L runId w ∧ CallsOn L w.trace
  decided _ _ decision w := D decision ∧ OnLog L runId w ∧ CallsOn L w.trace
  paid _ decision w := D decision ∧ OnLog L runId w ∧ CallsOn L w.trace
  left w := CallsOn L w.trace
  failed _ w := CallsOn L w.trace

/-- What is done between the tool calls, on a log with the property. -/
def Resting (L : Context → Prop) (runId : PyStr) (op : Op) : Prop :=
  AppendsOnly runId TrajectoryEvent.Interlude op ∧ OnCall L op

theorem resting_controls : Controls (Resting L runId) :=
  ⟨⟨(appendsOnly_controls _).commit, onCall_controls.commit⟩,
    ⟨(appendsOnly_controls _).rollback, onCall_controls.rollback⟩,
    fun x hx => ⟨(appendsOnly_controls _).other x hx, onCall_controls.other x hx⟩⟩

theorem resting_append {event : TrajectoryEvent} (h : event.Interlude) (now : PyStr) :
    Resting L runId (.execute (.appendEvent runId event now)) :=
  ⟨appendsOnly_append h now, onCall_execute _⟩

theorem resting_unappended {s : Stmt} (h : s.appended = none) : Resting L runId (.execute s) :=
  ⟨appendsOnly_unappended h, onCall_execute s⟩

section Run

variable [PyRuntime]
  (hinterlude : ∀ log event, L log → event.Interlude → L (log ++ [event]))

include hinterlude

omit [PyRuntime] in
theorem resting_closed : Closed Stmt.exec (Resting L runId)
    (fun w => OnLog L runId w ∧ CallsOn L w.trace) :=
  ((log_closed hinterlude).mono (fun _ hop => hop.1)).and (callsOn_closed.mono (fun _ hop => hop.2))

theorem contextPlaces_holds {answers : Response → Prop}
    (hserver : ∀ n response, hunt.server n = .ok response → answers response)
    (hbrain : ∀ n context, (hunt.brain n context).Gives answers D)
    (htool : ∀ decision, D (.toolCall decision) → Triple (OnLog L runId)
      (runTool hunt runId decision) (fun goesOn w => goesOn = true → OnLog L runId w)
      (fun _ _ => True)) :
    (contextPlaces L D runId).Holds hunt runId := by
  have h : Closed Stmt.exec (Resting L runId) (fun w => OnLog L runId w ∧ CallsOn L w.trace) :=
    resting_closed hinterlude
  have hA : Controls (Resting L runId) := resting_controls
  refine ⟨fun _ hw => hw.2, fun n => ?_, fun _ _ _ hw => hw.2.2, fun n context _ => ?_,
    fun n context decision _ => ?_, fun n decision => ?_, fun n decision posting => ?_,
    fun _ _ _ hw => hw.2.2⟩
  · exact (select_triple h hA).conseq (fun _ hw => hw)
      (fun context w hw => ⟨hw.1 ▸ hw.2.1.2, hw.2⟩) (fun _ _ hw => hw.2)
  · refine Triple.of_and (fun hcontext => ?_)
    have hcall : Resting L runId (.other (.call context)) := by
      refine ⟨appendsOnly_other (fun _ h => nomatch h), fun context' hop => ?_⟩
      cases hop
      exact hcontext
    have hrequest : Resting L runId (.other .request) :=
      ⟨appendsOnly_other (fun _ h => nomatch h), fun _ h => nomatch h⟩
    refine (attemptBrain_gives h hA (fun _ now hevent => resting_append hevent.interlude now)
      hrequest hserver hbrain hcall hunt.attempts).conseq (fun _ hw => hw) ?_ (fun _ _ hw => hw.2)
    rintro r w ⟨hgives, hw⟩
    cases r with
    | none => exact hw.2
    | some decision => exact ⟨hgives decision rfl, hw⟩
  · refine Triple.of_and (fun hdecision => ?_)
    have husage : ∀ u now, Resting L runId (.execute (.appendEvent runId (.usage u) now)) :=
      fun u now => resting_append (by exact trivial) now
    exact (appendUsage_keeps h hA (fun u _ => husage u)).triple.conseq (fun _ hw => hw)
      (fun _ _ hw => ⟨hdecision, hw⟩) (fun _ _ hw => hw.2)
  · refine Triple.of_and (fun hdecision => ?_)
    have hcalls : Keeps (fun w : Sess => CallsOn L w.trace) (runTool hunt runId decision) :=
      runTool_keeps callsOn_closed onCall_controls (fun _ _ _ => onCall_execute _)
    refine (hcalls.and_triple (htool decision hdecision)).conseq (fun _ hw => hw) ?_
      (fun _ _ hw => hw.2)
    intro goesOn w hw
    cases goesOn with
    | true => exact ⟨hw.1 rfl, hw.2⟩
    | false => exact hw.2
  · refine Triple.of_and (fun hdecision => ?_)
    have hcaptured : ∀ e now,
        Resting L runId (.execute (.appendEvent runId (.preyCaptured e) now)) :=
      fun e now => resting_append (by exact trivial) now
    exact (capturePrey_keeps h hA hcaptured (fun _ _ => resting_unappended rfl)).triple.conseq (fun _ hw => hw)
      (fun _ _ hw => ⟨hdecision, hw⟩) (fun _ _ hw => hw.2)

omit [PyRuntime] hinterlude in
/-- The log of a run is empty once it has started; what else the start keeps is kept. -/
theorem startRun_onLog (hempty : L []) {territory : PyStr} {costCeilingUsd : Option ℚ}
    {maxIterations : Option Int} {env : Env} {db : Db} {I : Sess → Prop} (hframe : Frameless I)
    (hstart : Keeps I (startRun territory costCeilingUsd maxIterations))
    (hI : I (env.session db)) :
    Triple (fun w => w = env.session db)
      (Session.inFrame .starting (startRun territory costCeilingUsd maxIterations))
      (fun id w => OnLog L id w ∧ I w) (fun _ => I) := by
  have hopen : Triple (fun w : Sess => w.conn = Conn.opened db)
      (startRun territory costCeilingUsd maxIterations) (fun id => OnLog L id)
      (fun _ _ => True) := by
    refine Triple.bind (Q := fun _ w => w.conn = Conn.opened db)
      (Session.useVars_triple (fun _ _ hw => hw)) (fun id => ?_)
    refine Triple.bind (Q := fun _ w => w.conn = Conn.opened db)
      (Session.useVars_triple (fun _ _ hw => hw)) (fun now => ?_)
    refine Triple.bind (Q := fun _ => OnLog L id) ?_ (fun _ => ?_)
    · -- the INSERT
      refine Session.await_triple ?_ (fun _ _ _ _ _ _ _ => trivial)
      intro w cursor c hconn hact
      obtain ⟨d, hd, rfl⟩ := Session.execute_ok hact
      rw [hconn] at hd
      have happly := Stmt.exec_ok hd
      have hnone : db.tables.readEvents id = [] :=
        db.schema.readEvents_eq_nil (Stmt.apply_insertRun happly).1
      refine ⟨?_, ?_⟩
      · show L (w.conn.committed.tables.readEvents id)
        rw [hconn]
        exact hnone ▸ hempty
      · show L (d.tables.readEvents id)
        rw [Tables.readEvents_unappended id happly rfl]
        exact hnone ▸ hempty
    · have hcommit : Keeps (OnLog L id) commit := commit_keeps (onTables_inert _) inert_controls
      exact hcommit.triple.seq (fun _ _ _ => trivial) (fun _ => Triple.pure (fun _ hw => hw))
  have hboth : Triple (fun w => w.conn = Conn.opened db ∧ I w)
      (Session.inFrame .starting (startRun territory costCeilingUsd maxIterations))
      (fun id w => OnLog L id w ∧ I w) (fun _ => I) := by
    refine Session.inFrame_triple (fun w f hw => ⟨hw.1, hframe.frame w f hw.2⟩)
      (fun _ w f hw => ⟨hw.1, hframe.frame w f hw.2⟩) (fun _ w f hw => hframe.frame w f hw) ?_
    exact (hstart.and_triple hopen).conseq (fun _ hw => hw.2) (fun _ _ hw => hw)
      (fun _ _ hw => hw.2)
  refine hboth.pre ?_
  rintro w rfl
  exact ⟨rfl, hI⟩

/-- **What holds at every brain call of a run**, whatever faults meet it. -/
theorem runHunt_contexts (hempty : L []) {answers : Response → Prop}
    (hserver : ∀ n response, hunt.server n = .ok response → answers response)
    (hbrain : ∀ n context, (hunt.brain n context).Gives answers D)
    (htool : ∀ runId decision, D (.toolCall decision) → Triple (OnLog L runId)
      (runTool hunt runId decision) (fun goesOn w => goesOn = true → OnLog L runId w)
      (fun _ _ => True)) (env : Env) (db : Db) :
    CallsOn L ((runHunt hunt).exec (env.session db)).2.trace := by
  have hrun : Triple (fun w => w = env.session db) (runHunt hunt) (fun _ w => CallsOn L w.trace)
      (fun _ w => CallsOn L w.trace) := by
    refine runHunt_rule callsOn_closed onCall_controls callsOn_frameless (fun _ => True)
      (fun id w => OnLog L id w ∧ CallsOn L w.trace) (fun _ _ _ _ => onCall_execute _)
      (fun _ _ _ _ _ => onCall_execute _) ?_ (fun runId _ => ?_)
    · have hstart : Keeps (fun w : Sess => CallsOn L w.trace) (startRun hunt.territory
          (some hunt.costCeilingUsd) (some hunt.maxIterations)) :=
        startRun_keeps callsOn_closed onCall_controls (fun _ _ => onCall_execute _)
      exact (startRun_onLog hempty callsOn_frameless hstart (fun _ hst => nomatch hst)).conseq
        (fun _ hw => hw) (fun _ _ hw => ⟨trivial, hw⟩) (fun _ _ hw => hw)
    · refine Session.inFrame_triple (fun _ _ hw => hw) (fun _ _ _ hw => hw) (fun _ _ _ hw => hw) ?_
      exact (driveFor_rule (contextPlaces_holds hinterlude hserver hbrain (htool runId)) _).pre
        (fun _ hw => hw.2)
  exact hrun.final rfl

end Run

end RexHunter
