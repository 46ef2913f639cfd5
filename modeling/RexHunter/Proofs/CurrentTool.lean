import RexHunter.Proofs.Breaker
import RexHunter.Proofs.Grammar
import RexHunter.Proofs.View

set_option autoImplicit false

/-! # The current tool of the board

The board has only the events to tell what the loop is at. The loop dispatches a call and then makes
its attempts, with nothing else in between, so the log says where the loop is (`Course`): between the
calls, or in a call with so many attempts left. The fold closes a call at its first error, whether
the loop tries again or not; so the board shows a tool during its first attempt only. -/

namespace RexHunter

open Session (Closed Frameless)
open Coro (Keeps Triple)

/-! ## Where the loop is -/

/-- Between two calls, or in the attempts of a call, with the attempts it has left. -/
inductive Place where
  | between
  | attempting (call : ToolCallEvent) (left : Nat)
deriving DecidableEq, Repr

/-- Neither dispatches a call nor answers one. -/
def TrajectoryEvent.Idle : TrajectoryEvent → Prop
  | .toolCall _ => False
  | .toolResult _ => False
  | _ => True

/-- What the loop appends at each place. An error of the call is retried while it is retryable and
    attempts are left; an error under another name ends the run without one of the call. -/
inductive Course (attempts : Nat) : Place → List TrajectoryEvent → Prop where
  | empty : Course attempts .between []
  | idle {log : List TrajectoryEvent} {event : TrajectoryEvent} (h : Course attempts .between log)
      (hevent : event.Idle) : Course attempts .between (log ++ [event])
  | dispatched {log : List TrajectoryEvent} (call : ToolCallEvent)
      (h : Course attempts .between log) :
      Course attempts (.attempting call attempts) (log ++ [.toolCall call])
  | retried {log : List TrajectoryEvent} {call : ToolCallEvent} {left : Nat} {e : ErrorEvent}
      (h : Course attempts (.attempting call (left + 2)) log) (htool : e.tool = call.tool)
      (hretry : e.retryable = true) :
      Course attempts (.attempting call (left + 1)) (log ++ [.error e])
  | givenUp {log : List TrajectoryEvent} {call : ToolCallEvent} {left : Nat} {e : ErrorEvent}
      (h : Course attempts (.attempting call left) log) (htool : e.tool = call.tool)
      (hlast : e.retryable = true → left ≤ 1) : Course attempts .between (log ++ [.error e])
  | returned {log : List TrajectoryEvent} {call : ToolCallEvent} {left : Nat}
      {result : ToolResultEvent} (h : Course attempts (.attempting call left) log)
      (htool : result.tool = call.tool) : Course attempts .between (log ++ [.toolResult result])
  | handled {log : List TrajectoryEvent} {call : ToolCallEvent} {left : Nat} {e : ErrorEvent}
      (h : Course attempts (.attempting call left) log) (htool : e.tool ≠ call.tool) :
      Course attempts (.attempting call left) (log ++ [.error e])

variable {attempts : Nat} {log : List TrajectoryEvent}

theorem Course.left_le {place : Place} (h : Course attempts place log) :
    ∀ call left, place = .attempting call left → left ≤ attempts := by
  induction h with
  | empty | idle | givenUp | returned => exact nofun
  | dispatched call _ _ =>
      rintro _ _ ⟨⟩
      exact Nat.le_refl _
  | retried _ _ _ ih =>
      rintro _ _ ⟨⟩
      exact Nat.le_of_succ_le (ih _ _ rfl)
  | handled _ _ ih =>
      rintro _ _ ⟨⟩
      exact ih _ _ rfl

/-- Where the loop is after one more event. -/
def Place.next (attempts : Nat) : Place → TrajectoryEvent → Place
  | _, .toolCall call => .attempting call attempts
  | _, .toolResult _ => .between
  | .attempting call left, .error e =>
      if e.tool = call.tool then
        if e.retryable = true ∧ 2 ≤ left then .attempting call (left - 1) else .between
      else .attempting call left
  | place, _ => place

/-- Where the loop is after these events. -/
def placeOf (attempts : Nat) (log : List TrajectoryEvent) : Place :=
  log.foldl (Place.next attempts) .between

theorem placeOf_snoc (attempts : Nat) (log : List TrajectoryEvent) (event : TrajectoryEvent) :
    placeOf attempts (log ++ [event]) = (placeOf attempts log).next attempts event := by
  simp [placeOf]

/-- **The log says where the loop is.** -/
theorem Course.placeOf_eq {place : Place} (h : Course attempts place log) :
    placeOf attempts log = place := by
  induction h with
  | empty => rfl
  | @idle log event _ hevent ih =>
      rw [placeOf_snoc, ih]
      cases event with
      | toolCall | toolResult => exact hevent.elim
      | sniff | error | preyCaptured | usage | thinkingDelta => rfl
  | dispatched call _ ih =>
      rw [placeOf_snoc, ih]
      rfl
  | retried _ htool hretry ih =>
      rw [placeOf_snoc, ih]
      simp [Place.next, htool, hretry]
  | givenUp _ htool hlast ih =>
      rw [placeOf_snoc, ih]
      simp only [Place.next, if_pos htool]
      refine if_neg ?_
      rintro ⟨hretry, hleft⟩
      have hone := hlast hretry
      omega
  | returned _ _ ih =>
      rw [placeOf_snoc, ih]
      rfl
  | handled _ htool ih =>
      rw [placeOf_snoc, ih]
      exact if_neg htool

/-- A log of a run up to any of its events is one, too. -/
theorem Course.prefixed {place : Place} (h : Course attempts place log) :
    ∀ {l : List TrajectoryEvent}, l <+: log → ∃ place', Course attempts place' l := by
  have hstep : ∀ {log : List TrajectoryEvent} {event : TrajectoryEvent} {place : Place},
      Course attempts place (log ++ [event]) →
      (∀ {l}, l <+: log → ∃ place', Course attempts place' l) →
      ∀ {l}, l <+: log ++ [event] → ∃ place', Course attempts place' l := by
    intro log event place hlog ih l hl
    rcases List.prefix_concat_iff.1 hl with rfl | hl
    · exact ⟨place, hlog⟩
    · exact ih hl
  induction h with
  | empty =>
      intro l hl
      rw [List.prefix_nil.1 hl]
      exact ⟨_, .empty⟩
  | idle h hevent ih => exact hstep (.idle h hevent) ih
  | dispatched call h ih => exact hstep (.dispatched call h) ih
  | retried h htool hretry ih => exact hstep (.retried h htool hretry) ih
  | givenUp h htool hlast ih => exact hstep (.givenUp h htool hlast) ih
  | returned h htool ih => exact hstep (.returned h htool) ih
  | handled h htool ih => exact hstep (.handled h htool) ih

/-! ## What the board shows -/

/-- The open tool of a run after its events. -/
def openTool (events : List TrajectoryEvent) : Option PyStr :=
  (runAfter none events).bind RunAcc.openTool

/-- What the fold makes of one more event. -/
def nextTool (tool : Option PyStr) : TrajectoryEvent → Option PyStr
  | .toolCall e => some e.tool
  | .toolResult _ => none
  | .error e => if some e.tool = tool then none else tool
  | _ => tool

theorem openTool_snoc (events : List TrajectoryEvent) (event : TrajectoryEvent) :
    openTool (events ++ [event]) = nextTool (openTool events) event := by
  have hrun : runAfter none (events ++ [event])
      = some (((runAfter none events).getD RunAcc.new).apply event) := by
    unfold runAfter
    rw [List.foldl_append]
    rfl
  unfold openTool
  rw [hrun]
  cases runAfter none events with
  | none => cases event <;> rfl
  | some run => cases event <;> rfl

/-- The tool whose first attempt is under way. -/
def Place.shown (attempts : Nat) : Place → Option PyStr
  | .between => none
  | .attempting call left => if left = attempts then some call.tool else none

/-- The tool of the call the loop is in, whichever attempt it is. -/
def Place.tool : Place → Option PyStr
  | .between => none
  | .attempting call _ => some call.tool

/-- **The board shows a tool during its first attempt**, by induction on how the log came about. -/
theorem Course.openTool_eq {place : Place} (h : Course attempts place log) :
    openTool log = place.shown attempts := by
  induction h with
  | empty => rfl
  | @idle log event _ hevent ih =>
      rw [openTool_snoc, ih]
      cases event with
      | toolCall | toolResult => exact hevent.elim
      | sniff | error | preyCaptured | usage | thinkingDelta => rfl
  | dispatched call _ _ =>
      rw [openTool_snoc]
      exact (if_pos rfl).symm
  | @retried log call left e h htool _ ih =>
      -- the board closes the call, and the loop has used up an attempt
      have hleft := h.left_le _ _ rfl
      rw [openTool_snoc, ih, Place.shown, Place.shown, if_neg (by omega : left + 1 ≠ attempts)]
      by_cases hfirst : left + 2 = attempts <;> simp [nextTool, hfirst, htool]
  | @givenUp log call left e _ htool _ ih =>
      rw [openTool_snoc, ih, Place.shown]
      by_cases hfirst : left = attempts <;> simp [nextTool, Place.shown, hfirst, htool]
  | returned _ _ _ =>
      rw [openTool_snoc]
      rfl
  | @handled log call left e _ htool ih =>
      rw [openTool_snoc, ih, Place.shown]
      by_cases hfirst : left = attempts <;> simp [nextTool, hfirst, htool]

/-! ## The loop keeps its course -/

section Loop

variable {hunt : Hunt} {runId : PyStr}

/-- The log of the run says that the loop is here. -/
def Stage (hunt : Hunt) (runId : PyStr) (place : Place) (t : Tables) : Prop :=
  Course hunt.attempts place (t.readEvents runId)

/-- The log of the run is one the loop can have written. -/
def OnCourse (hunt : Hunt) (runId : PyStr) (t : Tables) : Prop := ∃ place, Stage hunt runId place t

theorem between_closed :
    Closed Stmt.exec (AppendsOnly runId TrajectoryEvent.Idle)
      (OnTables (Stage hunt runId .between)) :=
  log_closed (fun _ _ h hevent => h.idle hevent)

/-- The error of a handler, wherever the loop was left. -/
def TrajectoryEvent.Fatal : TrajectoryEvent → Prop
  | .error e => e.retryable = false
  | _ => False

theorem onCourse_closed :
    Closed Stmt.exec (AppendsOnly runId TrajectoryEvent.Fatal) (OnTables (OnCourse hunt runId)) := by
  refine log_closed (L := fun log => ∃ place, Course hunt.attempts place log) ?_
  rintro log event ⟨place, h⟩ hevent
  cases event with
  | error e =>
      cases place with
      | between => exact ⟨_, h.idle trivial⟩
      | attempting call left =>
          by_cases htool : e.tool = call.tool
          · exact ⟨_, h.givenUp htool (fun hretry => nomatch hevent.symm.trans hretry)⟩
          · exact ⟨_, h.handled htool⟩
  | sniff | toolCall | toolResult | preyCaptured | usage | thinkingDelta => exact hevent.elim

/-- An append that leads from one place to the next. -/
theorem append_course {event : TrajectoryEvent} {place place' : Place}
    (hstep : ∀ log, Course hunt.attempts place log → Course hunt.attempts place' (log ++ [event])) :
    Triple (OnTables (Stage hunt runId place)) (append hunt runId event)
      (fun _ => OnTables (Stage hunt runId place')) (fun _ => OnTables (OnCourse hunt runId)) := by
  refine append_moves (fun _ ht => ⟨_, ht⟩) (fun _ ht => ⟨_, ht⟩) (fun now t t' c ht happly => ?_)
  unfold Stage
  rw [Tables.readEvents_append runId happly, if_pos rfl]
  exact hstep _ ht

theorem onCourse_of_stage {place : Place} (w : Sess) (h : OnTables (Stage hunt runId place) w) :
    OnTables (OnCourse hunt runId) w :=
  ⟨⟨_, h.1⟩, ⟨_, h.2⟩⟩

/-- Where a tool call leaves the loop: between two calls, or at the end of the run. -/
def AfterTool (hunt : Hunt) (runId : PyStr) (goesOn : Bool) (w : Sess) : Prop :=
  if goesOn then OnTables (Stage hunt runId .between) w else OnTables (OnCourse hunt runId) w

/-- **The attempts of a tool**, by induction on the attempts left. -/
theorem attemptTool_course [PyRuntime] {d : ToolCallDecision} {tool : RegisteredTool} {kwargs : Dict}
    {rawRequest : PyBytes} {call : ToolCallEvent} (hname : d.tool = call.tool) (n : Nat) :
    Triple (OnTables (Stage hunt runId (.attempting call n)))
      (attemptTool hunt runId d tool kwargs rawRequest n) (AfterTool hunt runId)
      (fun _ => OnTables (OnCourse hunt runId)) := by
  induction n with
  | zero => exact Triple.pure onCourse_of_stage
  | succ remaining ih =>
      refine (executeOnce_keeps (onTables_inert _) inert_controls).observe.triple.seq
        (fun _ => onCourse_of_stage) (fun r => ?_)
      cases r with
      | ok rawResponse =>
          exact (append_course (fun log h => h.returned hname)).bind
            (fun _ => Triple.pure (fun _ hw => hw))
      | error e =>
          cases e with
          | cancelled => exact Triple.throw onCourse_of_stage
          | raised exc =>
              by_cases hretry : classify exc ∧ remaining ≠ 0
              · obtain ⟨left, rfl⟩ := Nat.exists_eq_succ_of_ne_zero hretry.2
                refine (append_course (fun log h => h.retried hname hretry.1)).bind (fun _ => ?_)
                rw [if_pos hretry]
                exact ih
              · have hlast : classify exc = true → remaining + 1 ≤ 1 := by
                  intro hcls
                  by_contra hleft
                  exact hretry ⟨hcls, by omega⟩
                refine (append_course (fun log h => h.givenUp hname hlast)).bind (fun _ => ?_)
                rw [if_neg hretry]
                exact Triple.pure onCourse_of_stage

theorem runTool_course [PyRuntime] (d : ToolCallDecision) :
    Triple (OnTables (Stage hunt runId .between)) (runTool hunt runId d) (AfterTool hunt runId)
      (fun _ => OnTables (OnCourse hunt runId)) := by
  have hrefuse : ∀ error detail, Triple (OnTables (Stage hunt runId .between))
      (refuseTool hunt runId d error detail) (AfterTool hunt runId)
      (fun _ => OnTables (OnCourse hunt runId)) := by
    intro error detail
    refine (attempt_keeps (onTables_inert _) inert_controls).triple.seq
      (fun _ => onCourse_of_stage) (fun rawRequest => ?_)
    have hidle : TrajectoryEvent.Idle (.error ⟨d.tool, false, error, rawRequest, none, some detail⟩) :=
      trivial
    refine (append_course (fun log h => h.idle hidle)).bind (fun _ => ?_)
    exact Triple.pure onCourse_of_stage
  unfold runTool
  cases hunt.registry.get d.tool with
  | none => exact hrefuse _ _
  | some tool =>
      dsimp only
      split
      · exact hrefuse _ _
      · exact Triple.throw onCourse_of_stage
      · next kwargs _ =>
          refine (attempt_keeps (onTables_inert _) inert_controls).triple.seq
            (fun _ => onCourse_of_stage) (fun rawRequest => ?_)
          refine (append_course (fun log h => h.dispatched _)).bind (fun _ => ?_)
          exact attemptTool_course rfl hunt.attempts

def coursePlaces (hunt : Hunt) (runId : PyStr) : LoopPlaces where
  head _ := OnTables (Stage hunt runId .between)
  called _ _ := OnTables (Stage hunt runId .between)
  decided _ _ _ := OnTables (Stage hunt runId .between)
  paid _ _ := OnTables (Stage hunt runId .between)
  left := OnTables (OnCourse hunt runId)
  failed _ := OnTables (OnCourse hunt runId)

theorem coursePlaces_holds [PyRuntime] : (coursePlaces hunt runId).Holds hunt runId := by
  have hkeeps : ∀ {α : Type} {m : Prog α}, Keeps (OnTables (Stage hunt runId .between)) m →
      Triple (OnTables (Stage hunt runId .between)) m
        (fun _ => OnTables (Stage hunt runId .between))
        (fun _ => OnTables (OnCourse hunt runId)) :=
    fun hm => hm.triple.conseq (fun _ hw => hw) (fun _ _ hw => hw) (fun _ => onCourse_of_stage)
  have hclosed : Closed Stmt.exec (AppendsOnly runId TrajectoryEvent.Idle)
      (OnTables (Stage hunt runId .between)) := between_closed
  refine ⟨onCourse_of_stage, fun _ => hkeeps (select_keeps hclosed (appendsOnly_controls _)),
    fun _ _ => onCourse_of_stage, fun _ context _ => ?_, fun _ _ decision _ => ?_,
    fun _ decision => runTool_course decision, fun _ _ posting => ?_, fun _ _ => onCourse_of_stage⟩
  · have hcall : Appends (AppendsOnly runId TrajectoryEvent.Idle) runId TrajectoryEvent.OfCall := by
      intro event now hevent
      refine appendsOnly_append ?_ now
      cases event with
      | error | thinkingDelta => trivial
      | sniff | toolCall | toolResult | preyCaptured | usage => exact hevent.elim
    refine (attemptBrain_keeps hclosed (appendsOnly_controls _) hcall
      (appendsOnly_other (fun _ h => nomatch h)) (appendsOnly_other (fun _ h => nomatch h))
      hunt.attempts).triple.conseq (fun _ hw => hw) ?_ (fun _ => onCourse_of_stage)
    intro r w hw
    cases r with
    | none => exact onCourse_of_stage w hw
    | some decision => exact hw
  · exact hkeeps (appendUsage_keeps hclosed (appendsOnly_controls _)
      (fun _ _ now => appendsOnly_append trivial now))
  · exact hkeeps (capturePrey_keeps hclosed (appendsOnly_controls _)
      (fun _ now => appendsOnly_append trivial now) (fun _ _ => appendsOnly_unappended rfl))

/-- **A run keeps its course**, for every brain, every registry and every schedule of faults. -/
theorem runHunt_course [PyRuntime] (hunt : Hunt) (env : Env) {db : Db}
    (hnew : env.uuid4 0 ∉ db.tables.runs.map Run.id) :
    OnTables (OnCourse hunt (env.uuid4 0)) ((runHunt hunt).exec (env.session db)).2 := by
  have hbetween : Closed Stmt.exec (AppendsOnly (env.uuid4 0) TrajectoryEvent.Idle)
      (OnTables (Stage hunt (env.uuid4 0) .between)) := between_closed
  have hempty : ∀ w, Opening (env.uuid4 0) db w →
      OnTables (Stage hunt (env.uuid4 0) .between) w := by
    rintro w ⟨-, -, hconn⟩
    unfold OnTables Stage
    rw [hconn, Conn.committed_opened, Conn.view_opened, db.schema.readEvents_eq_nil hnew]
    exact ⟨.empty, .empty⟩
  have hstart : Triple (Opening (env.uuid4 0) db)
      (startRun hunt.territory (some hunt.costCeilingUsd) (some hunt.maxIterations))
      (fun id w => id = env.uuid4 0 ∧ OnTables (Stage hunt (env.uuid4 0) .between) w)
      (fun _ => OnTables (OnCourse hunt (env.uuid4 0))) := by
    have hkeeps : Keeps (OnTables (Stage hunt (env.uuid4 0) .between))
        (startRun hunt.territory (some hunt.costCeilingUsd) (some hunt.maxIterations)) :=
      startRun_keeps hbetween (appendsOnly_controls _) (fun _ _ => appendsOnly_unappended rfl)
    exact (startRun_meter.and (hkeeps.triple.pre hempty)).conseq (fun _ hw => hw)
      (fun _ _ hw => ⟨hw.1.1.1, hw.2⟩) (fun _ w hw => onCourse_of_stage w hw.2)
  have hrun : Triple (Opening (env.uuid4 0) db) (runHunt hunt)
      (fun _ => OnTables (OnCourse hunt (env.uuid4 0)))
      (fun _ => OnTables (OnCourse hunt (env.uuid4 0))) := by
    refine runHunt_rule onCourse_closed (appendsOnly_controls _) (onTables_frameless _)
      (fun id => id = env.uuid4 0)
      (fun id => OnTables (Stage hunt (env.uuid4 0) .between)) ?_ (fun _ _ _ _ _ => appendsOnly_unappended rfl) ?_ ?_
    · rintro _ exc now rfl
      refine appendsOnly_append ?_ now
      cases exc <;> rfl
    · exact Session.inFrame_triple (fun _ _ hw => hw) (fun _ _ _ hw => hw) (fun _ _ _ hw => hw)
        (hstart.pre (fun _ hw => hw.2))
    · rintro _ rfl
      exact Session.inFrame_triple (fun _ _ hw => hw) (fun _ _ _ hw => hw) (fun _ _ _ hw => hw)
        ((driveFor_rule coursePlaces_holds _).pre (fun _ hw => hw.2))
  exact hrun.final (s := env.session db) ⟨rfl, rfl, rfl⟩

end Loop

/-! ## The theorem -/

/-- The current tool of a run on the board. -/
def currentTool (view : ViewState) (runId : PyStr) : Option PyStr :=
  (view.runs.find? (fun v => v.runId = runId)).bind RunView.currentTool

theorem currentTool_project {rows : List LogRow} (h : Ascending rows) (hour : Nat)
    (ceiling : Option ℚ) (schedule : List PyStr) (runId : PyStr) :
    currentTool (project rows hour ceiling schedule) runId = openTool (eventsOf rows runId) := by
  unfold currentTool openTool
  rw [project_run h]
  cases runAfter none (eventsOf rows runId) <;> rfl

/-- The rows of the run in which a tool times out once. -/
def retriedRows : List LogRow :=
  (retriedRun (py "scan")).2.conn.committed.tables.readLogRows none

theorem retriedRows_ascending (n : Nat) : Ascending (retriedRows.take n) := by
  have hsorted : retriedRows.Pairwise (fun a b => a.id < b.id) := by decide +kernel
  have hpositive : ∀ row ∈ retriedRows, 0 < row.id := by decide +kernel
  exact ⟨hsorted.sublist (List.take_sublist ..),
    fun row hrow => hpositive row (List.mem_of_mem_take hrow)⟩

end RexHunter
