import RexHunter.Proofs.Hunt
import RexHunter.Proofs.Usage

set_option autoImplicit false

/-! # The breaker of a run

`_drive` folds the log of its run before each brain call, and calls only below the ceiling. Between
the fold and the append of the call's usage nothing else is spent, so in the trace of a run every
request to the provider and every append of a usage comes at a point where what the run has written
so far costs less than the ceiling (`runHunt_metered`). That holds for every brain and under every
schedule of faults: after an append that failed the loop is over. -/

namespace RexHunter

open Session (Closed Frameless Replays ledger written)
open Coro (Keeps Triple)

/-! ## What a trace has spent -/

/-- A step that spends: a request to the provider, or the append of a usage. -/
def Spends : Op → Prop
  | .execute s => s.usage? ≠ none
  | .other .request => True
  | _ => False

/-- A statement that writes to no other run's log. -/
def Stmt.ForRun (runId : PyStr) (s : Stmt) : Prop := ∀ e, s.appended = some e → e.1 = runId

theorem Stmt.forRun_of_none {s : Stmt} (h : s.appended = none) (runId : PyStr) :
    s.ForRun runId := by
  intro e he
  rw [h] at he
  cases he

/-- The operations of the run that spend nothing. -/
def Quiet (runId : PyStr) : Op → Prop
  | .execute s => s.ForRun runId ∧ s.usage? = none
  | .other .request => False
  | _ => True

theorem Quiet.not_spends {runId : PyStr} {op : Op} (h : Quiet runId op) : ¬ Spends op := by
  cases op with
  | execute s => exact fun hs => hs h.2
  | other x => cases x <;> first | exact h.elim | exact fun hs => hs
  | commit | rollback => exact fun hs => hs

theorem quiet_controls (runId : PyStr) : Controls (Quiet runId) where
  commit := trivial
  rollback := trivial
  other := by
    intro x h
    cases x <;> trivial

/-- The operations of the run. -/
def OfRun (runId : PyStr) : Op → Prop
  | .execute s => s.ForRun runId
  | _ => True

theorem Quiet.ofRun {runId : PyStr} {op : Op} (h : Quiet runId op) : OfRun runId op := by
  cases op with
  | execute s => exact h.1
  | other | commit | rollback => trivial

/-- The trace writes to the log of this run only, and spends only below the ceiling. -/
structure Metered (runId : PyStr) (ceiling : ℚ) (trace : List (Step Frame Op)) : Prop where
  ofRun : ∀ st ∈ trace, OfRun runId st.op
  below : ∀ pre st post, trace = pre ++ st :: post → Spends st.op →
    spentOn runId (written pre) < ceiling

theorem metered_nil (runId : PyStr) (ceiling : ℚ) : Metered runId ceiling [] where
  ofRun := fun _ h => absurd h List.not_mem_nil
  below := by
    intro pre st post h
    simp at h

theorem Metered.snoc {runId : PyStr} {ceiling : ℚ} {trace : List (Step Frame Op)}
    {st : Step Frame Op} (h : Metered runId ceiling trace) (hst : OfRun runId st.op)
    (hbelow : Spends st.op → spentOn runId (written trace) < ceiling) :
    Metered runId ceiling (trace ++ [st]) where
  ofRun := forall_mem_snoc h.ofRun hst
  below := Session.Before.snoc h.below hbelow

/-- A trace of the run, at a point where it has spent `x`, committed or not. -/
def Spent (runId : PyStr) (ceiling x : ℚ) (trace : List (Step Frame Op)) : Prop :=
  Metered runId ceiling trace ∧ spentOn runId (ledger trace).1 = x ∧
    spentOn runId (written trace) = x

theorem Quiet.spentOn {runId : PyStr} {s : Stmt} (h : Quiet runId (.execute s)) :
    spentOn runId [s] = 0 := by
  rw [spentOn_singleton, Stmt.usageOn_eq_none h.2]
  rfl

/-- An operation that appends no usage leaves what has been spent. -/
theorem spent_enter {runId : PyStr} {x : ℚ} {l : List Stmt × List Stmt} {st : Step Frame Op}
    (hop : ∀ s, st.op = .execute s → spentOn runId [s] = 0)
    (hfirst : spentOn runId l.1 = x) (hboth : spentOn runId (l.1 ++ l.2) = x) :
    spentOn runId (Session.enter l st).1 = x ∧
      spentOn runId ((Session.enter l st).1 ++ (Session.enter l st).2) = x := by
  rcases Session.enter_cases l st with h | h | h | ⟨s, hs, h⟩
  · rw [h]
    exact ⟨hfirst, hboth⟩
  · rw [h, List.append_nil]
    exact ⟨hfirst, hfirst⟩
  · rw [h, List.append_nil]
    exact ⟨hboth, hboth⟩
  · rw [h, ← List.append_assoc, spentOn_append, hop s hs, hboth, add_zero]
    exact ⟨hfirst, rfl⟩

theorem Spent.snoc {runId : PyStr} {ceiling x : ℚ} {trace : List (Step Frame Op)}
    {st : Step Frame Op} (h : Spent runId ceiling x trace) (hst : Quiet runId st.op) :
    Spent runId ceiling x (trace ++ [st]) := by
  obtain ⟨hmetered, hfirst, hboth⟩ := h
  refine ⟨hmetered.snoc hst.ofRun (fun hs => absurd hs hst.not_spends), ?_⟩
  have hop : ∀ s, st.op = .execute s → RexHunter.spentOn runId [s] = 0 := by
    intro s hs
    rw [hs] at hst
    exact hst.spentOn
  have henter := spent_enter hop hfirst hboth
  unfold written
  rw [Session.ledger_snoc]
  exact henter

/-- A request leaves what has been spent, too. -/
theorem Spent.request {runId : PyStr} {ceiling x : ℚ} {trace : List (Step Frame Op)}
    {st : Step Frame Op} (h : Spent runId ceiling x trace) (hst : st.op = .other .request)
    (hx : x < ceiling) : Spent runId ceiling x (trace ++ [st]) := by
  obtain ⟨hmetered, hfirst, hboth⟩ := h
  refine ⟨hmetered.snoc (by rw [hst]; trivial) (fun _ => hboth.trans_lt hx), ?_⟩
  have henter := @spent_enter runId x _ st (by simp [hst]) hfirst hboth
  unfold written
  rw [Session.ledger_snoc]
  exact henter

/-! ## The session of a run -/

variable {hunt : Hunt} {runId : PyStr} {db : Db}

/-- The run is metered, on a connection that was opened on `db`. -/
def OnMeter (hunt : Hunt) (runId : PyStr) (db : Db) (w : Sess) : Prop :=
  Metered runId hunt.costCeilingUsd w.trace ∧ Replays Stmt.exec db w

/-- It has spent `x` so far. -/
def HasSpent (hunt : Hunt) (runId : PyStr) (db : Db) (x : ℚ) (w : Sess) : Prop :=
  Spent runId hunt.costCeilingUsd x w.trace ∧ Replays Stmt.exec db w

theorem HasSpent.onMeter {x : ℚ} {w : Sess} (h : HasSpent hunt runId db x w) :
    OnMeter hunt runId db w :=
  ⟨h.1.1, h.2⟩

/-- The operations of a brain call. -/
def Calls (runId : PyStr) (op : Op) : Prop := Quiet runId op ∨ op = .other .request

theorem calls_controls (runId : PyStr) : Controls (Calls runId) where
  commit := Or.inl trivial
  rollback := Or.inl trivial
  other := fun x h => Or.inl ((quiet_controls runId).other x h)

theorem onMeter_closed : Closed Stmt.exec (Quiet runId) (OnMeter hunt runId db) :=
  Closed.and (Session.closed_trace (fun _ _ hst h =>
      h.snoc hst.ofRun (fun hs => absurd hs hst.not_spends)))
    ((Session.replays_closed db).mono (fun _ _ => trivial))

theorem onMeter_frameless : Frameless (OnMeter hunt runId db) :=
  (Session.frameless_trace _).and (Session.frameless_replays db)

theorem hasSpent_closed (x : ℚ) : Closed Stmt.exec (Quiet runId) (HasSpent hunt runId db x) :=
  Closed.and (Session.closed_trace (fun _ _ hst h => h.snoc hst))
    ((Session.replays_closed db).mono (fun _ _ => trivial))

/-- Below the ceiling the run may ask the provider. -/
theorem calls_closed {x : ℚ} (hx : x < hunt.costCeilingUsd) :
    Closed Stmt.exec (Calls runId) (HasSpent hunt runId db x) := by
  refine Closed.and (Session.closed_trace ?_) ((Session.replays_closed db).mono (fun _ _ => trivial))
  rintro trace st (hst | hst) h
  · exact h.snoc hst
  · exact h.request hst hx

theorem quiet_append {event : TrajectoryEvent} (h : event.usage? = none) (now : PyStr) :
    Quiet runId (.execute (.appendEvent runId event now)) := by
  refine ⟨?_, h⟩
  intro e he
  cases he
  rfl

theorem TrajectoryEvent.OfTool.usage? {event : TrajectoryEvent} (h : event.OfTool) :
    event.usage? = none := by
  cases event with
  | usage e => exact h.elim
  | sniff | toolCall | toolResult | error | preyCaptured | thinkingDelta => rfl

theorem TrajectoryEvent.OfCall.usage? {event : TrajectoryEvent} (h : event.OfCall) :
    event.usage? = none := by
  cases event with
  | usage e => exact h.elim
  | sniff | toolCall | toolResult | error | preyCaptured | thinkingDelta => rfl

/-- What the breaker folds is what the run has spent. -/
theorem HasSpent.foldCost {x : ℚ} {w : Sess} (h : HasSpent hunt runId db x w)
    (hnew : runId ∉ db.tables.runs.map Run.id) :
    foldCost (w.conn.view.tables.readEvents runId) = x := by
  rw [(foldCost_execAll h.2.written).1 runId, db.schema.readEvents_eq_nil hnew, h.1.2.2]
  exact zero_add x

theorem readEvents_meter (hnew : runId ∉ db.tables.runs.map Run.id) :
    Triple (fun w => ∃ x, HasSpent hunt runId db x w) (readEvents runId)
      (fun context => HasSpent hunt runId db (foldCost context))
      (fun _ => OnMeter hunt runId db) := by
  refine Triple.of_exists (fun x => ?_)
  refine (select_triple (hasSpent_closed x) (quiet_controls runId)).conseq (fun _ hw => hw) ?_
    (fun _ _ hw => hw.onMeter)
  rintro context w ⟨rfl, hw⟩
  rw [hw.foldCost hnew]
  exact hw

/-! ## The append of a usage -/

theorem execute_meter {s : Stmt} (hs : s.ForRun runId) :
    Triple (fun w => ∃ x < hunt.costCeilingUsd, HasSpent hunt runId db x w) (execute s)
      (fun _ => OnMeter hunt runId db) (fun _ => OnMeter hunt runId db) := by
  have hreplays : Keeps (Replays Stmt.exec db) (execute s) :=
    execute_keeps (Session.replays_closed db) trivial
  refine Triple.of_final ?_
  rintro w ⟨x, hx, hmeter, hw⟩
  refine ⟨?_, hreplays w hw⟩
  obtain ⟨fate, htrace⟩ := Session.await_trace (.execute s) (Session.execute s.exec) w
  have hstep : Metered runId hunt.costCeilingUsd (w.trace ++ [⟨w.frame, .execute s, fate⟩]) :=
    hmeter.1.snoc hs (fun _ => hmeter.2.2.trans_lt hx)
  rw [← htrace] at hstep
  exact hstep

theorem commit_meter :
    Triple (OnMeter hunt runId db) commit (fun _ w => ∃ x, HasSpent hunt runId db x w)
      (fun _ => OnMeter hunt runId db) := by
  have hkeeps : Keeps (OnMeter hunt runId db) commit :=
    commit_keeps onMeter_closed (quiet_controls runId)
  refine (hkeeps.triple.and (Session.await_triple
    (Q := fun _ w => ∃ x, spentOn runId (ledger w.trace).1 = x ∧ spentOn runId (written w.trace) = x)
    (R := fun _ _ => True) ?_ ?_)).conseq (fun _ hw => hw) ?_ (fun _ _ hw => hw.1)
  · intro w _ c _ _
    refine ⟨spentOn runId (written w.trace), ?_⟩
    simp [Session.landed, Session.ledger_snoc, Session.enter, written]
  · exact fun _ _ _ _ _ _ _ => trivial
  · rintro _ w ⟨hmeter, x, hx⟩
    exact ⟨x, ⟨hmeter.1, hx⟩, hmeter.2⟩

theorem append_meter (event : TrajectoryEvent) :
    Triple (fun w => ∃ x < hunt.costCeilingUsd, HasSpent hunt runId db x w)
      (append hunt runId event) (fun _ w => ∃ x, HasSpent hunt runId db x w)
      (fun _ => OnMeter hunt runId db) := by
  have hmeter : ∀ w, (∃ x < hunt.costCeilingUsd, HasSpent hunt runId db x w) →
      OnMeter hunt runId db w :=
    fun w ⟨_, _, hw⟩ => hw.onMeter
  have hdump : Keeps (fun w => ∃ x < hunt.costCeilingUsd, HasSpent hunt runId db x w)
      (dump event.dumpable) := by
    rintro w ⟨x, hx, hw⟩
    exact ⟨x, hx, dump_keeps (hasSpent_closed x) (quiet_controls runId) w hw⟩
  refine Triple.bind ?_ (fun _ => Triple.pure (fun _ hw => hw))
  refine hdump.triple.seq (fun _ => hmeter) (fun _ => ?_)
  refine Triple.bind (Session.useVars_triple (fun _ _ hw => hw)) (fun now => ?_)
  refine (execute_meter (fun e he => by cases he; rfl)).bind (fun cursor => ?_)
  refine commit_meter.bind (fun _ => ?_)
  cases cursor.lastrowid with
  | none => exact Triple.throw (fun w ⟨_, hw⟩ => hw.onMeter)
  | some eventId =>
      refine Triple.bind (Session.useVars_triple (fun _ _ hw => hw)) (fun _ => ?_)
      exact Triple.pure (fun _ hw => hw)

/-! ## The loop -/

section Loop

variable [PyRuntime]

theorem runTool_meter {x : ℚ} {decision : ToolCallDecision} :
    Keeps (HasSpent hunt runId db x) (runTool hunt runId decision) :=
  runTool_keeps (hasSpent_closed x) (quiet_controls runId)
    (fun _ now hevent => quiet_append hevent.usage? now)

omit [PyRuntime] in
theorem capturePrey_meter {x : ℚ} {posting : PyStr} :
    Keeps (HasSpent hunt runId db x) (capturePrey runId hunt.territory posting hunt.publish) :=
  capturePrey_keeps (hasSpent_closed x) (quiet_controls runId) (fun _ now => quiet_append rfl now)
    (fun _ _ => ⟨Stmt.forRun_of_none rfl _, rfl⟩)

omit [PyRuntime] in
theorem attemptBrain_meter {x : ℚ} (hx : x < hunt.costCeilingUsd) (context : Context) (n : Nat) :
    Keeps (HasSpent hunt runId db x) (attemptBrain hunt runId context n) :=
  attemptBrain_keeps (calls_closed hx) (calls_controls runId)
    (fun _ now hevent => Or.inl (quiet_append hevent.usage? now)) (Or.inr rfl)
    (Or.inl trivial) n

omit [PyRuntime] in
theorem appendUsage_meter (usage : Option UsageEvent) :
    Triple (fun w => ∃ x < hunt.costCeilingUsd, HasSpent hunt runId db x w)
      (appendUsage hunt runId usage) (fun _ w => ∃ x, HasSpent hunt runId db x w)
      (fun _ => OnMeter hunt runId db) := by
  cases usage with
  | none => exact Triple.pure (fun w ⟨x, _, hw⟩ => ⟨x, hw⟩)
  | some usage => exact append_meter (.usage usage)

/-- The places of the loop, for its meter: at its head everything the run has spent is committed, so
    the fold of the breaker is what the run has spent. -/
def meteredPlaces (hunt : Hunt) (runId : PyStr) (db : Db) : LoopPlaces where
  head _ w := ∃ x, HasSpent hunt runId db x w
  called _ context := HasSpent hunt runId db (foldCost context)
  decided _ context _ := HasSpent hunt runId db (foldCost context)
  paid _ _ w := ∃ x, HasSpent hunt runId db x w
  left := OnMeter hunt runId db
  failed _ := OnMeter hunt runId db

theorem meteredPlaces_holds (hnew : runId ∉ db.tables.runs.map Run.id) :
    (meteredPlaces hunt runId db).Holds hunt runId := by
  have hmeter : ∀ w, (∃ x, HasSpent hunt runId db x w) → OnMeter hunt runId db w :=
    fun w ⟨_, hw⟩ => hw.onMeter
  refine ⟨hmeter, fun _ => readEvents_meter hnew, fun _ _ _ hw => hw.onMeter, ?_, ?_, ?_, ?_,
    fun _ _ => hmeter⟩
  · intro _ context hbelow
    refine (attemptBrain_meter hbelow context hunt.attempts).triple.conseq (fun _ hw => hw) ?_
      (fun _ _ hw => hw.onMeter)
    intro r w hw
    cases r with
    | none => exact hw.onMeter
    | some decision => exact hw
  · intro _ context decision hbelow
    exact (appendUsage_meter decision.usage).pre (fun w hw => ⟨_, hbelow, hw⟩)
  · intro _ decision
    have htool : Keeps (fun w => ∃ x, HasSpent hunt runId db x w) (runTool hunt runId decision) :=
      fun w ⟨x, hw⟩ => ⟨x, runTool_meter w hw⟩
    refine htool.triple.conseq (fun _ hw => hw) ?_ (fun _ => hmeter)
    intro goesOn w hw
    cases goesOn with
    | true => exact hw
    | false => exact hmeter w hw
  · intro _ _ posting
    have hcapture : Keeps (fun w => ∃ x, HasSpent hunt runId db x w)
        (capturePrey runId hunt.territory posting hunt.publish) :=
      fun w ⟨x, hw⟩ => ⟨x, capturePrey_meter w hw⟩
    exact hcapture.triple.conseq (fun _ hw => hw) (fun _ _ hw => hw) (fun _ => hmeter)

/-- **The loop spends only below the ceiling.** -/
theorem driveFor_meter (hnew : runId ∉ db.tables.runs.map Run.id) (n : Nat) :
    Triple (fun w => ∃ x, HasSpent hunt runId db x w) (driveFor hunt runId n)
      (fun _ => OnMeter hunt runId db) (fun _ => OnMeter hunt runId db) :=
  driveFor_rule (meteredPlaces_holds hnew) n

/-- The session is about to draw the id of the run. -/
def Opening (runId : PyStr) (db : Db) (w : Sess) : Prop :=
  w.vars.uuid4 w.vars.uuids = runId ∧ w.trace = [] ∧ w.conn = Conn.opened db

omit [PyRuntime] in
theorem startRun_meter :
    Triple (Opening runId db)
      (startRun hunt.territory (some hunt.costCeilingUsd) (some hunt.maxIterations))
      (fun id w => (id = runId ∧ runId ∉ db.tables.runs.map Run.id) ∧
        ∃ x, HasSpent hunt runId db x w)
      (fun _ => OnMeter hunt runId db) := by
  have hopen : ∀ w : Sess, w.trace = [] ∧ w.conn = Conn.opened db → OnMeter hunt runId db w := by
    rintro w ⟨htrace, hconn⟩
    refine ⟨?_, ?_, ?_⟩
    · rw [htrace]
      exact metered_nil _ _
    · rw [htrace, hconn]
      rfl
    · rw [htrace, hconn]
      rfl
  have hid : Triple (Opening runId db) uuid4
      (fun id w => id = runId ∧ w.trace = [] ∧ w.conn = Conn.opened db)
      (fun _ => OnMeter hunt runId db) :=
    fun w hw => hw
  refine hid.bind (fun id => Triple.of_and (fun hidrun => ?_))
  subst hidrun
  refine Triple.bind (Session.useVars_triple (fun _ _ hw => hw)) (fun now => ?_)
  have hinsert : Keeps (OnMeter hunt id db) (execute (.insertRun id hunt.territory now
      (some hunt.costCeilingUsd) (some hunt.maxIterations))) :=
    execute_keeps onMeter_closed ⟨Stmt.forRun_of_none rfl _, rfl⟩
  refine Triple.bind (Q := fun _ w => id ∉ db.tables.runs.map Run.id ∧ OnMeter hunt id db w) ?_
    (fun _ => Triple.of_and (fun hnew => ?_))
  · refine ((hinsert.triple.pre hopen).and (Session.await_triple
      (Q := fun _ _ => id ∉ db.tables.runs.map Run.id) (R := fun _ _ => True) ?_ ?_)).conseq
      (fun _ hw => hw) (fun _ _ hw => ⟨hw.2, hw.1⟩) (fun _ _ hw => hw.1)
    · rintro w c conn ⟨_, hconn⟩ hact
      obtain ⟨d, hd, _⟩ := Session.execute_ok hact
      rw [hconn] at hd
      exact (Stmt.apply_insertRun (Stmt.exec_ok hd)).1
    · exact fun _ _ _ _ _ _ _ => trivial
  · exact commit_meter.bind (fun _ => Triple.pure (fun _ hw => ⟨⟨rfl, hnew⟩, hw⟩))

theorem runHunt_meter :
    Triple (Opening runId db) (runHunt hunt) (fun _ => OnMeter hunt runId db)
      (fun _ => OnMeter hunt runId db) := by
  refine runHunt_rule onMeter_closed (quiet_controls runId) onMeter_frameless
    (fun id => id = runId ∧ runId ∉ db.tables.runs.map Run.id)
    (fun _ w => ∃ x, HasSpent hunt runId db x w) ?_ ?_ ?_ ?_
  · rintro _ e now ⟨rfl, _⟩
    exact quiet_append (by rfl) now
  · exact fun _ _ _ _ _ => ⟨Stmt.forRun_of_none rfl _, rfl⟩
  · exact Session.inFrame_triple (fun _ _ hw => hw) (fun _ _ _ hw => hw) (fun _ _ _ hw => hw)
      (startRun_meter.pre (fun _ hw => hw.2))
  · rintro _ ⟨rfl, hnew⟩
    exact Session.inFrame_triple (fun _ _ hw => hw) (fun _ _ _ hw => hw) (fun _ _ _ hw => hw)
      ((driveFor_meter hnew _).pre (fun _ hw => hw.2))

/-- **A run spends only below its ceiling**, for every brain, every registry and every schedule of
    faults. -/
theorem runHunt_metered (hunt : Hunt) (env : Env) (db : Db) :
    OnMeter hunt (env.uuid4 0) db ((runHunt hunt).exec (env.session db)).2 :=
  runHunt_meter.final (s := env.session db) ⟨rfl, rfl, rfl⟩

/-- A run that spends anything is new. -/
theorem runHunt_new {hunt : Hunt} {env : Env} {db : Db} {st : Step Frame Op}
    (hst : st ∈ ((runHunt hunt).exec (env.session db)).2.trace) (hspends : Spends st.op) :
    env.uuid4 0 ∉ db.tables.runs.map Run.id := by
  intro hold
  have hclosed : Closed Stmt.exec (fun op : Op => ¬ Spends op)
      (fun w : Sess => ∀ st ∈ w.trace, ¬ Spends st.op) :=
    Session.closed_trace (J := fun trace => ∀ st ∈ trace, ¬ Spends st.op)
      (fun _ _ hst h => forall_mem_snoc h hst)
  have hcontrols : Controls (fun op : Op => ¬ Spends op) := by
    refine ⟨fun h => h, fun h => h, ?_⟩
    intro x hx h
    cases x <;> first | exact h | cases hx
  -- the INSERT of the run cannot succeed, so nothing comes after it
  have hstart : Triple (Opening (env.uuid4 0) db)
      (startRun hunt.territory (some hunt.costCeilingUsd) (some hunt.maxIterations))
      (fun _ _ => False) (fun _ w => ∀ st ∈ w.trace, ¬ Spends st.op) := by
    have hkeeps : Keeps (fun w : Sess => ∀ st ∈ w.trace, ¬ Spends st.op)
        (startRun hunt.territory (some hunt.costCeilingUsd) (some hunt.maxIterations)) :=
      startRun_keeps hclosed hcontrols (fun _ _ h => h rfl)
    refine (startRun_meter.and (hkeeps.triple.pre ?_)).conseq (fun _ hw => hw)
      (fun _ _ hw => hw.1.1.2 hold) (fun _ _ hw => hw.2)
    rintro w ⟨-, htrace, -⟩
    simp [htrace]
  have hrun : Triple (Opening (env.uuid4 0) db) (runHunt hunt)
      (fun _ w => ∀ st ∈ w.trace, ¬ Spends st.op) (fun _ w => ∀ st ∈ w.trace, ¬ Spends st.op) := by
    refine Triple.bind (Q := fun _ _ => False) ?_ (fun _ _ h => h.elim)
    exact Session.inFrame_triple (fun _ _ hw => hw) (fun _ _ _ hw => hw) (fun _ _ _ hw => hw)
      (hstart.pre (fun _ hw => hw.2))
  exact hrun.final (s := env.session db) ⟨rfl, rfl, rfl⟩ st hst hspends

end Loop

end RexHunter
