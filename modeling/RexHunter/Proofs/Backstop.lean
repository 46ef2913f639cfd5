import RexHunter.Proofs.Shutdown

set_option autoImplicit false

/-! # What the backstop lets through

`run_hunt` catches every exception that is raised inside its `try`, and then appends an event that
carries the text of the exception. That append is the only thing left that can fail once the
database does what it is told and nobody cancels the task: `model_dump_json` refuses a text with a
lone surrogate. So `run_hunt` returns exactly if the exception that reaches its handlers has texts
that can be stored. -/

namespace RexHunter

open Session (Closed)
open Coro (Keeps Triple)

/-! ## Steps nobody interferes with -/

/-- Statements, commits and SELECTs complete, and nothing is cancelled. -/
def Clear (st : Step Frame Op) : Prop :=
  match st.op with
  | .other .select => st.fate = .done
  | .other _ => st.fate.isCancelled = false
  | _ => st.fate = .done

instance : DecidablePred Clear
  | ⟨_, .execute _, fate⟩ | ⟨_, .commit, fate⟩ | ⟨_, .rollback, fate⟩
  | ⟨_, .other .select, fate⟩ => inferInstanceAs (Decidable (fate = .done))
  | ⟨_, .other .dump, fate⟩ | ⟨_, .other .encode, fate⟩ | ⟨_, .other (.call _), fate⟩
  | ⟨_, .other .request, fate⟩ | ⟨_, .other .brain, fate⟩ | ⟨_, .other .tool, fate⟩
  | ⟨_, .other .connect, fate⟩ | ⟨_, .other .close, fate⟩ =>
      inferInstanceAs (Decidable (fate.isCancelled = false))

theorem Clear.uncancelled {st : Step Frame Op} (h : Clear st) : st.fate.isCancelled = false := by
  unfold Clear at h
  split at h
  · rw [h]
    rfl
  · exact h
  · rw [h]
    rfl

/-- Somebody has interfered. -/
def Unclear (w : Sess) : Prop := ∃ st ∈ w.trace, ¬ Clear st

/-- A `CancelledError` has a cancellation behind it. -/
def Interrupted (e : Exn PyExc) (w : Sess) : Prop := e = .cancelled → Unclear w

theorem unclear_snoc {trace : List (Step Frame Op)} {st : Step Frame Op}
    (h : (∃ st' ∈ trace, ¬ Clear st') ∨ ¬ Clear st) : ∃ st' ∈ trace ++ [st], ¬ Clear st' := by
  rcases h with ⟨st', hst', hclear⟩ | hclear
  · exact ⟨st', List.mem_append_left _ hst', hclear⟩
  · exact ⟨st, List.mem_append_right _ (List.mem_singleton_self st), hclear⟩

theorem unclear_closed : Closed Stmt.exec (fun _ => True) Unclear :=
  Session.closed_trace (J := fun trace => ∃ st ∈ trace, ¬ Clear st)
    (fun _ _ _ h => unclear_snoc (Or.inl h))

theorem unclear_frameless : Session.Frameless Unclear := ⟨fun _ _ hw => hw, fun _ _ hw => hw⟩

/-- An await of the database: an exception is an interference. -/
theorem await_clear {α : Type} {op : Op} {act : Conn Db → Except PyExc (α × Conn Db)}
    (hop : ∀ frame fate, Clear ⟨frame, op, fate⟩ → fate = .done) :
    Triple (fun _ => True) (Session.await op act) (fun _ _ => True) (fun _ => Unclear) := by
  refine Session.await_triple (fun _ _ _ _ _ => trivial) ?_
  intro w e fate c _ hfate _
  exact unclear_snoc (Or.inr (fun hclear => hfate (hop _ _ hclear)))

/-- Any other await: a cancellation is an interference. -/
theorem await_interrupted {α : Type} {op : Op} {act : Conn Db → Except PyExc (α × Conn Db)} :
    Triple (fun _ => True) (Session.await op act) (fun _ _ => True) Interrupted := by
  refine Session.await_triple_trace (J := fun _ => True) (Q := fun _ _ => True)
    (R := fun e trace => e = .cancelled → ∃ st ∈ trace, ¬ Clear st) ?_ ?_ ?_
  · exact fun _ _ _ _ => trivial
  · exact fun _ _ _ _ _ => nofun
  · exact fun _ _ ex _ _ => unclear_snoc (Or.inr (fun hclear => nomatch hclear.uncancelled))

theorem interrupted_of_clear {α : Type} {m : Prog α} {Q : α → Sess → Prop}
    (h : Triple (fun _ => True) m Q (fun _ => Unclear)) :
    Triple (fun _ => True) m Q Interrupted :=
  h.conseq (fun _ hw => hw) (fun _ _ hw => hw) (fun _ _ hw _ => hw)

theorem execute_clear {s : Stmt} :
    Triple (fun _ => True) (execute s) (fun _ _ => True) (fun _ => Unclear) :=
  await_clear (fun _ _ h => h)

theorem commit_clear :
    Triple (fun _ => True) commit (fun _ _ => True) (fun _ => Unclear) :=
  await_clear (fun _ _ h => h)

theorem select_clear {α : Type} {read : Tables → α} :
    Triple (fun _ => True) (select read) (fun _ _ => True) (fun _ => Unclear) :=
  await_clear (fun _ _ h => h)

theorem attempt_interrupted {α : Type} {x : Act} {r : Except PyExc α} :
    Triple (fun _ => True) (Session.attempt (.other x) r : Prog α) (fun _ _ => True)
      Interrupted := by
  intro w _
  cases r with
  | ok a => trivial
  | error e => exact nofun

theorem useVars_clear {α : Type} {f : Vars → α × Vars} {R : Exn PyExc → Sess → Prop} :
    Triple (fun _ => True) (Session.useVars f : Prog α) (fun _ _ => True) R :=
  Session.useVars_triple (fun _ _ _ => trivial)

/-! ## Writing to the log -/

/-- An event whose texts can be stored is appended. -/
theorem appendEvent_clear {runId : PyStr} {event : TrajectoryEvent} {publish : Bool}
    (hdump : event.dumpable = true) :
    Triple (fun _ => True) (appendEvent runId event publish) (fun _ _ => True)
      (fun _ => Unclear) := by
  have hexecute : ∀ now, Triple (fun _ => True) (execute (.appendEvent runId event now))
      (fun cursor _ => cursor.lastrowid ≠ none ∧ True) (fun _ => Unclear) := by
    intro now
    refine Session.await_triple ?_ ?_
    · intro w cursor c _ hact
      obtain ⟨d, hd, rfl⟩ := Session.execute_ok hact
      rw [(Stmt.apply_appendEvent (Stmt.exec_ok hd)).2.1]
      exact ⟨nofun, trivial⟩
    · intro w e fate c _ hfate _
      exact unclear_snoc (Or.inr (fun hclear => hfate hclear))
  refine Triple.bind (Q := fun _ _ => True) ?_ (fun _ => useVars_clear.bind (fun now => ?_))
  · intro w _
    rw [hdump]
    trivial
  refine (hexecute now).bind (fun cursor => Triple.of_and (fun hrowid => ?_))
  refine commit_clear.bind (fun _ => ?_)
  cases hcursor : cursor.lastrowid with
  | none => exact absurd hcursor hrowid
  | some eventId => exact useVars_clear.bind (fun _ => Triple.pure (fun _ hw => hw))

/-- Any other event is refused. -/
theorem appendEvent_refused {runId : PyStr} {event : TrajectoryEvent} {publish : Bool}
    (hdump : event.dumpable = false) :
    Triple (fun _ => True) (appendEvent runId event publish) (fun _ _ => False)
      (fun e _ => e = .raised .serializationError) := by
  refine Triple.bind (Q := fun _ _ => False) ?_ (fun _ _ h => h.elim)
  intro w _
  rw [hdump]
  rfl

theorem appendEvent_interrupted {runId : PyStr} {event : TrajectoryEvent} {publish : Bool} :
    Triple (fun _ => True) (appendEvent runId event publish) (fun _ _ => True) Interrupted := by
  cases hdump : event.dumpable with
  | true => exact interrupted_of_clear (appendEvent_clear hdump)
  | false =>
      refine (appendEvent_refused hdump).conseq (fun _ hw => hw) (fun _ _ _ => trivial) ?_
      rintro _ w rfl
      exact nofun

theorem capturePrey_interrupted {runId territory posting : PyStr} {publish : Bool} :
    Triple (fun _ => True) (capturePrey runId territory posting publish) (fun _ _ => True)
      Interrupted := by
  refine useVars_clear.bind (fun preyId => useVars_clear.bind (fun now => ?_))
  refine attempt_interrupted.bind (fun raw => attempt_interrupted.bind (fun _ => ?_))
  refine (interrupted_of_clear execute_clear).bind (fun cursor => ?_)
  refine (interrupted_of_clear execute_clear).bind (fun _ => ?_)
  refine (interrupted_of_clear commit_clear).bind (fun _ => ?_)
  cases cursor.lastrowid with
  | none => exact Triple.pure (fun _ hw => hw)
  | some eventId => exact useVars_clear.bind (fun _ => Triple.pure (fun _ hw => hw))

/-! ## The loop -/

section Loop

variable {hunt : Hunt} {runId : PyStr}

theorem append_interrupted {event : TrajectoryEvent} :
    Triple (fun _ => True) (append hunt runId event) (fun _ _ => True) Interrupted :=
  appendEvent_interrupted.bind (fun _ => Triple.pure (fun _ hw => hw))

theorem unclear_throws {α : Type} {m : Prog α} (h : Keeps Unclear m) {Q : α → Sess → Prop}
    (hQ : ∀ a w, Q a w) : Triple Unclear m Q Interrupted :=
  h.triple.conseq (fun _ hw => hw) (fun a w _ => hQ a w) (fun _ _ hw _ => hw)

/-- A brain that raises no `CancelledError` of its own. -/
def BrainCall.Genuine : BrainCall → Prop
  | .ret _ => True
  | .raise e => e ≠ .cancelled
  | .request k => ∀ r, r ≠ .error .cancelled → (k r).Genuine
  | .pause k => ∀ r, r ≠ .error .cancelled → (k r).Genuine
  | .relay _ k => ∀ r, r ≠ .error .cancelled → (k r).Genuine

theorem runBrain_interrupted (call : BrainCall) (hcall : call.Genuine) :
    Triple (fun _ => True) (runBrain hunt runId call) (fun _ _ => True) Interrupted := by
  -- a brain may catch a `CancelledError`, but it does not undo the cancellation
  have hcancelled : ∀ call : BrainCall, Triple Unclear (runBrain hunt runId call)
      (fun _ _ => True) Interrupted := fun call =>
    unclear_throws (runBrain_keeps unclear_closed Controls.any (fun _ _ _ => trivial) trivial call)
      (fun _ _ => trivial)
  have hnext : ∀ {α : Type} (m : Prog α) (k : Except (Exn PyExc) α → BrainCall),
      Triple (fun _ => True) m (fun _ _ => True) Interrupted →
      (∀ r, r ≠ .error .cancelled → Triple (fun _ => True) (runBrain hunt runId (k r))
        (fun _ _ => True) Interrupted) →
      Triple (fun _ => True) (Coro.observe m >>= fun r => runBrain hunt runId (k r))
        (fun _ _ => True) Interrupted := by
    intro α m k hm hk
    refine hm.observe.bind (fun r => ?_)
    cases r with
    | ok a => exact hk _ nofun
    | error e =>
        cases e with
        | raised exc => exact (hk _ (by simp)).pre (fun _ _ => trivial)
        | cancelled => exact (hcancelled _).pre (fun w hw => hw rfl)
  induction call with
  | ret decision => exact Triple.pure (fun _ _ => trivial)
  | raise e => exact Triple.throw (fun _ _ he => absurd he hcall)
  | request k ih =>
      refine hnext _ k ?_ (fun r hr => ih r (hcall r hr))
      exact Triple.bind (Q := fun _ _ => True) (fun _ _ => trivial) (fun _ => await_interrupted)
  | pause k ih => exact hnext _ k await_interrupted (fun r hr => ih r (hcall r hr))
  | relay text k ih => exact hnext _ k append_interrupted (fun r hr => ih r (hcall r hr))

theorem attemptBrain_interrupted (hbrain : ∀ n context, (hunt.brain n context).Genuine)
    {context : Context} (n : Nat) :
    Triple (fun _ => True) (attemptBrain hunt runId context n) (fun _ _ => True) Interrupted := by
  induction n with
  | zero => exact Triple.pure (fun _ hw => hw)
  | succ remaining ih =>
      refine Triple.bind (Q := fun _ _ => True) (fun _ _ => trivial) (fun n => ?_)
      refine (runBrain_interrupted _ (hbrain n context)).observe.bind (fun r => ?_)
      cases r with
      | ok decision => exact useVars_clear.bind (fun _ => Triple.pure (fun _ hw => hw))
      | error e =>
          cases e with
          | cancelled => exact Triple.throw (fun _ hw => hw)
          | raised exc =>
              dsimp only
              cases httpFailure exc with
              | none => exact Triple.throw (fun _ hw => hw)
              | some rawResponse =>
                  refine (append_interrupted.pre (fun _ _ => trivial)).bind (fun _ => ?_)
                  by_cases hretry : classify exc ∧ remaining ≠ 0
                  · rw [if_pos hretry]
                    exact ih
                  · rw [if_neg hretry]
                    exact Triple.pure (fun _ hw => hw)

theorem appendUsage_interrupted {usage : Option UsageEvent} :
    Triple (fun _ => True) (appendUsage hunt runId usage) (fun _ _ => True) Interrupted := by
  cases usage with
  | none => exact Triple.pure (fun _ hw => hw)
  | some usage => exact append_interrupted

section Tools

variable [PyRuntime] {decision : ToolCallDecision}

theorem attemptTool_interrupted {tool : RegisteredTool} {kwargs : Dict} {rawRequest : PyBytes}
    (n : Nat) :
    Triple (fun _ => True) (attemptTool hunt runId decision tool kwargs rawRequest n)
      (fun _ _ => True) Interrupted := by
  induction n with
  | zero => exact Triple.pure (fun _ hw => hw)
  | succ remaining ih =>
      have honce : Triple (fun _ => True) (executeOnce tool kwargs) (fun _ _ => True)
          Interrupted :=
        useVars_clear.bind (fun _ => await_interrupted.bind (fun _ => attempt_interrupted))
      refine honce.observe.bind (fun r => ?_)
      cases r with
      | ok rawResponse => exact append_interrupted.bind (fun _ => Triple.pure (fun _ hw => hw))
      | error e =>
          cases e with
          | cancelled => exact Triple.throw (fun _ hw => hw)
          | raised exc =>
              refine (append_interrupted.pre (fun _ _ => trivial)).bind (fun _ => ?_)
              by_cases hretry : classify exc ∧ remaining ≠ 0
              · rw [if_pos hretry]
                exact ih
              · rw [if_neg hretry]
                exact Triple.pure (fun _ hw => hw)

theorem refuseTool_interrupted {error detail : PyStr} :
    Triple (fun _ => True) (refuseTool hunt runId decision error detail) (fun _ _ => True)
      Interrupted :=
  attempt_interrupted.bind
    (fun _ => append_interrupted.bind (fun _ => Triple.pure (fun _ hw => hw)))

theorem runTool_interrupted :
    Triple (fun _ => True) (runTool hunt runId decision) (fun _ _ => True) Interrupted := by
  unfold runTool
  cases hunt.registry.get decision.tool with
  | none => exact refuseTool_interrupted
  | some tool =>
      dsimp only
      split
      · exact refuseTool_interrupted
      · exact Triple.throw (fun _ _ => nofun)
      · exact attempt_interrupted.bind
          (fun _ => append_interrupted.bind (fun _ => attemptTool_interrupted _))

/-- The loop arrives at an outcome other than `crashed`, unless an exception leaves it. -/
theorem driveFor_interrupted (hbrain : ∀ n context, (hunt.brain n context).Genuine) (n : Nat) :
    Triple (fun _ => True) (driveFor hunt runId n) (fun r _ => r.1 ≠ .crashed) Interrupted := by
  induction n with
  | zero => exact Triple.pure (fun _ _ => nofun)
  | succ remaining ih =>
      refine (interrupted_of_clear select_clear).bind (fun context => ?_)
      by_cases hceiling : hunt.costCeilingUsd ≤ foldCost context
      · rw [if_pos hceiling]
        exact Triple.pure (fun _ _ => nofun)
      rw [if_neg hceiling]
      refine (attemptBrain_interrupted hbrain hunt.attempts).bind (fun r => ?_)
      cases r with
      | none => exact Triple.pure (fun _ _ => nofun)
      | some decision =>
          refine appendUsage_interrupted.bind (fun _ => ?_)
          cases decision with
          | toolCall decision =>
              refine runTool_interrupted.bind (fun goesOn => ?_)
              cases goesOn with
              | true => exact ih
              | false => exact Triple.pure (fun _ _ => nofun)
          | huntComplete catches usage =>
              have hcapture : ∀ posting, Triple (fun _ => True)
                  (do let _ ← capturePrey runId hunt.territory posting hunt.publish)
                  (fun _ _ => True) Interrupted :=
                fun _ => capturePrey_interrupted.bind (fun _ => Triple.pure (fun _ hw => hw))
              exact (Triple.forM hcapture catches).bind (fun _ => Triple.pure (fun _ _ => nofun))
          | needsHelp usage => exact Triple.pure (fun _ _ => nofun)

end Tools

end Loop

/-! ## The whole hunt -/

section Hunt

variable [PyRuntime] {hunt : Hunt} {runId : PyStr}

/-- `run_hunt` after its `try`. -/
def conclude (hunt : Hunt) (runId : PyStr)
    (result : Except (Exn PyExc) (RunOutcome × Option PyStr)) : Prog PyStr := do
  let (outcome, abortReason) ← settle hunt runId result
  Session.inFrame .closing (finishRun runId outcome abortReason)
  pulse hunt runId outcome
  return runId

theorem runHunt_eq : runHunt hunt = (do
    let runId ← Session.inFrame .starting
      (startRun hunt.territory (some hunt.costCeilingUsd) (some hunt.maxIterations))
    let result ← Coro.observe (Session.inFrame .driving (drive hunt runId))
    conclude hunt runId result) := rfl

omit [PyRuntime] in
theorem startRun_clear {territory : PyStr} {costCeilingUsd : Option ℚ}
    {maxIterations : Option Int} :
    Triple (fun w => w.vars.uuid4 w.vars.uuids = runId)
      (Session.inFrame .starting (startRun territory costCeilingUsd maxIterations))
      (fun id _ => id = runId) (fun _ => Unclear) := by
  refine Session.inFrame_triple (fun _ _ hw => hw) (fun _ _ _ hw => hw) (fun _ _ _ hw => hw) ?_
  refine Triple.bind (Q := fun id _ => id = runId ∧ True) (fun w hw => ⟨hw.2, trivial⟩) (fun id => ?_)
  refine Triple.of_and (fun hid => useVars_clear.bind (fun now => ?_))
  refine execute_clear.bind (fun _ => commit_clear.bind (fun _ => ?_))
  exact Triple.pure (fun _ _ => hid)

/-- The run has arrived at this outcome. -/
def Arrived (outcome : RunOutcome) (abortReason : Option PyStr) (w : Sess) : Prop :=
  w.vars.reached = some (outcome, abortReason)

omit [PyRuntime] in
/-- The write that closes the run. -/
theorem finish_clear (outcome : RunOutcome) (abortReason : Option PyStr) :
    Triple (Arrived outcome abortReason)
      (do
        Session.inFrame .closing (finishRun runId outcome abortReason)
        pulse hunt runId outcome
        return runId)
      (fun id w => id = runId ∧ Arrived outcome abortReason w) (fun _ => Unclear) := by
  have hawait : ∀ {α : Type} {op : Op} {act : Conn Db → Except PyExc (α × Conn Db)},
      (∀ frame fate, Clear ⟨frame, op, fate⟩ → fate = .done) →
      Triple (Arrived outcome abortReason) (Session.await op act)
        (fun _ => Arrived outcome abortReason) (fun _ => Unclear) :=
    fun hop => Session.await_triple (fun _ _ _ hw _ => hw)
      (fun w e fate c _ hfate _ => unclear_snoc (Or.inr (fun hclear => hfate (hop _ _ hclear))))
  have hfinish : Triple (Arrived outcome abortReason)
      (Session.inFrame .closing (finishRun runId outcome abortReason))
      (fun _ => Arrived outcome abortReason) (fun _ => Unclear) := by
    refine Session.inFrame_triple (fun _ _ hw => hw) (fun _ _ _ hw => hw) (fun _ _ _ hw => hw) ?_
    refine Triple.bind (Q := fun _ => Arrived outcome abortReason) (fun _ hw => hw.2) (fun now => ?_)
    refine Triple.bind (Q := fun _ => Arrived outcome abortReason) ?_ (fun _ => ?_)
    · exact hawait (fun _ _ h => h)
    · exact hawait (fun _ _ h => h)
  refine hfinish.bind (fun _ => Triple.bind (Q := fun _ => Arrived outcome abortReason) ?_
    (fun _ => Triple.pure (fun _ hw => ⟨rfl, hw⟩)))
  intro w hw
  show Arrived outcome abortReason { w with vars := _ }
  unfold Arrived
  split
  · exact hw
  · exact hw

/-- The run has arrived at an outcome that a run of `run_hunt` can have. -/
def ArrivedSoundly (w : Sess) : Prop :=
  ∃ outcome abortReason, outcome ≠ .crashed ∧ Arrived outcome abortReason w

omit [PyRuntime] in
/-- After an outcome `run_hunt` returns. -/
theorem conclude_ok {result : RunOutcome × Option PyStr} (hresult : result.1 ≠ .crashed) :
    Triple (fun _ => True) (conclude hunt runId (.ok result))
      (fun id w => id = runId ∧ ArrivedSoundly w) (fun _ => Unclear) := by
  refine Triple.bind (Q := fun r w => r = result ∧ Arrived result.1 result.2 w)
    (fun w _ => ⟨rfl, rfl⟩) (fun r => Triple.of_and (fun hr => ?_))
  subst hr
  exact (finish_clear r.1 r.2).conseq (fun _ hw => hw)
    (fun _ _ hw => ⟨hw.1, r.1, r.2, hresult, hw.2⟩) (fun _ _ hw => hw)

omit [PyRuntime] in
/-- After an exception whose event can be stored `run_hunt` returns. -/
theorem conclude_handled {exc : PyExc}
    (hdump : (TrajectoryEvent.error (handled hunt exc).1).dumpable = true) :
    Triple (fun _ => True) (conclude hunt runId (.error (.raised exc)))
      (fun id w => id = runId ∧ ArrivedSoundly w) (fun _ => Unclear) := by
  have happend : Triple (fun _ => True)
      (Session.inFrame .handling (append hunt runId (.error (handled hunt exc).1)))
      (fun _ _ => True) (fun _ => Unclear) := by
    refine Session.inFrame_triple (fun _ _ hw => hw) (fun _ _ _ hw => hw) (fun _ _ _ hw => hw) ?_
    exact ((appendEvent_clear hdump).bind (fun _ => Triple.pure (fun _ hw => hw))).pre
      (fun _ _ => trivial)
  refine Triple.bind (Q := fun r w => r = (.aborted, some (handled hunt exc).2) ∧
    Arrived .aborted (some (handled hunt exc).2) w) ?_ (fun r => Triple.of_and (fun hr => ?_))
  · exact happend.bind (fun _ => fun w _ => ⟨rfl, rfl⟩)
  · subst hr
    exact (finish_clear _ _).conseq (fun _ hw => hw)
      (fun _ _ hw => ⟨hw.1, .aborted, _, nofun, hw.2⟩) (fun _ _ hw => hw)

omit [PyRuntime] in
/-- After any other exception the handler's own append raises, out of `run_hunt`. -/
theorem conclude_refused {exc : PyExc}
    (hdump : (TrajectoryEvent.error (handled hunt exc).1).dumpable = false) :
    Triple (fun _ => True) (conclude hunt runId (.error (.raised exc))) (fun _ _ => False)
      (fun _ _ => True) := by
  have happend : Triple (fun _ => True)
      (Session.inFrame .handling (append hunt runId (.error (handled hunt exc).1)))
      (fun _ _ => False) (fun _ _ => True) := by
    refine Session.inFrame_triple (fun _ _ hw => hw) (fun _ _ _ hw => hw) (fun _ _ _ hw => hw) ?_
    exact ((appendEvent_refused hdump).conseq (fun _ _ => trivial) (fun _ _ hw => hw)
      (fun _ _ _ => trivial)).bind (fun _ _ h => h.elim)
  have hsettle : Triple (fun _ => True) (settle hunt runId (.error (.raised exc)))
      (fun _ _ => False) (fun _ _ => True) :=
    happend.bind (fun _ _ h => h.elim)
  exact hsettle.bind (fun _ _ h => h.elim)

omit [PyRuntime] in
/-- What the statements of the handlers and of the closing write keep, they keep together. -/
theorem conclude_keeps {A : Op → Prop} {I : Sess → Prop} (h : Closed Stmt.exec A I)
    (hA : Controls A) (hframe : Session.Frameless I)
    (herror : ∀ exc now, A (.execute (.appendEvent runId (.error (handled hunt exc).1) now)))
    (hfinish : ∀ now outcome abortReason,
      A (.execute (.finishRun now outcome abortReason runId)))
    (r : Except (Exn PyExc) (RunOutcome × Option PyStr)) : Keeps I (conclude hunt runId r) := by
  refine (settle_keeps h hA hframe herror hfinish r).bind (fun result => ?_)
  refine (hframe.inFrame (finishRun_keeps h hA (fun now => hfinish now _ _))).bind (fun _ => ?_)
  exact (pulse_keeps h).bind (fun _ => Keeps.pure runId)

omit [PyRuntime] in
/-- An interference stays in the trace. -/
theorem conclude_unclear (r : Except (Exn PyExc) (RunOutcome × Option PyStr)) :
    Keeps Unclear (conclude hunt runId r) :=
  conclude_keeps unclear_closed Controls.any unclear_frameless (fun _ _ => trivial)
    (fun _ _ _ => trivial) r

/-- The exception of a result. -/
def raisedExc {α : Type} : Except (Exn PyExc) α → Option PyExc
  | .error (.raised exc) => some exc
  | _ => none

/-- What is raised in the `try` of `run_hunt`, if anything is. -/
def Hunt.failure (hunt : Hunt) (env : Env) (db : Db) : Option PyExc :=
  match (Coro.exec (do
      let runId ← Session.inFrame .starting
        (startRun hunt.territory (some hunt.costCeilingUsd) (some hunt.maxIterations))
      Coro.observe (Session.inFrame .driving (drive hunt runId))) (env.session db)).1 with
  | .ok r => raisedExc r
  | .error _ => none

/-- `run_hunt` has returned its id, and the run is recorded with an outcome of its own. -/
def Returned (hunt : Hunt) (env : Env) (db : Db) : Prop :=
  ((runHunt hunt).exec (env.session db)).1 = .ok (env.uuid4 0) ∧
    ∃ outcome abortReason, outcome ≠ .crashed ∧
      HasOutcome (env.uuid4 0) outcome abortReason
        ((runHunt hunt).exec (env.session db)).2.conn.committed.tables

/-- The outcome `run_hunt` arrived at is in the database once it returns. -/
theorem returned_of_arrived {env : Env} {db : Db} {w : Sess}
    (hrun : (runHunt hunt).exec (env.session db) = (.ok (env.uuid4 0), w)) (hw : ArrivedSoundly w) :
    Returned hunt env db := by
  obtain ⟨outcome, abortReason, houtcome, harrived⟩ := hw
  have hfresh : Fresh (env.uuid4 0) (env.session db) := ⟨rfl, rfl⟩
  obtain ⟨_, o, r, hreached, hrow⟩ := (runHunt_settled hunt (env.uuid4 0)).ok hfresh hrun
  rw [harrived] at hreached
  cases hreached
  refine ⟨by rw [hrun], outcome, abortReason, houtcome, ?_⟩
  rw [hrun]
  exact hrow

/-- A run that nobody interferes with, up to the end of its `try`. -/
theorem tried_of_clear {env : Env} {db : Db} (hbrain : ∀ n context, (hunt.brain n context).Genuine)
    (hclear : ¬ Unclear ((runHunt hunt).exec (env.session db)).2) :
    ∃ r w, (runHunt hunt).exec (env.session db) = (conclude hunt (env.uuid4 0) r).exec w ∧
      hunt.failure env db = raisedExc r ∧ r ≠ .error .cancelled ∧
      ∀ result, r = .ok result → result.1 ≠ .crashed := by
  have hid : (env.session db).vars.uuid4 (env.session db).vars.uuids = env.uuid4 0 := rfl
  cases hstart : (Session.inFrame .starting (startRun hunt.territory (some hunt.costCeilingUsd)
      (some hunt.maxIterations))).exec (env.session db) with
  | mk r w =>
      cases r with
      | error e =>
          rw [runHunt_eq, Coro.exec_bind, hstart] at hclear
          exact absurd (startRun_clear.error hid hstart) hclear
      | ok id =>
          obtain rfl := startRun_clear.ok hid hstart
          have hdriven : Triple (fun _ => True)
              (Session.inFrame .driving (drive hunt (env.uuid4 0)))
              (fun r _ => r.1 ≠ .crashed) Interrupted :=
            Session.inFrame_triple (fun _ _ hw => hw) (fun _ _ _ hw => hw) (fun _ _ _ hw => hw)
              ((driveFor_interrupted hbrain _).pre (fun _ _ => trivial))
          cases hdrive : (Session.inFrame .driving (drive hunt (env.uuid4 0))).exec w with
          | mk r u =>
              have hrun : (runHunt hunt).exec (env.session db)
                  = (conclude hunt (env.uuid4 0) r).exec u := by
                rw [runHunt_eq, Coro.exec_bind, hstart]
                simp only [Coro.exec_bind, Coro.exec_observe, hdrive]
              refine ⟨r, u, hrun, ?_, ?_, ?_⟩
              · unfold Hunt.failure
                rw [Coro.exec_bind, hstart]
                simp only [Coro.exec_observe, hdrive]
              · rintro rfl
                rw [hrun] at hclear
                exact hclear (conclude_unclear _ u (hdriven.error trivial hdrive rfl))
              · rintro result rfl
                exact hdriven.ok trivial hdrive

/-- **The backstop returns exactly if it can store what it caught.** Whatever the brain decides and
    raises and whatever the tools do, with every statement succeeding and no cancellation, `run_hunt`
    returns its id and the run has an outcome of its own, if and only if the exception that reaches
    the handlers, if one does, makes an event whose texts can be stored. -/
theorem returned_iff_dumpable (hbrain : ∀ n context, (hunt.brain n context).Genuine) (env : Env)
    (db : Db) (hclear : ∀ st ∈ ((runHunt hunt).exec (env.session db)).2.trace, Clear st) :
    Returned hunt env db ↔ ∀ exc, hunt.failure env db = some exc →
      (TrajectoryEvent.error (handled hunt exc).1).dumpable = true := by
  have hunclear : ¬ Unclear ((runHunt hunt).exec (env.session db)).2 :=
    fun ⟨st, hst, h⟩ => h (hclear st hst)
  obtain ⟨r, w, hrun, hfailure, hcancelled, hsound⟩ := tried_of_clear hbrain hunclear
  have hreturns : Triple (fun _ => True) (conclude hunt (env.uuid4 0) r)
      (fun id w => id = env.uuid4 0 ∧ ArrivedSoundly w) (fun _ => Unclear) →
      Returned hunt env db := by
    intro h
    cases hend : (conclude hunt (env.uuid4 0) r).exec w with
    | mk r' w' =>
        cases r' with
        | ok id =>
            obtain ⟨rfl, hw'⟩ := h.ok trivial hend
            exact returned_of_arrived (hrun.trans hend) hw'
        | error e =>
            rw [hrun, hend] at hunclear
            exact absurd (h.error trivial hend) hunclear
  rw [hfailure]
  cases r with
  | ok result => exact iff_of_true (hreturns (conclude_ok (hsound result rfl))) (fun _ => nofun)
  | error e =>
      cases e with
      | cancelled => exact absurd rfl hcancelled
      | raised exc =>
          cases hdump : (TrajectoryEvent.error (handled hunt exc).1).dumpable with
          | true =>
              refine iff_of_true (hreturns (conclude_handled hdump)) ?_
              rintro _ ⟨⟩
              exact hdump
          | false =>
              refine iff_of_false ?_ (fun h => ?_)
              · rintro ⟨hok, -⟩
                rw [hrun] at hok
                cases hend : (conclude hunt (env.uuid4 0) (.error (.raised exc))).exec w with
                | mk r' w' =>
                    rw [hend] at hok
                    cases hok
                    exact (conclude_refused hdump).ok trivial hend
              · rw [h exc rfl] at hdump
                cases hdump

end Hunt

/-! ## A text that cannot be stored -/

/-- A hunt whose brain raises a `ValueError` with this message. -/
def failingHunt (message : PyStr) : Hunt :=
  { oneCatch with
    brain := fun _ _ => .raise (.raised (.valueError message))
    texts := ⟨id, fun _ => py "ValueError(...)", fun exc => match exc with
      | .valueError message => py "ValueError: " ++ message
      | _ => py "traceback"⟩ }

/-- Its only run, which nobody interferes with. -/
def failingRun (message : PyStr) : Except (Exn PyExc) PyStr × Sess :=
  (@runHunt .ascii (failingHunt message)).exec ((Env.calm [py "r"]).session Db.empty)

/-- A lone surrogate in the message gets into the traceback, the append of the backstop raises, and
    the run stays open. -/
theorem surrogate_escapes :
    (∀ n context, ((failingHunt [0xD800]).brain n context).Genuine) ∧
    (∀ st ∈ (failingRun [0xD800]).2.trace, Clear st) ∧
    (failingRun [0xD800]).1 = .error (.raised .serializationError) ∧
    (failingRun [0xD800]).2.conn.committed.tables.runs.map Run.outcome = [none] ∧
    ¬ @Returned .ascii (failingHunt [0xD800]) (Env.calm [py "r"]) Db.empty := by
  have hescapes : (failingRun [0xD800]).1 = .error (.raised .serializationError) := by
    decide +kernel
  refine ⟨fun _ _ => nofun, by decide +kernel, hescapes, by decide +kernel, ?_⟩
  rintro ⟨hok, -⟩
  cases hescapes.symm.trans hok

/-- Any other message is recorded, and `run_hunt` returns. -/
theorem plain_error_returns :
    @Returned .ascii (failingHunt (py "boom")) (Env.calm [py "r"]) Db.empty := by
  have hfailure : @Hunt.failure .ascii (failingHunt (py "boom")) (Env.calm [py "r"]) Db.empty
      = some (.valueError (py "boom")) := by decide +kernel
  refine (@returned_iff_dumpable .ascii (failingHunt (py "boom")) (fun _ _ => nofun)
    (Env.calm [py "r"]) Db.empty (by decide +kernel)).2 ?_
  intro exc hexc
  rw [hfailure] at hexc
  cases hexc
  decide +kernel

end RexHunter
