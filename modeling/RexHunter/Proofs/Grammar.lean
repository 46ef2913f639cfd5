import RexHunter.Lib.Emission
import RexHunter.Proofs.Backstop
import RexHunter.Proofs.Usage

set_option autoImplicit false

/-! # The grammar of a trajectory

Four nested loops write the log of a run: the iterations, the attempts of a brain call with the
deltas the brain relays, and the attempts of a tool. Read as a language over the events and the
decisions, what they write is a bounded number of turns and one ending. The languages of this file
follow the source loop by loop, and each function of the loop is shown to write its language; where
a letter comes from is part of the grammar, so a tool that is registered as `<brain>` is still a
tool. -/

namespace RexHunter

open Session (Closed Given)
open Coro (Keeps Triple Emits Written unlessCancelled)
open scoped Computability

/-! ## The record -/

/-- A letter of the record: a decision that a brain call returned, or an event of the log. -/
inductive Mark where
  | decision (d : Decision)
  | event (e : TrajectoryEvent)

def Mark.event? : Mark → Option TrajectoryEvent
  | decision _ => none
  | event e => some e

def Mark.decision? : Mark → Option Decision
  | decision d => some d
  | event _ => none

/-- The events of a word. -/
def wordEvents (x : List Mark) : List TrajectoryEvent := x.filterMap Mark.event?

/-- The decisions of a word. -/
def wordDecisions (x : List Mark) : List Decision := x.filterMap Mark.decision?

@[simp] theorem wordEvents_append (x y : List Mark) :
    wordEvents (x ++ y) = wordEvents x ++ wordEvents y := List.filterMap_append

@[simp] theorem wordDecisions_append (x y : List Mark) :
    wordDecisions (x ++ y) = wordDecisions x ++ wordDecisions y := List.filterMap_append

@[simp] theorem wordEvents_event (e : TrajectoryEvent) : wordEvents [.event e] = [e] := rfl

@[simp] theorem wordEvents_decision (d : Decision) : wordEvents [.decision d] = [] := rfl

@[simp] theorem wordDecisions_event (e : TrajectoryEvent) : wordDecisions [.event e] = [] := rfl

@[simp] theorem wordDecisions_decision (d : Decision) : wordDecisions [.decision d] = [d] := rfl

/-- The connection reads the word. -/
def Reads (runId : PyStr) (x : List Mark) (w : Sess) : Prop :=
  w.conn.view.tables.readEvents runId = wordEvents x ∧ w.vars.decisions = wordDecisions x

/-- The word is what the run has in the log, and what the brain has decided. -/
def Stands (runId : PyStr) (x : List Mark) (w : Sess) : Prop :=
  w.conn.committed.tables.readEvents runId = wordEvents x ∧ Reads runId x w

/-! ## The grammar -/

/-- A thinking delta. -/
def delta : Language Mark := {x | ∃ e, x = [.event (.thinkingDelta e)]}

/-- An error event of this origin. -/
def errors (tool : PyStr) (rawRequest : PyBytes) (retryable : Bool) : Language Mark :=
  {x | ∃ e : ErrorEvent, e.tool = tool ∧ e.rawRequest = rawRequest ∧ e.retryable = retryable ∧
    x = [.event (.error e)]}

theorem error_le_errors (e : ErrorEvent) :
    ({[.event (.error e)]} : Language Mark) ≤ errors e.tool e.rawRequest e.retryable := by
  rintro _ rfl
  exact ⟨e, rfl, rfl, rfl, rfl⟩

/-- An attempt at a brain call that an error ends. -/
def brainError (retryable : Bool) : Language Mark := delta∗ * errors (py "<brain>") [] retryable

/-- A brain call until it ends for good, under `n` attempts. -/
def calling (n : Nat) : Language Mark := (brainError true).fewer n * delta∗

/-- A brain call that is given up. -/
def failedCall (n : Nat) : Language Mark := (brainError true).spent (brainError false) n

/-- The usage of a decision. -/
def paid : Option UsageEvent → Language Mark
  | none => 1
  | some usage => {[.event (.usage usage)]}

/-- A brain call that returns this decision. -/
def decides (n : Nat) (d : Decision) : Language Mark :=
  calling n * ({[.decision d]} * paid d.usage)

/-- The dispatch of a tool call. -/
def called (d : ToolCallDecision) (rawRequest : PyBytes) : Language Mark :=
  {[.event (.toolCall ⟨d.tool, rawRequest, d.toolUseId, d.thinking⟩)]}

/-- The result of a tool call. -/
def answered (d : ToolCallDecision) (rawRequest : PyBytes) : Language Mark :=
  {x | ∃ rawResponse, x = [.event (.toolResult ⟨d.tool, rawRequest, rawResponse, d.toolUseId⟩)]}

/-- A tool call that succeeds within `n` attempts. -/
def ran (n : Nat) (d : ToolCallDecision) : Language Mark :=
  ⨆ rawRequest,
    called d rawRequest * ((errors d.tool rawRequest true).fewer n * answered d rawRequest)

/-- A tool call that is refused, or dispatched and given up. -/
def failedTool (n : Nat) (d : ToolCallDecision) : Language Mark :=
  ⨆ rawRequest, (errors d.tool rawRequest false +
    called d rawRequest * (errors d.tool rawRequest true).spent (errors d.tool rawRequest false) n)

/-- A complete turn. -/
def turn (n : Nat) : Language Mark := ⨆ d, decides n (.toolCall d) * ran n d

/-- A prey. -/
def caught (territory posting : PyStr) : Language Mark :=
  {x | ∃ preyId rawPosting, encode posting = some rawPosting ∧
    x = [.event (.preyCaptured ⟨preyId, territory, rawPosting⟩)]}

/-- What an exception leaves of a turn. -/
def broken (n : Nat) : Language Mark := calling n + ⨆ d, decides n (.toolCall d)

/-- An ending, with its outcome and its abort reason. -/
inductive Ends (n : Nat) (territory : PyStr) : RunOutcome → Option PyStr → List Mark → Prop where
  | costCeiling : Ends n territory .aborted (some (py "cost ceiling")) []
  | brainFailed {x : List Mark} (h : x ∈ failedCall n) :
      Ends n territory .aborted (some (py "brain call failed")) x
  | toolFailed {d : ToolCallDecision} {x : List Mark}
      (h : x ∈ decides n (.toolCall d) * failedTool n d) :
      Ends n territory .aborted (some (py "tool failure")) x
  | completed {catches : List PyStr} {usage : Option UsageEvent} {x : List Mark}
      (h : x ∈ decides n (.huntComplete catches usage) * (catches.map (caught territory)).prod) :
      Ends n territory .completed none x
  | needsHelp {usage : Option UsageEvent} {x : List Mark} (h : x ∈ decides n (.needsHelp usage)) :
      Ends n territory .needsHelp none x
  | malformed {x : List Mark} (h : x ∈ broken n * errors (py "<brain>") [] false) :
      Ends n territory .aborted (some (py "malformed provider response")) x
  | uncaught {x : List Mark} (h : x ∈ broken n * errors (py "<loop>") [] false) :
      Ends n territory .aborted (some (py "unhandled exception in loop")) x

def ending (n : Nat) (territory : PyStr) (outcome : RunOutcome) (abortReason : Option PyStr) :
    Language Mark :=
  {x | Ends n territory outcome abortReason x}

/-- Fewer turns than there are iterations and an ending, or as many turns as iterations. -/
def trajectory (n : Nat) (territory : PyStr) (iterations : Nat) (outcome : RunOutcome)
    (abortReason : Option PyStr) : Language Mark :=
  (turn n).fewer iterations * ending n territory outcome abortReason +
    if (outcome, abortReason) = (.aborted, some (py "max iterations")) then turn n ^ iterations
    else 0

theorem ending_le_trajectory {n : Nat} {territory : PyStr} {outcome : RunOutcome}
    {abortReason : Option PyStr} (remaining : Nat) :
    ending n territory outcome abortReason
      ≤ trajectory n territory (remaining + 1) outcome abortReason :=
  (Language.le_fewer_mul _ _ remaining).trans le_self_add

/-- A turn before a trajectory. -/
theorem turn_mul_trajectory_le {n : Nat} {territory : PyStr} {outcome : RunOutcome}
    {abortReason : Option PyStr} (remaining : Nat) :
    turn n * trajectory n territory remaining outcome abortReason
      ≤ trajectory n territory (remaining + 1) outcome abortReason := by
  unfold trajectory
  rw [mul_add]
  refine add_le_add (Language.mul_fewer_mul_le _ _ _) ?_
  split
  · rw [pow_succ']
  · rw [mul_zero]

theorem calling_le_broken (n : Nat) : calling n ≤ broken n := le_self_add

theorem decides_le_broken (n : Nat) (d : ToolCallDecision) : decides n (.toolCall d) ≤ broken n :=
  fun _ hx => Or.inr (Language.mem_iSup.2 ⟨d, hx⟩)

/-! ## Runs that nothing disturbs -/

/-- Nobody interferes, and every event has a JSON text. -/
def Legible (st : Step Frame Op) : Prop := Clear st ∧ (st.op = .other .dump → st.fate = .done)

instance : DecidablePred Legible := fun st => by
  unfold Legible
  infer_instance

/-- Every step so far was legible. -/
def Lawful (w : Sess) : Prop := ∀ st ∈ w.trace, Legible st

/-- What a program adds to the record of the run. -/
abbrev Records {α : Type} (runId : PyStr) (L : Language Mark) (m : Prog α)
    (T : α → Language Mark) (E : Exn PyExc → Language Mark) : Prop :=
  Emits Lawful (Stands runId) L m T E

/-- What was not lawful does not become so. -/
theorem unlawful_closed : Closed Stmt.exec (fun _ => True) (fun w => ¬ Lawful w) :=
  Session.closed_trace (J := fun trace => ¬ ∀ st ∈ trace, Legible st)
    (fun _ _ _ h hall => h (fun st hst => hall st (List.mem_append_left _ hst)))

theorem useVars_given {α : Type} {I : Sess → Prop} {R : Exn PyExc → Sess → Prop}
    {f : Vars → α × Vars} (h : ∀ w, I w → I { w with vars := (f w.vars).2 }) :
    Triple (Given Legible I) (Session.useVars f : Prog α) (fun _ => Given Legible I) R :=
  fun w hw hall => h w (hw hall)

section Connection

variable {runId : PyStr} {L : Language Mark}

/-- The connection reads a word of `L`. -/
def ReadsIn (runId : PyStr) (L : Language Mark) (w : Sess) : Prop := ∃ x ∈ L, Reads runId x w

/-- The log of the run and the decisions are a word of `L`. -/
def StandsIn (runId : PyStr) (L : Language Mark) (w : Sess) : Prop := ∃ x ∈ L, Stands runId x w

theorem StandsIn.reads {w : Sess} (h : StandsIn runId L w) : ReadsIn runId L w := by
  obtain ⟨x, hx, -, hreads⟩ := h
  exact ⟨x, hx, hreads⟩

theorem commit_stands :
    Triple (Given Legible (ReadsIn runId L)) commit (fun _ => Given Legible (StandsIn runId L))
      (fun _ => Given Legible (fun _ => False)) := by
  refine Session.await_given (fun _ _ h => h.1) ?_
  rintro w a c ⟨x, hx, hreads⟩ hact
  cases hact
  exact ⟨x, hx, hreads.1, hreads⟩

/-- The INSERT of an event, before its commit. -/
theorem appendEvent_reads {event : TrajectoryEvent} {now : PyStr} :
    Triple (Given Legible (ReadsIn runId L)) (execute (.appendEvent runId event now))
      (fun cursor w => cursor.lastrowid ≠ none ∧
        Given Legible (ReadsIn runId (L * {[.event event]})) w)
      (fun _ => Given Legible (fun _ => False)) := by
  have hrowid : Triple (fun _ => True) (execute (.appendEvent runId event now))
      (fun cursor _ => cursor.lastrowid ≠ none) (fun _ _ => True) := by
    refine Session.await_triple ?_ (fun _ _ _ _ _ _ _ => trivial)
    intro w cursor c _ hact
    obtain ⟨d, hd, rfl⟩ := Session.execute_ok hact
    rw [(Stmt.apply_appendEvent (Stmt.exec_ok hd)).2.1]
    exact nofun
  refine ((hrowid.pre (fun _ _ => trivial)).and (Session.await_given (fun _ _ h => h.1)
    ?_)).conseq (fun _ hw => hw) (fun _ _ hw => hw) (fun _ _ hw => hw.2)
  rintro w cursor c ⟨x, hx, hreads, hdecisions⟩ hact
  obtain ⟨d, hd, rfl⟩ := Session.execute_ok hact
  refine ⟨x ++ [.event event], Language.append_mem_mul hx (Set.mem_singleton _), ?_, ?_⟩
  · show d.tables.readEvents runId = _
    rw [Tables.readEvents_append runId (Stmt.exec_ok hd), hreads, if_pos rfl, wordEvents_append,
      wordEvents_event]
  · rw [wordDecisions_append, wordDecisions_event, List.append_nil]
    exact hdecisions

/-- A statement that appends no event. -/
theorem execute_reads {s : Stmt} (hs : s.appended = none) :
    Triple (Given Legible (ReadsIn runId L)) (execute s)
      (fun _ => Given Legible (ReadsIn runId L)) (fun _ => Given Legible (fun _ => False)) := by
  refine Session.await_given (fun _ _ h => h.1) ?_
  rintro w cursor c ⟨x, hx, hreads, hdecisions⟩ hact
  obtain ⟨d, hd, rfl⟩ := Session.execute_ok hact
  refine ⟨x, hx, ?_, hdecisions⟩
  show d.tables.readEvents runId = _
  rw [← hreads, Tables.readEvents_unappended runId (Stmt.exec_ok hd) hs]

/-- An event that has a JSON text, or the step is not legible. -/
theorem dump_stands {dumpable : Bool} :
    Triple (Given Legible (StandsIn runId L)) (dump dumpable)
      (fun _ => Given Legible (StandsIn runId L)) (fun _ => Given Legible (fun _ => False)) := by
  intro w hw
  cases dumpable with
  | true => exact hw.snoc rfl (fun _ hI => hI)
  | false => exact Given.void rfl (fun hst => nomatch hst.2 rfl)

theorem utcnow_stands {R : Exn PyExc → Sess → Prop} :
    Triple (Given Legible (StandsIn runId L)) utcnow (fun _ => Given Legible (StandsIn runId L)) R :=
  useVars_given (fun _ hw => hw)

theorem publishEvent_stands {publish : Bool} {eventId : Nat} {event : TrajectoryEvent}
    {R : Exn PyExc → Sess → Prop} :
    Triple (Given Legible (StandsIn runId L)) (publishEvent publish eventId event)
      (fun _ => Given Legible (StandsIn runId L)) R := by
  refine useVars_given (fun w hw => ?_)
  cases publish with
  | true => exact hw
  | false => exact hw

/-- After a step that is not legible any record is possible. -/
theorem written_of_false {w : Sess} (h : Given Legible (fun _ => False) w) :
    Written Lawful (Stands runId) L w :=
  fun hall => (h hall).elim

/-- A SELECT reads and leaves the record. -/
theorem select_records {α : Type} {read : Tables → α} :
    Records runId 1 (select read) (fun _ => 1) (fun _ => 0) := by
  intro S
  refine (Session.await_given (I := StandsIn runId (S * 1)) (Q := fun _ => StandsIn runId (S * 1))
    (E := fun _ _ => False) (fun _ _ h => h.1) ?_).conseq (fun _ hw => hw) (fun _ _ hw => hw)
    (fun _ _ hw => written_of_false hw)
  intro w a c hw hact
  cases hact
  exact hw

/-- **One event goes to the end of the log.** -/
theorem appendEvent_records {event : TrajectoryEvent} {publish : Bool} :
    Records runId 1 (appendEvent runId event publish) (fun _ => {[.event event]}) (fun _ => 0) := by
  refine Emits.of_one (fun S => ?_)
  refine Triple.seq dump_stands (fun _ _ => written_of_false) (fun _ => ?_)
  refine utcnow_stands.bind (fun now => ?_)
  refine Triple.seq (appendEvent_reads.pre (fun _ hw hall => (hw hall).reads))
    (fun _ _ => written_of_false) (fun cursor => Triple.of_and (fun hrowid => ?_))
  refine Triple.seq commit_stands (fun _ _ => written_of_false) (fun _ => ?_)
  cases hcursor : cursor.lastrowid with
  | none => exact absurd hcursor hrowid
  | some eventId => exact publishEvent_stands.bind (fun _ => Triple.pure (fun _ hw => hw))

/-- A capture, whose posting can be encoded. -/
theorem capturePrey_records {territory posting : PyStr} {publish : Bool}
    (hposting : encodable posting = true) :
    Records runId 1 (capturePrey runId territory posting publish)
      (fun _ => caught territory posting) (fun _ => 0) := by
  refine Emits.of_one (fun S => ?_)
  refine Triple.bind (Q := fun _ => Given Legible (StandsIn runId S)) (useVars_given (fun _ hw => hw))
    (fun preyId => utcnow_stands.bind (fun now => ?_))
  have hencode : Triple (Given Legible (StandsIn runId S)) (encodePosting posting)
      (fun raw w => encode posting = some raw ∧ Given Legible (StandsIn runId S) w)
      (fun _ => Written Lawful (Stands runId) (S * 0)) := by
    intro w hw
    unfold encodePosting encode
    rw [if_pos hposting]
    exact ⟨rfl, hw.snoc rfl (fun _ hI => hI)⟩
  refine hencode.bind (fun raw => Triple.of_and (fun hraw => ?_))
  refine Triple.seq dump_stands (fun _ _ => written_of_false) (fun _ => ?_)
  refine Triple.seq (appendEvent_reads.pre (fun _ hw hall => (hw hall).reads))
    (fun _ _ => written_of_false) (fun cursor => Triple.of_and (fun _ => ?_))
  refine Triple.seq (execute_reads rfl) (fun _ _ => written_of_false) (fun _ => ?_)
  refine Triple.seq commit_stands (fun _ _ => written_of_false) (fun _ => ?_)
  have hcaught : ∀ w : Sess, Given Legible (StandsIn runId
      (S * {[.event (.preyCaptured ⟨preyId, territory, raw⟩)]})) w →
      Written Lawful (Stands runId) (S * caught territory posting) w := by
    intro w hw
    refine Written.mono hw (mul_le_mul_right ?_ S)
    rintro _ rfl
    exact ⟨preyId, raw, hraw, rfl⟩
  cases cursor.lastrowid with
  | none => exact Triple.pure hcaught
  | some eventId => exact publishEvent_stands.bind (fun _ => Triple.pure hcaught)

/-- An await that does not touch the connection, and a cancellation is not legible. -/
theorem elsewhere_records {α : Type} {x : Act} {r : Except PyExc α} :
    Records runId 1 (Session.await (.other x) (Session.elsewhere r)) (fun _ => 1)
      (unlessCancelled 1) := by
  refine Emits.of_one (fun S => ?_)
  simp only [Coro.mul_unlessCancelled, mul_one]
  have hstands : Triple (Given Legible (StandsIn runId S))
      (Session.await (.other x) (Session.elsewhere r))
      (fun _ => Given Legible (StandsIn runId S)) (fun _ => Given Legible (StandsIn runId S)) := by
    refine Session.await_triple ?_ ?_
    · intro w a c hw hact
      rw [(Session.elsewhere_ok hact).2]
      exact hw.snoc rfl (fun _ hI => hI)
    · intro w e fate c hw _ hland
      refine hw.snoc rfl (fun _ hI => ?_)
      cases hland with
      | done a c hact =>
          rw [(Session.elsewhere_ok hact).2]
          exact hI
      | raised => exact hI
      | rolledBack =>
          obtain ⟨x, hx, hcommitted, hreads⟩ := hI
          exact ⟨x, hx, hcommitted, hcommitted, hreads.2⟩
      | skipped => exact hI
      | executed a c hact =>
          rw [(Session.elsewhere_ok hact).2]
          exact hI
  -- the connection stays as it is; that a cancelled await is not legible comes from
  -- `await_interrupted`
  refine (hstands.and (await_interrupted.pre (fun _ _ => trivial))).conseq (fun _ hw => hw)
    (fun _ _ hw => hw.1) ?_
  rintro e w ⟨hw, hinterrupted⟩
  cases e with
  | raised exc => exact hw
  | cancelled =>
      obtain ⟨st, hst, hclear⟩ := hinterrupted rfl
      exact fun hall => absurd (hall st hst).1 hclear

/-- A step without an await. -/
theorem attempt_records {α : Type} {x : Act} {r : Except PyExc α} :
    Records runId 1 (Session.attempt (.other x) r : Prog α) (fun _ => 1) (unlessCancelled 1) := by
  refine Emits.of_one (fun S w hw => ?_)
  simp only [Coro.mul_unlessCancelled, mul_one]
  have hnoted : ∀ passed, Given Legible (StandsIn runId S) (w.noted (.other x) passed) :=
    fun _ => Given.snoc (I := StandsIn runId S) hw rfl (fun _ hI => hI)
  cases r with
  | ok a => exact hnoted true
  | error e => exact hnoted false

/-- A step that leaves the decisions alone. -/
theorem useVars_records {α : Type} {f : Vars → α × Vars} {E : Exn PyExc → Language Mark}
    (hf : ∀ v, (f v).2.decisions = v.decisions) :
    Records runId 1 (Session.useVars f) (fun _ => 1) E := by
  refine Emits.of_one (fun S => ?_)
  rw [mul_one]
  refine useVars_given (I := StandsIn runId S) ?_
  rintro w ⟨x, hx, hcommitted, hreads, hdecisions⟩
  exact ⟨x, hx, hcommitted, hreads, (hf w.vars).trans hdecisions⟩

end Connection

/-! ## The loop -/

section Loop

variable {hunt : Hunt} {runId : PyStr}

theorem append_records {event : TrajectoryEvent} :
    Records runId 1 (append hunt runId event) (fun _ => {[.event event]}) (fun _ => 0) :=
  appendEvent_records.bind (fun _ => Emits.pure le_rfl)

/-- The call has returned. -/
theorem decided_records {d : Decision} {E : Exn PyExc → Language Mark} :
    Records runId 1 (decided d) (fun _ => {[.decision d]}) E := by
  refine Emits.of_one (fun S w hw hall => ?_)
  obtain ⟨x, hx, hcommitted, hreads, hdecisions⟩ := hw hall
  refine ⟨x ++ [.decision d], Language.append_mem_mul hx (Set.mem_singleton _), ?_, ?_, ?_⟩
  · rw [wordEvents_append, wordEvents_decision, List.append_nil]
    exact hcommitted
  · rw [wordEvents_append, wordEvents_decision, List.append_nil]
    exact hreads
  · rw [wordDecisions_append, wordDecisions_decision, ← hdecisions]

/-- **A brain call writes deltas.** -/
theorem runBrain_records (call : BrainCall) (hcall : call.Genuine) :
    Records runId 1 (runBrain hunt runId call) (fun _ => delta∗) (unlessCancelled delta∗) := by
  have hnone : (1 : Language Mark) ≤ delta∗ := one_le_kstar
  -- after a cancellation, which a brain may catch, nothing is promised any more
  have hlost : ∀ call : BrainCall, Records runId 0 (runBrain hunt runId call) (fun _ => delta∗)
      (unlessCancelled delta∗) := fun call =>
    Emits.of_empty (runBrain_keeps unlawful_closed Controls.any (fun _ _ _ => trivial) trivial call)
  have hquiet : ∀ {α : Type} (m : Prog α) (k : Except (Exn PyExc) α → BrainCall),
      Records runId 1 m (fun _ => 1) (unlessCancelled 1) →
      (∀ r, r ≠ .error .cancelled → Records runId 1 (runBrain hunt runId (k r))
        (fun _ => delta∗) (unlessCancelled delta∗)) →
      Records runId 1 (Coro.observe m >>= fun r => runBrain hunt runId (k r)) (fun _ => delta∗)
        (unlessCancelled delta∗) := by
    intro α m k hm hk
    refine hm.observe.bind (fun r => ?_)
    cases r with
    | ok a => exact hk _ nofun
    | error e =>
        cases e with
        | raised exc => exact hk _ (by simp)
        | cancelled => exact hlost _
  induction call with
  | ret decision => exact Emits.pure hnone
  | raise e =>
      cases e with
      | raised exc => exact Emits.throw hnone
      | cancelled => exact absurd rfl hcall
  | request k ih =>
      refine hquiet _ k ?_ (fun r hr => ih r (hcall r hr))
      exact Emits.bind (T := fun _ => 1) (Emits.of_one (fun S w hw => by rwa [mul_one]))
        (fun _ => elsewhere_records)
  | pause k ih => exact hquiet _ k elsewhere_records (fun r hr => ih r (hcall r hr))
  | relay text k ih =>
      have hsink : Records runId 1 (sink hunt runId text) (fun _ => delta) (fun _ => 0) := by
        refine append_records.conseq le_rfl (fun _ => ?_) (fun _ => le_rfl)
        rintro _ rfl
        exact ⟨_, rfl⟩
      refine hsink.observe.bind (fun r => ?_)
      cases r with
      | ok a =>
          exact (ih (.ok a) (hcall _ nofun)).next (fun _ => mul_kstar_le_kstar)
            (Coro.mul_unlessCancelled_le mul_kstar_le_kstar)
      | error e => exact hlost _

theorem callNumber_records {context : Context} :
    Records runId 1 (callNumber context) (fun _ => 1) (unlessCancelled 1) :=
  attempt_records.bind (fun _ => useVars_records (fun _ => rfl))

theorem delta_le_calling (n : Nat) : delta∗ ≤ calling (n + 1) := Language.le_fewer_mul _ _ n

theorem one_le_calling (n : Nat) : 1 ≤ calling (n + 1) :=
  one_le_kstar.trans (delta_le_calling n)

/-- What the attempts of a brain call write. -/
def attempted (n : Nat) : Option Decision → Language Mark
  | some d => calling n * {[.decision d]}
  | none => failedCall n

/-- **The attempts of a brain call**, by induction on the attempts left. -/
theorem attemptBrain_records (hbrain : ∀ n context, (hunt.brain n context).Genuine)
    {context : Context} (n : Nat) :
    Records runId 1 (attemptBrain hunt runId context n) (attempted n)
      (unlessCancelled (calling n)) := by
  induction n with
  | zero => exact Emits.pure (Language.spent_zero _ _).ge
  | succ remaining ih =>
      refine Emits.seq callNumber_records (Coro.unlessCancelled_mono (one_le_calling _))
        (fun n => ?_)
      refine (runBrain_records _ (hbrain n context)).observe.bind (fun r => ?_)
      cases r with
      | ok d =>
          refine Emits.bind (T := fun _ => delta∗ * {[.decision d]})
            ((decided_records (E := fun _ => 0)).next (fun _ => le_rfl)
              (fun _ => Coro.mul_zero_le _ _)) (fun _ => Emits.pure ?_)
          exact mul_le_mul_left (delta_le_calling remaining) _
      | error e =>
          cases e with
          | cancelled => exact Emits.throw le_rfl
          | raised exc =>
              dsimp only
              cases httpFailure exc with
              | none => exact Emits.throw (delta_le_calling remaining)
              | some rawResponse =>
                  refine Emits.bind (T := fun _ => brainError (classify exc)) (append_records.next
                    (fun _ => mul_le_mul_right (error_le_errors _) _)
                    (fun _ => Coro.mul_zero_le _ _)) (fun _ => ?_)
                  -- one more attempt: the induction hypothesis speaks of the remaining ones
                  by_cases hretry : classify exc ∧ remaining ≠ 0
                  · rw [if_pos hretry, hretry.1]
                    refine ih.next (fun r => ?_)
                      (Coro.mul_unlessCancelled_le (Language.mul_fewer_mul_le _ _ _))
                    cases r with
                    | none => exact Language.mul_spent_le _ _ _
                    | some d =>
                        simp only [attempted, calling, mul_assoc]
                        exact Language.mul_fewer_mul_le _ _ _
                  · rw [if_neg hretry]
                    exact Emits.pure (Language.le_spent hretry)

theorem appendUsage_records {usage : Option UsageEvent} :
    Records runId 1 (appendUsage hunt runId usage) (fun _ => paid usage) (fun _ => 0) := by
  cases usage with
  | none => exact Emits.pure le_rfl
  | some usage => exact append_records

/-- Every posting of the decision can be encoded. -/
def Decision.Encodable : Decision → Prop
  | .huntComplete catches _ => ∀ posting ∈ catches, encodable posting = true
  | _ => True

/-- The responses of the hunt's own server. -/
def Hunt.Answers (hunt : Hunt) (response : Response) : Prop := ∃ n, hunt.server n = .ok response

/-- The postings a brain call returns can be encoded. -/
theorem attemptBrain_encodable
    (hcatches : ∀ n context, (hunt.brain n context).Gives hunt.Answers Decision.Encodable)
    {context : Context} (n : Nat) :
    Triple (fun _ => True) (attemptBrain hunt runId context n)
      (fun r _ => ∀ d, r = some d → d.Encodable) (fun _ _ => True) :=
  (attemptBrain_gives (A := fun _ => True) (I := fun _ => True)
    (Session.closed_trace (J := fun _ => True) (fun _ _ _ _ => trivial)) Controls.any
    (fun _ _ _ => trivial) trivial (fun n _ hn => ⟨n, hn⟩) hcatches trivial n).conseq
    (fun _ hw => hw) (fun _ _ hw => hw.1) (fun _ _ _ => trivial)

section Tools

variable [PyRuntime] {d : ToolCallDecision}

theorem executeOnce_records {tool : RegisteredTool} {kwargs : Dict} :
    Records runId 1 (executeOnce tool kwargs) (fun _ => 1) (unlessCancelled 1) :=
  Emits.bind (useVars_records (fun _ => rfl))
    (fun _ => elsewhere_records.bind (fun _ => attempt_records))

/-- What the attempts of a tool write. -/
def attemptedTool (n : Nat) (d : ToolCallDecision) (rawRequest : PyBytes) : Bool → Language Mark
  | true => (errors d.tool rawRequest true).fewer n * answered d rawRequest
  | false => (errors d.tool rawRequest true).spent (errors d.tool rawRequest false) n

/-- **The attempts of a tool**, by induction on the attempts left. -/
theorem attemptTool_records {tool : RegisteredTool} {kwargs : Dict} {rawRequest : PyBytes}
    (n : Nat) :
    Records runId 1 (attemptTool hunt runId d tool kwargs rawRequest n)
      (attemptedTool n d rawRequest) (fun _ => 0) := by
  induction n with
  | zero => exact Emits.pure (Language.spent_zero _ _).ge
  | succ remaining ih =>
      refine executeOnce_records.observe.bind (fun r => ?_)
      cases r with
      | ok rawResponse =>
          refine append_records.bind (fun _ => Emits.pure ?_)
          refine le_trans ?_ (Language.le_fewer_mul _ _ remaining)
          rintro _ rfl
          exact ⟨rawResponse, rfl⟩
      | error e =>
          cases e with
          | cancelled => exact Emits.throw le_rfl
          | raised exc =>
              refine Emits.bind (append_records.conseq le_rfl (fun _ => error_le_errors _)
                (fun _ => le_rfl)) (fun _ => ?_)
              by_cases hretry : classify exc ∧ remaining ≠ 0
              · rw [if_pos hretry, hretry.1]
                refine ih.next (fun ok => ?_) (fun _ => Coro.mul_zero_le _ _)
                cases ok with
                | true => exact Language.mul_fewer_mul_le _ _ _
                | false => exact Language.mul_spent_le _ _ _
              · rw [if_neg hretry]
                exact Emits.pure (Language.le_spent hretry)

/-- What acting on a tool call writes. -/
def acted (n : Nat) (d : ToolCallDecision) : Bool → Language Mark
  | true => ran n d
  | false => failedTool n d

theorem refuseTool_records {n : Nat} {error detail : PyStr} :
    Records runId 1 (refuseTool hunt runId d error detail) (acted n d) (unlessCancelled 1) := by
  refine attempt_records.bind (fun rawRequest => ?_)
  refine Emits.seq append_records (fun _ => Coro.zero_le_language _) (fun _ => Emits.pure ?_)
  rintro _ rfl
  exact Language.mem_iSup.2 ⟨rawRequest, Or.inl ⟨_, rfl, rfl, rfl, rfl⟩⟩

theorem runTool_records :
    Records runId 1 (runTool hunt runId d) (acted hunt.attempts d) (unlessCancelled 1) := by
  unfold runTool
  cases hunt.registry.get d.tool with
  | none => exact refuseTool_records
  | some tool =>
      dsimp only
      split
      · exact refuseTool_records
      · exact Emits.throw le_rfl
      · next kwargs _ =>
          refine attempt_records.bind (fun rawRequest => ?_)
          refine Emits.seq append_records (fun _ => Coro.zero_le_language _) (fun _ => ?_)
          refine (attemptTool_records hunt.attempts).next (fun ok x hx => ?_)
            (fun _ => Coro.mul_zero_le _ _)
          cases ok with
          | true => exact Language.mem_iSup.2 ⟨rawRequest, hx⟩
          | false => exact Language.mem_iSup.2 ⟨rawRequest, Or.inr hx⟩

/-! ## The iterations -/

/-- **The iterations**, by induction on the iterations left. -/
theorem driveFor_records (hbrain : ∀ n context, (hunt.brain n context).Genuine)
    (hcatches : ∀ n context, (hunt.brain n context).Gives hunt.Answers Decision.Encodable)
    (n : Nat) :
    Records runId 1 (driveFor hunt runId n)
      (fun r => trajectory hunt.attempts hunt.territory n r.1 r.2)
      (unlessCancelled ((turn hunt.attempts).fewer n * broken hunt.attempts)) := by
  induction n with
  | zero =>
      refine Emits.pure ?_
      simp [trajectory]
  | succ remaining ih =>
      -- whatever breaks this turn off breaks off the word of the whole run
      have hbroken : ∀ {L : Language Mark}, L ≤ broken hunt.attempts → ∀ e : Exn PyExc,
          unlessCancelled L e ≤ unlessCancelled
            ((turn hunt.attempts).fewer (remaining + 1) * broken hunt.attempts) e :=
        fun h => Coro.unlessCancelled_mono (h.trans (Language.le_fewer_mul _ _ remaining))
      refine Emits.seq select_records (fun _ => Coro.zero_le_language _) (fun context => ?_)
      by_cases hceiling : hunt.costCeilingUsd ≤ foldCost context
      · rw [if_pos hceiling]
        refine Emits.pure (le_trans ?_ (ending_le_trajectory remaining))
        rintro _ rfl
        exact Ends.costCeiling
      rw [if_neg hceiling]
      refine Emits.bind_of ((attemptBrain_records hbrain hunt.attempts).conseq le_rfl
        (fun _ => le_rfl) (hbroken (calling_le_broken _)))
        (attemptBrain_encodable hcatches hunt.attempts) (fun r hr => ?_)
      cases r with
      | none =>
          exact Emits.pure (le_trans (fun _ hx => Ends.brainFailed hx)
            (ending_le_trajectory remaining))
      | some d =>
          refine Emits.bind (T := fun _ => decides hunt.attempts d) (appendUsage_records.next
            (fun _ => (mul_assoc _ _ _).le) (fun _ => Coro.mul_zero_le _ _)) (fun _ => ?_)
          cases d with
          | toolCall d =>
              refine Emits.bind (T := fun ok => decides hunt.attempts (.toolCall d) *
                acted hunt.attempts d ok) (runTool_records.next (fun _ => le_rfl)
                (fun e => (Coro.mul_unlessCancelled_le (mul_one _).le e).trans
                  (hbroken (decides_le_broken _ d) e))) (fun goesOn => ?_)
              cases goesOn with
              | true =>
                  -- a tool that succeeded closes the turn; the remaining iterations go on
                  have hturn : decides hunt.attempts (.toolCall d) * ran hunt.attempts d
                      ≤ turn hunt.attempts := fun _ hx => Language.mem_iSup.2 ⟨d, hx⟩
                  exact ih.next
                    (fun _ => (mul_le_mul_left hturn _).trans (turn_mul_trajectory_le remaining))
                    (Coro.mul_unlessCancelled_le ((mul_le_mul_left hturn _).trans
                      (Language.mul_fewer_mul_le _ _ _)))
              | false =>
                  exact Emits.pure (le_trans (fun _ hx => Ends.toolFailed hx)
                    (ending_le_trajectory remaining))
          | huntComplete catches usage =>
              -- the catches encode by `hcatches`, so every capture writes both of its rows
              have hcapture : ∀ posting ∈ catches, Records runId 1
                  (do let _ ← capturePrey runId hunt.territory posting hunt.publish)
                  (fun _ => caught hunt.territory posting) (fun _ => 0) := fun posting hposting =>
                (capturePrey_records (hr _ rfl posting hposting)).bind (fun _ => Emits.pure le_rfl)
              refine Emits.bind (T := fun _ => decides hunt.attempts (.huntComplete catches usage) *
                (catches.map (caught hunt.territory)).prod) ((Emits.forM hcapture).next
                (fun _ => le_rfl) (fun _ => Coro.mul_zero_le _ _)) (fun _ => ?_)
              exact Emits.pure (le_trans (fun _ hx => Ends.completed hx)
                (ending_le_trajectory remaining))
          | needsHelp usage =>
              exact Emits.pure (le_trans (fun _ hx => Ends.needsHelp hx)
                (ending_le_trajectory remaining))

end Tools

/-! ## The whole run -/

theorem inFrame_records {α : Type} {L : Language Mark} {m : Prog α} {T : α → Language Mark}
    {E : Exn PyExc → Language Mark} {f : Frame} (h : Records runId L m T E) :
    Records runId L (Session.inFrame f m) T E := fun S =>
  Session.inFrame_triple (fun _ _ hw => hw) (fun _ _ _ hw => hw) (fun _ _ _ hw => hw)
    ((h S).pre (fun _ hw => hw.2))

theorem finishRun_records {outcome : RunOutcome} {abortReason : Option PyStr} :
    Records runId 1 (finishRun runId outcome abortReason) (fun _ => 1) (fun _ => 0) := by
  refine Emits.of_one (fun S => ?_)
  rw [mul_one]
  refine utcnow_stands.bind (fun now => ?_)
  refine Triple.seq ((execute_reads rfl).pre (fun _ hw hall => (hw hall).reads))
    (fun _ _ => written_of_false) (fun _ => ?_)
  exact commit_stands.conseq (fun _ hw => hw) (fun _ _ hw => hw) (fun _ _ => written_of_false)

theorem pulse_records {outcome : RunOutcome} {E : Exn PyExc → Language Mark} :
    Records runId 1 (pulse hunt runId outcome) (fun _ => 1) E := by
  refine useVars_records (fun v => ?_)
  split
  · rfl
  · rfl

theorem reach_records {outcome : RunOutcome} {abortReason : Option PyStr} {L : Language Mark}
    {T : RunOutcome × Option PyStr → Language Mark} {E : Exn PyExc → Language Mark}
    (h : L ≤ T (outcome, abortReason)) : Records runId L (reach outcome abortReason) T E :=
  fun S _ hw => Written.mono (L := S * L) hw (mul_le_mul_right h S)

/-- What a run has behind it when its `try` ends. -/
def tried (hunt : Hunt) : Except (Exn PyExc) (RunOutcome × Option PyStr) → Language Mark
  | .ok r => trajectory hunt.attempts hunt.territory hunt.maxIterations.toNat r.1 r.2
  | .error e => unlessCancelled
      ((turn hunt.attempts).fewer hunt.maxIterations.toNat * broken hunt.attempts) e

/-- The event of a handler completes the ending. -/
theorem handled_le_trajectory (exc : PyExc) :
    tried hunt (.error (.raised exc)) * {[.event (.error (handled hunt exc).1)]}
      ≤ trajectory hunt.attempts hunt.territory hunt.maxIterations.toNat .aborted
          (some (handled hunt exc).2) := by
  refine le_trans ?_ le_self_add
  simp only [tried, unlessCancelled, mul_assoc]
  refine mul_le_mul_right ?_ _
  intro x hx
  obtain ⟨y, hy, z, rfl, rfl⟩ := Language.mem_mul.1 hx
  unfold handled
  split
  · exact Ends.malformed (Language.append_mem_mul hy ⟨_, rfl, rfl, rfl, rfl⟩)
  · exact Ends.uncaught (Language.append_mem_mul hy ⟨_, rfl, rfl, rfl, rfl⟩)

theorem settle_records (r : Except (Exn PyExc) (RunOutcome × Option PyStr)) :
    Records runId (tried hunt r) (settle hunt runId r)
      (fun r => trajectory hunt.attempts hunt.territory hunt.maxIterations.toNat r.1 r.2)
      (fun _ => 0) := by
  cases r with
  | ok r => exact reach_records le_rfl
  | error e =>
      cases e with
      | cancelled =>
          exact Emits.of_empty (settle_keeps unlawful_closed Controls.any
            ⟨fun _ _ hw => hw, fun _ _ hw => hw⟩ (fun _ _ => trivial) (fun _ _ _ => trivial) _)
      | raised exc =>
          refine Emits.bind (T := fun _ => tried hunt (.error (.raised exc)) *
            {[.event (.error (handled hunt exc).1)]}) ((inFrame_records append_records).next
            (fun _ => le_rfl) (fun _ => Coro.mul_zero_le _ _)) (fun _ => ?_)
          exact reach_records (handled_le_trajectory exc)

/-- The handlers arrive at what they return. -/
theorem settle_arrived (r : Except (Exn PyExc) (RunOutcome × Option PyStr)) :
    Triple (fun _ => True) (settle hunt runId r) (fun r w => Arrived r.1 r.2 w)
      (fun _ _ => True) := by
  cases r with
  | ok r => exact fun _ _ => rfl
  | error e =>
      have hany : ∀ {α : Type} (m : Prog α),
          Triple (fun _ => True) m (fun _ _ => True) (fun _ _ => True) :=
        fun m => Triple.of_final (T := fun _ => True) (fun _ _ => trivial)
      cases e with
      | cancelled =>
          exact Triple.bind (Q := fun _ _ => True) (hany _) (fun _ =>
            Triple.bind (Q := fun _ _ => True) (hany _) (fun _ => Triple.throw (fun _ _ => trivial)))
      | raised exc => exact Triple.bind (Q := fun _ _ => True) (hany _) (fun _ => fun _ _ => rfl)

/-- After the `try`. -/
theorem conclude_records (r : Except (Exn PyExc) (RunOutcome × Option PyStr)) :
    Triple (Written Lawful (Stands runId) (tried hunt r)) (conclude hunt runId r)
      (fun id w => id = runId ∧ ∃ outcome abortReason, Arrived outcome abortReason w ∧
        Written Lawful (Stands runId) (trajectory hunt.attempts hunt.territory
          hunt.maxIterations.toNat outcome abortReason) w)
      (fun _ => Written Lawful (Stands runId) 0) := by
  have hsettle : Triple (Written Lawful (Stands runId) (tried hunt r)) (settle hunt runId r)
      (fun result w => Arrived result.1 result.2 w ∧ Written Lawful (Stands runId)
        (trajectory hunt.attempts hunt.territory hunt.maxIterations.toNat result.1 result.2) w)
      (fun _ => Written Lawful (Stands runId) 0) :=
    (((settle_arrived r).pre (fun _ _ => trivial)).and (settle_records r).run).conseq
      (fun _ hw => hw) (fun _ _ hw => hw) (fun _ _ hw => hw.2)
  refine hsettle.bind (fun result => ?_)
  have hclosing : Records runId 1
      (do
        Session.inFrame .closing (finishRun runId result.1 result.2)
        pulse hunt runId result.1
        return runId) (fun _ => 1) (fun _ => 0) :=
    (inFrame_records finishRun_records).bind (fun _ => pulse_records.bind
      (fun _ => Emits.pure le_rfl))
  have hframed := (hclosing.next (L := trajectory hunt.attempts hunt.territory
    hunt.maxIterations.toNat result.1 result.2) (fun _ => (mul_one _).le)
    (fun _ => Coro.mul_zero_le _ 0)).run
  refine (((finish_clear result.1 result.2).pre (fun _ hw => hw.1)).and
    (hframed.pre (fun _ hw => hw.2))).conseq (fun _ hw => hw) ?_ (fun _ _ hw => hw.2)
  rintro id w ⟨⟨hid, harrived⟩, hw⟩
  exact ⟨hid, result.1, result.2, harrived, hw⟩

/-- No brain call has returned yet. -/
def Undecided (w : Sess) : Prop := w.vars.decisions = []

/-- A run starts with an empty log. -/
theorem startRun_records {env : Env} {db : Db} {territory : PyStr} {costCeilingUsd : Option ℚ}
    {maxIterations : Option Int} :
    Triple (fun w => w = env.session db)
      (Session.inFrame .starting (startRun territory costCeilingUsd maxIterations))
      (fun id w => id = env.uuid4 0 ∧ Written Lawful (Stands (env.uuid4 0)) 1 w)
      (fun _ => Written Lawful (Stands (env.uuid4 0)) 0) := by
  have hinit : Triple (fun w => w = env.session db)
      (Session.inFrame .starting (startRun territory costCeilingUsd maxIterations))
      (fun id => Given Legible (StandsIn id 1)) (fun _ => Given Legible (fun _ => False)) := by
    refine (Session.inFrame_triple (P := Given Legible Undecided) (fun _ _ hw => hw)
      (fun _ _ _ hw => hw) (fun _ _ _ hw => hw) ?_).pre ?_
    · refine Triple.bind (Q := fun _ => Given Legible Undecided)
        ((useVars_given (fun _ hw => hw)).pre (fun _ hw => hw.2)) (fun id => ?_)
      refine Triple.bind (Q := fun _ => Given Legible Undecided)
        (useVars_given (fun _ hw => hw)) (fun now => ?_)
      refine Triple.bind (Q := fun _ => Given Legible (ReadsIn id 1)) (Session.await_given
        (fun _ _ h => h.1) ?_) (fun _ => commit_stands.bind (fun _ => Triple.pure (fun _ hw => hw)))
      rintro w cursor c hdecisions hact
      obtain ⟨d, hd, rfl⟩ := Session.execute_ok hact
      obtain ⟨hid, hrows⟩ := Stmt.apply_insertRun (Stmt.exec_ok hd)
      refine ⟨[], rfl, ?_, hdecisions⟩
      show d.tables.readEvents id = []
      rw [hrows]
      exact w.conn.view.schema.readEvents_eq_nil hid
    · rintro w rfl _
      rfl
  have hid : Triple (fun w => w = env.session db)
      (Session.inFrame .starting (startRun territory costCeilingUsd maxIterations))
      (fun id _ => id = env.uuid4 0) (fun _ => Unclear) :=
    startRun_clear.pre (by rintro _ rfl; rfl)
  refine (hid.and hinit).conseq (fun _ hw => hw) ?_ (fun _ _ hw => written_of_false hw.2)
  rintro id w ⟨rfl, hw⟩
  exact ⟨rfl, hw⟩

section Run

variable [PyRuntime]

/-- The whole hunt. -/
theorem runHunt_records {env : Env} {db : Db}
    (hbrain : ∀ n context, (hunt.brain n context).Genuine)
    (hcatches : ∀ n context, (hunt.brain n context).Gives hunt.Answers Decision.Encodable) :
    Triple (fun w => w = env.session db) (runHunt hunt)
      (fun id w => id = env.uuid4 0 ∧ ∃ outcome abortReason, Arrived outcome abortReason w ∧
        Written Lawful (Stands (env.uuid4 0)) (trajectory hunt.attempts hunt.territory
          hunt.maxIterations.toNat outcome abortReason) w)
      (fun _ => Written Lawful (Stands (env.uuid4 0)) 0) := by
  rw [runHunt_eq]
  refine startRun_records.bind (fun id => Triple.of_and ?_)
  rintro rfl
  have hdrive : Records (env.uuid4 0) 1
      (Coro.observe (Session.inFrame .driving (drive hunt (env.uuid4 0)))) (tried hunt)
      (fun _ => 0) := by
    refine (inFrame_records (driveFor_records hbrain hcatches _)).observe.conseq le_rfl
      (fun r => ?_) (fun _ => le_rfl)
    cases r with
    | ok r => exact le_rfl
    | error e => exact le_rfl
  exact hdrive.run.bind (fun r => conclude_records r)

end Run

end Loop

/-! ## What the outcome says about the word -/

/-- Words whose decisions satisfy `p`. -/
def deciding (p : Decision → Prop) : Language Mark := {x | ∀ d ∈ wordDecisions x, p d}

section Deciding

variable {p : Decision → Prop} {L M : Language Mark} {n : Nat}

theorem mul_le_deciding (hL : L ≤ deciding p) (hM : M ≤ deciding p) : L * M ≤ deciding p := by
  intro x hx
  obtain ⟨y, hy, z, hz, rfl⟩ := Language.mem_mul.1 hx
  intro d hd
  rw [wordDecisions_append, List.mem_append] at hd
  rcases hd with hd | hd
  · exact hL hy d hd
  · exact hM hz d hd

theorem one_le_deciding : 1 ≤ deciding p := by
  rintro _ rfl d hd
  cases hd

theorem pow_le_deciding (hL : L ≤ deciding p) (k : Nat) : L ^ k ≤ deciding p := by
  induction k with
  | zero => exact one_le_deciding
  | succ k ih =>
      rw [pow_succ]
      exact mul_le_deciding ih hL

theorem fewer_le_deciding (hL : L ≤ deciding p) : L.fewer n ≤ deciding p := by
  intro x hx
  obtain ⟨k, -, hx⟩ := Language.mem_fewer.1 hx
  exact pow_le_deciding hL k hx

theorem kstar_le_deciding (hL : L ≤ deciding p) : L∗ ≤ deciding p := by
  rw [Language.kstar_eq_iSup_pow]
  intro x hx
  obtain ⟨k, hx⟩ := Language.mem_iSup.1 hx
  exact pow_le_deciding hL k hx

theorem spent_le_deciding (hL : L ≤ deciding p) (hM : M ≤ deciding p) :
    L.spent M n ≤ deciding p :=
  add_le (mul_le_deciding (fewer_le_deciding hL) hM) (pow_le_deciding hL n)

theorem errors_le_deciding {tool : PyStr} {rawRequest : PyBytes} {retryable : Bool} :
    errors tool rawRequest retryable ≤ deciding p := by
  rintro _ ⟨e, -, -, -, rfl⟩ d hd
  cases hd

theorem delta_le_deciding : delta ≤ deciding p := by
  rintro _ ⟨e, rfl⟩ d hd
  cases hd

theorem brainError_le_deciding {retryable : Bool} : brainError retryable ≤ deciding p :=
  mul_le_deciding (kstar_le_deciding delta_le_deciding) errors_le_deciding

theorem calling_le_deciding : calling n ≤ deciding p :=
  mul_le_deciding (fewer_le_deciding brainError_le_deciding) (kstar_le_deciding delta_le_deciding)

theorem paid_le_deciding {usage : Option UsageEvent} : paid usage ≤ deciding p := by
  cases usage with
  | none => exact one_le_deciding
  | some usage =>
      rintro _ rfl d hd
      cases hd

theorem decides_le_deciding {d : Decision} (hd : p d) : decides n d ≤ deciding p := by
  refine mul_le_deciding calling_le_deciding (mul_le_deciding ?_ paid_le_deciding)
  rintro _ rfl d' hd'
  rw [wordDecisions_decision, List.mem_singleton] at hd'
  rw [hd']
  exact hd

theorem called_le_deciding {d : ToolCallDecision} {rawRequest : PyBytes} :
    called d rawRequest ≤ deciding p := by
  rintro _ rfl d' hd'
  cases hd'

theorem ran_le_deciding {d : ToolCallDecision} : ran n d ≤ deciding p := by
  intro x hx
  obtain ⟨rawRequest, hx⟩ := Language.mem_iSup.1 hx
  refine mul_le_deciding called_le_deciding
    (mul_le_deciding (fewer_le_deciding errors_le_deciding) ?_) hx
  rintro _ ⟨rawResponse, rfl⟩ d' hd'
  cases hd'

theorem failedTool_le_deciding {d : ToolCallDecision} : failedTool n d ≤ deciding p := by
  intro x hx
  obtain ⟨rawRequest, hx⟩ := Language.mem_iSup.1 hx
  exact add_le errors_le_deciding (mul_le_deciding called_le_deciding
    (spent_le_deciding errors_le_deciding errors_le_deciding)) hx

theorem caught_le_deciding {territory : PyStr} (catches : List PyStr) :
    (catches.map (caught territory)).prod ≤ deciding p := by
  induction catches with
  | nil => exact one_le_deciding
  | cons posting catches ih =>
      refine mul_le_deciding ?_ ih
      rintro _ ⟨preyId, rawPosting, -, rfl⟩ d hd
      cases hd

end Deciding

/-- The outcome a run has by its last decision. -/
def concluded : Option Decision → RunOutcome
  | some (.huntComplete _ _) => .completed
  | some (.needsHelp _) => .needsHelp
  | _ => .aborted

/-- A decision to run a tool. -/
def Decision.IsToolCall (d : Decision) : Prop := ∃ call, d = .toolCall call

theorem turn_le_deciding (n : Nat) : turn n ≤ deciding Decision.IsToolCall := by
  intro x hx
  obtain ⟨d, hx⟩ := Language.mem_iSup.1 hx
  exact mul_le_deciding (decides_le_deciding ⟨d, rfl⟩) ran_le_deciding hx

theorem concluded_of_toolCalls {l : List Decision} (h : ∀ d ∈ l, d.IsToolCall) :
    concluded l.getLast? = .aborted := by
  cases hlast : l.getLast? with
  | none => rfl
  | some d =>
      obtain ⟨call, rfl⟩ := h d (List.mem_of_getLast? hlast)
      rfl

theorem wordDecisions_eq_nil {x : List Mark} (hx : x ∈ deciding (fun _ => False)) :
    wordDecisions x = [] :=
  List.eq_nil_iff_forall_not_mem.2 hx

/-- A call that returns has one decision, and what follows it in the turn has none. -/
theorem wordDecisions_decides {n : Nat} {d : Decision} {L : Language Mark} {x : List Mark}
    (hL : L ≤ deciding (fun _ => False)) (hx : x ∈ decides n d * L) : wordDecisions x = [d] := by
  obtain ⟨y, hy, z, hz, rfl⟩ := Language.mem_mul.1 hx
  obtain ⟨c, hc, y, hdecided, rfl⟩ := Language.mem_mul.1 hy
  obtain ⟨m, rfl, u, hu, rfl⟩ := Language.mem_mul.1 hdecided
  rw [wordDecisions_append, wordDecisions_append, wordDecisions_append, wordDecisions_decision,
    wordDecisions_eq_nil (calling_le_deciding hc), wordDecisions_eq_nil (paid_le_deciding hu),
    wordDecisions_eq_nil (hL hz)]
  rfl

/-- A call that does not return, or a tool call that an exception ends. -/
theorem broken_le_deciding (n : Nat) : broken n ≤ deciding Decision.IsToolCall := by
  refine add_le calling_le_deciding ?_
  intro x hx
  obtain ⟨d, hx⟩ := Language.mem_iSup.1 hx
  exact decides_le_deciding ⟨d, rfl⟩ hx

/-- An ending either decides nothing that ends a run, and is aborted, or its decision says how. -/
theorem Ends.decisions {n : Nat} {territory : PyStr} {outcome : RunOutcome}
    {abortReason : Option PyStr} {x : List Mark} (h : Ends n territory outcome abortReason x) :
    (outcome = .aborted ∧ ∀ d ∈ wordDecisions x, d.IsToolCall) ∨
      ∃ d, wordDecisions x = [d] ∧ outcome = concluded (some d) := by
  cases h with
  | costCeiling => exact Or.inl ⟨rfl, nofun⟩
  | brainFailed h =>
      exact Or.inl ⟨rfl, spent_le_deciding brainError_le_deciding brainError_le_deciding h⟩
  | toolFailed h => exact Or.inr ⟨_, wordDecisions_decides failedTool_le_deciding h, rfl⟩
  | completed h => exact Or.inr ⟨_, wordDecisions_decides (caught_le_deciding _) h, rfl⟩
  | needsHelp h =>
      rw [← mul_one (decides n _)] at h
      exact Or.inr ⟨_, wordDecisions_decides one_le_deciding h, rfl⟩
  | malformed h => exact Or.inl ⟨rfl, mul_le_deciding (broken_le_deciding n) errors_le_deciding h⟩
  | uncaught h => exact Or.inl ⟨rfl, mul_le_deciding (broken_le_deciding n) errors_le_deciding h⟩

/-- **The outcome is the one of the last decision.** -/
theorem outcome_of_trajectory {n iterations : Nat} {territory : PyStr} {outcome : RunOutcome}
    {abortReason : Option PyStr} {x : List Mark}
    (h : x ∈ trajectory n territory iterations outcome abortReason) :
    outcome = concluded (wordDecisions x).getLast? := by
  rcases h with h | h
  · obtain ⟨y, hy, z, hz, rfl⟩ := Language.mem_mul.1 h
    have hturns := fewer_le_deciding (turn_le_deciding n) hy
    rcases Ends.decisions hz with ⟨rfl, hcalls⟩ | ⟨d, hone, rfl⟩
    · exact (concluded_of_toolCalls
        (mul_le_deciding le_rfl le_rfl (Language.append_mem_mul hturns hcalls))).symm
    · rw [wordDecisions_append, hone, List.getLast?_concat]
  · split at h
    · next hmax =>
        cases hmax
        exact (concluded_of_toolCalls (pow_le_deciding (turn_le_deciding n) _ h)).symm
    · exact absurd h (Language.notMem_zero x)

/-- Words that an error event of this tool ends. -/
def endingIn (tool : PyStr) : Language Mark :=
  {x | ∃ e : ErrorEvent, e.tool = tool ∧ (wordEvents x).getLast? = some (.error e)}

theorem errors_le_endingIn {tool : PyStr} {rawRequest : PyBytes} {retryable : Bool} :
    errors tool rawRequest retryable ≤ endingIn tool := by
  rintro _ ⟨e, htool, -, -, rfl⟩
  exact ⟨e, htool, rfl⟩

theorem mul_le_endingIn {tool : PyStr} {L M : Language Mark} (hM : M ≤ endingIn tool) :
    L * M ≤ endingIn tool := by
  intro x hx
  obtain ⟨y, -, z, hz, rfl⟩ := Language.mem_mul.1 hx
  obtain ⟨e, htool, hlast⟩ := hM hz
  refine ⟨e, htool, ?_⟩
  rw [wordEvents_append, List.getLast?_append, hlast]
  rfl

/-- A tool call that fails is ended by an error of the tool. -/
theorem failedTool_le_endingIn {n : Nat} {d : ToolCallDecision} :
    failedTool (n + 1) d ≤ endingIn d.tool := by
  intro x hx
  obtain ⟨rawRequest, hx⟩ := Language.mem_iSup.1 hx
  refine add_le errors_le_endingIn (mul_le_endingIn (add_le (mul_le_endingIn errors_le_endingIn)
    ?_)) hx
  rw [pow_succ]
  exact mul_le_endingIn errors_le_endingIn

/-- A run that a tool has failed ends with an error of the tool that was decided on last. -/
theorem failure_of_trajectory {n iterations : Nat} {territory : PyStr} {outcome : RunOutcome}
    {abortReason : Option PyStr} {x : List Mark}
    (h : x ∈ trajectory (n + 1) territory iterations outcome abortReason)
    (hreason : abortReason = some (py "tool failure")) :
    ∃ d, (wordDecisions x).getLast? = some (.toolCall d) ∧ x ∈ endingIn d.tool := by
  rcases h with h | h
  · obtain ⟨y, hy, z, hz, rfl⟩ := Language.mem_mul.1 h
    have hother : ∀ reason : PyStr, reason ≠ py "tool failure" → some reason ≠ abortReason :=
      fun reason hne heq => hne (Option.some.inj (heq.trans hreason))
    cases hz with
    | toolFailed h =>
        refine ⟨_, ?_, mul_le_endingIn (mul_le_endingIn failedTool_le_endingIn)
          (Language.append_mem_mul hy h)⟩
        rw [wordDecisions_append, wordDecisions_decides failedTool_le_deciding h, List.getLast?_concat]
    | completed h => cases hreason
    | needsHelp h => cases hreason
    | costCeiling => exact absurd rfl (hother _ (by decide))
    | brainFailed h => exact absurd rfl (hother _ (by decide))
    | malformed h => exact absurd rfl (hother _ (by decide))
    | uncaught h => exact absurd rfl (hother _ (by decide))
  · split at h
    · next hmax =>
        cases hmax
        exact absurd hreason (by decide)
    · exact absurd h (Language.notMem_zero x)

/-! ## The theorem -/

/-- **Trajectory grammar and outcome soundness.** For every brain that raises no `CancelledError` of
    its own, every registry and every budget, a run of `run_hunt` that meets no cancellation and no
    failure of the database, with all texts encodable (the postings, of whatever its server answers),
    returns, and its log and its decisions are a word of the grammar: fewer turns than iterations and
    an ending, or as many turns as iterations. The recorded outcome is the one of the last decision,
    and a run is closed with `tool failure` only if an error of the tool decided on last ends the
    log. -/
theorem trajectory_grammar [PyRuntime] {hunt : Hunt} (hbudget : 0 ≤ hunt.retryBudget)
    (hbrain : ∀ n context, (hunt.brain n context).Genuine)
    (hcatches : ∀ n context, (hunt.brain n context).Gives hunt.Answers Decision.Encodable)
    {env : Env} {db : Db} {r : Except (Exn PyExc) PyStr} {w : Sess}
    (hrun : (runHunt hunt).exec (env.session db) = (r, w))
    (hlawful : ∀ st ∈ w.trace, Legible st) :
    r = .ok (env.uuid4 0) ∧ ∃ outcome abortReason,
      HasOutcome (env.uuid4 0) outcome abortReason w.conn.committed.tables ∧
      ∃ x ∈ trajectory (hunt.retryBudget.toNat + 1) hunt.territory hunt.maxIterations.toNat outcome
          abortReason,
        w.conn.committed.tables.readEvents (env.uuid4 0) = wordEvents x ∧
        w.vars.decisions = wordDecisions x ∧
        outcome = concluded w.vars.decisions.getLast? ∧
        (abortReason = some (py "tool failure") → ∃ d : ToolCallDecision, ∃ e : ErrorEvent,
          w.vars.decisions.getLast? = some (.toolCall d) ∧ e.tool = d.tool ∧
          (w.conn.committed.tables.readEvents (env.uuid4 0)).getLast? = some (.error e)) := by
  have hattempts : hunt.attempts = hunt.retryBudget.toNat + 1 := by
    unfold Hunt.attempts
    omega
  cases r with
  | error e =>
      obtain ⟨x, hx, -⟩ := (runHunt_records hbrain hcatches).error rfl hrun hlawful
      exact absurd hx (Language.notMem_zero x)
  | ok id =>
      obtain ⟨rfl, outcome, abortReason, harrived, hwritten⟩ :=
        (runHunt_records hbrain hcatches).ok rfl hrun
      have hfresh : Fresh (env.uuid4 0) (env.session db) := ⟨rfl, rfl⟩
      -- the row of the run and the word of the log are of the same outcome
      obtain ⟨-, o, reason, hreached, hrow⟩ := (runHunt_settled hunt (env.uuid4 0)).ok hfresh hrun
      rw [harrived] at hreached
      cases hreached
      obtain ⟨x, hx, hlog, -, hdecisions⟩ := hwritten hlawful
      rw [hattempts] at hx
      refine ⟨rfl, outcome, abortReason, hrow, x, hx, hlog, hdecisions, ?_, fun hreason => ?_⟩
      · rw [hdecisions]
        exact outcome_of_trajectory hx
      · obtain ⟨d, hlast, e, htool, he⟩ := failure_of_trajectory hx hreason
        rw [hlog, hdecisions]
        exact ⟨d, e, hlast, htool, he⟩

/-- A hunt that runs a tool of this name twice before the tool succeeds, and ends with a catch. -/
def retriedHunt (name : PyStr) : Hunt :=
  { oneCatch with
    brain := fun n _ => match n with
      | 0 => .relay (py "hm") (fun _ => .ret (.toolCall ⟨name, [], py "t1", none, []⟩))
      | _ => .ret (.huntComplete [py "job"] none)
    registry := [⟨name, .ok, fun _ => .ok [], fun n _ => match n with
      | 0 => .error .timeoutError
      | _ => .ok (.bytes [])⟩]
    retryBudget := 1
    maxIterations := 5 }

/-- Its run. -/
def retriedRun (name : PyStr) : Except (Exn PyExc) PyStr × Sess :=
  (@runHunt .ascii (retriedHunt name)).exec ((Env.calm [py "r", py "p"]).session Db.empty)

theorem retriedHunt_genuine (name : PyStr) (n : Nat) (context : Context) :
    ((retriedHunt name).brain n context).Genuine := by
  cases n with
  | zero => exact fun _ _ => trivial
  | succ n => trivial

theorem retriedHunt_gives (name : PyStr) (n : Nat) (context : Context) :
    ((retriedHunt name).brain n context).Gives (retriedHunt name).Answers Decision.Encodable := by
  cases n with
  | zero => exact ⟨fun _ => trivial, fun _ => trivial⟩
  | succ n =>
      intro posting hposting
      rw [List.mem_singleton.1 hposting]
      decide

/-- A run with a retried tool is a word of the grammar. -/
theorem retried_run_in_grammar :
    ∃ outcome abortReason, ∃ x ∈ trajectory 2 (py "x") 5 outcome abortReason,
    (retriedRun (py "scan")).2.conn.committed.tables.readEvents (py "r") = wordEvents x ∧
    (wordEvents x).length = 5 := by
  have hlawful : ∀ st ∈ (retriedRun (py "scan")).2.trace, Legible st := by decide +kernel
  have hlength :
      ((retriedRun (py "scan")).2.conn.committed.tables.readEvents (py "r")).length = 5 := by
    decide +kernel
  obtain ⟨-, outcome, abortReason, -, x, hx, hlog, -⟩ :=
    @trajectory_grammar .ascii (retriedHunt (py "scan")) (by decide) (retriedHunt_genuine _)
      (retriedHunt_gives _) (Env.calm [py "r", py "p"]) Db.empty (retriedRun (py "scan")).1
      (retriedRun (py "scan")).2 (Prod.eta _).symm hlawful
  exact ⟨outcome, abortReason, x, hx, hlog, hlog ▸ hlength⟩

/-- A tool that is registered as `<loop>` writes its retryable error under that name, and the run
    goes on. -/
theorem loop_named_tool_goes_on :
    (∀ n context, ((retriedHunt (py "<loop>")).brain n context).Genuine) ∧
    (∀ st ∈ (retriedRun (py "<loop>")).2.trace, Legible st) ∧
    ∃ e : ErrorEvent, e.tool = py "<loop>" ∧
      .error e ∈ (retriedRun (py "<loop>")).2.conn.committed.tables.readEvents (py "r") ∧
      ((retriedRun (py "<loop>")).2.conn.committed.tables.readEvents (py "r")).getLast?
        ≠ some (.error e) := by
  refine ⟨retriedHunt_genuine _, by decide +kernel, ⟨py "<loop>", true, py "exception", [], none,
    some (py "traceback")⟩, rfl, by decide +kernel, by decide +kernel⟩

end RexHunter
