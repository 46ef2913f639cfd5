import RexHunter.Proofs.Shutdown
import RexHunter.Proofs.Usage
import RexHunter.Proofs.Adapter

set_option autoImplicit false

/-! # What a hunt makes of the responses

A hunt driven by the provider adapter is followed through its requests. The books of the run
(`Books`) say what its log owes to the responses received so far; they are behind by one response
from its arrival until its usage is appended. -/

namespace RexHunter

open Session (Closed Given)
open Coro (Keeps Triple)

/-! ## What the adapter returns -/

theorem BrainCall.Strict.offline {call : BrainCall} (h : call.Strict) : call.Offline := by
  induction call with
  | ret | raise => trivial
  | request k ih => exact h.elim
  | pause k ih | relay text k ih =>
      intro r
      cases r with
      | ok _ => exact ih _ h.2
      | error e =>
          rw [h.1 e]
          trivial

/-- A call that raises whatever an await raises returns nothing but its verdict. -/
theorem BrainCall.Strict.gives {call : BrainCall} (h : call.Strict) (answers : Response → Prop)
    (answer : Except (Exn PyExc) Response) :
    call.Gives answers (fun decision => call.ending answer = .ok decision) := by
  induction call with
  | ret decision => exact rfl
  | raise e => trivial
  | request k ih => exact h.elim
  | pause k ih =>
      intro r
      cases r with
      | ok _ => exact ih _ h.2
      | error e =>
          rw [h.1 e]
          trivial
  | relay text k ih =>
      constructor
      · intro htext
        simp only [BrainCall.ending, htext, if_true]
        exact ih _ h.2
      · intro e
        rw [h.1 e]
        trivial

theorem adapterBrain_gives [PyRuntime] [Pydantic] (answers : Response → Prop) (territory : PyStr) (stream : Bool)
    (context : Context) :
    (adapterBrain territory stream context).Gives answers
      (fun decision => ∃ response, answers response ∧ verdict stream response = .ok decision) := by
  unfold adapterBrain
  cases projectMessages territory context with
  | error e => trivial
  | ok messages =>
      refine ⟨fun _ => trivial, fun response hresponse => ?_⟩
      exact ((reply_strict stream response).gives answers (.ok response)).mono
        (fun decision hdecision => ⟨response, hresponse, hdecision⟩)

/-! ## The responses of a run -/

/-- The requests of a run, in order. -/
def requests (trace : List (Step Frame Op)) : List (Step Frame Op) :=
  trace.filter (fun st => decide (st.op = .other .request))

/-- The responses of a run: what the provider answered to the requests that were not interrupted. -/
def received (server : Nat → Except PyExc Response) (trace : List (Step Frame Op)) :
    List Response :=
  (requests trace).zipIdx.filterMap fun e =>
    if e.1.fate = .done then (server e.2).toOption else none

theorem length_requests (trace : List (Step Frame Op)) :
    (requests trace).length = requestCount trace :=
  (List.countP_eq_length_filter).symm

theorem received_snoc (server : Nat → Except PyExc Response) (trace : List (Step Frame Op))
    {st : Step Frame Op} (hop : st.op ≠ .other .request) :
    received server (trace ++ [st]) = received server trace := by
  simp [received, requests, hop]

theorem received_request (server : Nat → Except PyExc Response) (trace : List (Step Frame Op))
    {st : Step Frame Op} (hop : st.op = .other .request) :
    received server (trace ++ [st]) = received server trace ++
      if st.fate = .done then (server (requestCount trace)).toOption.toList else [] := by
  simp only [received, requests, List.filter_append, List.filter_cons, List.filter_nil, hop,
    decide_true, if_true, List.zipIdx_append, List.filterMap_append]
  have hlength := length_requests trace
  unfold requests at hlength
  simp only [List.zipIdx_cons, List.zipIdx_nil, hlength, Nat.zero_add]
  by_cases hdone : st.fate = .done
  · cases hserver : server (requestCount trace) <;>
      simp [hdone, hserver, Except.toOption]
  · simp [hdone]

/-- A step with which nobody interferes: the statements, the commits, the SELECTs and the awaits of
    the brain complete. Requests and tools may fail or be cancelled. -/
def Steady (st : Step Frame Op) : Prop :=
  match st.op with
  | .execute _ => st.fate = .done
  | .commit => st.fate = .done
  | .other .select => st.fate = .done
  | .other .brain => st.fate = .done
  | _ => True

instance : DecidablePred Steady
  | ⟨_, .execute _, fate⟩ | ⟨_, .commit, fate⟩ | ⟨_, .other .select, fate⟩
  | ⟨_, .other .brain, fate⟩ => inferInstanceAs (Decidable (fate = .done))
  | ⟨_, .rollback, _⟩ | ⟨_, .other .dump, _⟩ | ⟨_, .other .encode, _⟩ | ⟨_, .other (.call _), _⟩
  | ⟨_, .other .request, _⟩ | ⟨_, .other .tool, _⟩ | ⟨_, .other .connect, _⟩
  | ⟨_, .other .close, _⟩ => inferInstanceAs (Decidable True)

/-! ## The books -/

section Hunting

variable [PyRuntime] [Pydantic]

/-- The usage a response brings into the log: that of the decision it is accepted as. -/
def usageOf (stream : Bool) (response : Response) : Option UsageEvent :=
  match verdict stream response with
  | .ok decision => decision.usage
  | .error _ => none

/-- The log owes nothing to the responses `R`: the usage events of the run are theirs, and come on
    top of those that were in the log `before`. -/
structure Books (stream : Bool) (runId : PyStr) (before : List UsageEvent) (R : List Response)
    (t : Tables) : Prop where
  run : (t.readEvents runId).filterMap TrajectoryEvent.usage? = R.filterMap (usageOf stream)
  all : t.readUsage.filterMap TrajectoryEvent.usage? = before ++ R.filterMap (usageOf stream)

/-- An event that records a rejected payload: final, of the brain, with bytes. -/
def TrajectoryEvent.isRejection : TrajectoryEvent → Bool
  | .error e => decide (e.tool = py "<brain>") && !e.retryable && e.rawResponse.isSome
  | _ => false

/-- The rejections in the log of a run. -/
def Tables.rejections (t : Tables) (runId : PyStr) : List TrajectoryEvent :=
  (t.readEvents runId).filter TrajectoryEvent.isRejection

/-- The run is open, and none of its responses has been rejected. -/
def Untroubled (runId : PyStr) (t : Tables) : Prop :=
  HasOpen runId t ∧ t.rejections runId = []

/-- The operations that neither ask the provider nor close a run, and append neither a usage nor a
    rejection. -/
def Neutral : Op → Prop
  | .execute (.appendEvent _ event _) => event.usage? = none ∧ event.isRejection = false
  | .execute (.finishRun ..) => False
  | .execute .markCrashedRuns => False
  | .other .request => False
  | _ => True

omit [PyRuntime] [Pydantic] in
theorem neutral_controls : Controls Neutral where
  commit := trivial
  rollback := trivial
  other := by
    intro x h
    cases x <;> trivial

omit [PyRuntime] [Pydantic] in
theorem Neutral.unclosing {s : Stmt} (h : Neutral (.execute s)) : Unclosing (.execute s) := by
  cases s <;> trivial

theorem Books.appendEvent {stream : Bool} {runId : PyStr} {before : List UsageEvent}
    {R : List Response} {t t' : Tables} {c : Cursor} {runId' now : PyStr} {event : TrajectoryEvent}
    (h : Books stream runId before R t) (ht : t.Schema) (husage : event.usage? = none)
    (happly : (Stmt.appendEvent runId' event now).apply t = .ok (c, t')) :
    Books stream runId before R t' := by
  constructor
  · rw [t.readEvents_append runId happly, List.filterMap_append, h.run]
    split <;> simp [husage]
  · rw [t.readUsage_append ht happly, husage, h.all]
    simp

omit [PyRuntime] [Pydantic] in
theorem rejections_appendEvent {runId : PyStr} {t t' : Tables} {c : Cursor} {runId' now : PyStr}
    {event : TrajectoryEvent}
    (happly : (Stmt.appendEvent runId' event now).apply t = .ok (c, t')) :
    t'.rejections runId = t.rejections runId ++
      if runId' = runId ∧ event.isRejection = true then [event] else [] := by
  unfold Tables.rejections
  rw [t.readEvents_append runId happly, List.filter_append]
  by_cases hrun : runId' = runId
  · cases hevent : event.isRejection <;> simp [hrun, hevent]
  · simp [hrun]

/-- A statement that appends nothing leaves the books and the rejections alone. -/
theorem Books.other {stream : Bool} {runId : PyStr} {before : List UsageEvent}
    {R : List Response} {t t' : Tables} {c : Cursor} {s : Stmt}
    (h : Books stream runId before R t) (hs : s.appended = none) (happly : s.apply t = .ok (c, t')) :
    Books stream runId before R t' := by
  have hrows := Stmt.apply_trajectoryEvents happly hs
  constructor
  · unfold Tables.readEvents
    rw [hrows]
    exact h.run
  · unfold Tables.readUsage
    rw [hrows]
    exact h.all

omit [PyRuntime] [Pydantic] in
theorem rejections_other {runId : PyStr} {t t' : Tables} {c : Cursor} {s : Stmt}
    (hs : s.appended = none) (happly : s.apply t = .ok (c, t')) :
    t'.rejections runId = t.rejections runId := by
  unfold Tables.rejections Tables.readEvents
  rw [Stmt.apply_trajectoryEvents happly hs]

theorem Books.neutral {stream : Bool} {runId : PyStr} {before : List UsageEvent}
    {R : List Response} {t t' : Tables} {c : Cursor} {s : Stmt} (hs : Neutral (.execute s))
    (ht : t.Schema) (h : Books stream runId before R t) (happly : s.apply t = .ok (c, t')) :
    Books stream runId before R t' := by
  cases hevent : s.appended with
  | none => exact h.other hevent happly
  | some e =>
      cases s with
      | appendEvent runId' event now => exact h.appendEvent ht hs.1 happly
      | _ => cases hevent

omit [PyRuntime] [Pydantic] in
theorem Untroubled.neutral {runId : PyStr} {t t' : Tables} {c : Cursor} {s : Stmt}
    (hs : Neutral (.execute s)) (h : Untroubled runId t) (happly : s.apply t = .ok (c, t')) :
    Untroubled runId t' := by
  refine ⟨h.1.apply hs.unclosing happly, ?_⟩
  cases hevent : s.appended with
  | none => rw [rejections_other hevent happly, h.2]
  | some e =>
      cases s with
      | appendEvent runId' event now =>
          rw [rejections_appendEvent happly, h.2, if_neg (by simp [hs.2])]
          rfl
      | _ => cases hevent

/-! ## Where a run is -/

/-- The run has received the responses `R`, and the tables satisfy `P`. -/
def At (hunt : Hunt) (R : List Response) (P : Tables → Prop) (w : Sess) : Prop :=
  received hunt.server w.trace = R ∧ OnTables P w

/-- The books are settled, the tables satisfy `P`, and the responses satisfy `C`. -/
def Balanced (hunt : Hunt) (stream : Bool) (runId : PyStr) (before : List UsageEvent)
    (P : Tables → Prop) (C : Response → Prop) (w : Sess) : Prop :=
  ∃ R, At hunt R
    (fun t => (∀ response ∈ R, C response) ∧ Books stream runId before R t ∧ P t) w

/-- The call that met the response did not end the loop: it brought a decision or a failure that
    `_call_brain` owns. -/
def Passed (stream : Bool) (response : Response) : Prop :=
  (∃ decision, verdict stream response = .ok decision) ∨
    ∃ exc, verdict stream response = .error (.raised exc) ∧ httpFailure exc ≠ none

/-- The response did not end the loop, or it did with the exception `e`. -/
def PassedOr (stream : Bool) (e : Exn PyExc) (response : Response) : Prop :=
  Passed stream response ∨ verdict stream response = .error e

/-- What the tables owe while the books are behind by the last response, a decision. -/
def Owing (stream : Bool) (runId : PyStr) (before : List UsageEvent) (decision : Decision)
    (R : List Response) (t : Tables) : Prop :=
  ∃ R' response, R = R' ++ [response] ∧ (∀ response ∈ R', Passed stream response) ∧
    verdict stream response = .ok decision ∧ Books stream runId before R' t ∧ Untroubled runId t

/-- The usage of the decision has not been appended yet. -/
def Pending (hunt : Hunt) (stream : Bool) (runId : PyStr) (before : List UsageEvent)
    (decision : Decision) (w : Sess) : Prop :=
  ∃ R, At hunt R (Owing stream runId before decision R) w

variable {hunt : Hunt} {stream : Bool} {runId : PyStr} {before : List UsageEvent}
  {P : Tables → Prop} {C : Response → Prop}

omit [PyRuntime] [Pydantic] in
theorem At.mono {R : List Response} {Q : Tables → Prop} {w : Sess} (h : At hunt R P w)
    (hQ : ∀ t, P t → Q t) : At hunt R Q w :=
  ⟨h.1, hQ _ h.2.1, hQ _ h.2.2⟩

theorem Balanced.mono {D : Response → Prop} {Q : Tables → Prop} {w : Sess}
    (h : Balanced hunt stream runId before P C w) (hQ : ∀ t, P t → Q t)
    (hD : ∀ response, C response → D response) : Balanced hunt stream runId before Q D w := by
  obtain ⟨R, hat⟩ := h
  exact ⟨R, hat.mono (fun t ht =>
    ⟨fun response hr => hD response (ht.1 response hr), ht.2.1, hQ t ht.2.2⟩)⟩

/-- Neutral operations leave a run where it is. -/
theorem balanced_closed
    (hP : ∀ s t t' c, Neutral (.execute s) → P t → s.apply t = .ok (c, t') → P t') :
    Closed Stmt.exec Neutral (Balanced hunt stream runId before P C) where
  step := by
    rintro w op fate hop ⟨R, hreceived, htables⟩ hpossible
    have hclosed : Closed Stmt.exec Neutral (OnTables (fun t =>
        (∀ response ∈ R, C response) ∧ Books stream runId before R t ∧ P t)) :=
      closed_onTables (fun s t t' c hs ht h happly =>
        ⟨h.1, Books.neutral hs ht h.2.1 happly, hP s t t' c hs h.2.2 happly⟩)
    refine ⟨R, ?_, hclosed.step w op fate hop htables hpossible⟩
    refine (received_snoc hunt.server w.trace ?_).trans hreceived
    rintro rfl
    exact hop
  noted := by
    rintro w x passed hop ⟨R, hreceived, htables⟩
    refine ⟨R, (received_snoc hunt.server w.trace ?_).trans hreceived, htables⟩
    intro hx
    rw [show x = Act.request by simpa using hx] at hop
    exact hop
  vars := fun _ _ hw => hw

/-- What a run keeps while it is open and untroubled. -/
theorem untroubled_closed :
    Closed Stmt.exec Neutral (Given Steady (Balanced hunt stream runId before (Untroubled runId) C)) :=
  (balanced_closed (fun _ _ _ _ hs h happly => h.neutral hs happly)).given Steady

omit [PyRuntime] [Pydantic] in
/-- Nothing mends a run that was interfered with. -/
theorem lost_closed : Closed Stmt.exec (fun _ => True) (Given Steady (fun _ : Sess => False)) :=
  Closed.given ⟨fun _ _ _ _ h _ => h, fun _ _ _ _ h => h, fun _ _ h => h⟩ Steady

/-! ## Writing to the log -/

omit [PyRuntime] [Pydantic] in
theorem steady_execute {s : Stmt} (frame : Frame) (fate : Fate)
    (h : Steady ⟨frame, .execute s, fate⟩) : fate = .done := h

omit [PyRuntime] [Pydantic] in
theorem steady_commit (frame : Frame) (fate : Fate) (h : Steady ⟨frame, .commit, fate⟩) :
    fate = .done := h

/-- The transaction satisfies `P`. -/
def Uncommitted (hunt : Hunt) (R : List Response) (P : Tables → Prop) (w : Sess) : Prop :=
  received hunt.server w.trace = R ∧ P w.conn.view.tables

omit [PyRuntime] [Pydantic] in
theorem execute_triple {R : List Response} {Q : Cursor → Tables → Prop} {s : Stmt}
    {E : Exn PyExc → Sess → Prop}
    (h : ∀ t t' c, t.Schema → P t → s.apply t = .ok (c, t') → Q c t') :
    Triple (Given Steady (At hunt R P)) (execute s)
      (fun cursor => Given Steady (Uncommitted hunt R (Q cursor))) (fun e => Given Steady (E e)) := by
  refine Session.await_given steady_execute (fun w c conn hw hact => ?_)
  obtain ⟨d, hd, rfl⟩ := Session.execute_ok hact
  refine ⟨?_, h _ _ _ w.conn.view.schema hw.2.2 (Stmt.exec_ok hd)⟩
  exact (received_snoc hunt.server w.trace (by simp)).trans hw.1

omit [PyRuntime] [Pydantic] in
theorem commit_triple {R : List Response} {E : Exn PyExc → Sess → Prop} :
    Triple (Given Steady (Uncommitted hunt R P)) commit (fun _ => Given Steady (At hunt R P))
      (fun e => Given Steady (E e)) := by
  refine Session.await_given steady_commit (fun w c conn hw hact => ?_)
  cases hact
  refine ⟨?_, hw.2, hw.2⟩
  exact (received_snoc hunt.server w.trace (by simp)).trans hw.1

omit [PyRuntime] [Pydantic] in
/-- The append of an event: it is in the log, or `model_dump_json` refused it. -/
theorem append_triple {R : List Response} {Q : Tables → Prop} {event : TrajectoryEvent}
    (h : ∀ t t' c now, t.Schema → P t → (Stmt.appendEvent runId event now).apply t = .ok (c, t') →
      Q t') :
    Triple (Given Steady (At hunt R P)) (append hunt runId event)
      (fun _ => Given Steady (fun w => event.dumpable = true ∧ At hunt R Q w))
      (fun e => Given Steady (fun w => event.dumpable = false ∧ e = .raised .serializationError ∧
        At hunt R P w)) := by
  have hnoted : ∀ w passed, At hunt R P w → At hunt R P (w.noted (.other .dump) passed) :=
    fun w passed hw => ⟨(received_snoc hunt.server w.trace (by simp)).trans hw.1, hw.2⟩
  refine Triple.bind ?_ (fun _ => Triple.pure (fun _ hw => hw))
  cases hdump : event.dumpable with
  | false =>
      refine Triple.bind (Q := fun _ _ => False) ?_ (fun _ _ h => h.elim)
      intro w hw
      rw [hdump]
      exact hw.snoc rfl (fun _ hI => ⟨rfl, rfl, hnoted w false hI⟩)
  | true =>
      refine Triple.bind (Q := fun _ => Given Steady (At hunt R P)) ?_ (fun _ => ?_)
      · intro w hw
        rw [hdump]
        exact hw.snoc rfl (fun _ hI => hnoted w true hI)
      refine Triple.bind (Session.useVars_triple (fun _ _ hw => hw)) (fun now => ?_)
      refine Triple.bind (execute_triple (Q := fun cursor t => cursor.lastrowid ≠ none ∧ Q t) ?_)
        (fun cursor => Triple.bind commit_triple (fun _ => ?_))
      · intro t t' c ht hP happly
        refine ⟨?_, h t t' c now ht hP happly⟩
        rw [(Stmt.apply_appendEvent happly).2.1]
        nofun
      · cases hcursor : cursor.lastrowid with
        | none => exact fun w hw hall => absurd rfl (hw hall).2.1.1
        | some eventId =>
            refine Triple.bind (Session.useVars_triple (fun _ _ hw => hw)) (fun _ => ?_)
            exact Triple.pure (fun w hw hall => ⟨rfl, (hw hall).mono (fun _ ht => ht.2)⟩)

/-! ## The brain call -/

omit [PyRuntime] [Pydantic] in
theorem steady_brain (frame : Frame) (fate : Fate) (h : Steady ⟨frame, .other .brain, fate⟩) :
    fate = .done := h

omit [PyRuntime] [Pydantic] in
theorem runBrain_lost (call : BrainCall) {Q : Decision → Sess → Prop} {E : Exn PyExc → Sess → Prop} :
    Triple (Given Steady (fun _ => False)) (runBrain hunt runId call) (fun d => Given Steady (Q d))
      (fun e => Given Steady (E e)) := by
  have hkeeps : Keeps (Given Steady (fun _ => False)) (runBrain hunt runId call) :=
    runBrain_keeps lost_closed Controls.any (fun _ _ _ => trivial) trivial call
  exact hkeeps.triple.conseq (fun _ hw => hw) (fun _ _ hw hall => (hw hall).elim)
    (fun _ _ hw hall => (hw hall).elim)

omit [PyRuntime] [Pydantic] in
/-- A call that asks for nothing ends as `ending` says, and leaves no trace in the books. -/
theorem runBrain_offline {R : List Response} (answer : Except (Exn PyExc) Response)
    (hP : ∀ t t' c text now, t.Schema → P t →
      (Stmt.appendEvent runId (.thinkingDelta ⟨text⟩) now).apply t = .ok (c, t') → P t')
    (call : BrainCall) (hcall : call.Offline) :
    Triple (Given Steady (At hunt R P)) (runBrain hunt runId call)
      (fun d => Given Steady (fun w => call.ending answer = .ok d ∧ At hunt R P w))
      (fun e => Given Steady (fun w => call.ending answer = .error e ∧ At hunt R P w)) := by
  induction call with
  | ret decision => exact Triple.pure (fun w hw hall => ⟨rfl, hw hall⟩)
  | raise e => exact Triple.throw (fun w hw hall => ⟨rfl, hw hall⟩)
  | request k ih => exact hcall.elim
  | pause k ih =>
      have hawait : Triple (Given Steady (At hunt R P))
          (Session.await (.other .brain) (Session.elsewhere (.ok ⟨⟩)) : Prog PUnit)
          (fun _ => Given Steady (At hunt R P)) (fun _ => Given Steady (fun _ => False)) := by
        refine Session.await_given steady_brain (fun w c conn hw hact => ?_)
        obtain ⟨_, rfl⟩ := Session.elsewhere_ok hact
        exact ⟨(received_snoc hunt.server w.trace (by simp)).trans hw.1, hw.2⟩
      refine hawait.observe.bind (fun r => ?_)
      cases r with
      | ok _ => exact ih (.ok ⟨⟩) (hcall _)
      | error e => exact runBrain_lost _
  | relay text k ih =>
      have hdump : (TrajectoryEvent.thinkingDelta ⟨text⟩).dumpable = encodable text := by
        simp [TrajectoryEvent.dumpable, TrajectoryEvent.texts]
      have hsink : Triple (Given Steady (At hunt R P)) (sink hunt runId text)
          (fun _ => Given Steady (fun w => encodable text = true ∧ At hunt R P w))
          (fun e => Given Steady (fun w => encodable text = false ∧
            e = .raised .serializationError ∧ At hunt R P w)) := by
        rw [← hdump]
        exact append_triple (fun t t' c now => hP t t' c text now)
      refine hsink.observe.bind (fun r => ?_)
      cases hencodable : encodable text with
      | true =>
          simp only [BrainCall.ending, hencodable, if_true]
          cases r with
          | ok _ => exact (ih (.ok ⟨⟩) (hcall _)).pre (fun w hw hall => (hw hall).2)
          | error e => exact (runBrain_lost _).pre (fun w hw hall => absurd (hw hall).1 (by simp))
      | false =>
          simp only [BrainCall.ending, hencodable, Bool.false_eq_true, if_false]
          cases r with
          | ok _ => exact (runBrain_lost _).pre (fun w hw hall => absurd (hw hall).1 (by simp))
          | error e =>
              by_cases he : e = .raised .serializationError
              · subst he
                exact (ih _ (hcall _)).pre (fun w hw hall => (hw hall).2.2)
              · exact (runBrain_lost _).pre (fun w hw hall => he (hw hall).2.1)

omit [PyRuntime] [Pydantic] in
/-- A request brings its response, or leaves the run where it is. -/
theorem ask_triple {R : List Response} :
    Triple (Given Steady (At hunt R P)) (ask hunt)
      (fun response => Given Steady (At hunt (R ++ [response]) P))
      (fun _ => Given Steady (At hunt R P)) := by
  refine Triple.bind (Q := fun n w => requestCount w.trace = n ∧ Given Steady (At hunt R P) w)
    (fun w hw => ⟨rfl, hw⟩) (fun n => Session.await_triple ?_ ?_)
  · rintro w response c ⟨hcount, hw⟩ hact
    obtain ⟨hserver, rfl⟩ := Session.elsewhere_ok hact
    refine hw.snoc rfl (fun _ hI => ⟨?_, hI.2⟩)
    refine (received_request hunt.server w.trace rfl).trans ?_
    rw [if_pos rfl, hcount, hserver, hI.1]
    rfl
  · rintro w e fate c ⟨hcount, hw⟩ hfate hland
    refine hw.snoc rfl (fun _ hI => ⟨?_, ?_⟩)
    · refine (received_request hunt.server w.trace rfl).trans ?_
      rw [if_neg hfate, List.append_nil, hI.1]
    · cases hland with
      | done a c hact => exact absurd rfl hfate
      | raised => exact hI.2
      | rolledBack => exact ⟨hI.2.1, hI.2.1⟩
      | skipped => exact hI.2
      | executed a c hact =>
          obtain ⟨_, rfl⟩ := Session.elsewhere_ok hact
          exact hI.2

theorem usageOf_error {response : Response} {e : Exn PyExc}
    (h : verdict stream response = .error e) : usageOf stream response = none := by
  unfold usageOf
  rw [h]

theorem usageOf_ok {response : Response} {decision : Decision}
    (h : verdict stream response = .ok decision) : usageOf stream response = decision.usage := by
  unfold usageOf
  rw [h]

/-- A response that brings no usage settles the books by itself. -/
theorem Books.snoc_none {R : List Response} {t : Tables} {response : Response}
    (h : Books stream runId before R t) (husage : usageOf stream response = none) :
    Books stream runId before (R ++ [response]) t := by
  have hsame : (R ++ [response]).filterMap (usageOf stream) = R.filterMap (usageOf stream) := by
    simp [husage]
  constructor
  · rw [hsame]
    exact h.run
  · rw [hsame]
    exact h.all

omit [PyRuntime] [Pydantic] in
/-- The responses of a run are what its trace says, so they may be fixed. -/
theorem triple_of_at {α : Type} {m : Prog α} {Q : α → Sess → Prop} {E : Exn PyExc → Sess → Prop}
    {S : List Response → Tables → Prop}
    (h : ∀ R, Triple (Given Steady (At hunt R (S R))) m Q E) :
    Triple (Given Steady (fun w => ∃ R, At hunt R (S R) w)) m Q E := by
  intro w hw
  refine h (received hunt.server w.trace) w (fun hall => ?_)
  obtain ⟨R, hat⟩ := hw hall
  rw [hat.1]
  exact hat

theorem untroubled_thinkingDelta {R : List Response} {t t' : Tables} {c : Cursor} {text now : PyStr}
    (ht : t.Schema)
    (h : (∀ response ∈ R, C response) ∧ Books stream runId before R t ∧ Untroubled runId t)
    (happly : (Stmt.appendEvent runId (.thinkingDelta ⟨text⟩) now).apply t = .ok (c, t')) :
    (∀ response ∈ R, C response) ∧ Books stream runId before R t' ∧ Untroubled runId t' := by
  have hneutral : Neutral (.execute (.appendEvent runId (.thinkingDelta ⟨text⟩) now)) := ⟨rfl, rfl⟩
  exact ⟨h.1, Books.neutral hneutral ht h.2.1 happly, h.2.2.neutral hneutral happly⟩

/-- The brain of the adapter asks once, and what it makes of the response is `verdict`. -/
theorem adapterBrain_triple {territory : PyStr} {context : Context} :
    Triple (Given Steady (Balanced hunt stream runId before (Untroubled runId) (Passed stream)))
      (runBrain hunt runId (adapterBrain territory stream context))
      (fun decision => Given Steady (Pending hunt stream runId before decision))
      (fun e => Given Steady
        (Balanced hunt stream runId before (Untroubled runId) (PassedOr stream e))) := by
  have hweaken : ∀ R e w, At hunt R (fun t => (∀ response ∈ R, Passed stream response) ∧
      Books stream runId before R t ∧ Untroubled runId t) w →
      Balanced hunt stream runId before (Untroubled runId) (PassedOr stream e) w :=
    fun R e w hat => ⟨R, hat.mono (fun _ ht => ⟨fun response hr => Or.inl (ht.1 response hr), ht.2⟩)⟩
  refine triple_of_at (fun R => ?_)
  unfold adapterBrain
  cases projectMessages territory context with
  | error e => exact Triple.throw (fun w hw hall => hweaken R _ w (hw hall))
  | ok messages =>
      refine ask_triple.observe.bind (fun r => ?_)
      cases r with
      | error e => exact Triple.throw (fun w hw hall => hweaken R _ w (hw hall))
      | ok response =>
          refine (runBrain_offline (.ok response)
            (fun t t' c text now ht h happly => untroubled_thinkingDelta ht h happly)
            (reply stream response) (reply_strict stream response).offline).conseq (fun w hw => hw) ?_ ?_
          · intro decision w hw hall
            obtain ⟨hverdict, hat⟩ := hw hall
            exact ⟨_, hat.mono (fun _ ht => ⟨R, response, rfl, ht.1, hverdict, ht.2⟩)⟩
          · intro e w hw hall
            obtain ⟨hverdict, hat⟩ := hw hall
            refine ⟨_, hat.mono (fun _ ht =>
              ⟨?_, ht.2.1.snoc_none (usageOf_error hverdict), ht.2.2⟩)⟩
            intro r hr
            rcases List.mem_append.1 hr with hr | hr
            · exact Or.inl (ht.1 r hr)
            · rw [List.mem_singleton.1 hr]
              exact Or.inr hverdict

/-! ## The loop -/

/-- An append that brings no usage keeps the books settled. -/
theorem append_balanced {Q : Tables → Prop} {event : TrajectoryEvent} (husage : event.usage? = none)
    (hQ : ∀ t t' c now, P t → (Stmt.appendEvent runId event now).apply t = .ok (c, t') → Q t') :
    Triple (Given Steady (Balanced hunt stream runId before P C)) (append hunt runId event)
      (fun _ => Given Steady (Balanced hunt stream runId before Q C))
      (fun _ => Given Steady
        (fun w => event.dumpable = false ∧ Balanced hunt stream runId before P C w)) := by
  refine triple_of_at (fun R => ?_)
  refine (append_triple (Q := fun t => (∀ response ∈ R, C response) ∧
    Books stream runId before R t ∧ Q t) ?_).conseq (fun _ hw => hw) ?_ ?_
  · intro t t' c now ht h happly
    exact ⟨h.1, h.2.1.appendEvent ht husage happly, hQ t t' c now h.2.2 happly⟩
  · intro _ w hw hall
    exact ⟨R, (hw hall).2⟩
  · intro e w hw hall
    exact ⟨(hw hall).1, R, (hw hall).2.2⟩

omit [PyRuntime] [Pydantic] in
theorem Untroubled.appendError {t t' : Tables} {c : Cursor} {now : PyStr} {e : ErrorEvent}
    (h : Untroubled runId t) (he : (TrajectoryEvent.error e).isRejection = false)
    (happly : (Stmt.appendEvent runId (.error e) now).apply t = .ok (c, t')) :
    Untroubled runId t' := by
  have hneutral : Neutral (.execute (.appendEvent runId (.error e) now)) := ⟨rfl, he⟩
  exact h.neutral hneutral happly

theorem attemptBrain_triple
    (hbrain : ∀ n context, hunt.brain n context = adapterBrain hunt.territory stream context)
    {context : Context} (n : Nat) :
    Triple (Given Steady (Balanced hunt stream runId before (Untroubled runId) (Passed stream)))
      (attemptBrain hunt runId context n)
      (fun r => match r with
        | some decision => Given Steady (Pending hunt stream runId before decision)
        | none => Given Steady
            (Balanced hunt stream runId before (HasOpen runId) (Passed stream)))
      (fun e => Given Steady
        (Balanced hunt stream runId before (Untroubled runId) (PassedOr stream e))) := by
  have hweaken : ∀ e w, Balanced hunt stream runId before (Untroubled runId) (Passed stream) w →
      Balanced hunt stream runId before (Untroubled runId) (PassedOr stream e) w :=
    fun e w hw => hw.mono (fun _ ht => ht) (fun _ hr => Or.inl hr)
  induction n with
  | zero => exact Triple.pure (fun w hw hall => (hw hall).mono (fun _ ht => ht.1) (fun _ hr => hr))
  | succ remaining ih =>
      refine (callNumber_keeps untroubled_closed trivial).triple.seq
        (fun e w hw hall => hweaken e w (hw hall)) (fun n => ?_)
      rw [hbrain]
      refine adapterBrain_triple.observe.bind (fun r => ?_)
      cases r with
      | ok decision =>
          exact Triple.bind (Session.useVars_triple (fun _ _ hw => hw))
            (fun _ => Triple.pure (fun _ hw => hw))
      | error e =>
          cases e with
          | cancelled => exact Triple.throw (fun _ hw => hw)
          | raised exc =>
              dsimp only
              cases hhttp : httpFailure exc with
              | none => exact Triple.throw (fun _ hw => hw)
              | some rawResponse =>
                  have hpassed : ∀ response, PassedOr stream (.raised exc) response →
                      Passed stream response := by
                    rintro response (hpassed | hverdict)
                    · exact hpassed
                    · exact Or.inr ⟨exc, hverdict, by simp [hhttp]⟩
                  refine Triple.pre ?_ (fun w hw hall => (hw hall).mono (fun _ ht => ht) hpassed)
                  cases hclassify : classify exc with
                  | true =>
                      refine Triple.seq (append_balanced rfl (fun t t' c now ht happly =>
                        ht.appendError (by simp [TrajectoryEvent.isRejection]) happly))
                        (fun e w hw hall => hweaken e w (hw hall).2) (fun _ => ?_)
                      by_cases hretry : true = true ∧ remaining ≠ 0
                      · rw [if_pos hretry]
                        exact ih
                      · rw [if_neg hretry]
                        exact Triple.pure (fun w hw hall =>
                          (hw hall).mono (fun _ ht => ht.1) (fun _ hr => hr))
                  | false =>
                      refine Triple.seq (append_balanced (Q := HasOpen runId) rfl
                        (fun t t' c now ht happly => ht.1.apply (by trivial) happly))
                        (fun e w hw hall => hweaken e w (hw hall).2) (fun _ => ?_)
                      rw [if_neg (by simp)]
                      exact Triple.pure (fun _ hw => hw)

/-- The append of its usage settles the books for a response. -/
theorem Books.appendUsage {R : List Response} {t t' : Tables} {c : Cursor} {now : PyStr}
    {response : Response} {usage : UsageEvent} (h : Books stream runId before R t) (ht : t.Schema)
    (husage : usageOf stream response = some usage)
    (happly : (Stmt.appendEvent runId (.usage usage) now).apply t = .ok (c, t')) :
    Books stream runId before (R ++ [response]) t' := by
  constructor
  · rw [t.readEvents_append runId happly, List.filterMap_append, h.run]
    simp [husage, TrajectoryEvent.usage?]
  · rw [t.readUsage_append ht happly, h.all]
    simp [husage, TrajectoryEvent.usage?]

theorem Owing.passed {decision : Decision} {R : List Response} {t : Tables}
    (h : Owing stream runId before decision R t) : ∀ response ∈ R, Passed stream response := by
  obtain ⟨R', response, rfl, hR, hverdict, -⟩ := h
  intro r hr
  rcases List.mem_append.1 hr with hr | hr
  · exact hR r hr
  · rw [List.mem_singleton.1 hr]
    exact Or.inl ⟨decision, hverdict⟩

theorem Owing.append {decision : Decision} {R : List Response} {t t' : Tables} {c : Cursor}
    {usage : UsageEvent} {now : PyStr} (h : Owing stream runId before decision R t) (ht : t.Schema)
    (husage : decision.usage = some usage)
    (happly : (Stmt.appendEvent runId (.usage usage) now).apply t = .ok (c, t')) :
    (∀ response ∈ R, Passed stream response) ∧ Books stream runId before R t' ∧
      Untroubled runId t' := by
  refine ⟨h.passed, ?_⟩
  obtain ⟨R', response, rfl, hR, hverdict, hbooks, hopen, hrejections⟩ := h
  refine ⟨hbooks.appendUsage ht ((usageOf_ok hverdict).trans husage) happly,
    hopen.apply (by trivial) happly, ?_⟩
  rw [rejections_appendEvent happly, hrejections, if_neg (by simp [TrajectoryEvent.isRejection])]
  rfl

/-- The usage a decision carries can be stored, so its append settles the books. -/
theorem appendUsage_triple {decision : Decision} :
    Triple (Given Steady (Pending hunt stream runId before decision))
      (appendUsage hunt runId decision.usage)
      (fun _ => Given Steady
        (Balanced hunt stream runId before (Untroubled runId) (Passed stream)))
      (fun e => Given Steady
        (Balanced hunt stream runId before (Untroubled runId) (PassedOr stream e))) := by
  refine triple_of_at (fun R => ?_)
  cases husage : decision.usage with
  | none =>
      refine Triple.pure (fun w hw hall => ⟨R, (hw hall).mono (fun t ht => ⟨ht.passed, ?_⟩)⟩)
      obtain ⟨R', response, rfl, -, hverdict, hbooks, huntroubled⟩ := ht
      exact ⟨hbooks.snoc_none ((usageOf_ok hverdict).trans husage), huntroubled⟩
  | some usage =>
      refine (append_triple (fun t t' c now ht howing happly =>
        howing.append ht husage happly)).conseq (fun _ hw => hw) ?_ ?_
      · intro _ w hw hall
        exact ⟨R, (hw hall).2⟩
      · intro e w hw hall
        obtain ⟨hdump, -, hat⟩ := hw hall
        obtain ⟨_, _, _, _, hverdict, _⟩ := hat.2.1
        obtain ⟨parsed, hparse, hparsed⟩ := verdict_ok hverdict
        have hmodel := parseDecision_usage_encodable hparse (hparsed.symm.trans husage)
        simp [TrajectoryEvent.dumpable, TrajectoryEvent.texts, hmodel] at hdump

/-- The places of the loop, for its books: between the head and the decision every response has
    passed, and the usage of a decision is due until it is appended. -/
def balancedPlaces (hunt : Hunt) (stream : Bool) (runId : PyStr) (before : List UsageEvent) :
    LoopPlaces where
  head _ := Given Steady (Balanced hunt stream runId before (Untroubled runId) (Passed stream))
  called _ _ := Given Steady (Balanced hunt stream runId before (Untroubled runId) (Passed stream))
  decided _ _ decision := Given Steady (Pending hunt stream runId before decision)
  paid _ _ := Given Steady (Balanced hunt stream runId before (Untroubled runId) (Passed stream))
  left := Given Steady (Balanced hunt stream runId before (HasOpen runId) (Passed stream))
  failed e := Given Steady (Balanced hunt stream runId before (Untroubled runId) (PassedOr stream e))

theorem balancedPlaces_holds
    (hbrain : ∀ n context, hunt.brain n context = adapterBrain hunt.territory stream context) :
    (balancedPlaces hunt stream runId before).Holds hunt runId := by
  have hclosed : Closed Stmt.exec Neutral (Given Steady
      (Balanced hunt stream runId before (Untroubled runId) (Passed stream))) := untroubled_closed
  have htools : Appends Neutral runId TrajectoryEvent.OfTool := by
    intro event now hevent
    cases event with
    | toolCall | toolResult => exact ⟨rfl, rfl⟩
    | error e =>
        have hraw : e.rawResponse = none := hevent
        exact ⟨rfl, by simp [TrajectoryEvent.isRejection, hraw]⟩
    | sniff | preyCaptured | usage | thinkingDelta => exact hevent.elim
  have hopen : ∀ w, Given Steady
      (Balanced hunt stream runId before (Untroubled runId) (Passed stream)) w →
      Given Steady (Balanced hunt stream runId before (HasOpen runId) (Passed stream)) w :=
    fun w hw hall => (hw hall).mono (fun _ ht => ht.1) (fun _ hr => hr)
  have hweaken : ∀ (e : Exn PyExc) w, Given Steady
      (Balanced hunt stream runId before (Untroubled runId) (Passed stream)) w →
      Given Steady (Balanced hunt stream runId before (Untroubled runId) (PassedOr stream e)) w :=
    fun e w hw hall => (hw hall).mono (fun _ ht => ht) (fun _ hr => Or.inl hr)
  refine ⟨hopen, ?_, fun _ _ => hopen, ?_, fun _ _ _ _ => appendUsage_triple, ?_, ?_,
    fun _ _ => hopen⟩
  · intro _
    exact (select_keeps hclosed neutral_controls).triple.conseq (fun _ hw => hw)
      (fun _ _ hw => hw) hweaken
  · intro _ context _
    refine (attemptBrain_triple hbrain hunt.attempts).conseq (fun _ hw => hw) ?_ (fun _ _ hw => hw)
    intro r w hw
    cases r with
    | none => exact hw
    | some decision => exact hw
  · intro _ decision
    refine (runTool_keeps hclosed neutral_controls htools).triple.conseq (fun _ hw => hw) ?_ hweaken
    intro goesOn w hw
    cases goesOn with
    | true => exact hw
    | false => exact hopen w hw
  · intro _ _ posting
    exact (capturePrey_keeps hclosed neutral_controls (fun event now => ⟨rfl, rfl⟩)
      (fun _ _ => trivial)).triple.conseq (fun _ hw => hw) (fun _ _ hw => hw) hweaken

theorem driveFor_triple
    (hbrain : ∀ n context, hunt.brain n context = adapterBrain hunt.territory stream context)
    (n : Nat) :
    Triple (Given Steady (Balanced hunt stream runId before (Untroubled runId) (Passed stream)))
      (driveFor hunt runId n)
      (fun _ => Given Steady (Balanced hunt stream runId before (HasOpen runId) (Passed stream)))
      (fun e => Given Steady
        (Balanced hunt stream runId before (Untroubled runId) (PassedOr stream e))) :=
  driveFor_rule (balancedPlaces_holds hbrain) n

/-! ## The end of a run -/

/-- The event and the reason a rejected payload is recorded with. -/
def malformed (raw : PyBytes) (detail : PyStr) : TrajectoryEvent :=
  .error ⟨py "<brain>", false, py "malformed provider response", [], some raw, some detail⟩

/-- What the log says about the exception that ended the loop. -/
def Logged (runId : PyStr) (exc : PyExc) (outcome : RunOutcome) (abortReason : Option PyStr)
    (t : Tables) : Prop :=
  match exc with
  | .brainParseError raw detail =>
      encodable detail = true → t.rejections runId = [malformed raw detail] ∧
        outcome = .aborted ∧ abortReason = some (py "malformed provider response")
  | _ => t.rejections runId = []

/-- A rejected payload is in the log, in one event, and the run is closed over it; any other
    exception leaves no payload there. -/
def Handled (runId : PyStr) (e : Exn PyExc) (t : Tables) : Prop :=
  match e with
  | .raised (.brainParseError raw detail) =>
      encodable detail = true → t.rejections runId = [malformed raw detail] ∧
        HasOutcome runId .aborted (some (py "malformed provider response")) t
  | .raised _ => t.rejections runId = []
  | .cancelled => True

/-- The books of a run that has ended. -/
def Reckoned (stream : Bool) (runId : PyStr) (before : List UsageEvent) (R : List Response)
    (t : Tables) : Prop :=
  Books stream runId before R t ∧ ∀ response ∈ R, Passed stream response ∨
    ∃ e, verdict stream response = .error e ∧ Handled runId e t

/-- The loop is over and the run not closed yet. -/
def Closable (stream : Bool) (runId : PyStr) (before : List UsageEvent) (outcome : RunOutcome)
    (abortReason : Option PyStr) (R : List Response) (t : Tables) : Prop :=
  Books stream runId before R t ∧ HasOpen runId t ∧ ∀ response ∈ R, Passed stream response ∨
    ∃ exc, verdict stream response = .error (.raised exc) ∧
      Logged runId exc outcome abortReason t

theorem Closable.finish {outcome : RunOutcome} {abortReason : Option PyStr} {R : List Response}
    {t t' : Tables} {c : Cursor} {now : PyStr}
    (h : Closable stream runId before outcome abortReason R t)
    (happly : (Stmt.finishRun now outcome abortReason runId).apply t = .ok (c, t')) :
    Reckoned stream runId before R t' := by
  obtain ⟨hbooks, hopen, hR⟩ := h
  refine ⟨hbooks.other rfl happly, fun response hr => ?_⟩
  have hrejections : t'.rejections runId = t.rejections runId := rejections_other rfl happly
  rcases hR response hr with hpassed | ⟨exc, hverdict, hlogged⟩
  · exact Or.inl hpassed
  · refine Or.inr ⟨_, hverdict, ?_⟩
    cases exc with
    | brainParseError raw detail =>
        intro hdetail
        obtain ⟨hevents, rfl, rfl⟩ := hlogged hdetail
        exact ⟨hrejections.trans hevents, hopen.finish happly⟩
    | _ => exact hrejections.trans hlogged

omit [PyRuntime] [Pydantic] in
theorem finishRun_given {R : List Response} {Q : Tables → Prop} {E : Exn PyExc → Sess → Prop}
    {outcome : RunOutcome} {abortReason : Option PyStr}
    (h : ∀ t t' c now, t.Schema → P t →
      (Stmt.finishRun now outcome abortReason runId).apply t = .ok (c, t') → Q t') :
    Triple (Given Steady (At hunt R P)) (finishRun runId outcome abortReason)
      (fun _ => Given Steady (At hunt R Q)) (fun e => Given Steady (E e)) := by
  refine Triple.bind (Session.useVars_triple (fun _ _ hw => hw)) (fun now => ?_)
  exact (execute_triple (Q := fun _ => Q) (fun t t' c ht hP => h t t' c now ht hP)).bind
    (fun _ => commit_triple)

/-! ## The whole run -/

/-- A run starts with settled books. -/
theorem Books.start {t t' : Tables} {c : Cursor} {territory now : PyStr}
    {costCeilingUsd : Option ℚ} {maxIterations : Option Int} (ht : t.Schema)
    (happly : (Stmt.insertRun runId territory now costCeilingUsd maxIterations).apply t
      = .ok (c, t')) :
    Books stream runId (t.readUsage.filterMap TrajectoryEvent.usage?) [] t' ∧
      Untroubled runId t' := by
  obtain ⟨hnew, rfl⟩ := Stmt.apply_insertRun happly
  have hempty : t.readEvents runId = [] := ht.readEvents_eq_nil hnew
  refine ⟨⟨?_, ?_⟩, ⟨_, List.mem_append_right _ (List.mem_singleton_self _), rfl, rfl⟩, ?_⟩
  · show (t.readEvents runId).filterMap _ = _
    rw [hempty]
    rfl
  · simp [Tables.readUsage]
  · show (t.readEvents runId).filter _ = []
    rw [hempty]
    rfl

/-- Nothing has been asked for yet, the tables are `t`, and the next id is `runId`. -/
def Prepared (hunt : Hunt) (runId : PyStr) (t : Tables) (w : Sess) : Prop :=
  w.vars.uuid4 w.vars.uuids = runId ∧ Given Steady (At hunt [] (fun t' => t' = t)) w

theorem startRun_given {t : Tables} {territory : PyStr} {costCeilingUsd : Option ℚ}
    {maxIterations : Option Int} :
    Triple (Prepared hunt runId t) (startRun territory costCeilingUsd maxIterations)
      (fun id w => id = runId ∧ Given Steady (Balanced hunt stream runId
        (t.readUsage.filterMap TrajectoryEvent.usage?) (Untroubled runId) (Passed stream)) w)
      (fun _ => Given Steady (fun _ => False)) := by
  have hid : Triple (Prepared hunt runId t) uuid4
      (fun id w => id = runId ∧ Given Steady (At hunt [] (fun t' => t' = t)) w)
      (fun _ => Given Steady (fun _ => False)) :=
    fun w hw => ⟨hw.1, hw.2⟩
  refine hid.bind (fun id => Triple.of_and (fun hidrun => ?_))
  subst hidrun
  refine Triple.bind (Session.useVars_triple (fun _ _ hw => hw)) (fun now => ?_)
  refine (execute_triple (Q := fun _ t' => Books stream id
    (t.readUsage.filterMap TrajectoryEvent.usage?) [] t' ∧ Untroubled id t') ?_).bind
    (fun _ => commit_triple.bind (fun _ => ?_))
  · rintro _ t' c ht rfl happly
    exact Books.start ht happly
  · exact Triple.pure (fun w hw => ⟨rfl, fun hall =>
      ⟨[], (hw hall).mono (fun t ht => ⟨fun _ hr => (nomatch hr), ht⟩)⟩⟩)

/-- The append of the handler. -/
theorem handler_given (exc : PyExc) :
    Triple (Given Steady
        (Balanced hunt stream runId before (Untroubled runId) (PassedOr stream (.raised exc))))
      (append hunt runId (.error (handled hunt exc).1))
      (fun _ => Given Steady (fun w => ∃ R, At hunt R
        (Closable stream runId before .aborted (some (handled hunt exc).2) R) w))
      (fun _ => Given Steady (fun w => ∃ R, At hunt R (Reckoned stream runId before R) w)) := by
  refine triple_of_at (fun R => ?_)
  refine (append_triple (Q := Closable stream runId before .aborted
    (some (handled hunt exc).2) R) ?_).conseq (fun _ hw => hw) ?_ ?_
  · rintro t t' c now ht ⟨hR, hbooks, hopen, hrejections⟩ happly
    refine ⟨hbooks.appendEvent ht rfl happly, hopen.apply (by trivial) happly, fun response hr => ?_⟩
    refine (hR response hr).imp_right (fun hverdict => ⟨exc, hverdict, ?_⟩)
    have hnow := @rejections_appendEvent runId _ _ _ _ _ _ happly
    rw [hrejections, List.nil_append] at hnow
    cases exc with
    | brainParseError raw detail =>
        intro _
        exact ⟨hnow.trans (if_pos ⟨rfl, rfl⟩), rfl, rfl⟩
    | _ => exact hnow.trans (if_neg (fun h => nomatch h.2))
  · intro _ w hw hall
    exact ⟨R, (hw hall).2⟩
  · intro e w hw hall
    obtain ⟨hdump, -, hat⟩ := hw hall
    refine ⟨R, hat.mono (fun t ht => ⟨ht.2.1, fun response hr => ?_⟩)⟩
    refine (ht.1 response hr).imp_right (fun hverdict => ⟨_, hverdict, ?_⟩)
    cases exc with
    | brainParseError raw detail =>
        intro hdetail
        have hdumpable : (TrajectoryEvent.error
            (handled hunt (.brainParseError raw detail)).1).dumpable = true := by
          simp only [handled, TrajectoryEvent.dumpable, TrajectoryEvent.texts, Option.toList_some,
            List.all_cons, List.all_nil, hdetail]
          decide
        rw [hdumpable] at hdump
        cases hdump
    | _ => exact ht.2.2.2

theorem settle_ok {result : RunOutcome × Option PyStr} :
    Triple (Given Steady (Balanced hunt stream runId before (HasOpen runId) (Passed stream)))
      (settle hunt runId (.ok result))
      (fun result => Given Steady (fun w => ∃ R,
        At hunt R (Closable stream runId before result.1 result.2 R) w))
      (fun _ => Given Steady (fun w => ∃ R, At hunt R (Reckoned stream runId before R) w)) := by
  intro w hw hall
  obtain ⟨R, hat⟩ := hw hall
  exact ⟨R, hat.mono (fun t ht => ⟨ht.2.1, ht.2.2, fun r hr => Or.inl (ht.1 r hr)⟩)⟩

theorem settle_error {e : Exn PyExc} :
    Triple (Given Steady
        (Balanced hunt stream runId before (Untroubled runId) (PassedOr stream e)))
      (settle hunt runId (.error e))
      (fun result => Given Steady (fun w => ∃ R,
        At hunt R (Closable stream runId before result.1 result.2 R) w))
      (fun _ => Given Steady (fun w => ∃ R, At hunt R (Reckoned stream runId before R) w)) := by
  cases e with
  | cancelled =>
      refine Triple.bind (Session.useVars_triple (fun _ _ hw => hw)) (fun _ => ?_)
      refine Triple.bind (Q := fun _ => Given Steady (fun w => ∃ R,
        At hunt R (Reckoned stream runId before R) w)) ?_ (fun _ => Triple.throw (fun _ hw => hw))
      refine Session.inFrame_triple (fun _ _ hw => hw) (fun _ _ _ hw => hw)
        (fun _ _ _ hw => hw) ?_
      refine Session.shield_triple (fun _ _ hw => hw) (fun _ _ _ hw => hw)
        (fun _ _ _ hw => hw) ?_
      refine (triple_of_at (fun R => ?_)).pre (fun w hw => hw.2.2)
      refine (finishRun_given (Q := Reckoned stream runId before R) ?_).conseq (fun _ hw => hw)
        (fun _ w hw hall => ⟨R, hw hall⟩) (fun _ _ hw => hw)
      rintro t t' c now ht ⟨hR, hbooks, -⟩ happly
      exact ⟨hbooks.other rfl happly, fun response hr =>
        (hR response hr).imp_right (fun hverdict => ⟨.cancelled, hverdict, trivial⟩)⟩
  | raised exc =>
      refine Triple.bind (Q := fun _ => Given Steady (fun w => ∃ R, At hunt R
        (Closable stream runId before .aborted (some (handled hunt exc).2) R) w)) ?_
        (fun _ => fun _ hw => hw)
      refine Session.inFrame_triple (fun _ _ hw => hw) (fun _ _ _ hw => hw)
        (fun _ _ _ hw => hw) ?_
      exact (handler_given exc).pre (fun _ hw => hw.2)

theorem runHunt_triple
    (hbrain : ∀ n context, hunt.brain n context = adapterBrain hunt.territory stream context)
    {t : Tables} :
    Triple (Prepared hunt runId t) (runHunt hunt)
      (fun _ => Given Steady (fun w => ∃ R, At hunt R (Reckoned stream runId
        (t.readUsage.filterMap TrajectoryEvent.usage?) R) w))
      (fun _ => Given Steady (fun w => ∃ R, At hunt R (Reckoned stream runId
        (t.readUsage.filterMap TrajectoryEvent.usage?) R) w)) := by
  have hstart : Triple (Prepared hunt runId t)
      (Session.inFrame .starting
        (startRun hunt.territory (some hunt.costCeilingUsd) (some hunt.maxIterations)))
      (fun id w => id = runId ∧ Given Steady (Balanced hunt stream runId
        (t.readUsage.filterMap TrajectoryEvent.usage?) (Untroubled runId)
        (Passed stream)) w)
      (fun _ => Given Steady (fun w => ∃ R, At hunt R (Reckoned stream runId
        (t.readUsage.filterMap TrajectoryEvent.usage?) R) w)) := by
    refine Session.inFrame_triple (fun _ _ hw => hw) (fun _ _ _ hw => hw) (fun _ _ _ hw => hw) ?_
    exact startRun_given.conseq (fun _ hw => hw.2) (fun _ _ hw => hw)
      (fun _ _ hw hall => (hw hall).elim)
  refine hstart.bind (fun id => Triple.of_and (fun hid => ?_))
  subst hid
  have hdrive : Triple (Given Steady (Balanced hunt stream id
      (t.readUsage.filterMap TrajectoryEvent.usage?) (Untroubled id) (Passed stream)))
      (Session.inFrame .driving (drive hunt id))
      (fun _ => Given Steady (Balanced hunt stream id
        (t.readUsage.filterMap TrajectoryEvent.usage?) (HasOpen id) (Passed stream)))
      (fun e => Given Steady (Balanced hunt stream id
        (t.readUsage.filterMap TrajectoryEvent.usage?) (Untroubled id)
        (PassedOr stream e))) := by
    refine Session.inFrame_triple (fun _ _ hw => hw) (fun _ _ _ hw => hw) (fun _ _ _ hw => hw) ?_
    exact (driveFor_triple hbrain _).pre (fun _ hw => hw.2)
  refine hdrive.observe.bind (fun r => ?_)
  refine Triple.bind (m := settle hunt id r) (Q := fun result => Given Steady (fun w => ∃ R,
    At hunt R (Closable stream id (t.readUsage.filterMap TrajectoryEvent.usage?)
      result.1 result.2 R) w)) ?_ (fun result => ?_)
  · cases r with
    | ok result => exact settle_ok
    | error e => exact settle_error
  refine Triple.bind (Q := fun _ => Given Steady (fun w => ∃ R, At hunt R (Reckoned stream id
    (t.readUsage.filterMap TrajectoryEvent.usage?) R) w)) ?_ (fun _ => ?_)
  · refine Session.inFrame_triple (fun _ _ hw => hw) (fun _ _ _ hw => hw) (fun _ _ _ hw => hw) ?_
    refine (triple_of_at (fun R => ?_)).pre (fun w hw => hw.2)
    exact (finishRun_given (fun t t' c now _ ht happly => ht.finish happly)).conseq
      (fun _ hw => hw) (fun _ w hw hall => ⟨R, hw hall⟩) (fun _ _ hw => hw)
  · refine Triple.bind (Session.useVars_triple (fun _ _ hw => hw)) (fun _ => ?_)
    exact Triple.pure (fun _ hw => hw)

/-- **What a run of the adapter leaves behind**, when nobody interferes with its database and its
    brain: the usage of every response it accepted, and the payload of the one that ended it. -/
theorem runHunt_reckoned
    (hbrain : ∀ n context, hunt.brain n context = adapterBrain hunt.territory stream context)
    (env : Env) (db : Db)
    (hsteady : ∀ st ∈ ((runHunt hunt).exec (env.session db)).2.trace, Steady st) :
    Reckoned stream (env.uuid4 0) (db.tables.readUsage.filterMap TrajectoryEvent.usage?)
      (received hunt.server ((runHunt hunt).exec (env.session db)).2.trace)
      ((runHunt hunt).exec (env.session db)).2.conn.committed.tables := by
  obtain ⟨R, hR, hreckoned, -⟩ :=
    (runHunt_triple hbrain).final (s := env.session db)
      ⟨rfl, fun _ => ⟨rfl, rfl, rfl⟩⟩ hsteady
  rw [hR]
  exact hreckoned

end Hunting

end RexHunter
