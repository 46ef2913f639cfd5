import RexHunter.Proofs.Responses

set_option autoImplicit false

/-! # Malformed responses

A response that is no decision should come out of the brain call as the `BrainParseError` with its
payload, and end up in the log. It does so exactly when nothing before or after the boundary raises
on it: `int` on a token count of its usage, or, on the streaming path, the reader of a frame, the
access to a field of an event, the sink, or the writer of the assembled message. -/

namespace RexHunter

section Malformed

variable [PyRuntime] [Pydantic]

/-- The status is 200 and the whole body has arrived. -/
def Response.Delivered (response : Response) : Prop :=
  response.status = 200 ∧ response.broken = none

/-- Nothing but the boundary can reject the response. -/
def Preservable (stream : Bool) (response : Response) : Prop :=
  match stream with
  | true => Digestible .new response.frames
  | false => ∀ envelope, readResponse response.content = .ok envelope → envelope.Countable

/-- The call returns a decision or raises the `BrainParseError` that carries the payload. -/
def Preserves (stream : Bool) (response : Response) : Prop :=
  (∃ decision, verdict stream response = .ok decision) ∨
    ∃ detail, verdict stream response
      = .error (.raised (.brainParseError (payload stream response) detail))

/-- Whether a result is a decision, or a rejection with the bytes. -/
def isKept (raw : PyBytes) : Except (Exn PyExc) Decision → Bool
  | .ok _ => true
  | .error (.raised (.brainParseError raw' _)) => decide (raw' = raw)
  | _ => false

theorem isKept_iff (stream : Bool) (response : Response) :
    isKept (payload stream response) (verdict stream response) = true ↔
      Preserves stream response := by
  unfold Preserves isKept
  split
  · simp_all
  · simp_all [eq_comm]
  · simp_all

instance (stream : Bool) (response : Response) : Decidable (Preserves stream response) :=
  decidable_of_iff _ (isKept_iff stream response)

omit [PyRuntime] [Pydantic] in
theorem Response.Delivered.isSuccess {response : Response} (h : response.Delivered) :
    response.isSuccess = true := by
  simp [Response.isSuccess, h.1]

omit [PyRuntime] [Pydantic] in
theorem kept_mapError (raw : PyBytes) (r : Except PyExc Decision) :
    ((∃ decision, r.mapError Exn.raised = .ok decision) ∨
      ∃ detail, r.mapError Exn.raised = .error (.raised (.brainParseError raw detail))) ↔
    Kept raw r := by
  cases r <;> simp [Kept, Except.mapError]

/-- **The brain call preserves exactly the preservable responses.** -/
theorem preserves_iff {stream : Bool} {response : Response} (h : response.Delivered) :
    Preserves stream response ↔ Preservable stream response := by
  unfold Preserves
  cases stream with
  | true =>
      rw [verdict_stream h.isSuccess, kept_mapError, h.2]
      exact streamed_kept_iff response.frames .new
  | false =>
      rw [verdict_plain h.isSuccess, kept_mapError]
      exact parseDecision_kept_iff response.content

omit [Pydantic] in
theorem feedFrames_raises (fs : List SseFrame) : ∀ (asm : StreamAssembler) (e : PyExc),
    (feedFrames asm fs).2 = some e → e.Builtin := by
  induction fs with
  | nil => exact fun _ _ h => nomatch h
  | cons frame fs ih =>
      intro asm e h
      unfold feedFrames at h
      split at h
      · next hfeed =>
          cases h
          exact feedFrame_raises _ _ _ hfeed
      · split at h
        · cases h
          trivial
        · exact ih _ _ h

theorem parseStreamed_error {asm : StreamAssembler} {e : PyExc}
    (hfault : asm.assembled.fault PyRuntime.recursionLimit = none)
    (h : parseStreamed asm.written = .error e) : parseDecision asm.written = .error e := by
  obtain ⟨thinking, hthinking⟩ := extractThinkingBlock_returns hfault
  unfold parseStreamed at h
  split at h
  · next hparse =>
      cases h
      exact hparse
  · rw [hthinking] at h
    cases h
  · cases h

theorem streamed_error {asm : StreamAssembler} {fs : List SseFrame} {e : PyExc}
    (h : streamed none asm fs = .error e) :
    e.Builtin ∨ ∃ detail, encodable detail = true ∧
      e = .brainParseError (feedFrames asm fs).1.written detail := by
  unfold streamed at h
  split at h
  · next hfeed =>
      cases h
      exact Or.inl (feedFrames_raises fs asm _ (by rw [hfeed]))
  · next asm' hfeed =>
      rw [hfeed]
      dsimp only at h
      split at h
      · next hdumps =>
          cases h
          exact Or.inl (dumpsBytes_raises _ _ hdumps)
      · next raw hdumps =>
          obtain ⟨hfault, hraw⟩ := dumpsBytes_ok hdumps
          rw [hraw] at h
          exact parseDecision_error (parseStreamed_error hfault h)

/-- What a delivered response can make the call raise. -/
theorem verdict_error {stream : Bool} {response : Response} {e : Exn PyExc}
    (hdelivered : response.Delivered) (h : verdict stream response = .error e) :
    ∃ exc, e = .raised exc ∧ (exc.Builtin ∨
      ∃ detail, encodable detail = true ∧
        exc = .brainParseError (payload stream response) detail) := by
  cases stream with
  | true =>
      rw [verdict_stream hdelivered.isSuccess, hdelivered.2] at h
      cases hstream : streamed none .new response.frames with
      | ok decision =>
          rw [hstream] at h
          cases h
      | error exc =>
          rw [hstream] at h
          cases h
          exact ⟨exc, rfl, streamed_error hstream⟩
  | false =>
      rw [verdict_plain hdelivered.isSuccess] at h
      cases hparse : parseDecision response.content with
      | ok decision =>
          rw [hparse] at h
          cases h
      | error exc =>
          rw [hparse] at h
          cases h
          exact ⟨exc, rfl, parseDecision_error hparse⟩

/-- The run has one rejection in its log, with this payload, and is closed over it. -/
def Recorded (runId : PyStr) (raw : PyBytes) (t : Tables) : Prop :=
  (∃ detail, t.rejections runId = [malformed raw detail]) ∧
    HasOutcome runId .aborted (some (py "malformed provider response")) t

/-- **Every malformed response is preserved, as far as it goes.** The brain call returns a decision
    or raises the `BrainParseError` with the payload exactly on the preservable responses; and in a
    run of the adapter, a response that is no decision is recorded in one error event with its
    payload, and the run closed as `malformed provider response`, exactly when it is preservable. -/
theorem malformed_preserved_iff (stream : Bool) :
    (∀ response : Response, response.Delivered →
      (Preserves stream response ↔ Preservable stream response)) ∧
    ∀ (hunt : Hunt) (env : Env) (db : Db),
      (∀ n context, hunt.brain n context = adapterBrain hunt.territory stream context) →
      (∀ st ∈ ((runHunt hunt).exec (env.session db)).2.trace, Steady st) →
      ∀ response ∈ received hunt.server ((runHunt hunt).exec (env.session db)).2.trace,
        response.Delivered → (∀ decision, verdict stream response ≠ .ok decision) →
        (Recorded (env.uuid4 0) (payload stream response)
            ((runHunt hunt).exec (env.session db)).2.conn.committed.tables ↔
          Preservable stream response) := by
  refine ⟨fun response h => preserves_iff h, ?_⟩
  intro hunt env db hbrain hsteady response hreceived hdelivered hdecision
  rw [← preserves_iff hdelivered]
  have hreckoned := (runHunt_reckoned hbrain env db hsteady).2 response hreceived
  rcases hreckoned with hpassed | ⟨e, hverdict, hhandled⟩
  · -- a delivered response that is no decision is no HTTP failure either
    rcases hpassed with ⟨decision, hok⟩ | ⟨exc, hexc, hhttp⟩
    · exact absurd hok (hdecision decision)
    · obtain ⟨exc', hraised, hkind⟩ := verdict_error hdelivered hexc
      cases hraised
      rcases hkind with hbuiltin | ⟨detail, _, rfl⟩
      · exact absurd hbuiltin.httpFailure hhttp
      · exact absurd rfl hhttp
  · obtain ⟨exc, rfl, hkind⟩ := verdict_error hdelivered hverdict
    rcases hkind with hbuiltin | ⟨detail, hdetail, rfl⟩
    · have hnone : ((runHunt hunt).exec (env.session db)).2.conn.committed.tables.rejections
          (env.uuid4 0) = [] := by
        cases exc with
        | brainParseError => exact hbuiltin.elim
        | _ => exact hhandled
      constructor
      · rintro ⟨⟨_, hone⟩, _⟩
        rw [hnone] at hone
        cases hone
      · rintro (⟨decision, hok⟩ | ⟨detail, herror⟩)
        · exact absurd hok (hdecision decision)
        · rw [hverdict] at herror
          cases herror
          exact hbuiltin.elim
    · obtain ⟨hone, hrow⟩ := hhandled hdetail
      exact ⟨fun _ => Or.inr ⟨detail, hverdict⟩, fun _ => ⟨⟨detail, hone⟩, hrow⟩⟩

end Malformed

/-! ## Responses that are lost, and one that is kept -/

/-- A hunt that asks the provider once. -/
def adapterHunt [PyRuntime] [Pydantic] (stream : Bool) (response : Response) : Hunt :=
  { oneCatch with
    brain := fun _ context => adapterBrain (py "x") stream context
    server := fun _ => .ok response }

/-- The session after a run of that hunt with which nobody interferes. -/
def adapterRun (stream : Bool) (response : Response) : Sess :=
  ((@runHunt .ascii (@adapterHunt .ascii (@Pydantic.plain .ascii) stream response)).exec
    ((Env.calm [py "r"]).session Db.empty)).2

/-- A response with this body. -/
def Response.ofBody (body : String) : Response where
  status := 200
  content := (py body).map (fun c => UInt8.ofNat c.val)
  lines := []
  broken := none

/-- A response with these events. -/
def Response.ofEvents (events : List String) : Response where
  status := 200
  content := []
  lines := events.flatMap (fun event => [py "data: " ++ py event, []])
  broken := none

/-- A usage without a number: `int(None)` raises after the boundary has read the envelope. -/
def nullUsage : Response :=
  .ofBody "\x7b\"content\":[],\"usage\":\x7b\"input_tokens\":null\x7d\x7d"

/-- A tool input that is no JSON: the assembler's `json.loads` raises. -/
def brokenInput : Response :=
  .ofEvents [
    "\x7b\"type\":\"content_block_start\",\"index\":0,\"content_block\":" ++
      "\x7b\"type\":\"tool_use\",\"id\":\"t\",\"name\":\"sniff\",\"input\":\x7b\x7d\x7d\x7d",
    "\x7b\"type\":\"content_block_delta\",\"index\":0,\"delta\":" ++
      "\x7b\"type\":\"input_json_delta\",\"partial_json\":\"[1\"\x7d\x7d",
    "\x7b\"type\":\"content_block_stop\",\"index\":0\x7d"]

/-- The run dropped the payload, and was closed by the backstop of the loop. -/
def Dropped (stream : Bool) (response : Response) : Prop :=
  response.Delivered ∧ ¬ @Preserves .ascii (@Pydantic.plain .ascii) stream response ∧
    (adapterRun stream response).conn.committed.tables.rejections (py "r") = [] ∧
    HasOutcome (py "r") .aborted (some (py "unhandled exception in loop"))
      (adapterRun stream response).conn.committed.tables

instance (stream : Bool) (response : Response) : Decidable (Dropped stream response) := by
  unfold Dropped Response.Delivered HasOutcome
  infer_instance

theorem malformed_responses_are_dropped : Dropped false nullUsage ∧ Dropped true brokenInput := by
  decide +kernel

/-- Plain prose. -/
def prose : Response := .ofBody "hello"

theorem prose_is_recorded :
    Recorded (py "r") (@payload .ascii false prose)
      (adapterRun false prose).conn.committed.tables := by
  have hdelivered : prose.Delivered := ⟨rfl, rfl⟩
  have hrejected : ∀ decision,
      @verdict .ascii (@Pydantic.plain .ascii) false prose ≠ .ok decision := by
    intro decision h
    have hnone : (@verdict .ascii (@Pydantic.plain .ascii) false prose).isOk = false := by
      decide +kernel
    rw [h] at hnone
    cases hnone
  have hmalformed := @malformed_preserved_iff .ascii (@Pydantic.plain .ascii) false
  have hpreserved := (hmalformed.1 prose hdelivered).1 (by decide +kernel)
  unfold adapterRun
  exact (hmalformed.2 (@adapterHunt .ascii (@Pydantic.plain .ascii) false prose) (Env.calm [py "r"])
    Db.empty (fun _ _ => rfl) (by decide +kernel) prose (by decide +kernel) hdelivered
    hrejected).2 hpreserved

end RexHunter
