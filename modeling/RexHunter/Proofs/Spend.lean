import RexHunter.Implementation.Scheduler
import RexHunter.Proofs.Malformed

set_option autoImplicit false

/-! # What the budget sees

A provider bills every response whose message carries a usage. The log has the usage of a response
exactly when the response was accepted as a decision (`counted_iff`): the `BrainParseError` that
rejects it carries the payload, not the usage, whether the envelope did not validate or the decision
was refused after `_extract_usage`. So the daemon's gate, which folds the log, closes on time over
responses that were all accepted, and never closes over a model that keeps answering with text. -/

namespace RexHunter

open Session (Given)
open Coro (Triple)

/-! ## Lists of optional values -/

section FilterMap

variable {α β : Type} {f g : α → Option β}

theorem filterMap_sublist {l : List α} (h : ∀ a ∈ l, g a = f a ∨ g a = none) :
    (l.filterMap g).Sublist (l.filterMap f) := by
  induction l with
  | nil => exact List.Sublist.refl _
  | cons a l ih =>
      have ih := ih (fun a ha => h a (List.mem_cons_of_mem _ ha))
      simp only [List.filterMap_cons]
      rcases h a List.mem_cons_self with ha | ha
      · rw [ha]
        cases f a with
        | none => exact ih
        | some b => exact ih.cons_cons b
      · rw [ha]
        cases f a with
        | none => exact ih
        | some b => exact ih.cons b

/-- Values of which some are left out are all the values exactly when none is. -/
theorem filterMap_eq_iff {l : List α} (h : ∀ a ∈ l, g a = f a ∨ g a = none) :
    l.filterMap g = l.filterMap f ↔ ∀ a ∈ l, g a = f a := by
  refine ⟨?_, List.filterMap_congr⟩
  induction l with
  | nil => exact fun _ _ ha => nomatch ha
  | cons a l ih =>
      have hl : ∀ a ∈ l, g a = f a ∨ g a = none := fun a ha => h a (List.mem_cons_of_mem _ ha)
      have hlength := (filterMap_sublist hl).length_le
      intro heq
      have ha : g a = f a := by
        rcases h a List.mem_cons_self with ha | ha
        · exact ha
        · cases hf : f a with
          | none => exact ha
          | some b =>
              have hlonger := congrArg List.length heq
              simp only [List.filterMap_cons, ha, hf, List.length_cons] at hlonger
              omega
      rw [List.forall_mem_cons]
      refine ⟨ha, ih hl ?_⟩
      simp only [List.filterMap_cons, ha] at heq
      cases hf : f a with
      | none => simpa [hf] using heq
      | some b => simpa [hf] using heq

end FilterMap

/-! ## The gate -/

section Gate

variable {hunt : Hunt} {runId : PyStr} {t : Tables}

theorem overBudget_triple (ceiling : Option ℚ) :
    Triple (Prepared hunt runId t) (overBudget ceiling) (fun _ => Prepared hunt runId t)
      (fun _ => Given Steady (fun _ => False)) := by
  cases ceiling with
  | none => exact Triple.pure (fun _ hw => hw)
  | some ceiling =>
      refine Triple.bind (Triple.bind ?_ (fun _ => Triple.pure (fun _ hw => hw)))
        (fun _ => Triple.pure (fun _ hw => hw))
      unfold readUsage select
      refine Session.await_triple ?_ ?_
      · rintro w events c ⟨hid, hw⟩ hact
        cases hact
        refine ⟨hid, hw.snoc rfl (fun _ hI => ⟨?_, hI.2⟩)⟩
        exact (received_snoc hunt.server w.trace (by simp)).trans hI.1
      · intro w e fate c _ hfate _
        exact Given.void rfl hfate

/-- No request has been made, and the database is `db`. -/
def Untouched (hunt : Hunt) (db : Db) (w : Sess) : Prop :=
  received hunt.server w.trace = [] ∧ w.conn = Conn.opened db

theorem overBudget_untouched {db : Db} (ceiling : ℚ) :
    Triple (Untouched hunt db) (overBudget (some ceiling))
      (fun refused w => refused = decide (ceiling ≤ foldCost db.tables.readUsage) ∧
        Untouched hunt db w)
      (fun _ => Untouched hunt db) := by
  -- the SELECT opens no transaction
  have hselect : Triple (Untouched hunt db) readUsage
      (fun events w => events = db.tables.readUsage ∧ Untouched hunt db w)
      (fun _ => Untouched hunt db) := by
    unfold readUsage select
    refine Session.await_triple ?_ ?_
    · rintro w events c ⟨hreceived, hconn⟩ hact
      cases hact
      refine ⟨?_, (received_snoc hunt.server w.trace (by simp)).trans hreceived, hconn⟩
      rw [hconn]
      rfl
    · rintro w e fate c ⟨hreceived, hconn⟩ - hland
      refine ⟨(received_snoc hunt.server w.trace (by simp)).trans hreceived, ?_⟩
      show c = Conn.opened db
      cases hland with
      | done events c hact | executed events c hact =>
          cases hact
          exact hconn
      | raised | skipped => exact hconn
      | rolledBack =>
          rw [hconn]
          rfl
  refine Triple.bind (Q := fun spend w => spend = foldCost db.tables.readUsage ∧
    Untouched hunt db w) ?_ (fun spend => Triple.of_and (fun hspend => ?_))
  · refine hselect.bind (fun events => Triple.of_and (fun hevents => ?_))
    subst hevents
    exact Triple.pure (fun _ hw => ⟨rfl, hw⟩)
  · subst hspend
    exact Triple.pure (fun _ hw => ⟨rfl, hw⟩)

end Gate

/-! ## The usage of a response -/

section Usage

variable [PyRuntime] [Pydantic]

/-- The envelope of a response: its body, or what `json.dumps` makes of the message assembled from
    its events. -/
def Response.envelope (stream : Bool) (response : Response) : Option ProviderResponse :=
  if stream then
    match dumpsBytes (feedFrames .new response.frames).1.assembled with
    | .error _ => none
    | .ok raw => (readResponse raw).toOption
  else (readResponse response.content).toOption

/-- What bytes say as JSON: as the boundary reads them, or else as `json.loads` does. -/
def jsonOf (raw : PyBytes) : Option Json :=
  match Pydantic.readJson raw with
  | .ok v => some v
  | .error _ => (loadsBytes raw).toOption

/-- The message of a response, valid or not: its body, or the one assembled from its events. -/
def Response.message (stream : Bool) (response : Response) : Option Json :=
  if stream then
    match dumpsBytes (feedFrames .new response.frames).1.assembled with
    | .error _ => some (feedFrames .new response.frames).1.assembled
    | .ok raw => jsonOf raw
  else jsonOf response.content

/-- The name of the model in a message, if it has one. -/
def messageModel (d : Dict) : PyStr :=
  match Dict.get d (py "model") with
  | some (.str model) => model
  | _ => []

/-- The usage object of a message, if `int` takes its counts. Nothing else in the message matters but
    the name of its model. -/
def messageUsage : Json → Option UsageEvent
  | .obj d =>
      match Dict.get d (py "usage") with
      | some (.obj usage) =>
          match tokenCount usage (py "input_tokens"), tokenCount usage (py "output_tokens") with
          | .ok inputTokens, .ok outputTokens => some ⟨messageModel d, inputTokens, outputTokens⟩
          | _, _ => none
      | _ => none
  | _ => none

/-- The usage that a successful response carries. -/
def carriedUsage (stream : Bool) (response : Response) : Option UsageEvent :=
  if response.isSuccess then (response.message stream).bind messageUsage else none

/-- The content of the envelope is one decision: one valid `tool_use` block, and for
    `hunt_complete` a valid catch. -/
def ProviderResponse.Decisive (response : ProviderResponse) : Prop :=
  ∃ block b, response.content.filter (hasType toolUse) = [block] ∧ validateBlock block = some b ∧
    (b.name = huntComplete → (validateComplete b.input).isSome = true)

/-- The response is accepted: nothing but the boundary could reject it, and the boundary does not,
    for its envelope validates and is decisive. -/
def Acceptable (stream : Bool) (response : Response) : Prop :=
  (stream = true → response.broken = none ∧ Digestible .new response.frames) ∧
    ∃ envelope, response.envelope stream = some envelope ∧ envelope.Decisive

omit [PyRuntime] [Pydantic] in
theorem validateResponse_some {message : Json} {envelope : ProviderResponse}
    (h : validateResponse message = some envelope) :
    ∃ d, message = .obj d ∧ optionalStr d (py "model") = some envelope.model ∧
      optionalDict d (py "usage") = some envelope.usage := by
  unfold validateResponse at h
  split at h
  · next d =>
      split at h
      · next hmodel husage =>
          cases h
          exact ⟨d, rfl, hmodel, husage⟩
      · cases h
  · cases h

omit [PyRuntime] [Pydantic] in
theorem messageModel_eq {d : Dict} {model : Option PyStr}
    (h : optionalStr d (py "model") = some model) : messageModel d = model.getD [] := by
  unfold optionalStr at h
  unfold messageModel
  split at h
  · next hget => cases h; rw [hget]; rfl
  · next hget => cases h; rw [hget]; rfl
  · next name hget => cases h; rw [hget]; rfl
  · cases h

omit [Pydantic] in
/-- In a valid envelope `_extract_usage` finds the usage of the message. -/
theorem messageUsage_eq {message : Json} {envelope : ProviderResponse}
    (h : validateResponse message = some envelope) :
    messageUsage message = (extractUsage envelope).toOption.join := by
  obtain ⟨d, rfl, hmodel, husage⟩ := validateResponse_some h
  unfold messageUsage extractUsage
  simp only [messageModel_eq hmodel]
  unfold optionalDict at husage
  split at husage
  · next hget =>
      simp only [hget, ← Option.some.inj husage]
      rfl
  · next hget =>
      simp only [hget, ← Option.some.inj husage]
      rfl
  · next counts hget =>
      simp only [hget, ← Option.some.inj husage]
      cases tokenCount counts (py "input_tokens") with
      | error e => rfl
      | ok inputTokens =>
          cases tokenCount counts (py "output_tokens") with
          | error e => rfl
          | ok outputTokens => rfl
  · cases husage

omit [PyRuntime] in
theorem readResponse_ok {raw : PyBytes} {envelope : ProviderResponse}
    (h : readResponse raw = .ok envelope) :
    ∃ message, Pydantic.readJson raw = .ok message ∧ validateResponse message = some envelope := by
  unfold readResponse at h
  split at h
  · cases h
  · next message hread =>
      refine ⟨message, hread, ?_⟩
      split at h
      · next response hvalid =>
          cases h
          exact hvalid
      · cases h

/-- The envelope is the message, validated. -/
theorem Response.message_of_envelope {stream : Bool} {response : Response}
    {envelope : ProviderResponse} (h : response.envelope stream = some envelope) :
    ∃ message, response.message stream = some message ∧
      validateResponse message = some envelope := by
  have hjson : ∀ raw, (readResponse raw).toOption = some envelope →
      ∃ message, jsonOf raw = some message ∧ validateResponse message = some envelope := by
    intro raw hraw
    cases hr : readResponse raw with
    | error detail => simp [hr, Except.toOption] at hraw
    | ok e =>
        rw [hr] at hraw
        cases hraw
        obtain ⟨message, hread, hvalid⟩ := readResponse_ok hr
        exact ⟨message, by simp only [jsonOf, hread], hvalid⟩
  unfold Response.envelope at h
  unfold Response.message
  cases stream with
  | true =>
      simp only [if_true] at h ⊢
      split at h
      · cases h
      · next raw _ => exact hjson raw h
  | false => exact hjson _ h

/-- The usage of a response with an envelope is the one `_extract_usage` finds in it. -/
theorem carriedUsage_eq {stream : Bool} {response : Response} {envelope : ProviderResponse}
    (hstatus : response.isSuccess = true) (h : response.envelope stream = some envelope) :
    carriedUsage stream response = (extractUsage envelope).toOption.join := by
  obtain ⟨message, hmessage, hvalid⟩ := Response.message_of_envelope h
  unfold carriedUsage
  rw [if_pos hstatus, hmessage, Option.bind_some, messageUsage_eq hvalid]

theorem carriedUsage_isSuccess {stream : Bool} {response : Response} {usage : UsageEvent}
    (h : carriedUsage stream response = some usage) : response.isSuccess = true := by
  unfold carriedUsage at h
  split at h
  · next hstatus => exact hstatus
  · cases h

omit [PyRuntime] in
theorem decideResponse_ok_iff (response : ProviderResponse) (usage : Option UsageEvent) :
    (∃ decision, decideResponse response usage = .ok decision) ↔ response.Decisive := by
  unfold decideResponse ProviderResponse.Decisive
  split
  · next block hblock =>
      simp only [hblock, List.cons.injEq, and_true]
      unfold decideBlock
      cases hvalid : validateBlock block with
      | none => simp [hvalid]
      | some b =>
          simp only
          by_cases hname : b.name = huntComplete
          · rw [if_pos hname]
            cases hcomplete : validateComplete b.input <;> simp [hvalid, hname, hcomplete]
          · rw [if_neg hname]
            constructor
            · exact fun _ => ⟨block, b, rfl, hvalid, fun h => absurd h hname⟩
            · intro _
              split <;> exact ⟨_, rfl⟩
  · next hblocks =>
      constructor
      · rintro ⟨_, ⟨⟩⟩
      · rintro ⟨block, _, hblock, _⟩
        exact absurd hblock (hblocks block)

theorem parseDecision_ok_iff {raw : PyBytes} {envelope : ProviderResponse}
    {usage : Option UsageEvent} (hread : readResponse raw = .ok envelope)
    (husage : extractUsage envelope = .ok usage) :
    (∃ decision, parseDecision raw = .ok decision) ↔ envelope.Decisive := by
  rw [← decideResponse_ok_iff envelope usage]
  unfold parseDecision
  simp only [hread, husage]
  cases decideResponse envelope usage <;> simp

theorem Digestible.feedFrames {fs : List SseFrame} : ∀ {asm : StreamAssembler},
    Digestible asm fs → (RexHunter.feedFrames asm fs).2 = none ∧
      (RexHunter.feedFrames asm fs).1.assembled.fault PyRuntime.recursionLimit = none := by
  induction fs with
  | nil => exact fun h => ⟨rfl, h.1⟩
  | cons frame fs ih =>
      rintro asm ⟨event, hloads, hshape, hrest⟩
      obtain ⟨⟨text, asm'⟩, hfed⟩ := (feed_ok_iff asm (.obj event)).2 ⟨event, rfl, hshape⟩
      obtain ⟨htext, hrest⟩ := hrest text asm' hfed
      have hfeed : feedFrame asm frame.data = .ok (text, asm') := by
        unfold feedFrame
        simp only [hloads, hfed]
      have hsink : ¬ (frame.closed = true ∧ encodable (text.getD []) = false) := by
        rintro ⟨hclosed, hfalse⟩
        rw [htext hclosed] at hfalse
        cases hfalse
      unfold RexHunter.feedFrames
      simp only [hfeed, if_neg hsink]
      exact ih hrest

theorem envelope_payload {stream : Bool} {response : Response} {envelope : ProviderResponse}
    (h : response.envelope stream = some envelope) :
    readResponse (payload stream response) = .ok envelope := by
  unfold Response.envelope at h
  unfold payload
  have hread : ∀ raw, (readResponse raw).toOption = some envelope →
      readResponse raw = .ok envelope := by
    intro raw hraw
    cases hr : readResponse raw with
    | error detail => simp [hr, Except.toOption] at hraw
    | ok e =>
        rw [hr] at hraw
        cases hraw
        rfl
  cases stream with
  | true =>
      simp only [if_true] at h ⊢
      split at h
      · cases h
      · next raw hdumps =>
          obtain ⟨_, rfl⟩ := dumpsBytes_ok hdumps
          exact hread _ h
  | false => exact hread _ h

/-- What a response is accepted with is a decisive envelope. -/
theorem verdict_envelope {stream : Bool} {response : Response} {decision : Decision}
    (h : verdict stream response = .ok decision) :
    response.isSuccess = true ∧ ∃ envelope, response.envelope stream = some envelope ∧
      envelope.Decisive ∧ extractUsage envelope = .ok decision.usage := by
  have hstatus : response.isSuccess = true := by
    by_contra hfailed
    rw [verdict_failed (by simpa using hfailed)] at h
    cases h
  obtain ⟨parsed, hparse, husage⟩ := verdict_ok h
  obtain ⟨envelope, hread, hextract⟩ := parseDecision_usage hparse
  refine ⟨hstatus, envelope, ?_, (parseDecision_ok_iff hread hextract).1 ⟨parsed, hparse⟩,
    husage ▸ hextract⟩
  unfold Response.envelope
  cases stream with
  | true =>
      rw [verdict_stream hstatus] at h
      obtain ⟨_, _, hfault, _⟩ := streamed_ok (mapError_ok h)
      simp only [if_true, dumpsBytes_eq hfault]
      exact congrArg Except.toOption hread
  | false => exact congrArg Except.toOption hread

/-- **A decision brings the usage its response carries.** -/
theorem verdict_usage {stream : Bool} {response : Response} {decision : Decision}
    (h : verdict stream response = .ok decision) :
    decision.usage = carriedUsage stream response := by
  obtain ⟨hstatus, envelope, henvelope, _, hextract⟩ := verdict_envelope h
  rw [carriedUsage_eq hstatus henvelope, hextract]
  rfl

theorem parseStreamed_returns {asm : StreamAssembler} {decision : Decision}
    (hfault : asm.assembled.fault PyRuntime.recursionLimit = none)
    (h : parseDecision asm.written = .ok decision) :
    ∃ decision, parseStreamed asm.written = .ok decision := by
  obtain ⟨thinking, hthinking⟩ := extractThinkingBlock_returns hfault
  unfold parseStreamed
  rw [h]
  cases decision with
  | toolCall decision =>
      simp only [hthinking]
      exact ⟨_, rfl⟩
  | huntComplete | needsHelp => exact ⟨_, rfl⟩

/-- **A response that carries a usage is accepted exactly when it is acceptable.** -/
theorem accepted_iff {stream : Bool} {response : Response} {usage : UsageEvent}
    (h : carriedUsage stream response = some usage) :
    (∃ decision, verdict stream response = .ok decision) ↔ Acceptable stream response := by
  have hstatus := carriedUsage_isSuccess h
  constructor
  · rintro ⟨decision, hverdict⟩
    obtain ⟨_, envelope, henvelope, hdecisive, _⟩ := verdict_envelope hverdict
    refine ⟨?_, envelope, henvelope, hdecisive⟩
    rintro rfl
    rw [verdict_stream hstatus] at hverdict
    have hstreamed := mapError_ok hverdict
    obtain ⟨hbroken, _⟩ := streamed_ok hstreamed
    rw [hbroken] at hstreamed
    exact ⟨hbroken, (streamed_kept_iff _ _).1 (Or.inl ⟨decision, hstreamed⟩)⟩
  · rintro ⟨hdigestible, envelope, henvelope, hdecisive⟩
    -- `int` took the counts, so the extraction of the usage does not raise
    have hextract : extractUsage envelope = .ok (some usage) := by
      rw [carriedUsage_eq hstatus henvelope] at h
      cases hextract : extractUsage envelope with
      | error e => simp [hextract, Except.toOption] at h
      | ok u =>
          rw [hextract] at h
          exact congrArg _ h
    obtain ⟨decision, hok⟩ :=
      (parseDecision_ok_iff (envelope_payload henvelope) hextract).2 hdecisive
    cases stream with
    | true =>
        rw [verdict_stream hstatus]
        obtain ⟨hbroken, hdigestible⟩ := hdigestible rfl
        obtain ⟨hfed, hfault⟩ := hdigestible.feedFrames
        obtain ⟨decision, hparsed⟩ := parseStreamed_returns hfault hok
        refine ⟨decision, ?_⟩
        unfold streamed
        rw [hbroken, show feedFrames .new response.frames
          = ((feedFrames .new response.frames).1, none) from Prod.ext rfl hfed]
        simp only [dumpsBytes_eq hfault]
        exact congrArg _ hparsed
    | false =>
        rw [verdict_plain hstatus]
        exact ⟨decision, congrArg _ hok⟩

/-! ## What the log counts -/

theorem usageOf_eq_carriedUsage (stream : Bool) (response : Response) :
    usageOf stream response = carriedUsage stream response ∨ usageOf stream response = none := by
  unfold usageOf
  cases hverdict : verdict stream response with
  | ok decision => exact Or.inl (verdict_usage hverdict)
  | error e => exact Or.inr rfl

/-- A response is missing from the books exactly when it carries a usage and is rejected. -/
theorem usageOf_eq_iff {stream : Bool} {response : Response} :
    usageOf stream response = carriedUsage stream response ↔
      ((carriedUsage stream response).isSome = true → Acceptable stream response) := by
  cases hcarried : carriedUsage stream response with
  | none =>
      have hnone := usageOf_eq_carriedUsage stream response
      rw [hcarried] at hnone
      simpa using hnone
  | some usage =>
      rw [← accepted_iff hcarried]
      unfold usageOf
      cases hverdict : verdict stream response with
      | ok decision =>
          have husage := verdict_usage hverdict
          rw [hcarried] at husage
          simp [husage]
      | error e => simp

/-- What the responses that carry a usage cost. -/
def price (stream : Bool) (R : List Response) : ℚ :=
  ((R.filterMap (carriedUsage stream)).map costOf).sum

/-- The log of a run counts its responses: there is one usage event for each that carries a usage,
    with its counts, and the whole log costs what they cost on top of what it cost `before`. -/
structure Counted (stream : Bool) (runId : PyStr) (before : Tables) (R : List Response)
    (after : Tables) : Prop where
  run : (after.readEvents runId).filterMap TrajectoryEvent.usage?
    = R.filterMap (carriedUsage stream)
  spend : foldCost after.readUsage = foldCost before.readUsage + price stream R

/-- The responses that carry a usage are acceptable. -/
def AllAcceptable (stream : Bool) (R : List Response) : Prop :=
  ∀ response ∈ R, (carriedUsage stream response).isSome = true → Acceptable stream response

theorem books_eq_iff {stream : Bool} {R : List Response} :
    R.filterMap (usageOf stream) = R.filterMap (carriedUsage stream) ↔ AllAcceptable stream R :=
  (filterMap_eq_iff (fun response _ => usageOf_eq_carriedUsage stream response)).trans
    (forall₂_congr (fun _ _ => usageOf_eq_iff))

theorem foldCost_of_books {stream : Bool} {t t' : Tables} {R : List Response}
    (h : t'.readUsage.filterMap TrajectoryEvent.usage?
      = t.readUsage.filterMap TrajectoryEvent.usage? ++ R.filterMap (usageOf stream))
    (hall : AllAcceptable stream R) :
    foldCost t'.readUsage = foldCost t.readUsage + price stream R := by
  unfold foldCost price
  rw [h, books_eq_iff.2 hall, List.map_append, List.sum_append]

/-- **The log counts the responses exactly when those that carry a usage are acceptable.** -/
theorem Books.counted_iff {stream : Bool} {runId : PyStr} {t t' : Tables} {R : List Response}
    (h : Books stream runId (t.readUsage.filterMap TrajectoryEvent.usage?) R t') :
    Counted stream runId t R t' ↔ AllAcceptable stream R := by
  constructor
  · intro hcounted
    rw [← books_eq_iff, ← h.run, hcounted.run]
  · intro hall
    exact ⟨h.run.trans (books_eq_iff.2 hall), foldCost_of_books h.all hall⟩

/-! ## One launch -/

section Launch

variable {hunt : Hunt} {stream : Bool} {runId : PyStr} {t : Tables}

/-- The usages in the whole log are those of `t` and those of the responses received. -/
def Billed (hunt : Hunt) (stream : Bool) (t : Tables) (w : Sess) : Prop :=
  ∃ R, At hunt R (fun t' => t'.readUsage.filterMap TrajectoryEvent.usage?
    = t.readUsage.filterMap TrajectoryEvent.usage? ++ R.filterMap (usageOf stream)) w

theorem Prepared.billed {w : Sess} (h : Prepared hunt runId t w) :
    Given Steady (Billed hunt stream t) w :=
  fun hall => ⟨[], (h.2 hall).mono (fun t' ht => by simp [ht])⟩

theorem boundedHunt_triple (runId : PyStr) (ceiling : Option ℚ)
    (hbrain : ∀ n context, hunt.brain n context = adapterBrain hunt.territory stream context) :
    Triple (Prepared hunt runId t) (boundedHunt ceiling hunt)
      (fun _ => Given Steady (Billed hunt stream t))
      (fun _ => Given Steady (Billed hunt stream t)) := by
  have hrun : Triple (Prepared hunt runId t) (runHunt hunt)
      (fun _ => Given Steady (Billed hunt stream t))
      (fun _ => Given Steady (Billed hunt stream t)) := by
    have hbilled : ∀ w, Given Steady (fun w => ∃ R, At hunt R (Reckoned stream runId
        (t.readUsage.filterMap TrajectoryEvent.usage?) R) w) w →
        Given Steady (Billed hunt stream t) w := by
      intro w hw hall
      obtain ⟨R, hat⟩ := hw hall
      exact ⟨R, hat.mono (fun t' ht => ht.1.all)⟩
    exact (runHunt_triple hbrain).conseq (fun _ hw => hw) (fun _ => hbilled) (fun _ => hbilled)
  refine Triple.tryCatch (R := fun _ => Given Steady (Billed hunt stream t)) ?_ (fun e => ?_)
  · refine (overBudget_triple ceiling).seq (fun _ _ hw hall => (hw hall).elim) (fun refused => ?_)
    cases refused with
    | true => exact Triple.pure (fun _ hw => hw.billed)
    | false => exact hrun.bind (fun _ => Triple.pure (fun _ hw => hw))
  · cases e with
    | cancelled => exact Triple.throw (fun _ hw => hw)
    | raised exc => exact Triple.pure (fun _ hw => hw)

omit [Pydantic] in
/-- **Over the ceiling nothing is launched**, whatever happens to the gate's SELECT. -/
theorem refused_of_ceiling {ceiling : ℚ} {l : Launch} {db : Db}
    (h : ceiling ≤ foldCost db.tables.readUsage) :
    Untouched l.hunt db (l.session (some ceiling) db) := by
  have htriple : Triple (Untouched l.hunt db) (boundedHunt (some ceiling) l.hunt)
      (fun _ => Untouched l.hunt db) (fun _ => Untouched l.hunt db) := by
    refine Triple.tryCatch (R := fun _ => Untouched l.hunt db) ?_ (fun e => ?_)
    · refine (overBudget_untouched ceiling).bind (fun refused => Triple.of_and (fun hrefused => ?_))
      rw [hrefused, decide_eq_true h]
      exact Triple.pure (fun _ hw => hw)
    · cases e with
      | cancelled => exact Triple.throw (fun _ hw => hw)
      | raised exc => exact Triple.pure (fun _ hw => hw)
  exact htriple.final (s := l.env.session db) ⟨rfl, rfl⟩

end Launch

/-! ## One launch after another -/

/-- The responses of a launch. -/
def responses (p : Launch × Sess) : List Response := received p.1.hunt.server p.2.trace

/-- The hunt of the launch is driven by the provider adapter. -/
def Launch.Adapted (stream : Bool) (l : Launch) : Prop :=
  ∀ n context, l.hunt.brain n context = adapterBrain l.hunt.territory stream context

/-- The launch ran undisturbed, and those of its responses that carry a usage are acceptable. -/
def InOrder (stream : Bool) (p : Launch × Sess) : Prop :=
  p.1.Adapted stream ∧ (∀ st ∈ p.2.trace, Steady st) ∧ AllAcceptable stream (responses p)

theorem price_append {stream : Bool} (R R' : List Response) :
    price stream (R ++ R') = price stream R + price stream R' := by
  unfold price
  rw [List.filterMap_append, List.map_append, List.sum_append]

theorem launch_spend {stream : Bool} {ceiling : Option ℚ} {l : Launch} {db : Db}
    (h : InOrder stream (l, l.session ceiling db)) :
    foldCost (l.session ceiling db).conn.committed.tables.readUsage
      = foldCost db.tables.readUsage + price stream (responses (l, l.session ceiling db)) := by
  obtain ⟨hadapted, hsteady, hall⟩ := h
  obtain ⟨R, hR, hbilled, -⟩ := (boundedHunt_triple (l.env.uuid4 0) ceiling hadapted).final
    (s := l.env.session db) ⟨rfl, fun _ => ⟨rfl, rfl, rfl⟩⟩ hsteady
  have hresponses : responses (l, l.session ceiling db) = R := hR
  rw [hresponses] at hall ⊢
  exact foldCost_of_books hbilled hall

/-- **The log counts the responses of all launches.** -/
theorem launches_spend {stream : Bool} {ceiling : Option ℚ} {launches : List Launch} : ∀ {db : Db},
    (∀ p ∈ sessions ceiling launches db, InOrder stream p) →
    foldCost (afterLaunches ceiling launches db).tables.readUsage
      = foldCost db.tables.readUsage
        + price stream ((sessions ceiling launches db).flatMap responses) := by
  induction launches with
  | nil =>
      intro db _
      simp [afterLaunches, sessions, price]
  | cons l ls ih =>
      intro db h
      unfold sessions at h ⊢
      rw [List.forall_mem_cons] at h
      rw [List.flatMap_cons, price_append, ← add_assoc, ← launch_spend h.1, ← ih h.2]
      rfl

/-- **Spend is counted, as far as the responses are acceptable.** The log of an undisturbed run of
    the adapter has exactly the usages its responses carry if and only if those that carry one are
    acceptable; and over launches whose responses are, the log costs what the responses cost, and
    once that reaches the ceiling nothing is launched any more. -/
theorem spend_counted_iff (stream : Bool) :
    (∀ (hunt : Hunt) (env : Env) (db : Db),
      (∀ n context, hunt.brain n context = adapterBrain hunt.territory stream context) →
      (∀ st ∈ ((runHunt hunt).exec (env.session db)).2.trace, Steady st) →
      (Counted stream (env.uuid4 0) db.tables
          (received hunt.server ((runHunt hunt).exec (env.session db)).2.trace)
          ((runHunt hunt).exec (env.session db)).2.conn.committed.tables ↔
        AllAcceptable stream
          (received hunt.server ((runHunt hunt).exec (env.session db)).2.trace))) ∧
    ∀ (ceiling : ℚ) (launches : List Launch) (db : Db),
      (∀ p ∈ sessions (some ceiling) launches db, InOrder stream p) →
      foldCost (afterLaunches (some ceiling) launches db).tables.readUsage
        = foldCost db.tables.readUsage
          + price stream ((sessions (some ceiling) launches db).flatMap responses) ∧
      (ceiling ≤ foldCost db.tables.readUsage
          + price stream ((sessions (some ceiling) launches db).flatMap responses) →
        ∀ l : Launch, Untouched l.hunt (afterLaunches (some ceiling) launches db)
          (l.session (some ceiling) (afterLaunches (some ceiling) launches db))) := by
  constructor
  · intro hunt env db hbrain hsteady
    exact (runHunt_reckoned hbrain env db hsteady).1.counted_iff
  · intro ceiling launches db h
    have hspend := launches_spend h
    refine ⟨hspend, fun hceiling l => refused_of_ceiling ?_⟩
    rw [hspend]
    exact hceiling

end Usage

/-! ## A response that is not counted, and one that is -/

/-- Prose instead of a tool call, with its usage. -/
def textOnly : Response :=
  .ofBody ("\x7b\"content\":[\x7b\"type\":\"text\",\"text\":\"Hello\"\x7d]," ++
    "\"usage\":\x7b\"input_tokens\":5,\"output_tokens\":7\x7d\x7d")

/-- A content whose entry is no block, with its usage: the envelope does not validate. -/
def strayText : Response :=
  .ofBody ("\x7b\"content\":[\"Hello\"]," ++
    "\"usage\":\x7b\"input_tokens\":5,\"output_tokens\":7\x7d\x7d")

/-- A call for help, with its usage. -/
def helpCall : Response :=
  .ofBody ("\x7b\"content\":[\x7b\"type\":\"tool_use\",\"id\":\"t\"," ++
    "\"name\":\"needs_help\",\"input\":\x7b\x7d\x7d]," ++
    "\"usage\":\x7b\"input_tokens\":5,\"output_tokens\":7\x7d\x7d")

/-- The launch of an adapter's hunt in an environment that never interferes. -/
def calmLaunch (response : Response) (runId : String) : Launch :=
  ⟨@adapterHunt .ascii (@Pydantic.plain .ascii) false response, Env.calm [py runId]⟩

/-- The two launches under a ceiling of a hundredth of a cent. -/
def twoLaunches (response : Response) : List (Launch × Sess) :=
  @sessions .ascii (some (1 / 10000))
    [calmLaunch response "r", calmLaunch response "s"] Db.empty

/-- Neither is in the books, both are paid for, and the gate lets the next launch through. -/
theorem rejected_responses_are_not_counted :
    (∀ response ∈ [textOnly, strayText],
      ¬ @Counted .ascii (@Pydantic.plain .ascii) false (py "r") Db.empty.tables
        (received (fun _ => .ok response) (adapterRun false response).trace)
        (adapterRun false response).conn.committed.tables ∧
      1 / 10000 ≤ @price .ascii (@Pydantic.plain .ascii) false [response]) ∧
    (twoLaunches textOnly).flatMap responses = [textOnly, textOnly] := by
  refine ⟨fun response hresponse => ?_, by decide +kernel⟩
  simp only [List.mem_cons, List.not_mem_nil, or_false] at hresponse
  rcases hresponse with rfl | rfl
  · refine ⟨?_, by decide +kernel⟩
    rintro ⟨hrun, _⟩
    revert hrun
    decide +kernel
  · refine ⟨?_, by decide +kernel⟩
    rintro ⟨hrun, _⟩
    revert hrun
    decide +kernel

/-- An answer that is accepted: the log has its usage, and the gate closes over it. -/
theorem help_call_is_counted :
    @Counted .ascii (@Pydantic.plain .ascii) false (py "r") Db.empty.tables [helpCall]
        (adapterRun false helpCall).conn.committed.tables ∧
    ∀ l : Launch, @Untouched l.hunt
      (@afterLaunches .ascii (some (1 / 10000)) [calmLaunch helpCall "r"] Db.empty)
      (@Launch.session .ascii (some (1 / 10000)) l
        (@afterLaunches .ascii (some (1 / 10000)) [calmLaunch helpCall "r"] Db.empty)) := by
  have hcounted := @spend_counted_iff .ascii (@Pydantic.plain .ascii) false
  have haccepted : @AllAcceptable .ascii (@Pydantic.plain .ascii) false [helpCall] := by
    intro response hresponse _
    obtain rfl := List.mem_singleton.1 hresponse
    have hcarried : @carriedUsage .ascii (@Pydantic.plain .ascii) false helpCall
        = some ⟨[], 5, 7⟩ := by
      decide +kernel
    -- the response is acceptable because its verdict is a decision
    refine (@accepted_iff .ascii (@Pydantic.plain .ascii) _ _ _ hcarried).1 ?_
    have hok : (@verdict .ascii (@Pydantic.plain .ascii) false helpCall).isOk = true := by
      decide +kernel
    revert hok
    cases @verdict .ascii (@Pydantic.plain .ascii) false helpCall with
    | ok decision => exact fun _ => ⟨decision, rfl⟩
    | error e => exact fun h => nomatch h
  constructor
  · have hreceived : received (fun _ => .ok helpCall) (adapterRun false helpCall).trace
        = [helpCall] := by
      decide +kernel
    rw [← hreceived] at haccepted ⊢
    unfold adapterRun at haccepted ⊢
    exact (hcounted.1 (@adapterHunt .ascii (@Pydantic.plain .ascii) false helpCall)
      (Env.calm [py "r"]) Db.empty (fun _ _ => rfl) (by decide +kernel)).2 haccepted
  · refine (hcounted.2 (1 / 10000) [calmLaunch helpCall "r"] Db.empty ?_).2 (by decide +kernel)
    intro p hp
    obtain rfl := List.mem_singleton.1 hp
    have hresponses : responses (calmLaunch helpCall "r",
        @Launch.session .ascii (some (1 / 10000)) (calmLaunch helpCall "r") Db.empty)
          = [helpCall] := by
      decide +kernel
    refine ⟨fun _ _ => rfl, by decide +kernel, ?_⟩
    rw [hresponses]
    exact haccepted

end RexHunter
