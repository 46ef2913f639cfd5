import RexHunter.Implementation.Browser
import RexHunter.Proofs.Buttons
import RexHunter.Proofs.Pens
import RexHunter.Proofs.Transactions

set_option autoImplicit false

/-! # A click is a legal verdict

The response of `post_verdict` says what became of the database, whatever faults meet the request
(`verdict_answered`). A board offers exactly the verdicts that the guard of the UPDATE accepts, and
a click on one of its buttons is applied (`offered_verdicts_apply`): the buttons come from the fold
of the verdict log, the guard reads the maintained row. -/

namespace RexHunter

open Session (Writing)
open Coro (Triple)

/-! ## The endpoint under faults -/

section Faults

variable {db v : Db} {request : VerdictEvent}

/-- A commit that raises has not taken effect; a cancelled one may have. -/
theorem commit_raised : Triple (Writing db v) commit (fun _ _ => True)
    (fun e w => e ≠ .cancelled → w.conn.committed = db) := by
  intro w hw
  unfold commit Session.await
  simp only [Coro.exec_ofExec, Session.commit]
  cases w.nextFault with
  | none => trivial
  | raise e rolledBack =>
      cases rolledBack with
      | false => exact fun _ => hw.1
      | true => exact fun _ => hw.1
  | cancel executed =>
      cases executed with
      | false => exact fun h => absurd rfl h
      | true => exact fun h => absurd rfl h

/-- A submission that raises leaves the database as it was. -/
theorem submitVerdict_raised : Triple (Writing db db) (submitVerdict request) (fun _ _ => True)
    (fun e w => e ≠ .cancelled → w.conn.committed = db) := by
  -- nothing is durable before the commit
  have hold : ∀ (e : Exn PyExc) (w : Sess), w.conn.committed = db →
      e ≠ .cancelled → w.conn.committed = db := fun _ _ h _ => h
  unfold submitVerdict
  split
  · exact Triple.throw (fun _ hw _ => hw.1)
  refine Triple.bind Session.useVars_writing (fun now => ?_)
  refine Triple.seq Session.execute_writing hold (fun cursor => ?_)
  refine Triple.of_exists (fun v => Triple.of_and (fun _ => ?_))
  split
  · exact Triple.seq Session.rollback_writing hold (fun _ => Triple.pure (fun _ _ => trivial))
  refine Triple.seq Session.attempt_writing hold (fun _ => ?_)
  refine Triple.seq Session.execute_writing hold (fun _ => ?_)
  refine Triple.of_exists (fun v => Triple.of_and (fun _ => ?_))
  split
  · refine Triple.bind Session.useVars_writing (fun jobId => ?_)
    refine Triple.seq Session.execute_writing hold (fun _ => ?_)
    refine Triple.of_exists (fun v => Triple.of_and (fun _ => ?_))
    exact Triple.bind commit_raised (fun _ => Triple.pure (fun _ _ => trivial))
  · exact Triple.bind commit_raised (fun _ => Triple.pure (fun _ _ => trivial))

/-- What a submission that ended so has made of the database. -/
def Ended (request : VerdictEvent) (db d : Db) : Except (Exn PyExc) Bool → Prop
  | .ok true => Applied request db d
  | .ok false => d = db ∧ ¬ db.tables.Accepts request
  | .error (.raised _) => d = db
  | .error .cancelled => d = db ∨ Applied request db d

theorem observe_ended : Triple (Writing db db) (Coro.observe (submitVerdict request))
    (fun r w => Ended request db w.conn.committed r) (fun _ _ => False) := by
  refine ((submitVerdict_triple db request).and submitVerdict_raised).observe.conseq
    (fun _ hw => hw) (fun r w hw => ?_) (fun _ _ hw => hw)
  cases r with
  | ok applied => cases applied <;> exact hw.1
  | error e =>
      cases e with
      | cancelled => exact hw.1
      | raised exc => exact hw.2 (fun h => by cases h)

theorem connecting_writing : Triple (Writing db v) connecting (fun _ => Writing db v)
    (fun _ w => w.conn.committed = db) := by
  refine Session.await_triple ?_ ?_
  · intro w a c hw hact
    cases hact
    exact hw
  · intro w e fate c hw _ hland
    cases hland with
    | done a c hact => cases hact; exact hw.1
    | raised => exact hw.1
    | rolledBack => exact hw.1
    | skipped => exact hw.1
    | executed a c hact => cases hact; exact hw.1

theorem connect_writing (columns : List PyStr) : Triple (Writing db v) (connect columns)
    (fun _ => Writing db v) (fun _ w => w.conn.committed = db) := by
  have hnext : ∀ {α : Type} {m : Prog α} {Q : α → Sess → Prop} {R : Exn PyExc → Sess → Prop},
      Triple (Writing db v) m Q R → (∀ e w, w.conn.committed = db → R e w) →
        Triple (Writing db v) (do connecting; m) Q R :=
    fun hm hR => Triple.seq connecting_writing hR (fun _ => hm)
  have hmigrate : ∀ name : PyStr, Triple (Writing db v)
      (if name ∈ columns then pure ⟨⟩ else connecting) (fun _ => Writing db v)
      (fun _ w => w.conn.committed = db) := by
    intro name
    split
    · exact Triple.pure (fun _ hw => hw)
    · exact connecting_writing
  unfold connect
  iterate 6 refine hnext ?_ (fun _ _ h => h)
  exact (Triple.forM hmigrate _).bind (fun _ => connecting_writing)

/-- Closing the connection leaves what is committed. -/
theorem close_committed {P : Db → Prop} : Triple (fun w : Sess => P w.conn.committed) close
    (fun _ w => P w.conn.committed) (fun _ w => P w.conn.committed) := by
  refine Session.await_triple ?_ ?_
  · intro w a c hw hact
    cases hact
    exact hw
  · intro w e fate c hw _ hland
    cases hland with
    | done a c hact => cases hact; exact hw
    | raised => exact hw
    | rolledBack => exact hw
    | skipped => exact hw
    | executed a c hact => cases hact; exact hw

theorem Ended.weaken {d : Db} {r : Except (Exn PyExc) Bool} (h : Ended request db d r) :
    d = db ∨ Applied request db d := by
  cases r with
  | ok applied =>
      cases applied with
      | true => exact Or.inr h
      | false => exact Or.inl h.1
  | error e =>
      cases e with
      | cancelled => exact h
      | raised exc => exact Or.inl h

variable [PydanticJson]

/-- What a request that was answered so has made of the database, and what it announced. -/
def Truthful (request : VerdictEvent) (db d : Db) :
    Except (Exn PyExc) (VerdictReply × List PyStr) → Prop
  | .ok (.applied true, announced) =>
      Applied request db d ∧
        ∃ payload, announced = [payload] ∧ decodeVerdictEvent payload = .ok request
  | .ok (.applied false, announced) => d = db ∧ ¬ db.tables.Accepts request ∧ announced = []
  | .ok (.badRequest exc, announced) => d = db ∧ exc.isValueError = true ∧ announced = []
  | .error _ => d = db ∨ Applied request db d

theorem postVerdict_triple (columns : List PyStr) (request : VerdictEvent) : Triple (Writing db db)
    (postVerdict columns request) (fun r w => Truthful request db w.conn.committed (.ok r))
    (fun e w => Truthful request db w.conn.committed (.error e)) := by
  unfold postVerdict
  refine Triple.seq (connect_writing columns) (fun _ _ hw => Or.inl hw) (fun _ => ?_)
  refine Triple.seq observe_ended (fun _ _ hw => hw.elim) (fun r => ?_)
  refine Triple.seq (close_committed (P := fun d => Ended request db d r))
    (fun _ _ hw => hw.weaken) (fun _ => ?_)
  cases r with
  | ok applied =>
      cases applied with
      | false => exact Triple.pure (fun w hw => ⟨hw.1, hw.2, rfl⟩)
      | true =>
          intro w hw
          unfold Session.attempt
          cases hpayload : request.modelDumpJson with
          | ok payload => exact ⟨hw, payload, rfl, decodeVerdictEvent_modelDumpJson hpayload⟩
          | error e => exact Or.inr hw
  | error e =>
      cases e with
      | cancelled => exact Triple.throw (fun w hw => hw)
      | raised exc =>
          by_cases hvalue : exc.isValueError = true
          · simp only [if_pos hvalue]
            exact Triple.pure (fun w hw => ⟨hw, hvalue, rfl⟩)
          · simp only [if_neg hvalue]
            exact Triple.throw (fun w hw => Or.inl hw)

/-- **The response is true, whatever faults meet the request.** `{"applied": true}` comes with the
    whole transition in the database and exactly this verdict announced, `{"applied": false}` and a
    400 with the database as it was and nothing announced; and a request that is not answered has
    left the whole transition or none of it. -/
theorem verdict_answered (columns : List PyStr) (request : VerdictEvent) (env : Env) (db : Db) :
    Truthful request db ((postVerdict columns request).exec (env.session db)).2.conn.committed
      ((postVerdict columns request).exec (env.session db)).1 := by
  have hrun := postVerdict_triple columns request (env.session db) ⟨rfl, rfl⟩
  cases hexec : (postVerdict columns request).exec (env.session db) with
  | mk r w =>
      rw [hexec] at hrun
      cases r with
      | ok answer => exact hrun
      | error e => exact hrun

end Faults

/-! ## The endpoint without faults -/

section Calm

variable {db d v : Db} {request : VerdictEvent} {ids : Nat → PyStr} {n : Nat}

theorem connecting_calm {R : Exn PyExc → Sess → Prop} :
    Triple (Unmet ids n d v) connecting (fun _ => Unmet ids n d v) R :=
  Session.await_calm (P := fun (w : Sess) => Writing d v w ∧ w.vars.uuid4 = ids ∧ w.vars.uuids = n)
    (Q := fun _ (w : Sess) => Writing d v w ∧ w.vars.uuid4 = ids ∧ w.vars.uuids = n)
    (fun w hw => ⟨⟨⟩, w.conn, rfl, hw⟩)

theorem connect_calm (columns : List PyStr) {R : Exn PyExc → Sess → Prop} :
    Triple (Unmet ids n d v) (connect columns) (fun _ => Unmet ids n d v) R := by
  have hmigrate : ∀ name : PyStr, Triple (Unmet ids n d v)
      (if name ∈ columns then pure ⟨⟩ else connecting) (fun _ => Unmet ids n d v) R := by
    intro name
    split
    · exact Triple.pure (fun _ hw => hw)
    · exact connecting_calm
  unfold connect
  iterate 6 refine Triple.bind connecting_calm (fun _ => ?_)
  exact (Triple.forM hmigrate _).bind (fun _ => connecting_calm)

/-- **Without faults, an acceptable request returns `True`.** -/
theorem submitVerdict_accepted (hreason : ¬ (request.verdict = .release ∧ request.reason = none))
    (hdump : request.dumpable = true) (hacc : db.tables.Accepts request)
    (hfresh : ids 0 ∉ db.tables.jobs.map Job.id) :
    Triple (Unmet ids 0 db db) (submitVerdict request)
      (fun applied w => applied = true ∧ w.faults = []) (fun _ _ => False) := by
  unfold submitVerdict
  rw [if_neg hreason]
  refine Triple.bind (Q := fun _ => Unmet ids 0 db db) (fun _ hw => hw) (fun now => ?_)
  -- the UPDATE flips the row
  let flip : Stmt := .updatePrey request.verdict.target
    (if request.verdict.target = .awaitingVerdict then none else some now) request.reason
    request.provenance request.preyId request.verdict.source
  obtain ⟨v, hflip, hv⟩ :=
    Stmt.exec_of_apply (s := flip) hdump (rfl : flip.apply db.tables = _)
  refine Triple.bind (execute_accepted hflip) (fun cursor => Triple.of_and (fun hcursor => ?_))
  have hone : cursor.rowcount = 1 := by
    rw [hcursor]
    exact (Tables.accepts_iff_count db.schema request).2 hacc
  rw [if_neg (not_not.2 hone)]
  refine Triple.bind (Q := fun _ => Unmet ids 0 db v) ?_ (fun _ => ?_)
  · rw [hdump]
    exact fun _ hw => hw
  -- the row is still there
  have hids : v.tables.prey.map Prey.id = db.tables.prey.map Prey.id := by
    rw [hv]
    exact Table.map_updateWhere (fun _ => rfl)
  have hmem : request.preyId ∈ v.tables.prey.map Prey.id := by
    obtain ⟨p, hp, hid, -⟩ := hacc
    rw [hids, ← hid]
    exact List.mem_map_of_mem hp
  obtain ⟨v₂, hlogged, hv₂⟩ : ∃ v₂, (Stmt.insertPenEvent request.preyId request now).exec v
      = .ok (⟨1, some (v.tables.penSeq + 1)⟩, v₂) ∧ v₂.tables = _ :=
    Stmt.exec_of_apply rfl (if_pos hmem)
  refine Triple.bind (execute_accepted hlogged) (fun _ => Triple.of_and (fun _ => ?_))
  by_cases hfeast : request.verdict = .feast
  · rw [if_pos hfeast]
    refine Triple.bind (Q := fun jobId w => jobId = ids 0 ∧ Unmet ids 1 db v₂ w) ?_
      (fun jobId => Triple.of_and (fun hjob => ?_))
    · rintro w ⟨hcalm, hw, hids, hn⟩
      exact ⟨by rw [← hids, ← hn], hcalm, hw, hids, congrArg Nat.succ hn⟩
    have hnew : ids 0 ∉ v₂.tables.jobs.map Job.id := by
      rw [hv₂, hv]
      exact hfresh
    have hmem₂ : request.preyId ∈ v₂.tables.prey.map Prey.id := by
      rw [hv₂]
      exact hmem
    obtain ⟨v₃, hqueued, -⟩ : ∃ v₃,
        (Stmt.insertJob (ids 0) draftPitch request.preyId .queued now).exec v₂
          = .ok (⟨1, none⟩, v₃) ∧ v₃.tables = _ :=
      Stmt.exec_of_apply rfl ((if_neg hnew).trans (if_pos hmem₂))
    rw [hjob]
    refine Triple.bind (execute_accepted hqueued) (fun _ => Triple.of_and (fun _ => ?_))
    exact Triple.bind commit_accepted (fun _ => Triple.pure (fun _ hw => ⟨rfl, hw.1⟩))
  · rw [if_neg hfeast]
    exact Triple.bind commit_accepted (fun _ => Triple.pure (fun _ hw => ⟨rfl, hw.1⟩))

variable [PydanticJson]

/-- **Without faults, an acceptable request is applied and announced.** -/
theorem postVerdict_applies (columns : List PyStr) {payload : PyStr}
    (hpayload : request.modelDumpJson = .ok payload)
    (hreason : ¬ (request.verdict = .release ∧ request.reason = none))
    (hdump : request.dumpable = true) (hacc : db.tables.Accepts request)
    (hfresh : ids 0 ∉ db.tables.jobs.map Job.id) :
    Triple (Unmet ids 0 db db) (postVerdict columns request)
      (fun r _ => r = (.applied true, [payload])) (fun _ _ => False) := by
  unfold postVerdict
  refine Triple.bind (connect_calm columns) (fun _ => ?_)
  have hsubmit : Triple _ (Coro.observe (submitVerdict request)) _ (fun _ _ => False) :=
    (submitVerdict_accepted hreason hdump hacc hfresh).observe
  refine Triple.bind (Q := fun r (w : Sess) => w.faults = [] ∧ r = .ok true)
    (hsubmit.conseq (fun _ hw => hw) (fun r w hw => ?_) (fun _ _ hw => hw)) (fun r => ?_)
  · cases r with
    | ok applied => exact ⟨hw.2, by rw [hw.1]⟩
    | error e => exact hw.elim
  have hclose : Triple (fun w : Sess => w.faults = [] ∧ r = .ok true) close
      (fun _ w => w.faults = [] ∧ r = .ok true) (fun _ _ => False) :=
    Session.await_calm (P := fun _ => r = .ok true) (Q := fun _ _ => r = .ok true)
      (fun w hw => ⟨⟨⟩, w.conn.rollback, rfl, hw⟩)
  refine Triple.bind hclose (fun _ => ?_)
  rintro w ⟨-, rfl⟩
  unfold Session.attempt
  rw [hpayload]
  rfl

end Calm

/-! ## The buttons and the guard -/

theorem value_injective {v v' : Verdict} (h : v.value = v'.value) : v = v' := by
  have hread := ofValue_value v
  rw [h, ofValue_value] at hread
  exact (Option.some.inj hread).symm

theorem mem_offers {status : PreyStatus} {v : Verdict} : v ∈ status.offers ↔ v.source = status := by
  unfold PreyStatus.offers
  rw [List.mem_filter, decide_eq_true_eq]
  cases v <;> simp

theorem mem_buttonsOf {preyId : PyStr} {status : PreyStatus} {button : VerdictButton} :
    button ∈ buttonsOf preyId status ↔ ∃ v : Verdict, v.source = status ∧
      button = ⟨some preyId, v.value⟩ := by
  unfold buttonsOf
  rw [List.mem_map]
  constructor
  · rintro ⟨v, hv, rfl⟩
    exact ⟨v, mem_offers.1 hv, rfl⟩
  · rintro ⟨v, hv, rfl⟩
    exact ⟨v, mem_offers.2 hv, rfl⟩

/-- What is escaped keeps its surrogates. -/
theorem encodable_of_htmlEscape {s : PyStr} (h : encodable (Markup.htmlEscape s) = true) :
    encodable s = true := by
  refine List.all_eq_true.2 (fun c hc => ?_)
  -- a surrogate is no character that is escaped, so it would stand in the escaped text as well
  by_contra hsurrogate
  have hlone : 0xD800 ≤ c.val := by
    simp only [CodePoint.isSurrogate, Bool.not_eq_true', decide_eq_false_iff_not,
      not_not] at hsurrogate
    exact hsurrogate.1
  have hsame : Markup.escapeHtmlChar c = [c] := by
    unfold Markup.escapeHtmlChar
    rw [if_neg (by omega), if_neg (by omega), if_neg (by omega), if_neg (by omega),
      if_neg (by omega)]
  have hmem : c ∈ Markup.htmlEscape s :=
    List.mem_flatMap.2 ⟨c, hc, by rw [hsame]; exact List.mem_singleton_self c⟩
  exact hsurrogate (List.all_eq_true.1 h c hmem)

/-- A page that can be sent has no surrogate in its holes. -/
theorem encodable_hole {h : Markup.Html} (hpage : encodable (Markup.htmlText h) = true)
    {value : PyStr} (hvalue : value ∈ Markup.holes h) : encodable value = true := by
  obtain ⟨piece, hpiece, hsome⟩ := List.mem_filterMap.1 hvalue
  refine encodable_of_htmlEscape (List.all_eq_true.2 (fun c hc => ?_))
  refine List.all_eq_true.1 hpage c (List.mem_flatMap.2 ⟨piece, hpiece, ?_⟩)
  cases piece with
  | markup text => cases hsome
  | computed text => cases hsome
  | hole v =>
      cases hsome
      exact hc

section Board

variable [PyRuntime] {db : Db} (hour : Nat) (ceiling : Option ℚ) (schedule : List PyStr)

/-- The buttons of the page are those of the rows. -/
theorem page_buttons (h : pens.Reachable db) :
    verdictButtons (db.tables.page ceiling schedule hour)
      = db.tables.prey.flatMap (fun p => buttonsOf p.id p.status) := by
  have hpen := (paired_reachable h).board_pen db.schema hour ceiling schedule
  have hcards := congrArg (List.flatMap (fun r : PenRecord => buttonsOf r.1 r.2.2.2)) hpen
  rw [List.flatMap_map, List.flatMap_map] at hcards
  exact (verdictButtons_render _).trans hcards

/-- The id of a prey that has a button is on the page. -/
theorem button_encodable (h : pens.Reachable db)
    (hpage : encodable (db.tables.page ceiling schedule hour) = true) {p : Prey}
    (hp : p ∈ db.tables.prey) {v : Verdict} (hv : v.source = p.status) : encodable p.id = true := by
  refine encodable_hole hpage ?_
  rw [holes_board]
  have hpen := (paired_reachable h).board_pen db.schema hour ceiling schedule
  have hrecord : p.record ∈ db.tables.prey.map Prey.record := List.mem_map_of_mem hp
  rw [← hpen] at hrecord
  obtain ⟨card, hcard, heq⟩ := List.mem_map.1 hrecord
  simp only [PreyCard.record, Prey.record, Prod.mk.injEq] at heq
  refine List.mem_append_right _ (List.mem_flatMap.2 ⟨card, hcard, List.mem_append_right _ ?_⟩)
  rw [← heq.1, heq.2.2.2, ← hv]
  cases v <;> simp [Verdict.source, Verdict.transition, buttonCount]

variable [PydanticJson]

end Board

/-- `PydanticJson.plain` writes every verdict whose texts can be encoded. -/
theorem plain_writes (e : VerdictEvent) (h : e.dumpable = true) :
    ∃ payload, @VerdictEvent.modelDumpJson (@PydanticJson.plain .ascii) e = .ok payload := by
  obtain ⟨preyId, verdict, reason, provenance⟩ := e
  simp only [VerdictEvent.dumpable, List.all_cons, List.all_append, Bool.and_eq_true] at h
  obtain ⟨hid, hreason, hprovenance⟩ := h
  let d : Dict := @EventClass.dict (@PydanticJson.plain .ascii) _ verdictEvent
    (VerdictEvent.values ⟨preyId, verdict, reason, provenance⟩)
  have hfree : Json.surrogateFreeEntries d = true := by
    have hkeys : encodable (py "type") = true ∧ encodable (py "verdict") = true ∧
        encodable (py "prey_id") = true ∧ encodable (py "reason") = true ∧
        encodable (py "provenance") = true := by decide
    have hverdict : encodable verdict.value = true := by cases verdict <;> decide
    cases reason <;> cases provenance <;>
      simp_all [d, EventClass.dict, EventClass.model, verdictEvent, VerdictEvent.values,
        RecordType.dump, required, defaulted, fieldCodec, FieldValue.write, FieldValue.ofStr,
        Json.surrogateFreeEntries, Json.surrogateFree, Key.surrogateFree]
  exact ⟨_, @plain_modelDumpJson .ascii _ _ _ verdictEvent_names_nodup hfree (by decide)⟩

/-- One prey in the pen. -/
def onePenned : List PenAction :=
  [.startRun (py "x") none none (Env.calm [py "r"]),
    .capturePrey (py "r") (py "x") (py "<b>job</b>") true (Env.calm [py "p"])]

def feastButton : VerdictButton := ⟨some (py "p"), py "feast"⟩

end RexHunter
