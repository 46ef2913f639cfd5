import RexHunter.Implementation.Store
import RexHunter.Proofs.Hunt

set_option autoImplicit false

/-! # Captures through `run_hunt`

`capture_prey` writes the event and the row in one transaction, but on the connection that the
handlers of `run_hunt` go on writing to. A capture whose second INSERT is lost while the first stays
in the open transaction is therefore completed by the next commit of a handler. The log and the pen
agree in every run in which no fault separates the two INSERTs and leaves the first. -/

namespace RexHunter

open Session (Closed Given)
open Coro (Keeps Triple)

/-! ## Log and pen of a run -/

/-- The ids the capture events of a run carry, in log order. -/
def Tables.capturedIds (t : Tables) (runId : PyStr) : List PyStr :=
  (t.trajectoryEvents.filter (fun r => r.runId = runId)).filterMap (fun r => r.payload.capturedId)

/-- The ids of the prey rows of a run. -/
def Tables.preyIds (t : Tables) (runId : PyStr) : List PyStr :=
  (t.prey.filter (fun p => p.runId = runId)).map Prey.id

/-- The log and the pen name the same captures of a run. -/
def Agrees (runId : PyStr) (t : Tables) : Prop := t.capturedIds runId = t.preyIds runId

instance (runId : PyStr) (t : Tables) : Decidable (Agrees runId t) :=
  inferInstanceAs (Decidable (_ = _))

/-- A run that is not in the database has neither. -/
theorem Tables.Schema.agrees {t : Tables} (h : t.Schema) {runId : PyStr}
    (hnew : runId ∉ t.runs.map Run.id) : Agrees runId t := by
  have hevents : t.trajectoryEvents.filter (fun r => r.runId = runId) = [] := by
    refine List.filter_eq_nil_iff.2 (fun r hr hrun => hnew ?_)
    rw [← of_decide_eq_true hrun]
    exact h.eventsRun _ (List.mem_map_of_mem hr)
  have hprey : t.prey.filter (fun p => p.runId = runId) = [] := by
    refine List.filter_eq_nil_iff.2 (fun p hp hrun => hnew ?_)
    rw [← of_decide_eq_true hrun]
    exact h.preyRun _ (List.mem_map_of_mem hp)
  simp [Agrees, Tables.capturedIds, Tables.preyIds, hevents, hprey]

theorem Tables.capturedIds_append (runId : PyStr) {t t' : Tables} {c : Cursor}
    {runId' createdAt : PyStr} {event : TrajectoryEvent}
    (h : (Stmt.appendEvent runId' event createdAt).apply t = .ok (c, t')) :
    t'.capturedIds runId
      = t.capturedIds runId ++ if runId' = runId then event.capturedId.toList else [] := by
  obtain ⟨_, _, rfl⟩ := Stmt.apply_appendEvent h
  simp only [capturedIds, List.filter_append, List.filterMap_append]
  by_cases hrun : runId' = runId
  · cases hid : event.capturedId <;> simp [hrun, hid]
  · simp [hrun]

theorem Tables.preyIds_insert (runId : PyStr) {t t' : Tables} {c : Cursor}
    {id runId' territory posting capturedAt : PyStr} {status : PreyStatus}
    (h : (Stmt.insertPrey id runId' territory posting status capturedAt).apply t = .ok (c, t')) :
    t'.preyIds runId = t.preyIds runId ++ if runId' = runId then [id] else [] := by
  obtain ⟨_, _, rfl⟩ := Stmt.apply_insertPrey h
  simp only [preyIds, List.filter_append, List.map_append]
  by_cases hrun : runId' = runId <;> simp [hrun]

/-! ## Statements other than the two INSERTs of a capture -/

/-- The operations that are no part of a capture. -/
def Uncaptured : Op → Prop
  | .execute (.appendEvent _ event _) => event.capturedId = none
  | .execute (.insertPrey ..) => False
  | _ => True

theorem uncaptured_controls : Controls Uncaptured := ⟨trivial, trivial, fun _ _ => trivial⟩

/-- Updating rows leaves the ids of a run. -/
theorem preyIds_updateWhere {l : List Prey} {guard : Prey → Bool} {f : Prey → Prey}
    (hid : ∀ p, (f p).id = p.id) (hrun : ∀ p, (f p).runId = p.runId) (runId : PyStr) :
    ((Table.updateWhere guard f l).filter (fun p => p.runId = runId)).map Prey.id
      = (l.filter (fun p => p.runId = runId)).map Prey.id := by
  induction l with
  | nil => rfl
  | cons p l ih =>
      have hcons : Table.updateWhere guard f (p :: l)
          = (if guard p then f p else p) :: Table.updateWhere guard f l := rfl
      have hp : (if guard p then f p else p).runId = p.runId ∧
          (if guard p then f p else p).id = p.id := by
        by_cases hg : guard p = true
        · rw [if_pos hg]
          exact ⟨hrun p, hid p⟩
        · rw [if_neg hg]
          exact ⟨rfl, rfl⟩
      rw [hcons]
      by_cases hrunId : p.runId = runId
      · simp [hp, hrunId, ih]
      · simp [hp, hrunId, ih]

theorem Agrees.apply {runId : PyStr} {s : Stmt} {t t' : Tables} {c : Cursor}
    (hs : Uncaptured (.execute s)) (h : Agrees runId t) (happly : s.apply t = .ok (c, t')) :
    Agrees runId t' := by
  cases s with
  | appendEvent runId' event createdAt =>
      have hids := Tables.capturedIds_append runId happly
      have hnone : event.capturedId = none := hs
      obtain ⟨_, _, rfl⟩ := Stmt.apply_appendEvent happly
      simp only [hnone, Option.toList_none, ite_self, List.append_nil] at hids
      exact hids.trans h
  | insertPrey => exact hs.elim
  | insertRun id territory startedAt costCeilingUsd maxIterations =>
      obtain ⟨_, rfl⟩ := Stmt.apply_insertRun happly
      exact h
  | insertPenEvent preyId event createdAt =>
      obtain ⟨_, rfl⟩ := Stmt.apply_insertPenEvent happly
      exact h
  | insertJob id kind preyId status createdAt =>
      obtain ⟨_, _, rfl⟩ := Stmt.apply_insertJob happly
      exact h
  | updatePrey target decidedAt reason provenance id source =>
      cases happly
      show t.capturedIds runId = _
      rw [h]
      exact (preyIds_updateWhere (l := t.prey) (f := fun p => { p with
        status := target
        decidedAt := decidedAt
        reason := reason <|> p.reason
        provenance := provenance <|> p.provenance })
        (fun _ => rfl) (fun _ => rfl) runId).symm
  | finishRun | markCrashedRuns | claimJob | completeJob | requeueRunningJobs =>
      cases happly
      exact h

/-! ## The two INSERTs -/

/-- The fault of this step does not separate the INSERTs of a capture with the first one left. -/
def Whole (st : Step Frame Op) : Prop :=
  match st.op with
  | .execute (.appendEvent _ event _) => event.capturedId = none ∨ st.fate ≠ .cancelled true
  | .execute (.insertPrey ..) => st.fate ≠ .raised false ∧ st.fate ≠ .cancelled false
  | _ => True

instance : DecidablePred Whole := by
  intro st
  unfold Whole
  split <;> infer_instance

section Pairs

variable {P : Tables → Prop}

/-- What is encoded is the posting. -/
theorem encodePosting_gives {A : Op → Prop} {I : Sess → Prop} (h : Closed Stmt.exec A I)
    (hA : Controls A) {posting : PyStr} :
    Triple I (encodePosting posting) (fun raw w => encode posting = some raw ∧ I w) (fun _ => I) := by
  refine (attempt_gives h hA).conseq (fun _ hw => hw) (fun raw w hw => ⟨?_, hw.2⟩) (fun _ _ hw => hw)
  have hraw := hw.1
  cases hencode : encode posting with
  | none =>
      rw [hencode] at hraw
      cases hraw
  | some raw' =>
      rw [hencode] at hraw
      cases hraw
      rfl

/-- The INSERTs of a capture keep `P` together. -/
def KeptByCaptures (P : Tables → Prop) : Prop :=
  ∀ {runId territory posting now id : PyStr} {raw : PyBytes} {t t₁ t₂ : Tables} {c c' : Cursor},
    encode posting = some raw → t.Schema → P t →
    (Stmt.appendEvent runId (.preyCaptured ⟨id, territory, raw⟩) now).apply t = .ok (c, t₁) →
    (Stmt.insertPrey id runId territory posting .awaitingVerdict now).apply t₁ = .ok (c', t₂) → P t₂

/-- Between the INSERTs, the transaction holds the event without its row. -/
def Half (P : Tables → Prop) (runId : PyStr) (e : PreyCapturedEvent) (now : PyStr) (w : Sess) :
    Prop :=
  P w.conn.committed.tables ∧ ∃ t c, t.Schema ∧ P t ∧
    (Stmt.appendEvent runId (.preyCaptured e) now).apply t = .ok (c, w.conn.view.tables)

theorem insertEvent_triple (runId : PyStr) (e : PreyCapturedEvent) (now : PyStr) :
    Triple (Given Whole (OnTables P)) (execute (.appendEvent runId (.preyCaptured e) now))
      (fun _ => Given Whole (Half P runId e now)) (fun _ => Given Whole (OnTables P)) := by
  refine Session.await_triple ?_ ?_
  · intro w c conn hw hact
    obtain ⟨d, hd, rfl⟩ := Session.execute_ok hact
    exact hw.snoc rfl (fun _ hI => ⟨hI.1, _, c, w.conn.view.schema, hI.2, Stmt.exec_ok hd⟩)
  · intro w exn fate conn hw hfate hland
    cases hland with
    | done => exact absurd rfl hfate
    | raised => exact hw.snoc rfl (fun _ hI => hI)
    | rolledBack => exact hw.snoc rfl (fun _ hI => ⟨hI.1, hI.1⟩)
    | skipped => exact hw.snoc rfl (fun _ hI => hI)
    | executed =>
        refine hw.snoc rfl (fun hwhole _ => ?_)
        rcases hwhole with hnone | hne
        · exact absurd hnone (by simp [TrajectoryEvent.capturedId])
        · exact absurd rfl hne

theorem insertPrey_triple (hpair : KeptByCaptures P) {runId id territory posting now : PyStr}
    {raw : PyBytes} (hraw : encode posting = some raw) :
    Triple (Given Whole (Half P runId ⟨id, territory, raw⟩ now))
      (execute (.insertPrey id runId territory posting .awaitingVerdict now))
      (fun _ => Given Whole (OnTables P)) (fun _ => Given Whole (OnTables P)) := by
  -- the row that was missing makes the transaction agree again
  have hrow : ∀ (w : Sess) (d : Db) (c : Cursor), Half P runId ⟨id, territory, raw⟩ now w →
      (Stmt.insertPrey id runId territory posting .awaitingVerdict now).exec w.conn.view
        = .ok (c, d) → P w.conn.committed.tables ∧ P d.tables := by
    rintro w d c ⟨hcommitted, t, c₁, hschema, ht, happend⟩ hd
    exact ⟨hcommitted, hpair hraw hschema ht happend (Stmt.exec_ok hd)⟩
  refine Session.await_triple ?_ ?_
  · intro w c conn hw hact
    obtain ⟨d, hd, rfl⟩ := Session.execute_ok hact
    exact hw.snoc rfl (fun _ hI => hrow w d c hI hd)
  · intro w exn fate conn hw hfate hland
    cases hland with
    | done => exact absurd rfl hfate
    | raised => exact hw.snoc rfl (fun hwhole _ => absurd rfl hwhole.1)
    | rolledBack => exact hw.snoc rfl (fun _ hI => ⟨hI.1, hI.1⟩)
    | skipped => exact hw.snoc rfl (fun hwhole _ => absurd rfl hwhole.2)
    | executed c conn hact =>
        obtain ⟨d, hd, rfl⟩ := Session.execute_ok hact
        exact hw.snoc rfl (fun _ hI => hrow w d c hI hd)

/-- A capture that no fault separates keeps what its INSERTs keep together. -/
theorem capturePrey_intact {A : Op → Prop} (h : Closed Stmt.exec A (Given Whole (OnTables P)))
    (hA : Controls A) (hpair : KeptByCaptures P) (runId territory posting : PyStr) (publish : Bool) :
    Keeps (Given Whole (OnTables P)) (capturePrey runId territory posting publish) := by
  refine (uuid4_keeps h).bind (fun id => (utcnow_keeps h).bind (fun now => ?_))
  refine Keeps.of_triple ((encodePosting_gives h hA).bind (fun raw => Triple.of_and (fun hraw => ?_)))
  refine (dump_keeps h hA).triple.bind (fun _ => ?_)
  refine (insertEvent_triple runId ⟨id, territory, raw⟩ now).bind (fun cursor => ?_)
  refine (insertPrey_triple hpair hraw).bind (fun _ => Keeps.triple ?_)
  refine (commit_keeps h hA).bind (fun _ => ?_)
  cases cursor.lastrowid with
  | none => exact Keeps.pure id
  | some eventId => exact (publishEvent_keeps h).bind (fun _ => Keeps.pure id)

end Pairs

/-! ## The whole hunt -/

/-- The two halves of a capture are in the log and in the pen of the same run. -/
theorem agrees_kept (runId : PyStr) : KeptByCaptures (Agrees runId) := by
  intro runId' territory posting now id raw t t₁ t₂ c c' _ _ h happend hinsert
  have hcaptured := Tables.capturedIds_append runId happend
  have hprey := Tables.preyIds_insert runId hinsert
  have hrows : t₁.preyIds runId = t.preyIds runId := by
    obtain ⟨_, _, rfl⟩ := Stmt.apply_appendEvent happend
    rfl
  have hlog : t₂.capturedIds runId = t₁.capturedIds runId := by
    obtain ⟨_, _, rfl⟩ := Stmt.apply_insertPrey hinsert
    rfl
  unfold Agrees at h ⊢
  rw [hlog, hcaptured, hprey, hrows, h]
  rfl

/-- While no fault has separated a capture, the log and the pen of the run agree. -/
abbrev Intact (runId : PyStr) : Sess → Prop := Given Whole (OnTables (Agrees runId))

theorem intact_closed (runId : PyStr) : Closed Stmt.exec Uncaptured (Intact runId) :=
  (closed_onTables (fun _ _ _ _ hs _ h happly => h.apply hs happly)).given Whole

/-- **Capture atomicity**, as far as it goes: in every execution of `run_hunt` in which no fault
    separates the INSERTs of a capture with the first one left, the committed capture events of a
    new run carry exactly the ids of its committed prey rows. -/
theorem capture_atomic_of_whole [PyRuntime] (hunt : Hunt) (env : Env) (db : Db) {runId : PyStr}
    (hnew : runId ∉ db.tables.runs.map Run.id)
    (hwhole : ∀ st ∈ ((runHunt hunt).exec (env.session db)).2.trace, Whole st) :
    Agrees runId ((runHunt hunt).exec (env.session db)).2.conn.committed.tables := by
  have hkeeps : Keeps (Intact runId) (runHunt hunt) :=
    runHunt_keeps (intact_closed runId) uncaptured_controls trivial (fun _ => trivial)
      ((onTables_frameless (Agrees runId)).given Whole) (fun _ _ _ hevent => hevent)
      (fun _ _ => trivial) (fun _ _ _ _ => trivial)
      (fun runId' posting => capturePrey_intact (intact_closed runId) uncaptured_controls
        (agrees_kept runId) runId' hunt.territory posting hunt.publish)
  have hstart : Intact runId (env.session db) :=
    fun _ => ⟨db.schema.agrees hnew, db.schema.agrees hnew⟩
  exact (hkeeps _ hstart hwhole).1

/-- A hunt whose brain ends it at once with one catch. -/
def oneCatch : Hunt where
  territory := py "x"
  brain := fun _ _ => .ret (.huntComplete [py "job"] none)
  server := fun _ => .error (.transportError (py "offline"))
  registry := []
  retryBudget := 0
  maxIterations := 1
  costCeilingUsd := 1
  publish := false
  notify := false
  texts := ⟨id, fun _ => py "exception", fun _ => py "traceback"⟩

/-- The INSERT of the prey row fails: the error handler commits the capture event alone. -/
def failingInsert : Env :=
  { Env.calm [py "r", py "p"] with
    faults := [.none, .none, .none, .none, .raise (.databaseError (py "disk I/O error")) false] }

theorem failing_insert_tears_capture :
    py "r" ∉ Db.empty.tables.runs.map Run.id ∧
    ¬ Agrees (py "r")
      ((@runHunt .ascii oneCatch).exec (failingInsert.session Db.empty)).2.conn.committed.tables :=
  ⟨List.not_mem_nil, by decide +kernel⟩

/-- The capture of a run that meets a cancellation right before its commit. -/
theorem cancelled_commit_keeps_capture_whole :
    Agrees (py "r") ((@runHunt .ascii oneCatch).exec
      ({ Env.calm [py "r", py "p"] with
        faults := [.none, .none, .none, .none, .none, .cancel false] }.session
          Db.empty)).2.conn.committed.tables :=
  @capture_atomic_of_whole .ascii oneCatch _ Db.empty (py "r") List.not_mem_nil (by decide +kernel)

end RexHunter
