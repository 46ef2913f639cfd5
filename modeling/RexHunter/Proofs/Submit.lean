import RexHunter.Proofs.Programs

set_option autoImplicit false

/-! # `submit_verdict` is one atomic transition

The coroutine runs an UPDATE, one or two INSERTs and a commit, and any of them can fail or be
cancelled. `submitVerdict_triple` says what that comes to: however it ends, the committed database
is the old one or the old one with the whole transition applied (`Applied`), `True` means applied,
and `False` means that the guard did not match. -/

namespace RexHunter

open Session (Writing)
open Coro (Triple)

/-- The guard of the UPDATE matches a row. -/
def Tables.Accepts (t : Tables) (request : VerdictEvent) : Prop :=
  ∃ p ∈ t.prey, p.id = request.preyId ∧ p.status = request.verdict.source

instance (t : Tables) (request : VerdictEvent) : Decidable (t.Accepts request) := by
  unfold Tables.Accepts
  infer_instance

/-- The row after the UPDATE. -/
def Prey.decide (p : Prey) (request : VerdictEvent) (now : PyStr) : Prey :=
  { p with
    status := request.verdict.target
    decidedAt := if request.verdict.target = .awaitingVerdict then none else some now
    reason := request.reason <|> p.reason
    provenance := request.provenance <|> p.provenance }

/-- The whole transition: the flipped row, the logged event, and the job of a FEAST. -/
def Tables.applyVerdict (t : Tables) (request : VerdictEvent) (now jobId : PyStr) : Tables :=
  { t with
    prey := Table.updateWhere
      (fun p => Decidable.decide (p.id = request.preyId ∧ p.status = request.verdict.source))
      (fun p => p.decide request now) t.prey
    penEvents := t.penEvents ++ [⟨t.penSeq + 1, request.preyId, request, now⟩]
    penSeq := t.penSeq + 1
    jobs :=
      if request.verdict = .feast then
        t.jobs ++ [⟨jobId, draftPitch, request.preyId, .queued, none, now⟩]
      else t.jobs }

/-- The request is not refused before its UPDATE runs: a RELEASE has a reason, and its texts can be
    bound. -/
def VerdictEvent.WellFormed (request : VerdictEvent) : Prop :=
  ¬ (request.verdict = .release ∧ request.reason = none) ∧ request.dumpable = true

/-- The transition of `request` took the database from `db` to `db'`. -/
def Applied (request : VerdictEvent) (db db' : Db) : Prop :=
  request.WellFormed ∧ db.tables.Accepts request ∧
    ∃ now jobId, db'.tables = db.tables.applyVerdict request now jobId

theorem Tables.accepts_iff_count {t : Tables} (h : t.Schema) (request : VerdictEvent) :
    t.prey.countP (fun p => Decidable.decide (p.id = request.preyId ∧
      p.status = request.verdict.source)) = 1 ↔ t.Accepts request := by
  have hsplit : (fun p : Prey => Decidable.decide (p.id = request.preyId ∧
      p.status = request.verdict.source))
      = fun p => Decidable.decide (p.id = request.preyId) &&
          Decidable.decide (p.status = request.verdict.source) := by
    funext p
    exact Bool.decide_and _ _
  rw [hsplit, Table.countP_key_eq_one h.preyKey]
  simp only [decide_eq_true_eq, Tables.Accepts]

/-- The commit that ends an applied transition. -/
theorem commit_applied {request : VerdictEvent} {db v : Db} (h : Applied request db v) :
    Triple (Writing db v) (do commit; return true)
      (fun applied w => if applied then Applied request db w.conn.committed
        else w.conn.committed = db ∧ ¬ db.tables.Accepts request)
      (fun _ w => w.conn.committed = db ∨ Applied request db w.conn.committed) := by
  refine Triple.seq Session.commit_writing ?_ (fun _ => Triple.pure (fun w hw => ?_))
  · rintro e w (hw | hw)
    · exact Or.inl hw
    · exact Or.inr (hw ▸ h)
  · rw [if_pos rfl, hw.1]
    exact h

/-- **Atomicity of a verdict.** -/
theorem submitVerdict_triple (db : Db) (request : VerdictEvent) :
    Triple (Writing db db) (submitVerdict request)
      (fun applied w => if applied then Applied request db w.conn.committed
        else w.conn.committed = db ∧ ¬ db.tables.Accepts request)
      (fun _ w => w.conn.committed = db ∨ Applied request db w.conn.committed) := by
  unfold submitVerdict
  by_cases hreason : request.verdict = .release ∧ request.reason = none
  · rw [if_pos hreason]
    exact Triple.throw (fun w hw => Or.inl hw.1)
  rw [if_neg hreason]
  have hold : ∀ (e : Exn PyExc) (w : Sess), w.conn.committed = db →
      w.conn.committed = db ∨ Applied request db w.conn.committed := fun _ _ h => Or.inl h
  refine Triple.bind Session.useVars_writing (fun now => ?_)
  -- the UPDATE, and what its row count says about the guard
  refine Triple.seq Session.execute_writing hold (fun cursor => ?_)
  refine Triple.of_exists (fun v => Triple.of_and (fun hupdate => ?_))
  have hformed : request.WellFormed := ⟨hreason, Stmt.exec_texts hupdate⟩
  have hv := Stmt.exec_ok hupdate
  simp only [Stmt.apply, Except.ok.injEq, Prod.mk.injEq] at hv
  obtain ⟨hcursor, hvt⟩ := hv
  have hcount : cursor.rowcount = 1 ↔ db.tables.Accepts request := by
    rw [← hcursor]
    exact Tables.accepts_iff_count db.schema request
  by_cases hone : cursor.rowcount ≠ 1
  · rw [if_pos hone]
    refine Triple.seq Session.rollback_writing hold (fun _ => Triple.pure (fun w hw => ?_))
    exact ⟨hw.1, fun hacc => hone (hcount.2 hacc)⟩
  rw [if_neg hone]
  have hacc : db.tables.Accepts request := hcount.1 (not_not.1 hone)
  -- from here on the transition is complete in the open transaction before it is committed
  refine Triple.seq Session.attempt_writing hold (fun _ => ?_)
  refine Triple.seq Session.execute_writing hold (fun _ => ?_)
  refine Triple.of_exists (fun v₂ => Triple.of_and (fun hinsert => ?_))
  obtain ⟨_, hv₂⟩ := Stmt.apply_insertPenEvent (Stmt.exec_ok hinsert)
  by_cases hfeast : request.verdict = .feast
  · rw [if_pos hfeast]
    refine Triple.bind Session.useVars_writing (fun jobId => ?_)
    refine Triple.seq Session.execute_writing hold (fun _ => ?_)
    refine Triple.of_exists (fun v₃ => Triple.of_and (fun hjob => ?_))
    obtain ⟨_, _, hv₃⟩ := Stmt.apply_insertJob (Stmt.exec_ok hjob)
    have happlied : Applied request db v₃ := by
      refine ⟨hformed, hacc, now, jobId, ?_⟩
      rw [hv₃, hv₂, ← hvt]
      simp only [Tables.applyVerdict, if_pos hfeast]
      rfl
    exact commit_applied happlied
  · rw [if_neg hfeast]
    have happlied : Applied request db v₂ := by
      refine ⟨hformed, hacc, now, [], ?_⟩
      rw [hv₂, ← hvt]
      simp only [Tables.applyVerdict, if_neg hfeast]
      rfl
    exact commit_applied happlied

/-- **Without faults, a well-formed request whose guard does not match returns `False`.** -/
theorem submitVerdict_refused {db : Db} {request : VerdictEvent} (hformed : request.WellFormed)
    (hacc : ¬ db.tables.Accepts request) :
    Triple (fun w => w.faults = [] ∧ Writing db db w) (submitVerdict request)
      (fun applied w => applied = false ∧ w.conn.committed = db) (fun _ _ => False) := by
  unfold submitVerdict
  rw [if_neg hformed.1]
  refine Triple.bind (Session.useVars_triple (fun _ _ hw => hw)) (fun now => ?_)
  refine Triple.bind (Q := fun cursor w => w.faults = [] ∧ cursor.rowcount ≠ 1 ∧
    w.conn.committed = db) (Session.await_calm (fun w hw => ?_)) (fun cursor => ?_)
  · -- the UPDATE matches no row
    let update := Stmt.updatePrey request.verdict.target
      (if request.verdict.target = .awaitingVerdict then none else some now) request.reason
      request.provenance request.preyId request.verdict.source
    let count := db.tables.prey.countP (fun p => Decidable.decide (p.id = request.preyId ∧
      p.status = request.verdict.source))
    have hupdate : ∃ v, update.exec db = .ok (⟨count, none⟩, v) := by
      obtain ⟨v, hv, _⟩ := Stmt.exec_of_apply (s := update) hformed.2 rfl
      exact ⟨v, hv⟩
    obtain ⟨v, hexec⟩ := hupdate
    refine ⟨⟨count, none⟩, w.conn.write v, ?_, ?_, hw.1⟩
    · unfold Session.execute
      rw [hw.2, hexec]
    · exact fun hone => hacc ((Tables.accepts_iff_count db.schema request).1 hone)
  · rintro w ⟨hcalm, hcount, hw⟩
    rw [if_pos hcount]
    refine Triple.bind (Q := fun _ w => w.faults = [] ∧ w.conn.committed = db)
      (P := fun w => w.faults = [] ∧ w.conn.committed = db)
      (Session.await_calm (fun w hw => ⟨⟨⟩, w.conn.rollback, rfl, hw⟩))
      (fun _ => Triple.pure (fun w hw => ⟨rfl, hw.2⟩)) w ⟨hcalm, hw⟩

end RexHunter
