import RexHunter.Proofs.Submit
import RexHunter.Proofs.Log

set_option autoImplicit false

/-! # The prey row is the fold of its verdict log

The row is maintained by a guarded UPDATE with `COALESCE`, the fold is a separately written replay
of the log. Both move along `_TRANSITIONS`, and `PenInv` says that they never part: an applied
verdict extends the log by one event that the fold does not skip, and a capture starts a row whose
log is empty. -/

namespace RexHunter

open Session (Writing)

/-! ## The fold -/

theorem fold_snoc (events : List VerdictEvent) (event : VerdictEvent) :
    fold (events ++ [event]) = foldStep (fold events) event := by
  simp [fold, List.foldl_append]

/-- No event of the log is skipped by the guard of `fold`. -/
def Unskipped (events : List VerdictEvent) : Prop :=
  ∀ before event, before ++ [event] <+: events → (fold before).1 = event.verdict.source

theorem unskipped_nil : Unskipped [] := by
  intro before event h
  exact absurd (List.prefix_nil.1 h) (by simp)

theorem Unskipped.snoc {events : List VerdictEvent} {event : VerdictEvent} (h : Unskipped events)
    (hguard : (fold events).1 = event.verdict.source) : Unskipped (events ++ [event]) := by
  intro before e hprefix
  rcases List.prefix_concat_iff.1 hprefix with heq | hprefix
  · obtain ⟨rfl, hlast⟩ := List.append_inj' heq rfl
    obtain rfl := List.singleton_inj.1 hlast
    exact hguard
  · exact h before e hprefix

/-- The fold over an event its guard lets through. -/
theorem fold_snoc_of_guard {events : List VerdictEvent} {event : VerdictEvent}
    (hguard : (fold events).1 = event.verdict.source) :
    fold (events ++ [event])
      = (event.verdict.target, event.reason <|> (fold events).2.1,
          event.provenance <|> (fold events).2.2) := by
  rw [fold_snoc, foldStep, if_neg (not_not.2 hguard)]

/-- A log that the fold does not skip stands at the target of its last verdict. -/
theorem fold_unskipped_snoc {events : List VerdictEvent} {event : VerdictEvent}
    (h : Unskipped (events ++ [event])) :
    (fold (events ++ [event])).1 = event.verdict.target := by
  rw [fold_snoc_of_guard (h events event (List.prefix_refl _))]

/-! ## The invariant -/

/-- The verdict log of one prey, in table order. -/
def Tables.penLog (t : Tables) (preyId : PyStr) : List VerdictEvent :=
  (t.penEvents.filter (fun r => r.preyId = preyId)).map PenRow.payload

/-- Rows are appended under increasing ids, so `ORDER BY id` is table order. -/
theorem Tables.Schema.readPenEvents {t : Tables} (h : t.Schema) (preyId : PyStr) :
    t.readPenEvents preyId = t.penLog preyId := by
  unfold Tables.readPenEvents Tables.penLog
  rw [Table.orderBy_of_sorted _ _ (h.penKey.filter _)]

/-- The row, as `fold` returns it. -/
def Prey.projection (p : Prey) : PreyStatus × Option PyStr × Option PyStr :=
  (p.status, p.reason, p.provenance)

structure PenInv (t : Tables) : Prop where
  folded : ∀ p ∈ t.prey, p.projection = fold (t.penLog p.id)
  unskipped : ∀ p ∈ t.prey, Unskipped (t.penLog p.id)
  decided : ∀ p ∈ t.prey, p.decidedAt = none ↔ p.status = .awaitingVerdict

/-- The statements that touch neither half of a verdict: everything but `submit_verdict`'s three,
    and a captured row always starts out awaiting its verdict. -/
def Stmt.Quiet : Stmt → Prop
  | updatePrey _ _ _ _ _ _ => False
  | insertPenEvent _ _ _ => False
  | insertJob _ _ _ _ _ => False
  | insertPrey _ _ _ _ status _ => status = .awaitingVerdict
  | _ => True

/-- A quiet statement leaves the verdict log alone, and the pen but for a new row. -/
theorem Stmt.Quiet.apply {s : Stmt} {t t' : Tables} {c : Cursor} (hs : s.Quiet)
    (h : s.apply t = .ok (c, t')) :
    t'.penEvents = t.penEvents ∧
      (t'.prey = t.prey ∨ ∃ p, p.id ∉ t.prey.map Prey.id ∧ p.status = .awaitingVerdict ∧
        p.decidedAt = none ∧ p.reason = none ∧ p.provenance = none ∧ t'.prey = t.prey ++ [p]) := by
  cases s with
  | updatePrey => exact hs.elim
  | insertPenEvent => exact hs.elim
  | insertJob => exact hs.elim
  | insertPrey id runId territory posting status capturedAt =>
      obtain ⟨hid, _, rfl⟩ := apply_insertPrey h
      exact ⟨rfl, Or.inr ⟨⟨id, runId, territory, posting, status, capturedAt, none, none, none⟩,
        hid, hs, rfl, rfl, rfl, rfl⟩⟩
  | insertRun id territory startedAt costCeilingUsd maxIterations =>
      obtain ⟨_, rfl⟩ := apply_insertRun h
      exact ⟨rfl, Or.inl rfl⟩
  | appendEvent runId event createdAt =>
      obtain ⟨_, _, rfl⟩ := apply_appendEvent h
      exact ⟨rfl, Or.inl rfl⟩
  | finishRun | markCrashedRuns | claimJob | completeJob | requeueRunningJobs =>
      cases h
      exact ⟨rfl, Or.inl rfl⟩

/-- A prey that is not in the pen has no verdicts. -/
theorem Tables.Schema.penLog_eq_nil {t : Tables} (h : t.Schema) {preyId : PyStr}
    (hid : preyId ∉ t.prey.map Prey.id) : t.penLog preyId = [] := by
  have hnone : t.penEvents.filter (fun r => r.preyId = preyId) = [] := by
    refine List.filter_eq_nil_iff.2 (fun r hr hm => hid ?_)
    have hmem := h.penPrey r.preyId (List.mem_map.2 ⟨r, hr, rfl⟩)
    rwa [of_decide_eq_true hm] at hmem
  unfold Tables.penLog
  rw [hnone, List.map_nil]

theorem PenInv.quiet {s : Stmt} {t t' : Tables} {c : Cursor} (h : PenInv t) (ht : t.Schema)
    (hs : s.Quiet) (happly : s.apply t = .ok (c, t')) : PenInv t' := by
  obtain ⟨hlog, hprey⟩ := hs.apply happly
  have hpen : ∀ id, t'.penLog id = t.penLog id := fun id => by rw [Tables.penLog, hlog, Tables.penLog]
  rcases hprey with hsame | ⟨p₀, hid, hstatus, hdecided, hreason, hprov, hnew⟩
  · refine ⟨?_, ?_, ?_⟩
    all_goals rw [hsame]
    · intro p hp
      rw [hpen]
      exact h.folded p hp
    · intro p hp
      rw [hpen]
      exact h.unskipped p hp
    · exact h.decided
  · have hempty : t.penLog p₀.id = [] := ht.penLog_eq_nil hid
    refine ⟨?_, ?_, ?_⟩
    all_goals rw [hnew]
    · refine forall_mem_snoc (fun p hp => ?_) ?_
      · rw [hpen]
        exact h.folded p hp
      · rw [hpen, hempty, Prey.projection, hstatus, hreason, hprov]
        rfl
    · refine forall_mem_snoc (fun p hp => ?_) ?_
      · rw [hpen]
        exact h.unskipped p hp
      · rw [hpen, hempty]
        exact unskipped_nil
    · refine forall_mem_snoc h.decided ?_
      rw [hdecided, hstatus]
      exact ⟨fun _ => rfl, fun _ => rfl⟩

/-! ## One applied verdict -/

theorem penLog_applyVerdict (t : Tables) (request : VerdictEvent) (now jobId preyId : PyStr) :
    (t.applyVerdict request now jobId).penLog preyId
      = if request.preyId = preyId then t.penLog preyId ++ [request] else t.penLog preyId := by
  simp only [Tables.penLog, Tables.applyVerdict, List.filter_append, List.map_append]
  by_cases hid : request.preyId = preyId
  · rw [if_pos hid, List.filter_cons_of_pos (by simp [hid])]
    rfl
  · rw [if_neg hid, List.filter_cons_of_neg (by simp [hid])]
    simp

/-- The rows of the pen after a verdict: the one it was for, and the others. -/
theorem mem_prey_applyVerdict {t : Tables} (ht : t.Schema) {request : VerdictEvent}
    (hacc : t.Accepts request) {now jobId : PyStr} {p' : Prey}
    (hp' : p' ∈ (t.applyVerdict request now jobId).prey) :
    (∃ p ∈ t.prey, p.id = request.preyId ∧ p.status = request.verdict.source ∧
      p' = p.decide request now) ∨ (p' ∈ t.prey ∧ p'.id ≠ request.preyId) := by
  obtain ⟨p, hp, hif⟩ := Table.mem_updateWhere.1 hp'
  by_cases hguard : p.id = request.preyId ∧ p.status = request.verdict.source
  · rw [if_pos (by simpa using hguard)] at hif
    exact Or.inl ⟨p, hp, hguard.1, hguard.2, hif.symm⟩
  · rw [if_neg (by simpa using hguard)] at hif
    subst hif
    refine Or.inr ⟨hp, fun hid => hguard ?_⟩
    -- the accepted row is the only one with this id
    obtain ⟨q, hq, hqid, hqstatus⟩ := hacc
    have hqp : some q = some p :=
      ((Table.find_key_eq_some ht.preyKey).2 ⟨hq, hqid⟩).symm.trans
        ((Table.find_key_eq_some ht.preyKey).2 ⟨hp, hid⟩)
    obtain rfl := Option.some.inj hqp
    exact ⟨hqid, hqstatus⟩

theorem Verdict.source_ne_target (v : Verdict) : v.source ≠ v.target := by
  cases v <;> decide

theorem PenInv.applyVerdict {t : Tables} (h : PenInv t) (ht : t.Schema) {request : VerdictEvent}
    (hacc : t.Accepts request) (now jobId : PyStr) :
    PenInv (t.applyVerdict request now jobId) := by
  refine ⟨fun p' hp' => ?_, fun p' hp' => ?_, fun p' hp' => ?_⟩
  all_goals rcases mem_prey_applyVerdict ht hacc hp' with ⟨p, hp, hid, hstatus, rfl⟩ | ⟨hp, hid⟩
  · have hfold := h.folded p hp
    have hguard : (fold (t.penLog p.id)).1 = request.verdict.source := by
      rw [← hfold]
      exact hstatus
    show _ = fold ((t.applyVerdict request now jobId).penLog p.id)
    rw [penLog_applyVerdict, if_pos hid.symm, fold_snoc_of_guard hguard, ← hfold]
    rfl
  · rw [penLog_applyVerdict, if_neg (Ne.symm hid)]
    exact h.folded p' hp
  · have hguard : (fold (t.penLog p.id)).1 = request.verdict.source := by
      rw [← h.folded p hp]
      exact hstatus
    show Unskipped ((t.applyVerdict request now jobId).penLog p.id)
    rw [penLog_applyVerdict, if_pos hid.symm]
    exact (h.unskipped p hp).snoc hguard
  · rw [penLog_applyVerdict, if_neg (Ne.symm hid)]
    exact h.unskipped p' hp
  · by_cases htarget : request.verdict.target = .awaitingVerdict
    · simp [Prey.decide, htarget]
    · simp [Prey.decide, htarget]
  · exact h.decided p' hp

/-! ## Every reachable state -/

/-- The operations of every coroutine but `submit_verdict`. -/
def QuietOp : Op → Prop
  | .execute s => s.Quiet
  | _ => True

theorem quietOp_controls : Controls QuietOp := ⟨trivial, trivial, fun _ _ => trivial⟩

/-- A submitted verdict leaves the committed database alone or applies the transition to it. -/
theorem submitVerdict_committed (env : Env) (db : Db) (request : VerdictEvent) :
    ((Call.submitVerdict request).run.exec (env.session db)).2.conn.committed = db ∨
      Applied request db
        ((Call.submitVerdict request).run.exec (env.session db)).2.conn.committed := by
  have hcall : Coro.Triple (Writing db db) (Call.submitVerdict request).run
      (fun _ w => w.conn.committed = db ∨ Applied request db w.conn.committed)
      (fun _ w => w.conn.committed = db ∨ Applied request db w.conn.committed) := by
    refine (submitVerdict_triple db request).bind (fun applied => Coro.Triple.pure (fun w hw => ?_))
    cases applied with
    | true => exact Or.inr hw
    | false => exact Or.inl hw.1
  exact hcall.final ⟨rfl, rfl⟩

variable {W : Type} [DecidableEq W]

/-- What quiet statements, the verdict of the step and burnt ids keep is kept by the step. -/
theorem Store.step_tables_of {P : Tables → Prop} {st st' : Store W} {a : StoreAction W}
    (hquiet : ∀ s t t' c, Stmt.Quiet s → t.Schema → P t → s.apply t = .ok (c, t') → P t')
    (hverdict : ∀ request env db', a = .call (.submitVerdict request) env →
      Applied request st.db db' → P db'.tables)
    (hburn : ∀ db n m, P db.tables → P (Db.burnIds db n m).tables)
    (h : st.step a = some st') (hP : P st.db.tables) : P st'.db.tables := by
  have hclosed : Session.Closed Stmt.exec QuietOp (OnTables P) := closed_onTables hquiet
  have hA := quietOp_controls
  have hend : ∀ {α : Type} {p : Prog α} (env : Env), Coro.Keeps (OnTables P) p →
      P (p.exec (env.session st.db)).2.conn.committed.tables :=
    fun env hp => (hp (env.session st.db) ⟨hP, hP⟩).1
  cases a with
  | call c env =>
      cases h
      cases c with
      | startRun territory costCeilingUsd maxIterations =>
          exact hend env ((startRun_keeps hclosed hA (fun _ _ => trivial)).bind
            (fun _ => Coro.Keeps.pure _))
      | hunt runId writes =>
          exact hend env (Coro.Keeps.forM
            (Write.run_keeps hclosed hA (fun _ _ => trivial) (fun _ _ _ _ => rfl)) writes)
      | finishRun runId outcome abortReason =>
          exact hend env (finishRun_keeps hclosed hA (fun _ => trivial))
      | submitVerdict request =>
          rcases submitVerdict_committed env st.db request with heq | happ
          · show P ((Call.submitVerdict request).run.exec
              (env.session st.db)).2.conn.committed.tables
            rw [heq]
            exact hP
          · exact hverdict request env _ rfl happ
  | spawn w =>
      simp only [step] at h
      split at h
      · cases h
        exact hP
      · cases h
  | poll w env =>
      simp only [step] at h
      split at h
      · cases h
        exact hend env (selectQueued_keeps hclosed hA)
      · cases h
  | claim w env =>
      simp only [step] at h
      split at h
      · cases h
        exact hend env (flipQueued_keeps hclosed hA trivial)
      · cases h
  | finish w draft env =>
      simp only [step] at h
      split at h
      · cases h
        exact hend env (completeJob_keeps hclosed hA trivial)
      · cases h
  | die w =>
      cases h
      exact hP
  | crash =>
      cases h
      exact hP
  | boot env =>
      simp only [step] at h
      split at h
      · cases h
      · cases h
        exact hend env (bootSweep_keeps hclosed hA trivial trivial)
  | burnIds n m =>
      cases h
      exact hburn st.db n m hP

/-- **The rule for the tables:** what quiet statements, applied verdicts and burnt ids keep is kept
    by every step. -/
theorem Store.step_tables {P : Tables → Prop}
    (hquiet : ∀ s t t' c, Stmt.Quiet s → t.Schema → P t → s.apply t = .ok (c, t') → P t')
    (hverdict : ∀ db db' request, P db.tables → Applied request db db' → P db'.tables)
    (hburn : ∀ db n m, P db.tables → P (Db.burnIds db n m).tables)
    {st st' : Store W} {a : StoreAction W} (h : st.step a = some st') (hP : P st.db.tables) :
    P st'.db.tables :=
  Store.step_tables_of hquiet (fun request _ _ _ => hverdict _ _ request hP) hburn h hP

theorem PenInv.applied {db db' : Db} {request : VerdictEvent} (h : PenInv db.tables)
    (happ : Applied request db db') : PenInv db'.tables := by
  obtain ⟨_, hacc, now, jobId, heq⟩ := happ
  rw [heq]
  exact h.applyVerdict db.schema hacc now jobId

theorem penInv_reachable {st : Store W} (h : (store W).Reachable st) : PenInv st.db.tables := by
  refine (store W).invariant (P := fun st => PenInv st.db.tables) ?_ ?_ st h
  · intro st h₀
    show PenInv st.db.tables
    rw [h₀.db]
    exact ⟨fun p hp => absurd hp List.not_mem_nil, fun p hp => absurd hp List.not_mem_nil,
      fun p hp => absurd hp List.not_mem_nil⟩
  · intro st a st' hinv hstep
    refine Store.step_tables (P := PenInv) ?_ ?_ ?_ hstep hinv
    · exact fun s t t' c hs ht hP happly => PenInv.quiet hP ht hs happly
    · exact fun db db' request hP happ => PenInv.applied hP happ
    · exact fun db n m hP => ⟨hP.folded, hP.unskipped, hP.decided⟩

/-- **The prey row is the fold of its verdict log.** In every state reached by any interleaving of
    verdict requests, captures and everything else around the database, under any faults: each prey
    row carries the status, reason and provenance that `fold` computes from its logged events, no
    logged event is skipped by the guard, and `decided_at` is NULL exactly while the verdict is
    awaited. -/
theorem prey_row_is_fold {st : Store W} (h : (store W).Reachable st) {p : Prey}
    (hp : p ∈ st.db.tables.prey) :
    (p.status, p.reason, p.provenance) = fold (st.db.tables.readPenEvents p.id) ∧
    Unskipped (st.db.tables.readPenEvents p.id) ∧
    (p.decidedAt = none ↔ p.status = .awaitingVerdict) := by
  have hinv := penInv_reachable h
  rw [st.db.schema.readPenEvents]
  exact ⟨hinv.folded p hp, hinv.unskipped p hp, hinv.decided p hp⟩

/-- A prey shelved with a note, taken back, and released. -/
def shelvedRun : List (StoreAction Unit) :=
  [.call (.startRun (py "x") none none) (Env.calm [py "r"]),
    .call (.hunt (py "r") [.capture (py "x") (py "job")]) (Env.calm [py "p"]),
    .call (.submitVerdict ⟨py "p", .amber, none, some (py "later")⟩) (Env.calm []),
    .call (.submitVerdict ⟨py "p", .feast, none, none⟩) (Env.calm [py "j"]),
    .call (.submitVerdict ⟨py "p", .reenter, some (py "again"), none⟩) (Env.calm []),
    .call (.submitVerdict ⟨py "p", .release, some (py "no"), none⟩) (Env.calm [])]

theorem shelvedRun_folds : ∃ st p, (store Unit).run (Store.new Unit) shelvedRun = some st ∧
    p ∈ st.db.tables.prey ∧ p.status = .released ∧ p.reason = some (py "no") ∧
    (p.status, p.reason, p.provenance) = fold (st.db.tables.readPenEvents p.id) := by
  have hrow : ((store Unit).run (Store.new Unit) shelvedRun).map (fun st => st.db.tables.prey)
      = some [⟨py "p", py "r", py "x", py "job", .released, py "t", some (py "t"), some (py "no"),
          some (py "later")⟩] := by
    decide +kernel
  obtain ⟨st, hrun, hprey⟩ := Option.map_eq_some_iff.1 hrow
  have hmem : (⟨py "p", py "r", py "x", py "job", .released, py "t", some (py "t"),
      some (py "no"), some (py "later")⟩ : Prey) ∈ st.db.tables.prey := by
    rw [hprey]
    exact List.mem_singleton_self _
  exact ⟨st, _, hrun, hmem, rfl, rfl,
    (prey_row_is_fold ⟨Store.new Unit, shelvedRun, Store.new_fresh, hrun⟩ hmem).1⟩

end RexHunter
