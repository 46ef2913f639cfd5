import RexHunter.Implementation.Store
import RexHunter.Proofs.Programs

set_option autoImplicit false

/-! # What one step does to the database

A connection that is closed leaves exactly the statements it committed. Every step of the system is
such a connection or leaves the tables alone (`Store.step_db`), so an invariant of the tables that
each statement keeps by itself holds in every reachable state; the invariants that only whole
transactions keep are the subject of the later files. -/

namespace RexHunter

open Session (Closed Replays execAll durable)
open Coro (Keeps)

/-! ## Closing a connection -/

/-- **A closed connection leaves the statements it committed, run in order.** -/
theorem closed_execAll {α : Type} {p : Prog α} {db : Db} (env : Env)
    (hp : Keeps (Replays Stmt.exec db) p) :
    execAll Stmt.exec (durable (p.exec (env.session db)).2.trace) db
      = some (p.exec (env.session db)).2.conn.committed :=
  (hp (env.session db) ⟨rfl, rfl⟩).1

theorem Write.run_keeps {A : Op → Prop} {I : Sess → Prop} (h : Closed Stmt.exec A I)
    (hA : Controls A) {runId : PyStr}
    (hs : ∀ event now, A (.execute (.appendEvent runId event now)))
    (hs' : ∀ preyId territory posting now,
      A (.execute (.insertPrey preyId runId territory posting .awaitingVerdict now)))
    (write : Write) : Keeps I (write.run runId) := by
  refine Keeps.tryCatch ?_ (fun _ => Keeps.pure _)
  cases write with
  | append event => exact (appendEvent_keeps h hA (hs event)).bind (fun _ => Keeps.pure _)
  | capture territory posting =>
      exact (capturePrey_keeps h hA (fun e => hs (.preyCaptured e))
        (fun preyId => hs' preyId territory posting)).bind
        (fun _ => Keeps.pure _)

theorem Call.run_keeps {I : Sess → Prop} (h : Closed Stmt.exec (fun _ => True) I) (c : Call) :
    Keeps I c.run := by
  have hA := Controls.any
  cases c with
  | startRun territory costCeilingUsd maxIterations =>
      exact (startRun_keeps h hA (fun _ _ => trivial)).bind (fun _ => Keeps.pure _)
  | hunt runId writes =>
      exact Keeps.forM (Write.run_keeps h hA (fun _ _ => trivial) (fun _ _ _ _ => trivial)) writes
  | finishRun runId outcome abortReason => exact finishRun_keeps h hA (fun _ => trivial)
  | submitVerdict request =>
      exact (submitVerdict_keeps h hA (fun _ => trivial)).bind (fun _ => Keeps.pure _)

theorem bootSweep_keeps {A : Op → Prop} {I : Sess → Prop} (h : Closed Stmt.exec A I)
    (hA : Controls A) (hcrashed : A (.execute .markCrashedRuns))
    (hrequeue : A (.execute .requeueRunningJobs)) : Keeps I bootSweep := by
  refine (markCrashedRuns_keeps h hA hcrashed).bind (fun _ => ?_)
  exact (requeueRunningJobs_keeps h hA hrequeue).bind (fun _ => Keeps.pure _)

/-! ## One step -/

variable {W : Type} [DecidableEq W]

theorem Store.setWorker_self (st : Store W) (w : W) (phase : Worker) :
    (st.setWorker w phase).workers w = phase :=
  Function.update_self _ _ _

theorem Store.setWorker_of_ne (st : Store W) {u w : W} (phase : Worker) (h : u ≠ w) :
    (st.setWorker w phase).workers u = st.workers u :=
  Function.update_of_ne h _ _

/-- **What a step does to the database:** it runs the statements it adds to the history, or it burns
    ids. -/
theorem Store.step_db {st st' : Store W} {a : StoreAction W} (h : st.step a = some st') :
    (∃ ss, execAll Stmt.exec ss st.db = some st'.db ∧ st'.history = st.history ++ ss) ∨
    ∃ n m, st'.db = st.db.burnIds n m ∧ st'.history = st.history := by
  have hA := Controls.any
  have hreplays : Closed Stmt.exec (fun _ => True) (Replays Stmt.exec st.db : Sess → Prop) :=
    Session.replays_closed st.db
  have still : ∀ u : Store W, u.db = st.db → u.history = st.history →
      ∃ ss, execAll Stmt.exec ss st.db = some u.db ∧ u.history = st.history ++ ss := by
    intro u hdb hhist
    refine ⟨[], ?_, ?_⟩
    · rw [hdb]
      rfl
    · rw [hhist, List.append_nil]
  cases a with
  | call c env =>
      cases h
      exact Or.inl ⟨_, closed_execAll env (c.run_keeps hreplays), rfl⟩
  | spawn w =>
      simp only [step] at h
      split at h
      · cases h
        exact Or.inl (still _ rfl rfl)
      · cases h
  | poll w env =>
      simp only [step] at h
      split at h
      · cases h
        exact Or.inl ⟨_, closed_execAll env (selectQueued_keeps hreplays hA), rfl⟩
      · cases h
  | claim w env =>
      simp only [step] at h
      split at h
      · next jobId preyId _ =>
          cases h
          have hflip : Keeps _ (flipQueued jobId) := flipQueued_keeps hreplays hA trivial
          exact Or.inl ⟨_, closed_execAll env hflip, rfl⟩
      · cases h
  | finish w draft env =>
      simp only [step] at h
      split at h
      · next jobId preyId _ =>
          cases h
          have hdone : Keeps _ (completeJob jobId draft) := completeJob_keeps hreplays hA trivial
          exact Or.inl ⟨_, closed_execAll env hdone, rfl⟩
      · cases h
  | die w =>
      cases h
      exact Or.inl (still _ rfl rfl)
  | crash =>
      cases h
      exact Or.inl (still _ rfl rfl)
  | boot env =>
      simp only [step] at h
      split at h
      · cases h
      · cases h
        exact Or.inl ⟨_, closed_execAll env (bootSweep_keeps hreplays hA trivial trivial), rfl⟩
  | burnIds n m =>
      cases h
      exact Or.inr ⟨n, m, rfl, rfl⟩

/-- What each of the statements keeps is kept by all of them. -/
theorem execAll_tables {P : Tables → Prop} {S : Stmt → Prop}
    (h : ∀ (s : Stmt) (t t' : Tables) (c : Cursor), S s → t.Schema → P t →
      s.apply t = .ok (c, t') → P t') {ss : List Stmt} : ∀ {db db' : Db}, (∀ s ∈ ss, S s) →
    execAll Stmt.exec ss db = some db' → P db.tables → P db'.tables := by
  induction ss with
  | nil =>
      intro db db' _ hss hdb
      cases hss
      exact hdb
  | cons s ss ih =>
      intro db db' hS hss hdb
      simp only [execAll] at hss
      cases hs : s.exec db with
      | error e =>
          rw [hs] at hss
          cases hss
      | ok r =>
          rw [hs] at hss
          exact ih (fun s' hs' => hS s' (List.mem_cons_of_mem _ hs')) hss
            (h s _ _ _ (hS s List.mem_cons_self) db.schema hdb (Stmt.exec_ok hs))

/-- **The rule for the tables:** what every statement and every gap in the ids keep is kept by every
    run. -/
theorem tables_run {P : Tables → Prop}
    (h : ∀ (s : Stmt) (t t' : Tables) (c : Cursor), t.Schema → P t → s.apply t = .ok (c, t') →
      P t')
    (hburn : ∀ (db : Db) n m, P db.tables → P (db.burnIds n m).tables) {st st' : Store W}
    {as : List (StoreAction W)} (hrun : (store W).run st as = some st') (h0 : P st.db.tables) :
    P st'.db.tables := by
  refine (store W).run_induction (motive := fun _ st => P st.db.tables) h0 ?_ as st' hrun
  intro _ st a st' _ hP hstep
  rcases Store.step_db hstep with ⟨ss, hexec, _⟩ | ⟨n, m, hdb, _⟩
  · exact execAll_tables (S := fun _ => True) (fun s t t' c _ => h s t t' c)
      (fun _ _ => trivial) hexec hP
  · rw [hdb]
    exact hburn _ n m hP

/-- What holds of the empty database, and is kept, holds in every reachable state. -/
theorem tables_reachable {P : Tables → Prop} (hempty : P Db.empty.tables)
    (h : ∀ (s : Stmt) (t t' : Tables) (c : Cursor), t.Schema → P t → s.apply t = .ok (c, t') →
      P t')
    (hburn : ∀ (db : Db) n m, P db.tables → P (db.burnIds n m).tables) {st : Store W}
    (hst : (store W).Reachable st) : P st.db.tables := by
  obtain ⟨st₀, as, hfresh, hrun⟩ := hst
  refine tables_run h hburn hrun ?_
  rw [hfresh.db]
  exact hempty

end RexHunter
