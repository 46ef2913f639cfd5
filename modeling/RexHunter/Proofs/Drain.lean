import RexHunter.Proofs.Jobs
import RexHunter.Proofs.Timestamps
import RexHunter.Proofs.Transactions

set_option autoImplicit false

/-! # The worker drains the queue

A worker of `run_job_worker` that nothing disturbs serves one queued job in each turn of its loop,
the oldest first (`turn_serves`), so after as many turns as there are queued jobs every one of them
is done and holds its draft (`worker_drains`). -/

namespace RexHunter

open Session (Writing)
open Coro (Triple)

/-! ## The three steps of a turn -/

section Steps

variable {db : Db} {ids : Nat → PyStr} {n : Nat}

/-- A coroutine that does not raise returns. -/
theorem exists_returned {α : Type} {P : Sess → Prop} {m : Prog α} {Q : α → Sess → Prop}
    (h : Triple P m Q (fun _ _ => False)) {s : Sess} (hs : P s) :
    ∃ a t, m.exec s = (.ok a, t) ∧ Q a t := by
  have hrun := h s hs
  cases hexec : m.exec s with
  | mk r t =>
      rw [hexec] at hrun
      cases r with
      | ok a => exact ⟨a, t, rfl, hrun⟩
      | error e => exact hrun.elim

theorem selectQueued_returns : Triple (Unmet ids n db db) selectQueued
    (fun found w => found = db.tables.oldestQueued.map (fun j => (j.id, j.preyId)) ∧
      w.conn.committed = db) (fun _ _ => False) := by
  have hquery : Triple (fun w : Sess => w.faults = [] ∧ Writing db db w) selectQueued
      (fun found w => w.faults = [] ∧
        found = db.tables.oldestQueued.map (fun j => (j.id, j.preyId)) ∧ w.conn.committed = db)
      (fun _ _ => False) := by
    unfold selectQueued select
    refine Session.await_calm (fun w hw => ?_)
    refine ⟨_, w.conn, rfl, ?_, hw.1⟩
    rw [hw.2]
  exact hquery.conseq (fun _ hw => ⟨hw.1, hw.2.1⟩) (fun _ _ hw => hw.2) (fun _ _ hw => hw)

/-- A claim of a queued job is won. -/
theorem flipQueued_returns {jobId : PyStr}
    (hqueued : ∃ j ∈ db.tables.jobs, j.id = jobId ∧ j.status = .queued) :
    Triple (Unmet ids n db db) (flipQueued jobId)
      (fun won w => won = true ∧ w.conn.committed.tables.jobs = flipped jobId db.tables.jobs)
      (fun _ _ => False) := by
  let claim : Stmt := .claimJob jobId
  obtain ⟨v, hclaim, hv⟩ := Stmt.exec_of_apply (s := claim) rfl (rfl : claim.apply db.tables = _)
  unfold flipQueued
  refine Triple.bind (execute_accepted hclaim) (fun cursor => Triple.of_and (fun hcursor => ?_))
  refine Triple.bind commit_accepted (fun _ => Triple.pure (fun w hw => ⟨?_, ?_⟩))
  · have hsplit : (fun j : Job => decide (j.id = jobId ∧ j.status = .queued))
        = fun j => decide (j.id = jobId) && decide (j.status = .queued) := by
      funext j
      exact Bool.decide_and _ _
    rw [hcursor, hsplit]
    refine decide_eq_true ((Table.countP_key_eq_one db.schema.jobsKey).2 ?_)
    simpa using hqueued
  · rw [hw.2.1.1, hv]
    rfl

theorem completeJob_returns (jobId : PyStr) {draft : PyStr} (hdraft : encodable draft = true) :
    Triple (Unmet ids n db db) (completeJob jobId draft)
      (fun _ w => w.conn.committed.tables.jobs = finished jobId draft db.tables.jobs)
      (fun _ _ => False) := by
  let complete : Stmt := .completeJob draft jobId
  have htexts : complete.texts.all encodable = true := by simp [complete, Stmt.texts, hdraft]
  obtain ⟨v, hdone, hv⟩ :=
    Stmt.exec_of_apply (s := complete) htexts (rfl : complete.apply db.tables = _)
  unfold completeJob
  refine Triple.bind (execute_accepted hdone) (fun cursor => Triple.of_and (fun _ => ?_))
  refine commit_accepted.conseq (fun _ hw => hw) (fun _ w hw => ?_) (fun _ _ hw => hw)
  rw [hw.2.1.1, hv]
  rfl

end Steps

/-! ## One turn -/

variable {W : Type} [DecidableEq W]

/-- One turn of the loop of `run_job_worker` that finds a job. -/
def workerTurn (w : W) (draft : PyStr) (env : Env) : List (StoreAction W) :=
  [.poll w env, .claim w env, .finish w draft env]

section Turn

variable {st : Store W} {w : W} {env : Env}

theorem Env.session_unmet (hcalm : env.faults = []) (db : Db) :
    Unmet env.uuid4 0 db db (env.session db) :=
  ⟨hcalm, ⟨rfl, rfl⟩, rfl, rfl⟩

theorem poll_selects {job : Job} (hcalm : env.faults = []) (hidle : st.workers w = .idle)
    (hjob : st.db.tables.oldestQueued = some job) :
    ∃ st', (store W).step st (.poll w env) = some st' ∧
      st'.workers w = .selected job.id job.preyId ∧ st'.db = st.db := by
  obtain ⟨found, s, hpoll, rfl, hdb⟩ :=
    exists_returned selectQueued_returns (Env.session_unmet hcalm st.db)
  rw [hjob, Option.map_some] at hpoll
  refine ⟨(st.close s).setWorker w (.selected job.id job.preyId), ?_,
    Store.setWorker_self _ _ _, hdb⟩
  simp only [store, Store.step, hidle, hpoll, Store.afterPoll]

theorem claim_wins {jobId preyId : PyStr} (hcalm : env.faults = [])
    (hselected : st.workers w = .selected jobId preyId)
    (hqueued : ∃ j ∈ st.db.tables.jobs, j.id = jobId ∧ j.status = .queued) :
    ∃ st', (store W).step st (.claim w env) = some st' ∧
      st'.workers w = .drafting jobId preyId ∧
      st'.db.tables.jobs = flipped jobId st.db.tables.jobs := by
  obtain ⟨won, s, hclaim, rfl, hjobs⟩ :=
    exists_returned (flipQueued_returns hqueued) (Env.session_unmet hcalm st.db)
  refine ⟨(st.close s).setWorker w (.drafting jobId preyId), ?_, Store.setWorker_self _ _ _, hjobs⟩
  simp only [store, Store.step, hselected, hclaim, Store.afterClaim]

theorem finish_completes {jobId preyId draft : PyStr} (hcalm : env.faults = [])
    (hdrafting : st.workers w = .drafting jobId preyId) (hdraft : encodable draft = true) :
    ∃ st', (store W).step st (.finish w draft env) = some st' ∧ st'.workers w = .idle ∧
      st'.db.tables.jobs = finished jobId draft st.db.tables.jobs := by
  obtain ⟨_, s, hfinish, hjobs⟩ :=
    exists_returned (completeJob_returns jobId hdraft) (Env.session_unmet hcalm st.db)
  refine ⟨(st.close s).setWorker w .idle, ?_, Store.setWorker_self _ _ _, hjobs⟩
  simp only [store, Store.step, hdrafting, hfinish, Store.afterFinish]

/-- **A turn serves the oldest queued job.** -/
theorem turn_serves {job : Job} {draft : PyStr} (hcalm : env.faults = [])
    (hidle : st.workers w = .idle) (hjob : st.db.tables.oldestQueued = some job)
    (hdraft : encodable draft = true) :
    ∃ st', (store W).run st (workerTurn w draft env) = some st' ∧ st'.workers w = .idle ∧
      st'.db.tables.jobs = finished job.id draft (flipped job.id st.db.tables.jobs) := by
  obtain ⟨st₁, hpoll, hselected, hdb₁⟩ := poll_selects hcalm hidle hjob
  have hqueued : ∃ j ∈ st₁.db.tables.jobs, j.id = job.id ∧ j.status = .queued := by
    rw [hdb₁]
    obtain ⟨⟨hmem, hstatus⟩, -⟩ := Tables.oldestQueued_eq_some hjob
    exact ⟨job, hmem, rfl, hstatus⟩
  obtain ⟨st₂, hclaim, hdrafting, hjobs₂⟩ := claim_wins hcalm hselected hqueued
  obtain ⟨st₃, hfinish, hidle₃, hjobs₃⟩ := finish_completes hcalm hdrafting hdraft
  refine ⟨st₃, ?_, hidle₃, by rw [hjobs₃, hjobs₂, hdb₁]⟩
  unfold workerTurn
  rw [(store W).run_cons, hpoll, Option.bind_some, (store W).run_cons, hclaim, Option.bind_some,
    (store W).run_cons, hfinish, Option.bind_some, (store W).run_nil]

end Turn

/-! ## The table after a turn -/

/-- The row of a job that is done. -/
def Job.drafted (job : Job) (draft : PyStr) : Job :=
  { job with status := .done, result := some draft }

/-- A turn changes the row of its job only. -/
theorem finished_flipped {l r : List Job} {job : Job} {draft : PyStr}
    (hkey : ((l ++ job :: r).map Job.id).Nodup) :
    finished job.id draft (flipped job.id (l ++ job :: r)) = l ++ job.drafted draft :: r := by
  have hid : job.id ∉ (l ++ r).map Job.id := by
    rw [List.map_append, List.map_cons, List.nodup_middle, List.nodup_cons,
      ← List.map_append] at hkey
    exact hkey.1
  have hsame : ∀ rows : List Job, rows ⊆ l ++ r →
      finished job.id draft (flipped job.id rows) = rows := by
    intro rows hrows
    have hne : ∀ j ∈ rows, j.id ≠ job.id :=
      fun j hj heq => hid (List.mem_map.2 ⟨j, hrows hj, heq⟩)
    have hflipped : flipped job.id rows = rows :=
      Table.updateWhere_of_forall_not (fun j hj => by simp [hne j hj])
    rw [hflipped]
    exact Table.updateWhere_of_forall_not (fun j hj => by simp [hne j hj])
  have happend : ∀ rows rows' : List Job, finished job.id draft (flipped job.id (rows ++ rows'))
      = finished job.id draft (flipped job.id rows)
        ++ finished job.id draft (flipped job.id rows') := by
    simp [finished, flipped, Table.updateWhere]
  have hone : finished job.id draft (flipped job.id [job]) = [job.drafted draft] := by
    unfold finished flipped Table.updateWhere Job.drafted
    by_cases hstatus : job.status = .queued <;> simp [hstatus]
  rw [← List.singleton_append, happend, happend, hsame l (List.subset_append_left l r), hone,
    hsame r (List.subset_append_right l r)]
  rfl

/-! ## Draining -/

/-- The jobs that wait. -/
def queue (jobs : List Job) : List Job := jobs.filter (fun j => j.status = .queued)

theorem mem_queue {jobs : List Job} {j : Job} : j ∈ queue jobs ↔ j ∈ jobs ∧ j.status = .queued := by
  simp [queue]

/-- A queue that is not empty has an oldest job. -/
theorem Tables.exists_oldest {t : Tables} (h : queue t.jobs ≠ []) :
    ∃ job, t.oldestQueued = some job := by
  unfold oldestQueued
  exact Option.ne_none_iff_exists'.1 (fun hnone => h (Table.pick_eq_none.1 hnone))

/-- A job that is done has left the queue. -/
theorem queue_served {l r : List Job} {job : Job} (draft : PyStr) (hstatus : job.status = .queued) :
    (queue (l ++ job :: r)).Perm (job :: queue (l ++ job.drafted draft :: r)) := by
  unfold queue
  simp only [List.filter_append, List.filter_cons, Job.drafted, hstatus, decide_true, if_true,
    decide_false, reduceCtorEq]
  exact List.perm_middle

/-- What a worker leaves behind that has served these jobs, in this order, with these drafts. -/
structure Drained (jobs jobs' served : List Job) (drafts : List PyStr) : Prop where
  oldestFirst : served.Pairwise (fun a b => ¬ b.createdAt < a.createdAt)
  all : served.Perm (queue jobs)
  drafted : List.Forall₂ (fun job draft => job.drafted draft ∈ jobs') served drafts
  kept : ∀ j ∈ jobs, j.status ≠ .queued → j ∈ jobs'
  ids : jobs'.map Job.id = jobs.map Job.id
  empty : queue jobs' = []

theorem Drained.nothing {jobs : List Job} (h : queue jobs = []) : Drained jobs jobs [] [] where
  oldestFirst := .nil
  all := by rw [h]
  drafted := .nil
  kept := fun _ hj _ => hj
  ids := rfl
  empty := h

/-- A turn, and what the rest of the turns leave behind. -/
theorem Drained.turn {l r jobs' served : List Job} {job : Job} {draft : PyStr} {drafts : List PyStr}
    (hstatus : job.status = .queued)
    (holdest : ∀ j ∈ l ++ job :: r, j.status = .queued → ¬ j.createdAt < job.createdAt)
    (h : Drained (l ++ job.drafted draft :: r) jobs' served drafts) :
    Drained (l ++ job :: r) jobs' (job :: served) (draft :: drafts) := by
  have hqueue := queue_served (l := l) (r := r) draft hstatus
  refine ⟨List.pairwise_cons.2 ⟨fun j hj => ?_, h.oldestFirst⟩, (h.all.cons job).trans hqueue.symm,
    .cons ?_ h.drafted, fun j hj hne => ?_, ?_, h.empty⟩
  · obtain ⟨hin, hqueued⟩ :=
      mem_queue.1 (hqueue.symm.subset (List.mem_cons_of_mem _ (h.all.subset hj)))
    exact holdest j hin hqueued
  · refine h.kept _ ?_ (fun hdone => by cases hdone)
    exact List.mem_append_right _ List.mem_cons_self
  · refine h.kept j ?_ hne
    rcases List.mem_append.1 hj with hl | hr
    · exact List.mem_append_left _ hl
    rcases List.mem_cons.1 hr with rfl | hr
    · exact absurd hstatus hne
    · exact List.mem_append_right _ (List.mem_cons_of_mem _ hr)
  · rw [h.ids]
    simp [Job.drafted]

/-- **A worker that nothing disturbs drains the queue.** After as many turns as there are queued
    jobs, none is queued: each has been served, the oldest first, and is done with its draft, and
    every other job is as it was. -/
theorem worker_drains {w : W} (turns : List (PyStr × Env)) : ∀ {st : Store W},
    st.workers w = .idle → (queue st.db.tables.jobs).length = turns.length →
    (∀ turn ∈ turns, encodable turn.1 = true ∧ turn.2.faults = []) →
    ∃ (st' : Store W) (served : List Job),
      (store W).run st (turns.flatMap (fun turn => workerTurn w turn.1 turn.2)) = some st' ∧
      st'.workers w = .idle ∧
      Drained st.db.tables.jobs st'.db.tables.jobs served (turns.map Prod.fst) := by
  induction turns with
  | nil =>
      intro st hidle hlength _
      exact ⟨st, [], rfl, hidle, .nothing (List.length_eq_zero_iff.1 hlength)⟩
  | cons turn turns ih =>
      intro st hidle hlength hturns
      obtain ⟨hdraft, hcalm⟩ := hturns turn List.mem_cons_self
      have hwaiting : queue st.db.tables.jobs ≠ [] := List.ne_nil_of_length_eq_add_one hlength
      obtain ⟨job, hjob⟩ := Tables.exists_oldest hwaiting
      obtain ⟨⟨hmem, hstatus⟩, holdest⟩ := Tables.oldestQueued_eq_some hjob
      obtain ⟨st₁, hrun₁, hidle₁, hjobs₁⟩ := turn_serves hcalm hidle hjob hdraft
      -- only the row of this job changes, so the other turns meet a queue that is one shorter
      obtain ⟨l, r, hsplit⟩ := List.append_of_mem hmem
      have hkey := st.db.schema.jobsKey
      rw [hsplit] at hkey hjobs₁ holdest hlength
      rw [finished_flipped hkey] at hjobs₁
      have hlength₁ : (queue st₁.db.tables.jobs).length = turns.length := by
        rw [(queue_served turn.1 hstatus).length_eq, ← hjobs₁] at hlength
        exact Nat.succ.inj hlength
      obtain ⟨st', served, hrun, hidle', hdrained⟩ :=
        ih hidle₁ hlength₁ (fun t ht => hturns t (List.mem_cons_of_mem _ ht))
      rw [hjobs₁] at hdrained
      refine ⟨st', job :: served, ?_, hidle', ?_⟩
      · rw [List.flatMap_cons, (store W).run_append, hrun₁, Option.bind_some, hrun]
      · rw [hsplit]
        exact .turn hstatus holdest hdrained

/-- Two feasts, and a worker. -/
def twoFeasts : List (StoreAction Unit) :=
  [.boot (Env.calm []), .spawn (),
    .call (.startRun (py "x") none none) (Env.calm [py "r"]),
    .call (.hunt (py "r") [.capture (py "x") (py "job"), .capture (py "x") (py "gig")])
      (Env.calm [py "p", py "q"]),
    .call (.submitVerdict ⟨py "q", .feast, none, none⟩) (Env.calm [py "k"]),
    .call (.submitVerdict ⟨py "p", .feast, none, none⟩) (Env.calm [py "j"])]

def twoDrafts : List (PyStr × Env) := [(py "one", Env.calm []), (py "two", Env.calm [])]

theorem two_feasts_drained : ∃ st st' served, (store Unit).run (Store.new Unit) twoFeasts = some st ∧
    (store Unit).run st (twoDrafts.flatMap (fun turn => workerTurn () turn.1 turn.2)) = some st' ∧
    Drained st.db.tables.jobs st'.db.tables.jobs served [py "one", py "two"] := by
  have hread : ((store Unit).run (Store.new Unit) twoFeasts).map (fun st =>
      (st.workers (), (queue st.db.tables.jobs).length)) = some (.idle, 2) := by
    decide +kernel
  obtain ⟨st, hrun, hread⟩ := Option.map_eq_some_iff.1 hread
  obtain ⟨hidle, hlength⟩ := Prod.mk.inj hread
  have hcalm : ∀ turn ∈ twoDrafts, encodable turn.1 = true ∧ turn.2.faults = [] := by
    intro turn hturn
    simp only [twoDrafts, List.mem_cons, List.not_mem_nil, or_false] at hturn
    rcases hturn with rfl | rfl
    · exact ⟨rfl, rfl⟩
    · exact ⟨rfl, rfl⟩
  obtain ⟨st', served, hdrain, -, hdrained⟩ := worker_drains twoDrafts hidle hlength hcalm
  exact ⟨st, st', served, hrun, hdrain, hdrained⟩

end RexHunter
