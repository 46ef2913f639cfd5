import RexHunter.Proofs.Pen

set_option autoImplicit false

/-! # Exactly one follow-up job for each FEAST

Four writers share the `jobs` table: the FEAST that enqueues, the guarded claim, the unguarded
completion and the boot sweep. The count of jobs follows the log through every transaction
(`CountInv`); what keeps a job with one worker, and a finished job finished, is that a worker only
completes a job it won, that a won job is running, and that the sweep runs with no worker alive
(`WorkInv`). -/

namespace RexHunter

open Session (Writing)
open Coro (Triple Keeps)

/-! ## Counting -/

/-- The jobs of one prey. -/
def Tables.jobCount (t : Tables) (preyId : PyStr) : Nat := (t.jobs.map Job.preyId).count preyId

/-- The FEAST events of a verdict log. -/
def feasts (log : List VerdictEvent) : Nat := log.countP (fun e => e.verdict = .feast)

/-- One if the status is feasted. -/
def PreyStatus.fed (s : PreyStatus) : Nat := if s = .feasted then 1 else 0

/-- **A log the fold does not skip holds one FEAST if it ends feasted, and none otherwise.** -/
theorem feasts_of_unskipped {log : List VerdictEvent} (h : Unskipped log) :
    feasts log = (fold log).1.fed := by
  induction log using List.reverseRecOn with
  | nil => rfl
  | append_singleton log event ih =>
      have hguard := h log event (List.prefix_refl _)
      have hlog : feasts log = (fold log).1.fed :=
        ih (fun b e hb => h b e (hb.trans (List.prefix_append _ _)))
      have hsource : event.verdict.source.fed = 0 := by cases event.verdict <;> rfl
      rw [hguard, hsource] at hlog
      rw [fold_unskipped_snoc h, feasts, List.countP_append, ← feasts, hlog, Nat.zero_add]
      cases hverdict : event.verdict <;> simp [hverdict, Verdict.target, Verdict.transition,
        PreyStatus.fed]

/-- Every prey has one job if it is feasted, and none otherwise. -/
def CountInv (t : Tables) : Prop := ∀ p ∈ t.prey, t.jobCount p.id = p.status.fed

/-- A quiet statement neither creates a job nor hands one to another prey. -/
theorem Stmt.Quiet.apply_jobs {s : Stmt} {t t' : Tables} {c : Cursor} (hs : s.Quiet)
    (h : s.apply t = .ok (c, t')) : t'.jobs.map Job.preyId = t.jobs.map Job.preyId := by
  cases s with
  | updatePrey => exact hs.elim
  | insertPenEvent => exact hs.elim
  | insertJob => exact hs.elim
  | insertPrey id runId territory posting status capturedAt =>
      obtain ⟨_, _, rfl⟩ := apply_insertPrey h
      rfl
  | insertRun id territory startedAt costCeilingUsd maxIterations =>
      obtain ⟨_, rfl⟩ := apply_insertRun h
      rfl
  | appendEvent runId event createdAt =>
      obtain ⟨_, _, rfl⟩ := apply_appendEvent h
      rfl
  | finishRun | markCrashedRuns =>
      cases h
      rfl
  | claimJob | completeJob | requeueRunningJobs =>
      cases h
      exact Table.map_updateWhere (fun _ => rfl)

theorem CountInv.quiet {s : Stmt} {t t' : Tables} {c : Cursor} (h : CountInv t) (ht : t.Schema)
    (hs : s.Quiet) (happly : s.apply t = .ok (c, t')) : CountInv t' := by
  have hcount : ∀ id, t'.jobCount id = t.jobCount id := fun id => by
    rw [Tables.jobCount, hs.apply_jobs happly, Tables.jobCount]
  rcases (hs.apply happly).2 with hsame | ⟨p₀, hid, hstatus, _, _, _, hnew⟩
  · intro p hp
    rw [hsame] at hp
    rw [hcount]
    exact h p hp
  · intro p hp
    rw [hnew] at hp
    rw [hcount]
    revert p
    refine forall_mem_snoc h ?_
    -- no job refers to a prey that was not there
    have hnone : t.jobCount p₀.id = 0 :=
      List.count_eq_zero.2 (fun hmem => hid (ht.jobsPrey p₀.id hmem))
    rw [hnone, hstatus]
    rfl

theorem jobCount_applyVerdict (t : Tables) (request : VerdictEvent) (now jobId preyId : PyStr) :
    (t.applyVerdict request now jobId).jobCount preyId
      = t.jobCount preyId +
          if request.verdict = .feast ∧ request.preyId = preyId then 1 else 0 := by
  unfold Tables.jobCount Tables.applyVerdict
  by_cases hfeast : request.verdict = .feast
  · by_cases hid : request.preyId = preyId
    · simp [hfeast, hid]
    · simp [hfeast, hid]
  · simp [hfeast]

theorem CountInv.applied {db db' : Db} {request : VerdictEvent} (h : CountInv db.tables)
    (happ : Applied request db db') : CountInv db'.tables := by
  obtain ⟨_, hacc, now, jobId, heq⟩ := happ
  rw [heq]
  intro p' hp'
  rw [jobCount_applyVerdict]
  rcases mem_prey_applyVerdict db.schema hacc hp' with ⟨p, hp, hid, hstatus, rfl⟩ | ⟨hp, hid⟩
  · have hcount := h p hp
    have hsource : request.verdict.source.fed = 0 := by cases request.verdict <;> rfl
    rw [hstatus, hsource] at hcount
    show db.tables.jobCount p.id + (if request.verdict = .feast ∧ request.preyId = p.id then 1
      else 0) = request.verdict.target.fed
    rw [hcount, Nat.zero_add]
    cases hverdict : request.verdict <;> simp [hid, Verdict.target, Verdict.transition,
      PreyStatus.fed]
  · rw [if_neg (fun hc => hid hc.2.symm), Nat.add_zero]
    exact h p' hp

/-! ## The moves of a job -/

/-- What one step can do to a job; only the boot sweep (`boot`) takes a running job back. -/
inductive JobMove (boot : Bool) : Job → Job → Prop where
  | same (j : Job) : JobMove boot j j
  | claim (j : Job) (h : j.status = .queued) : JobMove boot j { j with status := .running }
  | complete (j : Job) (draft : PyStr) (h : j.status = .running) :
      JobMove boot j { j with status := .done, result := some draft }
  | requeue (j : Job) (hboot : boot = true) (h : j.status = .running) :
      JobMove boot j { j with status := .queued }

/-- What one step can do to the table: every job moves, and new jobs start out queued. -/
structure JobsMove (boot : Bool) (jobs jobs' : List Job) : Prop where
  moved : ∀ j ∈ jobs, ∃ j' ∈ jobs', JobMove boot j j'
  fresh : ∀ j' ∈ jobs', (∃ j ∈ jobs, j.id = j'.id) ∨ (j'.status = .queued ∧ j'.result = none)

theorem JobMove.id {boot : Bool} {j j' : Job} (h : JobMove boot j j') : j'.id = j.id := by
  cases h <;> rfl

/-- A finished job never moves. -/
theorem JobMove.done {boot : Bool} {j j' : Job} (h : JobMove boot j j') (hj : j.status = .done) :
    j' = j := by
  cases h with
  | same => rfl
  | claim hq =>
      rw [hj] at hq
      cases hq
  | complete draft hr =>
      rw [hj] at hr
      cases hr
  | requeue _ hr =>
      rw [hj] at hr
      cases hr

theorem JobsMove.refl (boot : Bool) (jobs : List Job) : JobsMove boot jobs jobs :=
  ⟨fun j hj => ⟨j, hj, JobMove.same j⟩, fun j hj => Or.inl ⟨j, hj, rfl⟩⟩

/-- An update whose matches move. -/
theorem JobsMove.update {boot : Bool} {jobs : List Job} {p : Job → Bool} {f : Job → Job}
    (h : ∀ j ∈ jobs, p j = true → JobMove boot j (f j)) :
    JobsMove boot jobs (Table.updateWhere p f jobs) := by
  have hmove : ∀ j ∈ jobs, JobMove boot j (if p j then f j else j) := by
    intro j hj
    by_cases hp : p j = true
    · rw [if_pos hp]
      exact h j hj hp
    · rw [if_neg hp]
      exact JobMove.same j
  refine ⟨fun j hj => ⟨_, Table.mem_updateWhere.2 ⟨j, hj, rfl⟩, hmove j hj⟩, fun j' hj' => ?_⟩
  obtain ⟨j, hj, rfl⟩ := Table.mem_updateWhere.1 hj'
  exact Or.inl ⟨j, hj, (hmove j hj).id.symm⟩

theorem JobsMove.enqueue {boot : Bool} {jobs : List Job} {j : Job} (hj : j.status = .queued)
    (hresult : j.result = none) : JobsMove boot jobs (jobs ++ [j]) := by
  refine ⟨fun i hi => ⟨i, List.mem_append_left _ hi, JobMove.same i⟩, ?_⟩
  exact forall_mem_snoc (fun i hi => Or.inl ⟨i, hi, rfl⟩) (Or.inr ⟨hj, hresult⟩)

/-! ## What each coroutine does to the jobs -/

/-- The statements that leave the `jobs` table alone. -/
def Stmt.Jobless : Stmt → Prop
  | insertJob _ _ _ _ _ => False
  | claimJob _ => False
  | completeJob _ _ => False
  | requeueRunningJobs => False
  | _ => True

theorem Stmt.Jobless.apply {s : Stmt} {t t' : Tables} {c : Cursor} (hs : s.Jobless)
    (h : s.apply t = .ok (c, t')) : t'.jobs = t.jobs := by
  cases s with
  | insertJob => exact hs.elim
  | claimJob => exact hs.elim
  | completeJob => exact hs.elim
  | requeueRunningJobs => exact hs.elim
  | insertRun id territory startedAt costCeilingUsd maxIterations =>
      obtain ⟨_, rfl⟩ := apply_insertRun h
      rfl
  | appendEvent runId event createdAt =>
      obtain ⟨_, _, rfl⟩ := apply_appendEvent h
      rfl
  | insertPrey id runId territory posting status capturedAt =>
      obtain ⟨_, _, rfl⟩ := apply_insertPrey h
      rfl
  | insertPenEvent preyId event createdAt =>
      obtain ⟨_, rfl⟩ := apply_insertPenEvent h
      rfl
  | finishRun | markCrashedRuns | updatePrey =>
      cases h
      rfl

def JoblessOp : Op → Prop
  | .execute s => s.Jobless
  | _ => True

theorem joblessOp_controls : Controls JoblessOp := ⟨trivial, trivial, fun _ _ => trivial⟩

/-- A coroutine without a statement on `jobs` leaves them alone. -/
theorem jobs_committed_eq {α : Type} {p : Prog α} {env : Env} {db : Db}
    (hp : ∀ I : Sess → Prop, Session.Closed Stmt.exec JoblessOp I → Keeps I p) :
    (p.exec (env.session db)).2.conn.committed.tables.jobs = db.tables.jobs :=
  (hp (OnTables (fun t => t.jobs = db.tables.jobs))
    (closed_onTables (fun _ _ _ _ hs _ hP happly => (Stmt.Jobless.apply hs happly).trans hP))
    (env.session db) ⟨rfl, rfl⟩).1

/-- A call enqueues at most one job. -/
theorem Call.jobs (c : Call) (env : Env) (db : Db) :
    (c.run.exec (env.session db)).2.conn.committed.tables.jobs = db.tables.jobs ∨
    ∃ j : Job, j.status = .queued ∧ j.result = none ∧
      (c.run.exec (env.session db)).2.conn.committed.tables.jobs = db.tables.jobs ++ [j] := by
  have hA := joblessOp_controls
  cases c with
  | startRun territory costCeilingUsd maxIterations =>
      exact Or.inl (jobs_committed_eq (fun I h =>
        (startRun_keeps h hA (fun _ _ => trivial)).bind (fun _ => Keeps.pure _)))
  | hunt runId writes =>
      exact Or.inl (jobs_committed_eq (fun I h =>
        Keeps.forM (Write.run_keeps h hA (fun _ _ => trivial) (fun _ _ _ _ => trivial)) writes))
  | finishRun runId outcome abortReason =>
      exact Or.inl (jobs_committed_eq (fun I h => finishRun_keeps h hA (fun _ => trivial)))
  | submitVerdict request =>
      rcases submitVerdict_committed env db request with heq | ⟨_, _, now, jobId, heq⟩
      · rw [heq]
        exact Or.inl rfl
      · rw [heq]
        by_cases hfeast : request.verdict = .feast
        · exact Or.inr ⟨⟨jobId, draftPitch, request.preyId, .queued, none, now⟩, rfl, rfl,
            if_pos hfeast⟩
        · exact Or.inl (if_neg hfeast)

/-- The table after the UPDATE of `claim_job`. -/
def flipped (jobId : PyStr) (jobs : List Job) : List Job :=
  Table.updateWhere (fun j => decide (j.id = jobId ∧ j.status = .queued))
    (fun j => { j with status := .running }) jobs

/-- The table after the UPDATE of `complete_job`. -/
def finished (jobId draft : PyStr) (jobs : List Job) : List Job :=
  Table.updateWhere (fun j => decide (j.id = jobId))
    (fun j => { j with status := .done, result := some draft }) jobs

/-- **A claim is won only on a queued job, which it leaves running.** -/
theorem flipQueued_triple (db : Db) (jobId : PyStr) :
    Triple (Writing db db) (flipQueued jobId)
      (fun won w => w.conn.committed.tables.jobs = flipped jobId db.tables.jobs ∧
        (won = true → ∃ j ∈ db.tables.jobs, j.id = jobId ∧ j.status = .queued))
      (fun _ w => w.conn.committed.tables.jobs = db.tables.jobs ∨
        w.conn.committed.tables.jobs = flipped jobId db.tables.jobs) := by
  unfold flipQueued
  refine Triple.seq Session.execute_writing (fun _ w hw => ?_) (fun cursor => ?_)
  · rw [hw]
    exact Or.inl rfl
  refine Triple.of_exists (fun v => Triple.of_and (fun hclaim => ?_))
  have hv := Stmt.exec_ok hclaim
  simp only [Stmt.apply, Except.ok.injEq, Prod.mk.injEq] at hv
  obtain ⟨hcursor, hvt⟩ := hv
  have hjobs : v.tables.jobs = flipped jobId db.tables.jobs := by rw [← hvt]; rfl
  refine Triple.seq Session.commit_writing ?_ (fun _ => Triple.pure (fun w hw => ?_))
  · rintro e w (hw | hw)
    · rw [hw]
      exact Or.inl rfl
    · rw [hw]
      exact Or.inr hjobs
  · rw [hw.1]
    refine ⟨hjobs, fun hwon => ?_⟩
    have hone : cursor.rowcount = 1 := of_decide_eq_true hwon
    rw [← hcursor] at hone
    -- a rowcount of one: the UPDATE met a job of this id that was still queued
    have hpos : 0 < db.tables.jobs.countP
        (fun j => decide (j.id = jobId ∧ j.status = .queued)) := by
      show 0 < _
      rw [show db.tables.jobs.countP (fun j => decide (j.id = jobId ∧ j.status = .queued)) = 1
        from hone]
      omega
    obtain ⟨j, hj, hmatch⟩ := List.countP_pos_iff.1 hpos
    exact ⟨j, hj, of_decide_eq_true hmatch⟩

theorem completeJob_triple (db : Db) (jobId draft : PyStr) :
    Triple (Writing db db) (completeJob jobId draft)
      (fun _ w => w.conn.committed.tables.jobs = finished jobId draft db.tables.jobs)
      (fun _ w => w.conn.committed.tables.jobs = db.tables.jobs ∨
        w.conn.committed.tables.jobs = finished jobId draft db.tables.jobs) := by
  unfold completeJob
  refine Triple.seq Session.execute_writing (fun _ w hw => ?_) (fun cursor => ?_)
  · rw [hw]
    exact Or.inl rfl
  refine Triple.of_exists (fun v => Triple.of_and (fun hcomplete => ?_))
  have hv := Stmt.exec_ok hcomplete
  simp only [Stmt.apply, Except.ok.injEq, Prod.mk.injEq] at hv
  have hjobs : v.tables.jobs = finished jobId draft db.tables.jobs := by rw [← hv.2]; rfl
  refine Session.commit_writing.conseq (fun _ h => h) (fun _ w hw => ?_) ?_
  · rw [hw.1]
    exact hjobs
  · rintro e w (hw | hw)
    · rw [hw]
      exact Or.inl rfl
    · rw [hw]
      exact Or.inr hjobs

/-! ## The workers -/

variable {W : Type}

/-- The process is down only while no worker is alive; a job being drafted is running, and drafted
    by one worker. -/
structure WorkInv (st : Store W) : Prop where
  down : st.up = false → ∀ w, st.workers w = .dead
  drafting : ∀ w jobId preyId, st.workers w = .drafting jobId preyId →
    ∃ j ∈ st.db.tables.jobs, j.id = jobId ∧ j.status = .running
  exclusive : ∀ w w' jobId preyId preyId', st.workers w = .drafting jobId preyId →
    st.workers w' = .drafting jobId preyId' → w = w'

/-- A step after which no worker drafts anything new, and what is still drafted is still running. -/
theorem WorkInv.transfer {st st' : Store W} (h : WorkInv st)
    (hdown : st'.up = false → ∀ w, st'.workers w = .dead)
    (hdraft : ∀ w jobId preyId, st'.workers w = .drafting jobId preyId →
      st.workers w = .drafting jobId preyId)
    (hrunning : ∀ w jobId preyId, st'.workers w = .drafting jobId preyId →
      ∀ j ∈ st.db.tables.jobs, j.id = jobId → j.status = .running → j ∈ st'.db.tables.jobs) :
    WorkInv st' where
  down := hdown
  drafting := by
    intro w jobId preyId hw
    obtain ⟨j, hj, hid, hstatus⟩ := h.drafting w jobId preyId (hdraft w jobId preyId hw)
    exact ⟨j, hrunning w jobId preyId hw j hj hid hstatus, hid, hstatus⟩
  exclusive := fun w w' jobId preyId preyId' hw hw' =>
    h.exclusive w w' jobId preyId preyId' (hdraft _ _ _ hw) (hdraft _ _ _ hw')

/-- A claim moves queued jobs only. -/
theorem mem_flipped_of_running {jobId : PyStr} {jobs : List Job} {j : Job} (hj : j ∈ jobs)
    (hstatus : j.status = .running) : j ∈ flipped jobId jobs := by
  refine Table.mem_updateWhere.2 ⟨j, hj, if_neg ?_⟩
  simp [hstatus]

/-- A completion moves one job only. -/
theorem mem_finished_of_ne {jobId draft : PyStr} {jobs : List Job} {j : Job} (hj : j ∈ jobs)
    (hne : j.id ≠ jobId) : j ∈ finished jobId draft jobs := by
  refine Table.mem_updateWhere.2 ⟨j, hj, if_neg ?_⟩
  simp [hne]

theorem flipped_moves (boot : Bool) (jobId : PyStr) (jobs : List Job) :
    JobsMove boot jobs (flipped jobId jobs) :=
  JobsMove.update (fun j _ hmatch => JobMove.claim j (of_decide_eq_true hmatch).2)

/-- The job a worker completes is running. -/
theorem finished_moves (boot : Bool) {jobId draft : PyStr} {jobs : List Job}
    (hkey : (jobs.map Job.id).Nodup)
    (hrunning : ∃ j ∈ jobs, j.id = jobId ∧ j.status = .running) :
    JobsMove boot jobs (finished jobId draft jobs) := by
  obtain ⟨i, hi, hid, hstatus⟩ := hrunning
  refine JobsMove.update (fun j hj hmatch => ?_)
  have hij : some i = some j :=
    ((Table.find_key_eq_some hkey).2 ⟨hi, hid⟩).symm.trans
      ((Table.find_key_eq_some hkey).2 ⟨hj, of_decide_eq_true hmatch⟩)
  obtain rfl := Option.some.inj hij
  exact JobMove.complete i draft hstatus

/-! ## One step -/

/-- Whether the step is a boot sweep. -/
def StoreAction.isBoot : StoreAction W → Bool
  | .boot _ => true
  | _ => false

variable [DecidableEq W]

/-- The worker a step puts into a phase, and the others. -/
theorem Store.setWorker_cases {st : Store W} {u w : W} {phase phase' : Worker}
    (h : (st.setWorker u phase).workers w = phase') :
    w = u ∧ phase = phase' ∨ w ≠ u ∧ st.workers w = phase' := by
  by_cases hw : w = u
  · subst hw
    exact Or.inl ⟨rfl, (st.setWorker_self w phase).symm.trans h⟩
  · exact Or.inr ⟨hw, (st.setWorker_of_ne phase hw).symm.trans h⟩

/-- Setting a worker to a phase in which it drafts nothing. -/
theorem WorkInv.setIdle {st st' : Store W} (h : WorkInv st) {w : W} {phase : Worker}
    (hworkers : st'.workers = (st.setWorker w phase).workers) (hup : st'.up = st.up)
    (hphase : ∀ jobId preyId, phase ≠ .drafting jobId preyId)
    (hdown : st.up = false → phase = .dead)
    (hrunning : ∀ u jobId preyId, u ≠ w → st.workers u = .drafting jobId preyId →
      ∀ j ∈ st.db.tables.jobs, j.id = jobId → j.status = .running → j ∈ st'.db.tables.jobs) :
    WorkInv st' := by
  refine h.transfer (fun hd u => ?_) (fun u jobId preyId hu => ?_) (fun u jobId preyId hu => ?_)
  · rw [hworkers]
    rw [hup] at hd
    by_cases hu : u = w
    · subst hu
      exact (st.setWorker_self u phase).trans (hdown hd)
    · exact (st.setWorker_of_ne phase hu).trans (h.down hd u)
  · rw [hworkers] at hu
    rcases Store.setWorker_cases hu with ⟨_, heq⟩ | ⟨_, hold⟩
    · exact absurd heq (hphase jobId preyId)
    · exact hold
  · rw [hworkers] at hu
    rcases Store.setWorker_cases hu with ⟨_, heq⟩ | ⟨hne, hold⟩
    · exact absurd heq (hphase jobId preyId)
    · exact hrunning u jobId preyId hne hold

/-- The worker that won a claim is the only one drafting that job. -/
theorem WorkInv.won {st st' : Store W} (h : WorkInv st) {w : W} {jobId preyId : PyStr}
    (hworkers : st'.workers = (st.setWorker w (.drafting jobId preyId)).workers)
    (hup : st'.up = st.up) (halive : st.workers w ≠ .dead)
    (hjobs : st'.db.tables.jobs = flipped jobId st.db.tables.jobs)
    (hwon : ∃ j ∈ st.db.tables.jobs, j.id = jobId ∧ j.status = .queued) : WorkInv st' := by
  obtain ⟨i, hi, hid, hqueued⟩ := hwon
  -- nobody was drafting a queued job
  have hfree : ∀ u preyId', st.workers u ≠ .drafting jobId preyId' := by
    intro u preyId' hu
    obtain ⟨j, hj, hjid, hrunning⟩ := h.drafting u jobId preyId' hu
    have hij : some i = some j :=
      ((Table.find_key_eq_some st.db.schema.jobsKey).2 ⟨hi, hid⟩).symm.trans
        ((Table.find_key_eq_some st.db.schema.jobsKey).2 ⟨hj, hjid⟩)
    obtain rfl := Option.some.inj hij
    rw [hqueued] at hrunning
    cases hrunning
  refine ⟨fun hd => ?_, fun u j p hu => ?_, fun u u' j p p' hu hu' => ?_⟩
  · rw [hup] at hd
    exact absurd (h.down hd w) halive
  · rw [hworkers] at hu
    rw [hjobs]
    rcases Store.setWorker_cases hu with ⟨_, heq⟩ | ⟨_, hold⟩
    · cases heq
      refine ⟨{ i with status := .running }, Table.mem_updateWhere.2 ⟨i, hi, if_pos ?_⟩, hid, rfl⟩
      exact decide_eq_true ⟨hid, hqueued⟩
    · obtain ⟨k, hk, hkid, hkstatus⟩ := h.drafting u j p hold
      exact ⟨k, mem_flipped_of_running hk hkstatus, hkid, hkstatus⟩
  · rw [hworkers] at hu hu'
    rcases Store.setWorker_cases hu with ⟨hw, heq⟩ | ⟨_, hold⟩
    · rcases Store.setWorker_cases hu' with ⟨hw', _⟩ | ⟨_, hold'⟩
      · exact hw.trans hw'.symm
      · cases heq
        exact absurd hold' (hfree u' p')
    · rcases Store.setWorker_cases hu' with ⟨_, heq'⟩ | ⟨_, hold'⟩
      · cases heq'
        exact absurd hold (hfree u p)
      · exact h.exclusive u u' j p p' hold hold'

/-- The table after the UPDATE of `requeue_running_jobs`. -/
def requeued (jobs : List Job) : List Job :=
  Table.updateWhere (fun j => decide (j.status = .running))
    (fun j => { j with status := .queued }) jobs

theorem requeued_requeued (jobs : List Job) : requeued (requeued jobs) = requeued jobs := by
  refine Table.updateWhere_of_forall_not (fun j hj => ?_)
  obtain ⟨i, _, rfl⟩ := Table.mem_updateWhere.1 hj
  by_cases hi : i.status = .running
  · simp [hi]
  · simp [hi]

/-- The two statements of the boot sweep. -/
def SweepOp : Op → Prop
  | .execute s => s = .markCrashedRuns ∨ s = .requeueRunningJobs
  | _ => True

/-- The boot sweep only takes running jobs back. -/
theorem bootSweep_jobs (env : Env) (db : Db) :
    (bootSweep.exec (env.session db)).2.conn.committed.tables.jobs = db.tables.jobs ∨
      (bootSweep.exec (env.session db)).2.conn.committed.tables.jobs = requeued db.tables.jobs := by
  let P : Tables → Prop := fun t => t.jobs = db.tables.jobs ∨ t.jobs = requeued db.tables.jobs
  have hclosed : Session.Closed Stmt.exec SweepOp (OnTables P) := by
    refine closed_onTables (fun s t t' c hs _ hP happly => ?_)
    rcases hs with rfl | rfl
    · cases happly
      exact hP
    · cases happly
      rcases hP with hsame | hdone
      · exact Or.inr (congr_arg requeued hsame)
      · exact Or.inr ((congr_arg requeued hdone).trans (requeued_requeued _))
  have hsweep : Keeps (OnTables P) bootSweep :=
    bootSweep_keeps hclosed ⟨trivial, trivial, fun _ _ => trivial⟩ (Or.inl rfl) (Or.inr rfl)
  exact (hsweep (env.session db) ⟨Or.inl rfl, Or.inl rfl⟩).1

/-- The UPDATE of `claim_job` on a connection of its own. -/
theorem flipQueued_jobs (env : Env) (db : Db) (jobId : PyStr) :
    (((flipQueued jobId).exec (env.session db)).2.conn.committed.tables.jobs = db.tables.jobs ∨
      ((flipQueued jobId).exec (env.session db)).2.conn.committed.tables.jobs
        = flipped jobId db.tables.jobs) ∧
    (((flipQueued jobId).exec (env.session db)).1 = .ok true →
      ((flipQueued jobId).exec (env.session db)).2.conn.committed.tables.jobs
        = flipped jobId db.tables.jobs ∧
      ∃ j ∈ db.tables.jobs, j.id = jobId ∧ j.status = .queued) := by
  have hpost := flipQueued_triple db jobId (env.session db) ⟨rfl, rfl⟩
  revert hpost
  rcases (flipQueued jobId).exec (env.session db) with ⟨r, s⟩
  intro hpost
  cases r with
  | error e => exact ⟨hpost, fun hwon => (nomatch hwon)⟩
  | ok won =>
      refine ⟨Or.inr hpost.1, fun hwon => ?_⟩
      cases hwon
      exact ⟨hpost.1, hpost.2 rfl⟩

/-- The UPDATE of `complete_job` on a connection of its own. -/
theorem completeJob_jobs (env : Env) (db : Db) (jobId draft : PyStr) :
    ((completeJob jobId draft).exec (env.session db)).2.conn.committed.tables.jobs
        = db.tables.jobs ∨
      ((completeJob jobId draft).exec (env.session db)).2.conn.committed.tables.jobs
        = finished jobId draft db.tables.jobs := by
  have hpost := completeJob_triple db jobId draft (env.session db) ⟨rfl, rfl⟩
  revert hpost
  rcases (completeJob jobId draft).exec (env.session db) with ⟨r, s⟩
  intro hpost
  cases r with
  | error e => exact hpost
  | ok won => exact Or.inr hpost

namespace Store

variable {st st' : Store W}

theorem afterPoll_ne_drafting (r : Except (Exn PyExc) (Option (PyStr × PyStr)))
    (jobId preyId : PyStr) : afterPoll r ≠ .drafting jobId preyId := by
  cases r with
  | error e => simp [afterPoll]
  | ok found =>
      cases found with
      | none => simp [afterPoll]
      | some found => simp [afterPoll]

theorem afterClaim_ne_drafting {jobId preyId : PyStr} {r : Except (Exn PyExc) Bool}
    (hwon : r ≠ .ok true) (jobId' preyId' : PyStr) :
    afterClaim jobId preyId r ≠ .drafting jobId' preyId' := by
  cases r with
  | error e => simp [afterClaim]
  | ok won =>
      cases won with
      | false => simp [afterClaim]
      | true => exact absurd rfl hwon

theorem afterFinish_ne_drafting (r : Except (Exn PyExc) PUnit) (jobId preyId : PyStr) :
    afterFinish r ≠ .drafting jobId preyId := by
  cases r <;> simp [afterFinish]

/-- A call adds a job at the most. -/
theorem call_jobs {c : Call} {env : Env} (h : WorkInv st)
    (hstep : st.step (.call c env) = some st') :
    WorkInv st' ∧ JobsMove false st.db.tables.jobs st'.db.tables.jobs := by
  cases hstep
  have hmoves : JobsMove false st.db.tables.jobs
        (c.run.exec (env.session st.db)).2.conn.committed.tables.jobs ∧
      ∀ j ∈ st.db.tables.jobs,
        j ∈ (c.run.exec (env.session st.db)).2.conn.committed.tables.jobs := by
    rcases c.jobs env st.db with heq | ⟨j, hqueued, hresult, heq⟩
    · rw [heq]
      exact ⟨JobsMove.refl _ _, fun j hj => hj⟩
    · rw [heq]
      exact ⟨JobsMove.enqueue hqueued hresult, fun j hj => List.mem_append_left _ hj⟩
  exact ⟨h.transfer h.down (fun _ _ _ hw => hw) (fun _ _ _ _ j hj _ _ => hmoves.2 j hj), hmoves.1⟩

theorem spawn_jobs {w : W} (h : WorkInv st) (hstep : st.step (.spawn w) = some st') :
    WorkInv st' ∧ JobsMove false st.db.tables.jobs st'.db.tables.jobs := by
  simp only [step] at hstep
  split at hstep
  · next hc =>
      cases hstep
      refine ⟨h.setIdle rfl rfl (by simp) (fun hd => ?_) (fun _ _ _ _ _ j hj _ _ => hj),
        JobsMove.refl _ _⟩
      exact absurd hc.1 (by rw [hd]; decide)
  · cases hstep

theorem poll_jobs {w : W} {env : Env} (h : WorkInv st)
    (hstep : st.step (.poll w env) = some st') :
    WorkInv st' ∧ JobsMove false st.db.tables.jobs st'.db.tables.jobs := by
  simp only [step] at hstep
  split at hstep
  · next hidle =>
      cases hstep
      have hjobs : (selectQueued.exec (env.session st.db)).2.conn.committed.tables.jobs
          = st.db.tables.jobs :=
        jobs_committed_eq (fun I hI => selectQueued_keeps hI joblessOp_controls)
      refine ⟨h.setIdle rfl rfl (afterPoll_ne_drafting _) (fun hd => ?_)
        (fun u jobId preyId _ _ j hj _ _ => ?_), ?_⟩
      · exact absurd (h.down hd w) (by simp [hidle])
      · show j ∈ (selectQueued.exec (env.session st.db)).2.conn.committed.tables.jobs
        rw [hjobs]
        exact hj
      · show JobsMove _ _ (selectQueued.exec (env.session st.db)).2.conn.committed.tables.jobs
        rw [hjobs]
        exact JobsMove.refl _ _
  · cases hstep

theorem claim_jobs {w : W} {env : Env} (h : WorkInv st)
    (hstep : st.step (.claim w env) = some st') :
    WorkInv st' ∧ JobsMove false st.db.tables.jobs st'.db.tables.jobs := by
  simp only [step] at hstep
  split at hstep
  · next jobId preyId hselected =>
      cases hstep
      have halive : st.workers w ≠ .dead := by
        simp [hselected]
      obtain ⟨hcases, hwins⟩ := flipQueued_jobs env st.db jobId
      revert hcases hwins
      rcases (flipQueued jobId).exec (env.session st.db) with ⟨r, s⟩
      intro hcases hwins
      have hmoves : JobsMove false st.db.tables.jobs s.conn.committed.tables.jobs ∧
          ∀ j ∈ st.db.tables.jobs, j.status = .running → j ∈ s.conn.committed.tables.jobs := by
        rcases hcases with heq | heq
        · rw [heq]
          exact ⟨JobsMove.refl _ _, fun j hj _ => hj⟩
        · rw [heq]
          exact ⟨flipped_moves _ _ _, fun j hj hr => mem_flipped_of_running hj hr⟩
      refine ⟨?_, hmoves.1⟩
      by_cases hwon : r = .ok true
      · obtain ⟨hflipped, hqueued⟩ := hwins hwon
        subst hwon
        exact h.won rfl rfl halive hflipped hqueued
      · exact h.setIdle rfl rfl (afterClaim_ne_drafting hwon)
          (fun hd => absurd (h.down hd w) halive) (fun u _ _ _ _ j hj _ hr => hmoves.2 j hj hr)
  · cases hstep

theorem finish_jobs {w : W} {draft : PyStr} {env : Env} (h : WorkInv st)
    (hstep : st.step (.finish w draft env) = some st') :
    WorkInv st' ∧ JobsMove false st.db.tables.jobs st'.db.tables.jobs := by
  simp only [step] at hstep
  split at hstep
  · next jobId preyId hdrafting =>
      cases hstep
      have hcases := completeJob_jobs env st.db jobId draft
      revert hcases
      rcases (completeJob jobId draft).exec (env.session st.db) with ⟨r, s⟩
      intro hcases
      refine ⟨h.setIdle rfl rfl (afterFinish_ne_drafting r) (fun hd => ?_)
        (fun u jobId' preyId' hu hdraft j hj hid _ => ?_), ?_⟩
      · exact absurd (h.down hd w) (by simp [hdrafting])
      · -- another worker drafts another job
        have hne : j.id ≠ jobId := by
          intro hsame
          rw [← hid, hsame] at hdraft
          exact hu (h.exclusive u w jobId preyId' preyId hdraft hdrafting)
        show j ∈ s.conn.committed.tables.jobs
        rcases hcases with heq | heq
        · rw [heq]
          exact hj
        · rw [heq]
          exact mem_finished_of_ne hj hne
      · show JobsMove _ _ s.conn.committed.tables.jobs
        rcases hcases with heq | heq
        · rw [heq]
          exact JobsMove.refl _ _
        · rw [heq]
          exact finished_moves _ st.db.schema.jobsKey (h.drafting w jobId preyId hdrafting)
  · cases hstep

theorem crash_jobs (hstep : st.step .crash = some st') :
    WorkInv st' ∧ JobsMove false st.db.tables.jobs st'.db.tables.jobs := by
  cases hstep
  refine ⟨⟨fun _ _ => rfl, fun w jobId preyId hw => ?_, fun w w' jobId preyId preyId' hw => ?_⟩,
    JobsMove.refl _ _⟩
  · cases hw
  · cases hw

/-- Nobody works when the process boots. -/
theorem boot_jobs {env : Env} (h : WorkInv st) (hstep : st.step (.boot env) = some st') :
    WorkInv st' ∧ JobsMove true st.db.tables.jobs st'.db.tables.jobs := by
  simp only [step] at hstep
  split at hstep
  · cases hstep
  · next hup =>
      cases hstep
      have hdead : ∀ w, st.workers w = .dead := h.down (by simpa using hup)
      refine ⟨⟨fun _ => hdead, fun w jobId preyId hw => ?_, fun w w' jobId preyId preyId' hw => ?_⟩,
        ?_⟩
      · exact absurd ((hdead w).symm.trans hw) (by simp)
      · exact absurd ((hdead w).symm.trans hw) (by simp)
      · show JobsMove true _ (bootSweep.exec (env.session st.db)).2.conn.committed.tables.jobs
        rcases bootSweep_jobs env st.db with heq | heq
        · rw [heq]
          exact JobsMove.refl _ _
        · rw [heq]
          exact JobsMove.update (fun j _ hmatch =>
            JobMove.requeue j rfl (of_decide_eq_true hmatch))

/-- **What a step does to the jobs and the workers.** -/
theorem step_jobs {a : StoreAction W} (h : WorkInv st) (hstep : st.step a = some st') :
    WorkInv st' ∧ JobsMove a.isBoot st.db.tables.jobs st'.db.tables.jobs := by
  cases a with
  | call c env => exact call_jobs h hstep
  | spawn w => exact spawn_jobs h hstep
  | poll w env => exact poll_jobs h hstep
  | claim w env => exact claim_jobs h hstep
  | finish w draft env => exact finish_jobs h hstep
  | die w =>
      cases hstep
      exact ⟨h.setIdle rfl rfl (by simp) (fun _ => rfl)
        (fun _ _ _ _ _ j hj _ _ => hj), JobsMove.refl _ _⟩
  | crash => exact crash_jobs hstep
  | boot env => exact boot_jobs h hstep
  | burnIds n m =>
      cases hstep
      exact ⟨⟨h.down, h.drafting, h.exclusive⟩, JobsMove.refl _ _⟩

end Store

/-! ## Every reachable state -/

theorem workInv_reachable {st : Store W} (h : (store W).Reachable st) : WorkInv st := by
  refine (store W).invariant (P := WorkInv) ?_ ?_ st h
  · intro st h₀
    refine ⟨fun _ => h₀.workers, fun w jobId preyId hw => ?_, fun w w' jobId preyId preyId' hw => ?_⟩
    · exact absurd ((h₀.workers w).symm.trans hw) nofun
    · exact absurd ((h₀.workers w).symm.trans hw) nofun
  · exact fun st a st' hinv hstep => (Store.step_jobs hinv hstep).1

theorem countInv_reachable {st : Store W} (h : (store W).Reachable st) :
    CountInv st.db.tables := by
  refine (store W).invariant (P := fun st => CountInv st.db.tables) ?_ ?_ st h
  · intro st h₀ p hp
    rw [h₀.db] at hp
    exact absurd hp List.not_mem_nil
  · intro st a st' hinv hstep
    refine Store.step_tables (P := CountInv) ?_ ?_ ?_ hstep hinv
    · exact fun s t t' c hs ht hP happly => CountInv.quiet hP ht hs happly
    · exact fun db db' request hP happ => CountInv.applied hP happ
    · exact fun db n m hP => hP

/-- A finished job is found unchanged after every later run. -/
theorem done_forever {st : Store W} (h : (store W).Reachable st) {j : Job}
    (hj : j ∈ st.db.tables.jobs) (hdone : j.status = .done) :
    ∀ later st', (store W).run st later = some st' → j ∈ st'.db.tables.jobs := by
  have hrun : ∀ later st', (store W).run st later = some st' →
      WorkInv st' ∧ j ∈ st'.db.tables.jobs := by
    refine (store W).run_induction ⟨workInv_reachable h, hj⟩ ?_
    intro later t a u _ ⟨hinv, hmem⟩ hstep
    obtain ⟨hinv', hmoves⟩ := Store.step_jobs hinv hstep
    obtain ⟨j', hj', hmove⟩ := hmoves.moved j hmem
    rw [hmove.done hdone] at hj'
    exact ⟨hinv', hj'⟩
  exact fun later st' hst' => (hrun later st' hst').2

/-- **Exactly one follow-up job per FEAST, across races and restarts.** In every reachable state:
    every prey has as many jobs as FEAST events in its log, namely one if it is feasted and none
    otherwise; no two workers hold the same job; a step moves a job only from queued to running to
    done, or back from running to queued in a boot sweep, and new jobs start out queued; and a job
    that is done is never changed by any later run. -/
theorem one_job_per_feast {st : Store W} (h : (store W).Reachable st) :
    (∀ p ∈ st.db.tables.prey,
      st.db.tables.jobCount p.id = feasts (st.db.tables.readPenEvents p.id) ∧
      feasts (st.db.tables.readPenEvents p.id) = if p.status = .feasted then 1 else 0) ∧
    (∀ w w' jobId preyId preyId', st.workers w = .drafting jobId preyId →
      st.workers w' = .drafting jobId preyId' → w = w') ∧
    (∀ a st', (store W).step st a = some st' →
      JobsMove a.isBoot st.db.tables.jobs st'.db.tables.jobs) ∧
    (∀ later st' j, (store W).run st later = some st' → j ∈ st.db.tables.jobs →
      j.status = .done → j ∈ st'.db.tables.jobs) := by
  have hpen := penInv_reachable h
  have hcount := countInv_reachable h
  have hwork := workInv_reachable h
  refine ⟨fun p hp => ?_, hwork.exclusive, fun a st' hstep => (Store.step_jobs hwork hstep).2,
    fun later st' j hrun hj hdone => done_forever h hj hdone later st' hrun⟩
  have hfed : feasts (st.db.tables.penLog p.id) = p.status.fed := by
    rw [feasts_of_unskipped (hpen.unskipped p hp), ← hpen.folded p hp]
    rfl
  rw [st.db.schema.readPenEvents, hcount p hp, hfed]
  exact ⟨rfl, rfl⟩

/-- A feast delivered twice, two workers racing for the job, a crash in the middle of the draft. -/
def feastRun : List (StoreAction Bool) :=
  [.boot (Env.calm []), .spawn true, .spawn false,
    .call (.startRun (py "x") none none) (Env.calm [py "r"]),
    .call (.hunt (py "r") [.capture (py "x") (py "job")]) (Env.calm [py "p"]),
    .call (.submitVerdict ⟨py "p", .feast, none, none⟩) (Env.calm [py "j"]),
    .call (.submitVerdict ⟨py "p", .feast, none, none⟩) (Env.calm [py "k"]),
    .poll true (Env.calm []), .poll false (Env.calm []),
    .claim true (Env.calm []), .claim false (Env.calm []),
    .crash, .boot (Env.calm []), .spawn true,
    .poll true (Env.calm []), .claim true (Env.calm []), .finish true (py "draft") (Env.calm [])]

theorem feastRun_one_job : ∃ st p, (store Bool).run (Store.new Bool) feastRun = some st ∧
    p ∈ st.db.tables.prey ∧ p.status = .feasted ∧ st.db.tables.jobCount p.id = 1 := by
  have hrow : ((store Bool).run (Store.new Bool) feastRun).map (fun st => st.db.tables.prey)
      = some [⟨py "p", py "r", py "x", py "job", .feasted, py "t", some (py "t"), none, none⟩] := by
    decide +kernel
  obtain ⟨st, hrun, hprey⟩ := Option.map_eq_some_iff.1 hrow
  have hmem : (⟨py "p", py "r", py "x", py "job", .feasted, py "t", some (py "t"), none, none⟩ :
      Prey) ∈ st.db.tables.prey := by
    rw [hprey]
    exact List.mem_singleton_self _
  obtain ⟨hjobs, hfeasts⟩ :=
    (one_job_per_feast ⟨Store.new Bool, feastRun, Store.new_fresh, hrun⟩).1 _ hmem
  exact ⟨st, _, hrun, hmem, rfl, hjobs.trans hfeasts⟩

end RexHunter
