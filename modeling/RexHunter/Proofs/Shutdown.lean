import RexHunter.Proofs.Capture
import RexHunter.Proofs.Store

set_option autoImplicit false

/-! # How a run is closed

`run_hunt` closes its run in two places: the shielded clean-up after a cancellation inside the `try`,
and the closing write everybody else reaches. A cancellation that lands in `start_run` after its
commit, in a handler, or in the closing write before its commit, meets neither. The file follows a
run through the frames of `run_hunt` and keeps apart, at every point, the runs that are still on
their way (`Running`) from those whose row stays open (`Lost`). -/

namespace RexHunter

open Session (Closed)
open Coro (Keeps Triple)

/-! ## Rows of `runs` -/

/-- The run has an open row. -/
def HasOpen (runId : PyStr) (t : Tables) : Prop :=
  ∃ row ∈ t.runs, row.id = runId ∧ row.outcome = none

/-- The run has a row with this outcome. -/
def HasOutcome (runId : PyStr) (outcome : RunOutcome) (abortReason : Option PyStr) (t : Tables) :
    Prop :=
  ∃ row ∈ t.runs, row.id = runId ∧ row.outcome = some outcome ∧ row.abortReason = abortReason

/-- The operations that close no run. -/
def Unclosing : Op → Prop
  | .execute (.finishRun ..) => False
  | .execute .markCrashedRuns => False
  | _ => True

theorem unclosing_controls : Controls Unclosing := ⟨trivial, trivial, fun _ _ => trivial⟩

/-- Rows are inserted into `runs`, and closed there; nothing else happens to the table. -/
theorem mem_runs_of_apply {s : Stmt} {t t' : Tables} {c : Cursor} (hs : Unclosing (.execute s))
    (h : s.apply t = .ok (c, t')) {row : Run} (hrow : row ∈ t.runs) : row ∈ t'.runs := by
  cases s with
  | finishRun => exact hs.elim
  | markCrashedRuns => exact hs.elim
  | insertRun id territory startedAt costCeilingUsd maxIterations =>
      obtain ⟨_, rfl⟩ := Stmt.apply_insertRun h
      exact List.mem_append_left _ hrow
  | appendEvent runId event createdAt =>
      obtain ⟨_, _, rfl⟩ := Stmt.apply_appendEvent h
      exact hrow
  | insertPrey id runId territory posting status capturedAt =>
      obtain ⟨_, _, rfl⟩ := Stmt.apply_insertPrey h
      exact hrow
  | insertPenEvent preyId event createdAt =>
      obtain ⟨_, rfl⟩ := Stmt.apply_insertPenEvent h
      exact hrow
  | insertJob id kind preyId status createdAt =>
      obtain ⟨_, _, rfl⟩ := Stmt.apply_insertJob h
      exact hrow
  | updatePrey | claimJob | completeJob | requeueRunningJobs =>
      cases h
      exact hrow

/-- A row that is not open is not among those an UPDATE of open rows meets. -/
theorem mem_updateWhere_of_not {l : List Run} {p : Run → Bool} {f : Run → Run} {row : Run}
    (hrow : row ∈ l) (hp : p row = false) : row ∈ Table.updateWhere p f l :=
  Table.mem_updateWhere.2 ⟨row, hrow, by rw [hp]; rfl⟩

/-- **A closed row is never written again.** -/
theorem closed_row_stays {s : Stmt} {t t' : Tables} {c : Cursor} (h : s.apply t = .ok (c, t'))
    {row : Run} (hclosed : row.outcome ≠ none) (hrow : row ∈ t.runs) : row ∈ t'.runs := by
  cases s with
  | finishRun endedAt outcome abortReason id =>
      cases h
      exact mem_updateWhere_of_not hrow (decide_eq_false (fun hopen => hclosed hopen.2))
  | markCrashedRuns =>
      cases h
      exact mem_updateWhere_of_not hrow (decide_eq_false hclosed)
  | insertRun | appendEvent | insertPrey | updatePrey | insertPenEvent | insertJob | claimJob
  | completeJob | requeueRunningJobs => exact mem_runs_of_apply (by trivial) h hrow

theorem HasOpen.apply {runId : PyStr} {s : Stmt} {t t' : Tables} {c : Cursor}
    (hs : Unclosing (.execute s)) (h : HasOpen runId t) (happly : s.apply t = .ok (c, t')) :
    HasOpen runId t' := by
  obtain ⟨row, hrow, hopen⟩ := h
  exact ⟨row, mem_runs_of_apply hs happly hrow, hopen⟩

/-- The UPDATE of `finish_run` closes the open row. -/
theorem HasOpen.finish {runId now : PyStr} {outcome : RunOutcome} {abortReason : Option PyStr}
    {t t' : Tables} {c : Cursor} (h : HasOpen runId t)
    (happly : (Stmt.finishRun now outcome abortReason runId).apply t = .ok (c, t')) :
    HasOutcome runId outcome abortReason t' := by
  obtain ⟨row, hrow, hopen⟩ := h
  cases happly
  refine ⟨_, Table.mem_updateWhere.2 ⟨row, hrow, if_pos (decide_eq_true hopen)⟩, hopen.1, rfl, rfl⟩

/-! ## The steps that must not be disturbed -/

/-- A step after which the run still gets closed. Inside the `try` anything may happen; the clean-up
    is shielded, so only an error ends it; the commit of the closing write may be cancelled as long
    as it executes. -/
def Undisturbed (st : Step Frame Op) : Prop :=
  match st.frame with
  | .driving => True
  | .cleaning => ∀ rolledBack, st.fate ≠ .raised rolledBack
  | .closing => st.fate = .done ∨ (st.op = .commit ∧ st.fate = .cancelled true)
  | _ => st.fate = .done

instance : DecidablePred Undisturbed := by
  intro st
  unfold Undisturbed
  split <;> infer_instance

/-- No step so far was disturbed. -/
def Smooth (w : Sess) : Prop := ∀ st ∈ w.trace, Undisturbed st

theorem Smooth.snoc {w t : Sess} {st : Step Frame Op} (h : Smooth w)
    (htrace : t.trace = w.trace ++ [st]) (hst : Undisturbed st) : Smooth t := by
  unfold Smooth
  rw [htrace]
  exact forall_mem_snoc h hst

theorem not_smooth {w t : Sess} {st : Step Frame Op} (htrace : t.trace = w.trace ++ [st])
    (hst : ¬ Undisturbed st) : ¬ Smooth t := by
  intro h
  refine hst (h st ?_)
  rw [htrace]
  exact List.mem_append_right _ (List.mem_singleton_self st)

/-- The run is on its way: its row is open, in the committed database and in the transaction. -/
def Running (runId : PyStr) (w : Sess) : Prop := Smooth w ∧ OnTables (HasOpen runId) w

/-- Something went wrong, and the committed row is open. -/
def Lost (runId : PyStr) (w : Sess) : Prop := ¬ Smooth w ∧ HasOpen runId w.conn.committed.tables

/-- Nothing went wrong, and the committed row has the outcome the run reached. -/
def Finished (runId : PyStr) (w : Sess) : Prop :=
  Smooth w ∧ ∃ outcome abortReason, w.vars.reached = some (outcome, abortReason) ∧
    HasOutcome runId outcome abortReason w.conn.committed.tables

/-- The commit of `start_run` has not taken effect. -/
def Unstarted (w : Sess) : Prop :=
  ∀ st ∈ w.trace, ¬ (st.frame = .starting ∧ st.op = .commit ∧ st.fate.effective = true)

/-- How a run of `run_hunt` can end. -/
def Settled (runId : PyStr) (w : Sess) : Prop := Unstarted w ∨ Lost runId w ∨ Finished runId w

/-! ## Inside the `try` -/

/-- The loop is running. -/
def Driven (runId : PyStr) (w : Sess) : Prop := w.frame = .driving ∧ Running runId w

theorem driven_closed (runId : PyStr) : Closed Stmt.exec Unclosing (Driven runId) where
  step := by
    rintro w op fate hop ⟨hframe, hsmooth, hopen⟩ hpossible
    have htables : Closed Stmt.exec Unclosing (OnTables (HasOpen runId)) :=
      closed_onTables (fun _ _ _ _ hs _ h happly => h.apply hs happly)
    refine ⟨hframe, hsmooth.snoc rfl ?_, htables.step w op fate hop hopen hpossible⟩
    unfold Undisturbed
    rw [hframe]
    trivial
  noted := by
    rintro w x passed - ⟨hframe, hsmooth, hopen⟩
    refine ⟨hframe, hsmooth.snoc rfl ?_, hopen⟩
    unfold Undisturbed
    rw [hframe]
    trivial
  vars := fun _ _ hw => hw

theorem drive_triple [PyRuntime] (hunt : Hunt) (runId : PyStr) :
    Triple (Running runId) (Session.inFrame .driving (drive hunt runId)) (fun _ => Running runId)
      (fun _ => Running runId) := by
  have h := driven_closed runId
  have hcapture : ∀ posting, Keeps (Driven runId)
      (capturePrey runId hunt.territory posting hunt.publish) :=
    fun posting => capturePrey_keeps h unclosing_controls (fun _ _ => trivial)
      (fun _ _ => trivial)
  have hdrive : Keeps (Driven runId) (drive hunt runId) :=
    driveFor_keeps h unclosing_controls trivial (fun _ => trivial) (fun _ _ _ => trivial)
      hcapture _
  refine Session.inFrame_triple (fun _ _ hw => hw) (fun _ _ _ hw => hw) (fun _ _ _ hw => hw) ?_
  exact hdrive.triple.conseq (fun _ hw => hw) (fun _ _ hw => hw.2) (fun _ _ hw => hw.2)

/-! ## `start_run` -/

/-- The next `uuid4` is the run's id, and nothing has happened yet. -/
def Fresh (runId : PyStr) (w : Sess) : Prop :=
  w.trace = [] ∧ w.vars.uuid4 w.vars.uuids = runId

theorem startRun_triple (runId territory : PyStr) (costCeilingUsd : Option ℚ)
    (maxIterations : Option Int) :
    Triple (fun w => w.frame = .starting ∧ Fresh runId w)
      (startRun territory costCeilingUsd maxIterations)
      (fun id w => id = runId ∧ Running runId w) (fun _ w => Unstarted w ∨ Lost runId w) := by
  have hid : Triple (fun w => w.frame = .starting ∧ Fresh runId w) uuid4
      (fun id w => id = runId ∧ w.frame = .starting ∧ w.trace = [])
      (fun _ w => Unstarted w ∨ Lost runId w) :=
    fun w ⟨hframe, htrace, huuid⟩ => ⟨huuid, hframe, htrace⟩
  refine hid.bind (fun id => Triple.of_and (fun hidrun => ?_))
  subst hidrun
  refine Triple.bind (Q := fun _ w => w.frame = .starting ∧ w.trace = [])
    (Session.useVars_triple (fun _ _ hw => hw)) (fun now => ?_)
  refine Triple.bind (Q := fun _ w => w.frame = .starting ∧ Smooth w ∧ Unstarted w ∧
    HasOpen id w.conn.view.tables) ?_ (fun _ => ?_)
  · -- the INSERT: nothing is committed yet, whatever becomes of it
    have hunstarted : ∀ (w : Sess) s fate conn, w.trace = [] →
        Unstarted (w.landed (.execute s) fate conn) := by
      intro w s fate conn htrace st hst hstart
      simp only [Session.landed, htrace, List.nil_append, List.mem_singleton] at hst
      rw [hst] at hstart
      exact absurd hstart.2.1 (by simp)
    refine Session.await_triple ?_ ?_
    · rintro w c conn ⟨hframe, htrace⟩ hact
      obtain ⟨d, hd, rfl⟩ := Session.execute_ok hact
      obtain ⟨_, hd'⟩ := Stmt.apply_insertRun (Stmt.exec_ok hd)
      refine ⟨hframe, ?_, hunstarted w _ _ _ htrace, ?_⟩
      · refine Smooth.snoc (w := w) (by simp [Smooth, htrace]) rfl ?_
        simp only [Undisturbed, hframe]
      · show HasOpen id d.tables
        rw [hd']
        exact ⟨_, List.mem_append_right _ (List.mem_singleton_self _), rfl, rfl⟩
    · rintro w e fate conn ⟨hframe, htrace⟩ _ _
      exact Or.inl (hunstarted w _ _ _ htrace)
  · refine Triple.bind (Q := fun _ => Running id) ?_ (fun _ => Triple.pure (fun _ hw => ⟨rfl, hw⟩))
    have hnoted : ∀ (w : Sess) fate conn, Unstarted w → fate.effective = false →
        Unstarted (w.landed .commit fate conn) := by
      intro w fate conn hw hfate st hst hstart
      rcases List.mem_append.1 hst with hold | hnew
      · exact hw st hold hstart
      · rw [List.mem_singleton.1 hnew] at hstart
        exact absurd hstart.2.2 (by simp [hfate])
    refine Session.await_triple ?_ ?_
    · rintro w c conn ⟨hframe, hsmooth, _, hview⟩ hact
      cases hact
      exact ⟨hsmooth.snoc rfl (by simp only [Undisturbed, hframe]), hview, hview⟩
    · rintro w e fate conn ⟨hframe, hsmooth, hunstarted, hview⟩ hfate hland
      cases hland with
      | done => exact absurd rfl hfate
      | raised => exact Or.inl (hnoted w _ _ hunstarted rfl)
      | rolledBack => exact Or.inl (hnoted w _ _ hunstarted rfl)
      | skipped => exact Or.inl (hnoted w _ _ hunstarted rfl)
      | executed c conn hact =>
          cases hact
          exact Or.inr ⟨not_smooth rfl (by simp [Undisturbed, hframe]), hview⟩

/-! ## The handlers -/

theorem handler_triple (hunt : Hunt) (runId : PyStr) (event : TrajectoryEvent) :
    Triple (fun w => w.frame = .handling ∧ Running runId w) (append hunt runId event)
      (fun _ => Running runId) (fun _ => Lost runId) := by
  have hdisturbed : ∀ op fate, fate ≠ .done → ¬ Undisturbed ⟨.handling, op, fate⟩ :=
    fun _ _ hfate h => hfate h
  refine Triple.bind (Q := fun _ => Running runId) ?_ (fun _ => Triple.pure (fun _ hw => hw))
  refine Triple.bind (Q := fun _ w => w.frame = .handling ∧ Running runId w) ?_ (fun _ => ?_)
  · rintro w ⟨hframe, hsmooth, hopen⟩
    cases event.dumpable with
    | true => exact ⟨hframe, hsmooth.snoc rfl (by simp [Undisturbed, hframe]), hopen⟩
    | false =>
        refine ⟨not_smooth (w := w) rfl ?_, hopen.1⟩
        rw [hframe]
        exact hdisturbed _ _ nofun
  refine Triple.bind (Q := fun _ w => w.frame = .handling ∧ Running runId w)
    (Session.useVars_triple (fun _ _ hw => hw)) (fun now => ?_)
  refine Triple.bind (Q := fun cursor w => cursor.lastrowid ≠ none ∧ w.frame = .handling ∧
    Running runId w) ?_ (fun cursor => Triple.of_and (fun hrowid => ?_))
  · refine Session.await_triple ?_ ?_
    · rintro w c conn ⟨hframe, hsmooth, hopen⟩ hact
      obtain ⟨d, hd, rfl⟩ := Session.execute_ok hact
      have happly := Stmt.exec_ok hd
      obtain ⟨_, hc, _⟩ := Stmt.apply_appendEvent happly
      refine ⟨by rw [hc]; nofun, hframe, hsmooth.snoc rfl (by simp only [Undisturbed, hframe]), ?_⟩
      exact ⟨hopen.1, hopen.2.apply (by trivial) happly⟩
    · rintro w e fate conn ⟨hframe, hsmooth, hopen⟩ hfate hland
      refine ⟨not_smooth rfl (by rw [hframe]; exact hdisturbed _ _ hfate), ?_⟩
      cases hland with
      | done => exact absurd rfl hfate
      | raised => exact hopen.1
      | rolledBack => exact hopen.1
      | skipped => exact hopen.1
      | executed c conn hact =>
          obtain ⟨d, _, rfl⟩ := Session.execute_ok hact
          exact hopen.1
  refine Triple.bind (Q := fun _ => Running runId) ?_ (fun _ => ?_)
  · refine Session.await_triple ?_ ?_
    · rintro w c conn ⟨hframe, hsmooth, hopen⟩ hact
      cases hact
      exact ⟨hsmooth.snoc rfl (by simp only [Undisturbed, hframe]), hopen.2, hopen.2⟩
    · rintro w e fate conn ⟨hframe, hsmooth, hopen⟩ hfate hland
      refine ⟨not_smooth rfl (by rw [hframe]; exact hdisturbed _ _ hfate), ?_⟩
      cases hland with
      | done => exact absurd rfl hfate
      | raised => exact hopen.1
      | rolledBack => exact hopen.1
      | skipped => exact hopen.1
      | executed c conn hact =>
          cases hact
          exact hopen.2
  · cases hc : cursor.lastrowid with
    | none => exact absurd hc hrowid
    | some eventId =>
        exact Triple.bind (Session.useVars_triple (fun _ _ hw => hw))
          (fun _ => Triple.pure (fun _ hw => hw))

/-! ## The write that closes the run -/

/-- The outcome is known and the run not closed yet. -/
def Reached (runId : PyStr) (outcome : RunOutcome) (abortReason : Option PyStr) (w : Sess) : Prop :=
  Running runId w ∧ w.vars.reached = some (outcome, abortReason)

/-- The frame the closing write runs in. -/
def ClosingFrame (w : Sess) : Prop := w.frame = .closing ∨ (w.frame = .cleaning ∧ w.shielded = true)

theorem ClosingFrame.done {w : Sess} (h : ClosingFrame w) (op : Op) :
    Undisturbed ⟨w.frame, op, .done⟩ := by
  rcases h with hframe | ⟨hframe, _⟩
  · simp [Undisturbed, hframe]
  · simp [Undisturbed, hframe]

/-- A failed step of the closing write is a disturbance, but for a commit that executes. -/
theorem ClosingFrame.failed {w : Sess} (h : ClosingFrame w) (op : Op) {fate : Fate}
    (hfate : fate ≠ .done) (hshield : w.shielded = true → ∀ ex, fate ≠ .cancelled ex) :
    ¬ Undisturbed ⟨w.frame, op, fate⟩ ∨
      (op = .commit ∧ fate = .cancelled true ∧ Undisturbed ⟨w.frame, op, fate⟩) := by
  rcases h with hframe | ⟨hframe, hs⟩
  · by_cases hcommit : op = .commit ∧ fate = .cancelled true
    · refine Or.inr ⟨hcommit.1, hcommit.2, ?_⟩
      rw [hframe]
      exact Or.inr hcommit
    · refine Or.inl ?_
      rw [hframe]
      rintro (hdone | hc)
      · exact hfate hdone
      · exact hcommit hc
  · refine Or.inl ?_
    rw [hframe]
    intro hraised
    cases fate with
    | done => exact hfate rfl
    | raised rolledBack => exact hraised rolledBack rfl
    | cancelled executed => exact hshield hs executed rfl

theorem finishRun_triple (runId : PyStr) (outcome : RunOutcome) (abortReason : Option PyStr) :
    Triple (fun w => ClosingFrame w ∧ Reached runId outcome abortReason w)
      (finishRun runId outcome abortReason)
      (fun _ => Finished runId) (fun _ w => Lost runId w ∨ Finished runId w) := by
  refine Triple.bind (Q := fun _ w => ClosingFrame w ∧ Reached runId outcome abortReason w)
    (fun w hw => hw) (fun now => ?_)
  refine Triple.bind (Q := fun _ w => ClosingFrame w ∧ Smooth w ∧
    w.vars.reached = some (outcome, abortReason) ∧ HasOpen runId w.conn.committed.tables ∧
    HasOutcome runId outcome abortReason w.conn.view.tables) ?_ (fun _ => ?_)
  · refine Session.await_triple_shielded ?_ ?_
    · rintro w c conn ⟨hframe, ⟨hsmooth, hopen⟩, hreached⟩ hact
      obtain ⟨d, hd, rfl⟩ := Session.execute_ok hact
      refine ⟨hframe, hsmooth.snoc rfl (hframe.done _), hreached, hopen.1, ?_⟩
      exact hopen.2.finish (Stmt.exec_ok hd)
    · rintro w e fate conn ⟨hframe, ⟨hsmooth, hopen⟩, hreached⟩ hfate hshield hland
      have hdisturbed : ¬ Undisturbed ⟨w.frame, .execute (.finishRun now outcome abortReason runId),
          fate⟩ := by
        rcases hframe.failed _ hfate hshield with h | ⟨hcommit, _⟩
        · exact h
        · exact absurd hcommit nofun
      refine Or.inl ⟨not_smooth rfl hdisturbed, ?_⟩
      cases hland with
      | done => exact absurd rfl hfate
      | raised => exact hopen.1
      | rolledBack => exact hopen.1
      | skipped => exact hopen.1
      | executed c conn hact =>
          obtain ⟨d, _, rfl⟩ := Session.execute_ok hact
          exact hopen.1
  · refine Session.await_triple_shielded ?_ ?_
    · rintro w c conn ⟨hframe, hsmooth, hreached, _, hview⟩ hact
      cases hact
      exact ⟨hsmooth.snoc rfl (hframe.done _), outcome, abortReason, hreached, hview⟩
    · rintro w e fate conn ⟨hframe, hsmooth, hreached, hcommitted, hview⟩ hfate hshield hland
      rcases hframe.failed .commit hfate hshield with hdisturbed | ⟨_, rfl, hok⟩
      · refine Or.inl ⟨not_smooth rfl hdisturbed, ?_⟩
        cases hland with
        | done => exact absurd rfl hfate
        | raised => exact hcommitted
        | rolledBack => exact hcommitted
        | skipped => exact hcommitted
        | executed c conn hact =>
            -- a commit that executes disturbs nothing, so this case is the other one
            rcases hframe with hclosing | ⟨_, hs⟩
            · exact absurd (by rw [hclosing]; exact Or.inr ⟨rfl, rfl⟩) hdisturbed
            · exact absurd rfl (hshield hs true)
      · cases hland with
        | executed c conn hact =>
            cases hact
            exact Or.inr ⟨hsmooth.snoc rfl hok, outcome, abortReason, hreached, hview⟩

/-! ## The whole hunt -/

/-- `run_hunt` from `start_run` on. -/
theorem runHunt_settled [PyRuntime] (hunt : Hunt) (runId : PyStr) :
    Triple (Fresh runId) (runHunt hunt) (fun _ => Finished runId) (fun _ => Settled runId) := by
  have hlost : ∀ (e : Exn PyExc) w, Lost runId w → Settled runId w := fun _ _ hw => Or.inr (Or.inl hw)
  have hend : ∀ (e : Exn PyExc) w, Lost runId w ∨ Finished runId w → Settled runId w :=
    fun _ _ hw => Or.inr hw
  have hclose : ∀ outcome abortReason, Triple (Reached runId outcome abortReason)
      (Session.inFrame .closing (finishRun runId outcome abortReason)) (fun _ => Finished runId)
      (fun _ => Settled runId) := by
    intro outcome abortReason
    refine Session.inFrame_triple (fun _ _ hw => hw) (fun _ _ _ hw => hw) (fun _ _ _ hw => hw) ?_
    exact (finishRun_triple runId outcome abortReason).conseq
      (fun w hw => ⟨Or.inl hw.1, hw.2⟩) (fun _ _ hw => hw) hend
  have hstart : Triple (Fresh runId) (Session.inFrame .starting (startRun hunt.territory
      (some hunt.costCeilingUsd) (some hunt.maxIterations)))
      (fun id w => id = runId ∧ Running runId w) (fun _ => Settled runId) := by
    refine Session.inFrame_triple (fun _ _ hw => hw) (fun _ _ _ hw => hw) (fun _ _ _ hw => hw) ?_
    exact (startRun_triple runId _ _ _).conseq (fun _ hw => hw) (fun _ _ hw => hw)
      (fun _ w hw => hw.elim Or.inl (fun h => Or.inr (Or.inl h)))
  refine hstart.bind (fun id => Triple.of_and (fun hid => ?_))
  subst hid
  refine (drive_triple hunt id).observe.bind (fun r => ?_)
  refine Triple.bind (Q := fun result => Reached id result.1 result.2) ?_ (fun result => ?_)
  · cases r with
    | ok result => exact fun w hw => ⟨hw, rfl⟩
    | error e =>
        cases e with
        | cancelled =>
            refine Triple.bind (Q := fun _ => Reached id .aborted (some (py "daemon shutdown")))
              (fun w hw => ⟨hw, rfl⟩) (fun _ => ?_)
            refine Triple.bind (Q := fun _ => Finished id) ?_
              (fun _ => Triple.throw (fun _ hw => Or.inr (Or.inr hw)))
            refine Session.inFrame_triple (fun _ _ hw => hw) (fun _ _ _ hw => hw)
              (fun _ _ _ hw => hw) ?_
            refine Session.shield_triple (fun _ _ hw => hw) (fun _ _ _ hw => hw)
              (fun _ _ _ hw => hw) ?_
            exact (finishRun_triple id _ _).conseq
              (fun w hw => ⟨Or.inr ⟨hw.2.1, hw.1⟩, hw.2.2⟩) (fun _ _ hw => hw) hend
        | raised exc =>
            refine Triple.bind (Q := fun _ => Running id) ?_ (fun _ => fun w hw => ⟨hw, rfl⟩)
            refine Session.inFrame_triple (fun _ _ hw => hw) (fun _ _ _ hw => hw)
              (fun _ _ _ hw => hw) ?_
            exact (handler_triple hunt id _).conseq (fun _ hw => hw) (fun _ _ hw => hw) hlost
  · refine (hclose result.1 result.2).bind (fun _ => ?_)
    refine Triple.bind (Q := fun _ => Finished id) ?_ (fun _ => Triple.pure (fun _ hw => hw))
    intro w hw
    show Finished id { w with vars := _ }
    unfold Finished
    split
    · exact hw
    · exact hw

/-- The run is closed for good: its row has an outcome, the one the run reached if it reached one,
    and no boot sweep touches the row. -/
def Shut (runId : PyStr) (w : Sess) : Prop :=
  ∃ row ∈ w.conn.committed.tables.runs, row.id = runId ∧ row.outcome ≠ none ∧
    (∀ outcome abortReason, w.vars.reached = some (outcome, abortReason) →
      row.outcome = some outcome ∧ row.abortReason = abortReason) ∧
    ∀ env : Env, row ∈ (bootSweep.exec (env.session w.conn.committed)).2.conn.committed.tables.runs

theorem Finished.shut {runId : PyStr} {w : Sess} (h : Finished runId w) : Shut runId w := by
  obtain ⟨_, outcome, abortReason, hreached, row, hrow, hid, houtcome, hreason⟩ := h
  have hclosed : row.outcome ≠ none := by
    rw [houtcome]
    exact nofun
  refine ⟨row, hrow, hid, hclosed, ?_, fun env => ?_⟩
  · intro o r hor
    rw [hreached] at hor
    cases hor
    exact ⟨houtcome, hreason⟩
  · have hstays : Closed Stmt.exec (fun _ => True) (OnTables (fun t => row ∈ t.runs)) :=
      closed_onTables (fun _ _ _ _ _ _ hr happly => closed_row_stays happly hclosed hr)
    exact (bootSweep_keeps hstays Controls.any trivial trivial (env.session w.conn.committed)
      ⟨hrow, hrow⟩).1

theorem Lost.not_shut {runId : PyStr} {w : Sess} (h : Lost runId w) : ¬ Shut runId w := by
  obtain ⟨_, row, hrow, hid, hopen⟩ := h
  rintro ⟨row', hrow', hid', houtcome, _⟩
  have hsame : some row = some row' :=
    ((Table.find_key_eq_some w.conn.committed.schema.runsKey).2 ⟨hrow, hid⟩).symm.trans
      ((Table.find_key_eq_some w.conn.committed.schema.runsKey).2 ⟨hrow', hid'⟩)
  obtain rfl := Option.some.inj hsame
  exact houtcome hopen

/-- **Graceful shutdown.** Once the commit of `start_run` has taken effect, the run of `run_hunt` is
    closed for good exactly when no step outside the `try` was disturbed: whatever cancellations and
    errors arrive inside the `try`, and whatever cancellations arrive in the shielded clean-up, the
    run is closed with the outcome it reached. -/
theorem shut_iff_undisturbed [PyRuntime] (hunt : Hunt) (env : Env) (db : Db)
    (hstarted : ∃ st ∈ ((runHunt hunt).exec (env.session db)).2.trace,
      st.frame = .starting ∧ st.op = .commit ∧ st.fate.effective = true) :
    Shut (env.uuid4 0) ((runHunt hunt).exec (env.session db)).2 ↔
      ∀ st ∈ ((runHunt hunt).exec (env.session db)).2.trace, Undisturbed st := by
  have hsettled : Settled (env.uuid4 0) ((runHunt hunt).exec (env.session db)).2 := by
    refine Triple.final (P := Fresh (env.uuid4 0)) ?_ ⟨rfl, rfl⟩
    exact (runHunt_settled hunt (env.uuid4 0)).conseq (fun _ hw => hw)
      (fun _ _ hw => Or.inr (Or.inr hw)) (fun _ _ hw => hw)
  rcases hsettled with hunstarted | hlost | hfinished
  · obtain ⟨st, hst, hstart⟩ := hstarted
    exact absurd hstart (hunstarted st hst)
  · exact ⟨fun hshut => absurd hshut hlost.not_shut, fun hsmooth => absurd hsmooth hlost.1⟩
  · exact ⟨fun _ => hfinished.1, fun _ => hfinished.shut⟩

/-- The hunt with one catch, cancelled at the UPDATE of the closing write. -/
def cancelledClosing : Sess :=
  ((@runHunt .ascii oneCatch).exec ({ Env.calm [py "r", py "p"] with
    faults := [.none, .none, .none, .none, .none, .none, .cancel false] }.session Db.empty)).2

/-- The run has reached `completed`, stays open, and is `crashed` after the next boot. -/
theorem cancelled_closing_leaves_run_open :
    (∃ st ∈ cancelledClosing.trace,
      st.frame = .starting ∧ st.op = .commit ∧ st.fate.effective = true) ∧
    cancelledClosing.vars.reached = some (.completed, none) ∧
    ¬ Shut (py "r") cancelledClosing ∧
    (bootSweep.exec ((Env.calm []).session
      cancelledClosing.conn.committed)).2.conn.committed.tables.runs.map Run.outcome
        = [some .crashed] := by
  have hopen : ∀ row ∈ cancelledClosing.conn.committed.tables.runs, row.outcome = none := by
    decide +kernel
  refine ⟨by decide +kernel, by decide +kernel, ?_, by decide +kernel⟩
  rintro ⟨row, hrow, _, houtcome, _⟩
  exact houtcome (hopen row hrow)

/-- A cancellation inside the `try` and two more in the clean-up. -/
theorem cancelled_thrice_is_shut :
    Shut (py "r") ((@runHunt .ascii oneCatch).exec ({ Env.calm [py "r", py "p"] with
      faults := [.none, .none, .cancel true, .cancel false, .cancel false] }.session
        Db.empty)).2 :=
  (@shut_iff_undisturbed .ascii oneCatch _ Db.empty (by decide +kernel)).2 (by decide +kernel)

end RexHunter
