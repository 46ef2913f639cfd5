import RexHunter.Implementation.Store
import RexHunter.Proofs.Submit

set_option autoImplicit false

/-! # What a transaction commits

A write of a hunt, a verdict and a closure, each on a connection that no fault meets. Either the
database is as it was and nobody hears of it, or it has the new row and the hook has got its id; a
verdict and a closure leave the log of events alone. -/

namespace RexHunter

open Session (Writing)
open Coro (Triple)

/-! ## Sessions that no fault meets -/

/-- An await on a session that no fault meets does what the operation does, or raises what it
    raises. -/
theorem await_unfaulted {α : Type} {P : Sess → Prop} {Q : α → Sess → Prop}
    {R : Exn PyExc → Sess → Prop} {op : Op} {act : Conn Db → Except PyExc (α × Conn Db)}
    (hok : ∀ w a c, P w → act w.conn = .ok (a, c) → Q a (w.landed op .done c))
    (herr : ∀ w e, P w → R e (w.landed op (.raised false) w.conn)) :
    Triple (fun w => w.faults = [] ∧ P w) (Session.await op act)
      (fun a w => w.faults = [] ∧ Q a w) R := by
  rintro w ⟨hcalm, hw⟩
  unfold Session.await Session.nextFault
  simp only [Coro.exec_ofExec, hcalm]
  cases hact : act w.conn with
  | error e => exact herr w _ hw
  | ok r => exact ⟨by simp [Session.landed, hcalm], hok w _ _ hw hact⟩

/-- The session has committed `d` and sees `v`, and has handed nothing to the hooks. -/
def Unbroadcast (d v : Db) (w : Sess) : Prop := Writing d v w ∧ w.vars.published = []

/-- A way out that leaves the database as it was. -/
def Unheard (d : Db) (w : Sess) : Prop := w.conn.committed = d ∧ w.vars.published = []

section Calm

variable {d v : Db}

/-- No fault meets the session. -/
def Unfaulted (d v : Db) (w : Sess) : Prop := w.faults = [] ∧ Unbroadcast d v w

theorem Unfaulted.unheard {w : Sess} (h : Unfaulted d v w) : Unheard d w := ⟨h.2.1.1, h.2.2⟩

theorem execute_calm (s : Stmt) :
    Triple (Unfaulted d v) (execute s) (fun a w => ∃ v', s.exec v = .ok (a, v') ∧ Unfaulted d v' w)
      (fun _ w => Unheard d w) := by
  refine (await_unfaulted (P := Unbroadcast d v)
    (Q := fun a w => ∃ v', s.exec v = .ok (a, v') ∧ Unbroadcast d v' w) (fun w a c hw hact => ?_)
    (fun w _ hw => ⟨hw.1.1, hw.2⟩)).conseq (fun _ h => h) ?_ (fun _ _ h => h)
  · obtain ⟨⟨hd, hv⟩, hpub⟩ := hw
    obtain ⟨v', hexec, rfl⟩ := Session.execute_ok hact
    rw [hv] at hexec
    exact ⟨v', hexec, ⟨hd, rfl⟩, hpub⟩
  · rintro a w ⟨hcalm, v', hexec, hw⟩
    exact ⟨v', hexec, hcalm, hw⟩

theorem commit_calm {R : Exn PyExc → Sess → Prop} :
    Triple (Unfaulted d v) commit (fun _ => Unfaulted v v) R :=
  Session.await_calm (fun w hw => ⟨⟨⟩, w.conn.commit, rfl, ⟨⟨hw.1.2, hw.1.2⟩, hw.2⟩⟩)

theorem rollback_calm {R : Exn PyExc → Sess → Prop} :
    Triple (Unfaulted d v) rollback (fun _ => Unfaulted d d) R :=
  Session.await_calm (fun w hw => ⟨⟨⟩, w.conn.rollback, rfl, ⟨⟨hw.1.1, hw.1.1⟩, hw.2⟩⟩)

theorem attempt_calm {α : Type} {op : Op} {r : Except PyExc α} :
    Triple (Unfaulted d v) (Session.attempt op r) (fun _ => Unfaulted d v)
      (fun _ w => Unheard d w) := by
  intro w hw
  unfold Session.attempt
  cases r with
  | ok a => exact hw
  | error e => exact hw.unheard

/-- Drawing an id or a time. -/
theorem uuid4_calm {R : Exn PyExc → Sess → Prop} :
    Triple (Unfaulted d v) uuid4 (fun _ => Unfaulted d v) R := fun _ hw => hw

theorem utcnow_calm {R : Exn PyExc → Sess → Prop} :
    Triple (Unfaulted d v) utcnow (fun _ => Unfaulted d v) R := fun _ hw => hw

/-! ### Writes -/

/-- The transaction appended one event, and the hook got it with its id. -/
def Published (d : Db) (w : Sess) : Prop :=
  ∃ event row, w.vars.published = [(d.tables.trajectorySeq + 1, event)] ∧
    w.conn.committed.tables.trajectoryEvents = d.tables.trajectoryEvents ++ [row] ∧
    row.id = d.tables.trajectorySeq + 1 ∧
    w.conn.committed.tables.trajectorySeq = d.tables.trajectorySeq + 1

/-- The tables after an append. -/
def Appended (d v : Db) : Prop :=
  (∃ row, v.tables.trajectoryEvents = d.tables.trajectoryEvents ++ [row] ∧
    row.id = d.tables.trajectorySeq + 1) ∧
    v.tables.trajectorySeq = d.tables.trajectorySeq + 1

theorem publishEvent_calm {event : TrajectoryEvent} {R : Exn PyExc → Sess → Prop}
    (h : Appended d v) :
    Triple (Unfaulted v v) (publishEvent true (d.tables.trajectorySeq + 1) event)
      (fun _ w => Published d w) R := by
  obtain ⟨⟨row, hrows, hrow⟩, hseq⟩ := h
  rintro w ⟨-, ⟨⟨hcommitted, -⟩, hpub⟩⟩
  refine ⟨event, row, ?_, ?_, hrow, ?_⟩
  · show w.vars.published ++ [_] = _
    rw [hpub]
    rfl
  · show w.conn.committed.tables.trajectoryEvents = _
    rw [hcommitted, hrows]
  · show w.conn.committed.tables.trajectorySeq = _
    rw [hcommitted, hseq]

theorem appends_of_exec {runId now : PyStr} {event : TrajectoryEvent} {cursor : Cursor}
    (h : (Stmt.appendEvent runId event now).exec d = .ok (cursor, v)) :
    cursor.lastrowid = some (d.tables.trajectorySeq + 1) ∧ Appended d v := by
  obtain ⟨-, hid, htables⟩ := Stmt.apply_appendEvent (Stmt.exec_ok h)
  exact ⟨hid, ⟨_, by rw [htables], rfl⟩, by rw [htables]⟩

theorem appendEvent_calm (runId : PyStr) (event : TrajectoryEvent) :
    Triple (Unfaulted d d) (appendEvent runId event true)
      (fun _ w => Published d w) (fun _ w => Unheard d w) := by
  unfold appendEvent
  refine Triple.bind attempt_calm (fun _ => ?_)
  refine Triple.bind utcnow_calm (fun now => ?_)
  refine Triple.bind (execute_calm _) (fun cursor => ?_)
  refine Triple.of_exists (fun v => Triple.of_and (fun hexec => ?_))
  obtain ⟨hid, hadded⟩ := appends_of_exec hexec
  refine Triple.bind commit_calm (fun _ => ?_)
  rw [hid]
  exact Triple.bind (publishEvent_calm hadded) (fun _ => Triple.pure (fun _ hw => hw))

theorem capturePrey_calm (runId territory posting : PyStr) :
    Triple (Unfaulted d d) (capturePrey runId territory posting true)
      (fun _ w => Published d w) (fun _ w => Unheard d w) := by
  unfold capturePrey
  refine Triple.bind uuid4_calm (fun preyId => ?_)
  refine Triple.bind utcnow_calm (fun now => ?_)
  refine Triple.bind attempt_calm (fun raw => ?_)
  refine Triple.bind attempt_calm (fun _ => ?_)
  refine Triple.bind (execute_calm _) (fun cursor => ?_)
  refine Triple.of_exists (fun v => Triple.of_and (fun hexec => ?_))
  obtain ⟨hid, hadded⟩ := appends_of_exec hexec
  refine Triple.bind (execute_calm _) (fun _ => ?_)
  refine Triple.of_exists (fun v' => Triple.of_and (fun hinsert => ?_))
  obtain ⟨-, -, htables⟩ := Stmt.apply_insertPrey (Stmt.exec_ok hinsert)
  have hadded' : Appended d v' := by
    obtain ⟨⟨row, hrows, hrow⟩, hseq⟩ := hadded
    exact ⟨⟨row, by rw [htables, hrows], hrow⟩, by rw [htables, hseq]⟩
  refine Triple.bind commit_calm (fun _ => ?_)
  rw [hid]
  exact Triple.bind (publishEvent_calm hadded') (fun _ => Triple.pure (fun _ hw => hw))

theorem Env.session_calm {env : Env} (h : env.faults = []) (d : Db) :
    Unfaulted d d (env.session d) :=
  ⟨h, ⟨rfl, rfl⟩, rfl⟩

/-- **A write leaves the database as it was, or appends one event and hands it to the hook.** -/
theorem write_calm (runId : PyStr) (write : Write) {env : Env} (hcalm : env.faults = []) (d : Db) :
    Unheard d ((write.run runId).exec (env.session d)).2 ∨
      Published d ((write.run runId).exec (env.session d)).2 := by
  have htriple : Triple (Unfaulted d d) (write.run runId) (fun _ w => Unheard d w ∨ Published d w)
      (fun _ w => Unheard d w ∨ Published d w) := by
    unfold Write.run
    refine Triple.tryCatch (R := fun _ w => Unheard d w) ?_
      (fun _ => Triple.pure (fun _ hw => Or.inl hw))
    cases write with
    | append event =>
        exact Triple.bind (appendEvent_calm runId event)
          (fun _ => Triple.pure (fun _ hw => Or.inr hw))
    | capture territory posting =>
        exact Triple.bind (capturePrey_calm runId territory posting)
          (fun _ => Triple.pure (fun _ hw => Or.inr hw))
  exact htriple.final (Env.session_calm hcalm d)

/-! ### Verdicts and closures -/

/-- The log of events is as it was. -/
def SameEvents (d d' : Db) : Prop :=
  d'.tables.trajectoryEvents = d.tables.trajectoryEvents ∧
    d'.tables.trajectorySeq = d.tables.trajectorySeq

theorem submitVerdict_raises (request : VerdictEvent) :
    Triple (Unfaulted d d) (submitVerdict request) (fun _ _ => True) (fun _ w => Unheard d w) := by
  unfold submitVerdict
  split
  · exact Triple.throw (fun _ hw => hw.unheard)
  refine Triple.bind utcnow_calm (fun now => ?_)
  refine Triple.bind (execute_calm _) (fun cursor => ?_)
  refine Triple.of_exists (fun v => Triple.of_and (fun _ => ?_))
  split
  · exact Triple.bind rollback_calm (fun _ => Triple.pure (fun _ _ => trivial))
  refine Triple.bind attempt_calm (fun _ => ?_)
  refine Triple.bind (execute_calm _) (fun _ => ?_)
  refine Triple.of_exists (fun v => Triple.of_and (fun _ => ?_))
  split
  · refine Triple.bind uuid4_calm (fun jobId => ?_)
    refine Triple.bind (execute_calm _) (fun _ => ?_)
    refine Triple.of_exists (fun v => Triple.of_and (fun _ => ?_))
    exact Triple.bind commit_calm (fun _ => Triple.pure (fun _ _ => trivial))
  · exact Triple.bind commit_calm (fun _ => Triple.pure (fun _ _ => trivial))

/-- **A verdict that is not applied leaves the database as it was.** -/
theorem submitVerdict_calm (request : VerdictEvent) {env : Env} (hcalm : env.faults = []) (d : Db) :
    match (submitVerdict request).exec (env.session d) with
    | (.ok true, w) => SameEvents d w.conn.committed
    | (.ok false, w) => w.conn.committed = d
    | (.error _, w) => w.conn.committed = d := by
  have hraises := submitVerdict_raises (d := d) request (env.session d) (Env.session_calm hcalm d)
  have happlied := submitVerdict_triple d request (env.session d) ⟨rfl, rfl⟩
  cases hrun : (submitVerdict request).exec (env.session d) with
  | mk r w =>
      rw [hrun] at hraises happlied
      match r with
      | .ok true =>
          obtain ⟨-, -, now, jobId, htables⟩ := happlied
          exact ⟨by rw [htables]; rfl, by rw [htables]; rfl⟩
      | .ok false => exact happlied.1
      | .error e => exact hraises.1

theorem finishRun_calm (runId : PyStr) (outcome : RunOutcome) (abortReason : Option PyStr)
    {env : Env} (hcalm : env.faults = []) (d : Db) :
    match (finishRun runId outcome abortReason).exec (env.session d) with
    | (.ok _, w) => SameEvents d w.conn.committed
    | (.error _, w) => w.conn.committed = d := by
  have htriple : Triple (Unfaulted d d) (finishRun runId outcome abortReason)
      (fun _ w => SameEvents d w.conn.committed) (fun _ w => w.conn.committed = d) := by
    unfold finishRun
    refine Triple.bind utcnow_calm (fun now => ?_)
    refine Triple.seq (execute_calm _) (fun _ _ hw => hw.1) (fun _ => ?_)
    refine Triple.of_exists (fun v => Triple.of_and (fun hexec => ?_))
    have happly := Stmt.exec_ok hexec
    have hsame : SameEvents d v := by
      refine ⟨Stmt.apply_trajectoryEvents happly rfl, ?_⟩
      simp only [Stmt.apply, Except.ok.injEq, Prod.mk.injEq] at happly
      rw [← happly.2]
    refine commit_calm.conseq (fun _ hw => hw) (fun _ w hw => ?_) (fun _ _ hw => hw)
    rw [hw.2.1.1]
    exact hsame
  have hrun := htriple (env.session d) (Env.session_calm hcalm d)
  cases hexec : (finishRun runId outcome abortReason).exec (env.session d) with
  | mk r w =>
      rw [hexec] at hrun
      cases r with
      | ok _ => exact hrun
      | error e => exact hrun

end Calm

/-! ## Statements that are accepted -/

section Accepted

variable {d v : Db} {ids : Nat → PyStr} {n : Nat}

/-- No fault meets the session, which has drawn `n` of its ids. -/
def Unmet (ids : Nat → PyStr) (n : Nat) (d v : Db) (w : Sess) : Prop :=
  w.faults = [] ∧ Writing d v w ∧ w.vars.uuid4 = ids ∧ w.vars.uuids = n

theorem execute_accepted {s : Stmt} {c : Cursor} {v' : Db} (h : s.exec v = .ok (c, v'))
    {R : Exn PyExc → Sess → Prop} :
    Triple (Unmet ids n d v) (execute s) (fun a w => a = c ∧ Unmet ids n d v' w) R := by
  refine (Session.await_calm
    (P := fun (w : Sess) => Writing d v w ∧ w.vars.uuid4 = ids ∧ w.vars.uuids = n)
    (Q := fun a (w : Sess) => a = c ∧ Writing d v' w ∧ w.vars.uuid4 = ids ∧ w.vars.uuids = n)
    (fun w hw => ?_)).conseq (fun _ hw => hw) ?_ (fun _ _ hw => hw)
  · refine ⟨c, w.conn.write v', ?_, rfl, ⟨hw.1.1, rfl⟩, hw.2⟩
    unfold Session.execute
    rw [hw.1.2, h]
  · rintro a w ⟨hcalm, hac, hw⟩
    exact ⟨hac, hcalm, hw⟩

theorem commit_accepted {R : Exn PyExc → Sess → Prop} :
    Triple (Unmet ids n d v) commit (fun _ => Unmet ids n v v) R :=
  Session.await_calm (P := fun (w : Sess) => Writing d v w ∧ w.vars.uuid4 = ids ∧ w.vars.uuids = n)
    (Q := fun _ (w : Sess) => Writing v v w ∧ w.vars.uuid4 = ids ∧ w.vars.uuids = n)
    (fun w hw => ⟨⟨⟩, w.conn.commit, rfl, ⟨hw.1.2, hw.1.2⟩, hw.2⟩)

end Accepted

end RexHunter
