import RexHunter.Implementation.Verdicts

set_option autoImplicit false

/-! # One lemma for each database coroutine

A session predicate kept by every step a function can take is kept by the function, whatever faults
meet it. The lemmas are uniform in the predicate: later proofs choose a predicate, check it against
the statements, and cite these. -/

namespace RexHunter

open Session (Closed Frameless)
open Coro (Keeps)

variable {A : Op → Prop} {I : Sess → Prop}

/-- The set contains every operation on an open connection that is neither a statement nor a
    request. -/
structure Controls (A : Op → Prop) : Prop where
  commit : A .commit
  rollback : A .rollback
  other : ∀ x, x.inner = true → A (.other x)

/-- What the committed tables and the tables the connection reads both satisfy. -/
def OnTables (P : Tables → Prop) (w : Sess) : Prop :=
  P w.conn.committed.tables ∧ P w.conn.view.tables

/-- **A property of the tables that each statement keeps by itself is kept by every program.** -/
theorem closed_onTables {P : Tables → Prop}
    (h : ∀ s t t' c, A (.execute s) → t.Schema → P t → s.apply t = .ok (c, t') → P t') :
    Closed Stmt.exec A (OnTables P) where
  step := by
    rintro w op fate hop ⟨hcommitted, hview⟩ hpossible
    have heffective : OnTables P (w.landed op fate (Session.after Stmt.exec op .done w.conn)) := by
      cases op with
      | execute s =>
          simp only [Session.after, Session.landed]
          cases hs : s.exec w.conn.view with
          | ok p => exact ⟨hcommitted, h s _ _ _ hop w.conn.view.schema hview (Stmt.exec_ok hs)⟩
          | error e => exact ⟨hcommitted, hview⟩
      | commit => exact ⟨hview, hview⟩
      | rollback => exact ⟨hcommitted, hcommitted⟩
      | other x => exact ⟨hcommitted, hview⟩
    cases fate with
    | done => exact heffective
    | raised rolledBack =>
        cases rolledBack with
        | false => exact ⟨hcommitted, hview⟩
        | true => exact ⟨hcommitted, hcommitted⟩
    | cancelled executed =>
        cases executed with
        | false => exact ⟨hcommitted, hview⟩
        | true => exact heffective
  noted := fun _ _ _ _ hw => hw
  vars := fun _ _ hw => hw

theorem onTables_frameless (P : Tables → Prop) : Frameless (OnTables P) :=
  ⟨fun _ _ hw => hw, fun _ _ hw => hw⟩

theorem Controls.any : Controls (fun _ => True) := ⟨trivial, trivial, fun _ _ => trivial⟩

section Keeps

variable (h : Closed Stmt.exec A I) (hA : Controls A)

include h

theorem uuid4_keeps : Keeps I uuid4 := h.useVars

theorem utcnow_keeps : Keeps I utcnow := h.useVars

theorem execute_keeps {s : Stmt} (hs : A (.execute s)) : Keeps I (execute s) := h.execute hs

theorem publishEvent_keeps {publish : Bool} {eventId : Nat} {event : TrajectoryEvent} :
    Keeps I (publishEvent publish eventId event) := h.useVars

include hA

theorem dump_keeps {dumpable : Bool} : Keeps I (dump dumpable) := h.attempt (hA.other .dump rfl)

theorem encodePosting_keeps {posting : PyStr} : Keeps I (encodePosting posting) :=
  h.attempt (hA.other .encode rfl)

theorem commit_keeps : Keeps I commit := h.commit hA.commit

theorem rollback_keeps : Keeps I rollback := h.rollback hA.rollback

theorem select_keeps {α : Type} {read : Tables → α} : Keeps I (select read) :=
  h.query (hA.other .select rfl)

/-- A SELECT returns what the connection reads. -/
theorem select_triple {α : Type} {read : Tables → α} :
    Coro.Triple I (select read) (fun a w => a = read w.conn.view.tables ∧ I w) (fun _ => I) := by
  refine ((select_keeps h hA).triple.and (Session.await_triple
    (Q := fun a w => a = read w.conn.view.tables) (R := fun _ _ => True) ?_ ?_)).conseq
    (fun _ hw => hw) (fun _ _ hw => ⟨hw.2, hw.1⟩) (fun _ _ hw => hw.1)
  · intro w a c _ hact
    cases hact
    rfl
  · exact fun _ _ _ _ _ _ _ => trivial

theorem startRun_keeps {territory : PyStr} {costCeilingUsd : Option ℚ} {maxIterations : Option Int}
    (hs : ∀ runId now,
      A (.execute (.insertRun runId territory now costCeilingUsd maxIterations))) :
    Keeps I (startRun territory costCeilingUsd maxIterations) := by
  refine (uuid4_keeps h).bind (fun runId => (utcnow_keeps h).bind (fun now => ?_))
  refine (execute_keeps h (hs runId now)).bind (fun _ => ?_)
  exact (commit_keeps h hA).bind (fun _ => Keeps.pure runId)

theorem appendEvent_keeps {runId : PyStr} {event : TrajectoryEvent} {publish : Bool}
    (hs : ∀ now, A (.execute (.appendEvent runId event now))) :
    Keeps I (appendEvent runId event publish) := by
  refine (dump_keeps h hA).bind (fun _ => (utcnow_keeps h).bind (fun now => ?_))
  refine (execute_keeps h (hs now)).bind (fun cursor => (commit_keeps h hA).bind (fun _ => ?_))
  cases cursor.lastrowid with
  | none => exact Keeps.raise _
  | some eventId => exact (publishEvent_keeps h).bind (fun _ => Keeps.pure eventId)

/-- An append whose INSERT leads from one predicate to the next. -/
theorem appendEvent_step {J E : Sess → Prop} (hJ : Closed Stmt.exec A J) (hIE : ∀ w, I w → E w)
    (hJE : ∀ w, J w → E w) {runId : PyStr} {event : TrajectoryEvent} {publish : Bool}
    (hs : ∀ now, Coro.Triple I (execute (.appendEvent runId event now)) (fun _ => J) (fun _ => E)) :
    Coro.Triple I (appendEvent runId event publish) (fun _ => J) (fun _ => E) := by
  refine (dump_keeps h hA).triple.seq (fun _ => hIE) (fun _ => ?_)
  refine (utcnow_keeps h).triple.seq (fun _ => hIE) (fun now => ?_)
  refine (hs now).bind (fun cursor => (commit_keeps hJ hA).triple.seq (fun _ => hJE) (fun _ => ?_))
  cases cursor.lastrowid with
  | none => exact (Keeps.raise _).triple.conseq (fun _ hw => hw) (fun _ _ hw => hw) (fun _ => hJE)
  | some eventId =>
      exact (publishEvent_keeps hJ).triple.seq (fun _ => hJE) (fun _ => Coro.Triple.pure (fun _ hw => hw))

theorem finishRun_keeps {runId : PyStr} {outcome : RunOutcome} {abortReason : Option PyStr}
    (hs : ∀ now, A (.execute (.finishRun now outcome abortReason runId))) :
    Keeps I (finishRun runId outcome abortReason) := by
  refine (utcnow_keeps h).bind (fun now => ?_)
  exact (execute_keeps h (hs now)).bind (fun _ => commit_keeps h hA)

theorem markCrashedRuns_keeps (hs : A (.execute .markCrashedRuns)) : Keeps I markCrashedRuns :=
  (execute_keeps h hs).bind (fun _ => (commit_keeps h hA).bind (fun _ => Keeps.pure _))

theorem capturePrey_keeps {runId territory posting : PyStr} {publish : Bool}
    (hs : ∀ e now, A (.execute (.appendEvent runId (.preyCaptured e) now)))
    (hs' : ∀ preyId now,
      A (.execute (.insertPrey preyId runId territory posting .awaitingVerdict now))) :
    Keeps I (capturePrey runId territory posting publish) := by
  refine (uuid4_keeps h).bind (fun preyId => (utcnow_keeps h).bind (fun now => ?_))
  refine (encodePosting_keeps h hA).bind (fun raw => (dump_keeps h hA).bind (fun _ => ?_))
  refine (execute_keeps h (hs _ now)).bind (fun cursor => ?_)
  refine (execute_keeps h (hs' preyId now)).bind (fun _ => (commit_keeps h hA).bind (fun _ => ?_))
  cases cursor.lastrowid with
  | none => exact Keeps.pure preyId
  | some eventId => exact (publishEvent_keeps h).bind (fun _ => Keeps.pure preyId)

theorem submitVerdict_keeps {request : VerdictEvent} (hs : ∀ s, A (.execute s)) :
    Keeps I (submitVerdict request) := by
  unfold submitVerdict
  by_cases hreason : request.verdict = .release ∧ request.reason = none
  · rw [if_pos hreason]
    exact Keeps.raise _
  rw [if_neg hreason]
  refine (utcnow_keeps h).bind (fun now => (execute_keeps h (hs _)).bind (fun cursor => ?_))
  by_cases hcount : cursor.rowcount ≠ 1
  · rw [if_pos hcount]
    exact (rollback_keeps h hA).bind (fun _ => Keeps.pure false)
  rw [if_neg hcount]
  refine (dump_keeps h hA).bind (fun _ => (execute_keeps h (hs _)).bind (fun _ => ?_))
  by_cases hfeast : request.verdict = .feast
  · rw [if_pos hfeast]
    refine (uuid4_keeps h).bind (fun jobId => (execute_keeps h (hs _)).bind (fun _ => ?_))
    exact (commit_keeps h hA).bind (fun _ => Keeps.pure true)
  · rw [if_neg hfeast]
    exact (commit_keeps h hA).bind (fun _ => Keeps.pure true)

theorem selectQueued_keeps : Keeps I selectQueued := select_keeps h hA

theorem flipQueued_keeps {jobId : PyStr} (hs : A (.execute (.claimJob jobId))) :
    Keeps I (flipQueued jobId) :=
  (execute_keeps h hs).bind (fun _ => (commit_keeps h hA).bind (fun _ => Keeps.pure _))

theorem completeJob_keeps {jobId result : PyStr} (hs : A (.execute (.completeJob result jobId))) :
    Keeps I (completeJob jobId result) :=
  (execute_keeps h hs).bind (fun _ => commit_keeps h hA)

theorem requeueRunningJobs_keeps (hs : A (.execute .requeueRunningJobs)) :
    Keeps I requeueRunningJobs :=
  (execute_keeps h hs).bind (fun _ => (commit_keeps h hA).bind (fun _ => Keeps.pure _))

end Keeps

end RexHunter
