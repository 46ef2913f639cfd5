import RexHunter.Lib.Utf8
import RexHunter.Implementation.Snapshot
import RexHunter.Proofs.Capture
import RexHunter.Proofs.Codec
import RexHunter.Proofs.Pen
import RexHunter.Proofs.View

set_option autoImplicit false

/-! # The two projections of the pen

The board derives the pen from the capture events of the log and from the verdict logs, the snapshot
reads the maintained rows. The invariant (`Paired`) pairs the capture events with the rows, one by
one and in order; together with the fold of the verdict logs (`PenInv`) it makes the two pens equal
as multisets. It is kept by captures and verdicts however they end, and by every run that left its
loop without a handler or whose captures no fault has separated. -/

namespace RexHunter

open Session (Closed Frameless Given Writing)
open Coro (Keeps Triple)

/-! ## The invariant -/

/-- The capture an event records. -/
def TrajectoryEvent.capture? : TrajectoryEvent → Option PreyCapturedEvent
  | preyCaptured e => some e
  | _ => none

/-- The captures in the log. -/
def Tables.captures (t : Tables) : List PreyCapturedEvent :=
  t.trajectoryEvents.filterMap (fun r => r.payload.capture?)

/-- The row is that of the capture. -/
def RowOf (e : PreyCapturedEvent) (p : Prey) : Prop :=
  p.id = e.preyId ∧ p.territory = e.territory ∧ encode p.posting = some e.rawPosting

structure Paired (t : Tables) : Prop where
  rows : List.Forall₂ RowOf t.captures t.prey
  pen : PenInv t
  positive : ∀ r ∈ t.trajectoryEvents, 0 < r.id

theorem paired_empty : Paired Db.empty.tables :=
  ⟨.nil, ⟨fun _ hp => absurd hp List.not_mem_nil, fun _ hp => absurd hp List.not_mem_nil,
    fun _ hp => absurd hp List.not_mem_nil⟩, fun _ hr => absurd hr List.not_mem_nil⟩

/-- The operations that are no part of a capture or of a verdict. -/
def Unpenned (op : Op) : Prop := Uncaptured op ∧ QuietOp op

theorem unpenned_controls : Controls Unpenned :=
  ⟨⟨trivial, trivial⟩, ⟨trivial, trivial⟩, fun _ _ => ⟨trivial, trivial⟩⟩

theorem Tables.captures_append {t t' : Tables} {c : Cursor} {runId createdAt : PyStr}
    {event : TrajectoryEvent} (h : (Stmt.appendEvent runId event createdAt).apply t = .ok (c, t')) :
    t'.captures = t.captures ++ event.capture?.toList := by
  obtain ⟨_, _, rfl⟩ := Stmt.apply_appendEvent h
  simp only [captures, List.filterMap_append]
  cases hcapture : event.capture? <;> simp [hcapture]

theorem TrajectoryEvent.capture?_eq_none {event : TrajectoryEvent} (h : event.capturedId = none) :
    event.capture? = none := by
  cases event with
  | preyCaptured e => cases h
  | sniff | toolCall | toolResult | error | usage | thinkingDelta => rfl

/-- The ids of the log stay positive. -/
theorem positive_apply {s : Stmt} {t t' : Tables} {c : Cursor}
    (h : ∀ r ∈ t.trajectoryEvents, 0 < r.id) (happly : s.apply t = .ok (c, t')) :
    ∀ r ∈ t'.trajectoryEvents, 0 < r.id := by
  cases s with
  | appendEvent runId event createdAt =>
      obtain ⟨_, _, rfl⟩ := Stmt.apply_appendEvent happly
      exact forall_mem_snoc h (Nat.succ_pos _)
  | insertRun | finishRun | markCrashedRuns | insertPrey | updatePrey | insertPenEvent | insertJob
    | claimJob | completeJob | requeueRunningJobs =>
      rw [Stmt.apply_trajectoryEvents happly rfl]
      exact h

/-- Statements outside captures and verdicts leave both sides of the pairing alone. -/
theorem Paired.apply {s : Stmt} {t t' : Tables} {c : Cursor} (hs : Unpenned (.execute s))
    (ht : t.Schema) (h : Paired t) (happly : s.apply t = .ok (c, t')) : Paired t' := by
  refine ⟨?_, h.pen.quiet ht hs.2 happly, positive_apply h.positive happly⟩
  have hrows := h.rows
  cases s with
  | appendEvent runId event createdAt =>
      have hcaptures := Tables.captures_append happly
      rw [TrajectoryEvent.capture?_eq_none hs.1, Option.toList_none, List.append_nil] at hcaptures
      obtain ⟨_, _, rfl⟩ := Stmt.apply_appendEvent happly
      rw [hcaptures]
      exact hrows
  | insertPrey => exact hs.1.elim
  | updatePrey | insertPenEvent | insertJob => exact hs.2.elim
  | insertRun id territory startedAt costCeilingUsd maxIterations =>
      obtain ⟨_, rfl⟩ := Stmt.apply_insertRun happly
      exact hrows
  | finishRun | markCrashedRuns | claimJob | completeJob | requeueRunningJobs =>
      cases happly
      exact hrows

/-- A capture adds one to each side. -/
theorem paired_kept : KeptByCaptures Paired := by
  intro runId territory posting now id raw t t₁ t₂ c c' hraw ht h happend hinsert
  have hlog : t₁.captures = t.captures ++ [⟨id, territory, raw⟩] := Tables.captures_append happend
  have hpen : PenInv t₁ := h.pen.quiet (s := .appendEvent ..) ht trivial happend
  have hpositive := positive_apply h.positive happend
  have hschema := Stmt.apply_schema ht happend
  have hprey : t₁.prey = t.prey := by
    obtain ⟨_, _, rfl⟩ := Stmt.apply_appendEvent happend
    rfl
  refine ⟨?_, hpen.quiet (s := .insertPrey ..) hschema rfl hinsert, positive_apply hpositive hinsert⟩
  obtain ⟨_, _, rfl⟩ := Stmt.apply_insertPrey hinsert
  show List.Forall₂ RowOf t₁.captures (t₁.prey ++ [_])
  rw [hlog, hprey]
  exact List.rel_append h.rows (.cons ⟨rfl, rfl, hraw⟩ .nil)

/-- A verdict moves no row to another capture. -/
theorem Paired.applyVerdict {t : Tables} (h : Paired t) (ht : t.Schema) {request : VerdictEvent}
    (hacc : t.Accepts request) (now jobId : PyStr) : Paired (t.applyVerdict request now jobId) := by
  refine ⟨?_, h.pen.applyVerdict ht hacc now jobId, h.positive⟩
  show List.Forall₂ RowOf t.captures (Table.updateWhere _ _ t.prey)
  unfold Table.updateWhere
  rw [List.forall₂_map_right_iff]
  refine h.rows.imp (fun e p hrow => ?_)
  split
  · exact hrow
  · exact hrow

/-! ## Captures and verdicts -/

/-- **A capture on its own**: with both rows it is committed, and however it ends, a half of it is
    not. -/
theorem capturePrey_triple {P : Tables → Prop} (hpair : KeptByCaptures P)
    (runId territory posting : PyStr) (publish : Bool) :
    Triple (OnTables P) (capturePrey runId territory posting publish) (fun _ => OnTables P)
      (fun _ w => P w.conn.committed.tables) := by
  have hwriting : ∀ db v : Db, P db.tables → P v.tables →
      Triple (Writing db v) (capturePrey runId territory posting publish) (fun _ => OnTables P)
        (fun _ w => P w.conn.committed.tables) := by
    intro db v hdb hv
    have hold : ∀ (e : Exn PyExc) (w : Sess), w.conn.committed = db →
        P w.conn.committed.tables := fun _ w hw => hw ▸ hdb
    refine Triple.bind Session.useVars_writing (fun id => ?_)
    refine Triple.bind Session.useVars_writing (fun now => ?_)
    refine Triple.seq (Q := fun raw w => encode posting = some raw ∧ Writing db v w) ?_ hold
      (fun raw => Triple.of_and (fun hraw => ?_))
    · intro w hw
      cases hencode : encode posting with
      | none =>
          unfold encodePosting
          rw [hencode]
          exact hw.1
      | some raw =>
          unfold encodePosting
          rw [hencode]
          exact ⟨rfl, hw⟩
    refine Triple.seq Session.attempt_writing hold (fun _ => ?_)
    refine Triple.seq Session.execute_writing hold (fun cursor => ?_)
    refine Triple.of_exists (fun v₁ => Triple.of_and (fun happend => ?_))
    refine Triple.seq Session.execute_writing hold (fun _ => ?_)
    refine Triple.of_exists (fun v₂ => Triple.of_and (fun hinsert => ?_))
    have hwhole : P v₂.tables :=
      hpair hraw v.schema hv (Stmt.exec_ok happend) (Stmt.exec_ok hinsert)
    refine Triple.seq Session.commit_writing ?_ (fun _ => ?_)
    · rintro e w (hw | hw)
      · exact hold e w hw
      · exact hw ▸ hwhole
    · have hend : ∀ w : Sess, Writing v₂ v₂ w → OnTables P w := by
        rintro w ⟨hcommitted, hview⟩
        exact ⟨hcommitted ▸ hwhole, hview ▸ hwhole⟩
      cases cursor.lastrowid with
      | none => exact Triple.pure hend
      | some eventId =>
          exact Triple.bind Session.useVars_writing (fun _ => Triple.pure hend)
  intro w hw
  exact hwriting w.conn.committed w.conn.view hw.1 hw.2 w ⟨rfl, rfl⟩

/-! ## Runs -/

/-- The step is not one of the exception handlers of `run_hunt`. -/
def Unhandled (st : Step Frame Op) : Prop := st.frame ≠ .handling ∧ st.frame ≠ .cleaning

instance : DecidablePred Unhandled :=
  fun st => inferInstanceAs (Decidable (st.frame ≠ .handling ∧ st.frame ≠ .cleaning))

theorem paired_closed : Closed Stmt.exec Unpenned (OnTables Paired) :=
  closed_onTables (fun _ _ _ _ hs ht h happly => h.apply hs ht happly)

/-- After a step of a handler nothing is promised. -/
theorem handled_void {I : Sess → Prop} {w t : Sess} {op : Op} {fate : Fate}
    (hframe : w.frame = .handling ∨ w.frame = .cleaning)
    (htrace : t.trace = w.trace ++ [⟨w.frame, op, fate⟩]) : Given Unhandled I t :=
  Given.void htrace (fun h => hframe.elim h.1 h.2)

/-- A step that keeps the pairing keeps it where it ends; where it fails nothing is promised. -/
theorem paired_triple {α : Type} {m : Prog α} (hm : Keeps (OnTables Paired) m) :
    Triple (OnTables Paired) m (fun _ => OnTables Paired) (fun _ _ => True) :=
  hm.triple.conseq (fun _ hw => hw) (fun _ _ hw => hw) (fun _ _ _ => trivial)

/-- Inside the loop both sides are paired at every place; after an exception nothing is promised. -/
def pairedPlaces : LoopPlaces :=
  ⟨fun _ => OnTables Paired, fun _ _ => OnTables Paired, fun _ _ _ => OnTables Paired,
    fun _ _ => OnTables Paired, OnTables Paired, fun _ _ => True⟩

section Runs

variable [PyRuntime] (hunt : Hunt)

theorem pairedPlaces_holds (runId : PyStr) : pairedPlaces.Holds hunt runId := by
  have hloop : ∀ {E : TrajectoryEvent → Prop}, (∀ event, E event → event.OfLoop) →
      Appends Unpenned runId E := fun hE event _ h => ⟨hE event h, trivial⟩
  refine ⟨fun _ hw => hw, fun _ => paired_triple (select_keeps paired_closed unpenned_controls),
    fun _ _ _ hw => hw, fun _ context _ => ?_, fun _ _ _ _ => ?_, fun _ _ => ?_,
    fun _ _ posting => ?_, fun _ _ _ hw => hw⟩
  · refine (paired_triple (attemptBrain_keeps paired_closed unpenned_controls
      (hloop (fun _ => TrajectoryEvent.OfCall.ofLoop)) ⟨trivial, trivial⟩ ⟨trivial, trivial⟩
      hunt.attempts)).conseq (fun _ hw => hw) ?_ (fun _ _ hw => hw)
    intro r w hw
    cases r with
    | none => exact hw
    | some decision => exact hw
  · exact paired_triple (appendUsage_keeps paired_closed unpenned_controls
      (fun usage _ now => ⟨rfl, trivial⟩))
  · refine (paired_triple (runTool_keeps paired_closed unpenned_controls
      (hloop (fun _ => TrajectoryEvent.OfTool.ofLoop)))).conseq (fun _ hw => hw) ?_
      (fun _ _ hw => hw)
    intro goesOn w hw
    cases goesOn <;> exact hw
  · exact (capturePrey_triple paired_kept runId hunt.territory posting hunt.publish).conseq
      (fun _ hw => hw) (fun _ _ hw => hw) (fun _ _ _ => trivial)

/-- The loop, left without an exception, keeps the pairing. -/
theorem driveFor_paired (runId : PyStr) (n : Nat) :
    Triple (OnTables Paired) (driveFor hunt runId n) (fun _ => OnTables Paired) (fun _ _ => True) :=
  driveFor_rule (pairedPlaces_holds hunt runId) n

omit [PyRuntime] in
/-- Where a handler runs, nothing is promised. -/
theorem settle_unhandled (runId : PyStr) (r : Except (Exn PyExc) (RunOutcome × Option PyStr)) :
    Triple (fun w => match r with
        | .ok _ => Given Unhandled (OnTables Paired) w
        | .error _ => True) (settle hunt runId r)
      (fun _ => Given Unhandled (OnTables Paired)) (fun _ => Given Unhandled (OnTables Paired)) := by
  have hclosed := paired_closed.given Unhandled
  have hframe := (onTables_frameless Paired).given Unhandled
  cases r with
  | ok result => exact (reach_keeps hclosed).triple
  | error e =>
      show Triple (fun _ => True) _ _ _
      cases e with
      | cancelled =>
          refine Triple.bind (Session.useVars_triple (fun _ _ _ => trivial)) (fun _ => ?_)
          refine Triple.bind ?_ (fun _ => Triple.throw (fun _ hw => hw))
          have hclean : Triple (fun w : Sess => w.frame = .cleaning)
              (finishRun runId .aborted (some (py "daemon shutdown")))
              (fun _ => Given Unhandled (OnTables Paired))
              (fun _ => Given Unhandled (OnTables Paired)) := by
            refine Triple.bind (Session.useVars_triple (fun _ _ hw => hw)) (fun now => ?_)
            refine Triple.bind (Session.await_triple ?_ ?_)
              (fun _ => (commit_keeps hclosed unpenned_controls).triple)
            · exact fun w _ _ hw _ => handled_void (Or.inr hw) rfl
            · exact fun w _ _ _ hw _ _ => handled_void (Or.inr hw) rfl
          refine Session.inFrame_triple (fun _ _ _ => trivial) (fun _ w g hw => hframe.frame w g hw)
            (fun _ w g hw => hframe.frame w g hw) (Triple.pre ?_ (fun _ hw => hw.1))
          exact Session.shield_triple (fun _ _ hw => hw) (fun _ w b hw => hframe.shielded w b hw)
            (fun _ w b hw => hframe.shielded w b hw) (hclean.pre (fun _ hw => hw.2))
      | raised exc =>
          refine Triple.bind ?_ (fun _ => (reach_keeps hclosed).triple)
          refine Session.inFrame_triple (fun _ _ _ => trivial) (fun _ w g hw => hframe.frame w g hw)
            (fun _ w g hw => hframe.frame w g hw) ?_
          refine Triple.bind ?_ (fun _ => Triple.pure (fun _ hw => hw))
          refine Triple.bind (Q := fun _ => Given Unhandled (OnTables Paired)) ?_
            (fun _ => Keeps.triple ?_)
          · rintro w ⟨hw, -⟩
            cases (TrajectoryEvent.error (handled hunt exc).1).dumpable with
            | true => exact handled_void (Or.inl hw) rfl
            | false => exact handled_void (Or.inl hw) rfl
          · have hevent : ∀ now, Unpenned (.execute (.appendEvent runId
                (.error (handled hunt exc).1) now)) := fun _ => ⟨rfl, trivial⟩
            refine (utcnow_keeps hclosed).bind (fun now => ?_)
            refine (execute_keeps hclosed (hevent now)).bind (fun cursor => ?_)
            refine (commit_keeps hclosed unpenned_controls).bind (fun _ => ?_)
            cases cursor.lastrowid with
            | none => exact Keeps.raise _
            | some eventId => exact (publishEvent_keeps hclosed).bind (fun _ => Keeps.pure eventId)

/-- A run that is left without a handler keeps the pairing. -/
theorem runHunt_unhandled :
    Triple (OnTables Paired) (runHunt hunt) (fun _ => Given Unhandled (OnTables Paired))
      (fun _ => Given Unhandled (OnTables Paired)) := by
  have hclosed := paired_closed.given Unhandled
  have hframe := (onTables_frameless Paired).given Unhandled
  have hnew : ∀ w, OnTables Paired w → Given Unhandled (OnTables Paired) w := fun _ hw _ => hw
  have hstart : Keeps (OnTables Paired) (Session.inFrame .starting (startRun hunt.territory
      (some hunt.costCeilingUsd) (some hunt.maxIterations))) :=
    (onTables_frameless Paired).inFrame
      (startRun_keeps paired_closed unpenned_controls (fun _ _ => ⟨trivial, trivial⟩))
  refine hstart.triple.seq (fun _ => hnew) (fun runId => ?_)
  have hdrive : Triple (OnTables Paired) (Session.inFrame .driving (drive hunt runId))
      (fun _ => OnTables Paired) (fun _ _ => True) :=
    Session.inFrame_triple (fun _ _ hw => hw) (fun _ _ _ hw => hw) (fun _ _ _ _ => trivial)
      ((driveFor_paired hunt runId hunt.maxIterations.toNat).pre (fun _ hw => hw.2))
  refine hdrive.observe.bind (fun r => ?_)
  refine Triple.bind ((settle_unhandled hunt runId r).pre ?_) (fun result => Keeps.triple ?_)
  · intro w hw
    cases r with
    | ok result => exact hnew w hw
    | error e => trivial
  · refine (hframe.inFrame (finishRun_keeps hclosed unpenned_controls
      (fun _ => ⟨trivial, trivial⟩))).bind (fun _ => ?_)
    exact (pulse_keeps hclosed).bind (fun _ => Keeps.pure runId)

/-- A run none of whose captures a fault separates keeps the pairing. -/
theorem runHunt_whole : Keeps (Given Whole (OnTables Paired)) (runHunt hunt) :=
  runHunt_keeps (paired_closed.given Whole) unpenned_controls ⟨trivial, trivial⟩
    (fun _ => ⟨trivial, trivial⟩) ((onTables_frameless Paired).given Whole)
    (fun _ _ _ hevent => ⟨hevent, trivial⟩) (fun _ _ => ⟨trivial, trivial⟩)
    (fun _ _ _ _ => ⟨trivial, trivial⟩)
    (fun runId posting => capturePrey_intact (paired_closed.given Whole) unpenned_controls
      paired_kept runId hunt.territory posting hunt.publish)

end Runs

/-! ## Histories -/

/-- A call on a connection of its own that has come to its end. -/
inductive PenAction where
  | startRun (territory : PyStr) (costCeilingUsd : Option ℚ) (maxIterations : Option Int) (env : Env)
  | appendEvent (runId : PyStr) (event : TrajectoryEvent) (publish : Bool) (env : Env)
  | finishRun (runId : PyStr) (outcome : RunOutcome) (abortReason : Option PyStr) (env : Env)
  | capturePrey (runId territory posting : PyStr) (publish : Bool) (env : Env)
  | submitVerdict (request : VerdictEvent) (env : Env)
  | runHunt (hunt : Hunt) (env : Env)

section Histories

variable [PyRuntime]

namespace PenAction

/-- The session in which the call has ended. -/
def session (db : Db) : PenAction → Sess
  | startRun territory ceiling limit env =>
      ((RexHunter.startRun territory ceiling limit).exec (env.session db)).2
  | appendEvent runId event publish env =>
      ((RexHunter.appendEvent runId event publish).exec (env.session db)).2
  | finishRun runId outcome abortReason env =>
      ((RexHunter.finishRun runId outcome abortReason).exec (env.session db)).2
  | capturePrey runId territory posting publish env =>
      ((RexHunter.capturePrey runId territory posting publish).exec (env.session db)).2
  | submitVerdict request env => ((RexHunter.submitVerdict request).exec (env.session db)).2
  | runHunt hunt env => ((RexHunter.runHunt hunt).exec (env.session db)).2

/-- A run is completed if it left its loop by itself, or if no fault has separated one of its
    captures; nothing but `capture_prey` appends a capture. Other calls may end in any way. -/
def Completed (db : Db) (a : PenAction) : Prop :=
  match a with
  | appendEvent _ event _ _ => event.capturedId = none
  | runHunt _ _ => (∀ st ∈ (a.session db).trace, Unhandled st) ∨ ∀ st ∈ (a.session db).trace, Whole st
  | _ => True

instance (db : Db) : DecidablePred (Completed db)
  | startRun .. => isTrue trivial
  | appendEvent _ event _ _ => inferInstanceAs (Decidable (event.capturedId = none))
  | finishRun .. => isTrue trivial
  | capturePrey .. => isTrue trivial
  | submitVerdict .. => isTrue trivial
  | runHunt hunt env => inferInstanceAs (Decidable
      ((∀ st ∈ ((runHunt hunt env).session db).trace, Unhandled st) ∨
        ∀ st ∈ ((runHunt hunt env).session db).trace, Whole st))

end PenAction

/-- The histories of completed calls. -/
def pens : Transition.System Db PenAction where
  Init db := db = Db.empty
  step db a := if a.Completed db then some (a.session db).conn.committed else none

/-- A completed call keeps the pairing. -/
theorem paired_session {db : Db} (h : Paired db.tables) {a : PenAction} (ha : a.Completed db) :
    Paired (a.session db).conn.committed.tables := by
  have hkeeps : ∀ {α : Type} {m : Prog α} (env : Env), Keeps (OnTables Paired) m →
      Paired (m.exec (env.session db)).2.conn.committed.tables :=
    fun env hm => (hm (env.session db) ⟨h, h⟩).1
  cases a with
  | startRun territory ceiling limit env =>
      exact hkeeps env (startRun_keeps paired_closed unpenned_controls (fun _ _ => ⟨trivial, trivial⟩))
  | appendEvent runId event publish env =>
      exact hkeeps env (appendEvent_keeps paired_closed unpenned_controls (fun _ => ⟨ha, trivial⟩))
  | finishRun runId outcome abortReason env =>
      exact hkeeps env (finishRun_keeps paired_closed unpenned_controls (fun _ => ⟨trivial, trivial⟩))
  | capturePrey runId territory posting publish env =>
      exact Triple.final ((capturePrey_triple paired_kept runId territory posting publish).conseq
        (fun _ hw => hw) (fun _ _ hw => hw.1) (fun _ _ hw => hw)) (s := env.session db) ⟨h, h⟩
  | submitVerdict request env =>
      have hverdict : ∀ w : Sess, w.conn.committed = db ∨ Applied request db w.conn.committed →
          Paired w.conn.committed.tables := by
        rintro w (heq | ⟨_, hacc, now, jobId, heq⟩)
        · rw [heq]
          exact h
        · rw [heq]
          exact h.applyVerdict db.schema hacc now jobId
      refine Triple.final ((submitVerdict_triple db request).conseq (fun _ hw => hw) ?_
        (fun _ w hw => hverdict w hw)) (s := env.session db) ⟨rfl, rfl⟩
      intro applied w hw
      cases applied with
      | true => exact hverdict w (Or.inr hw)
      | false => exact hverdict w (Or.inl hw.1)
  | runHunt hunt env =>
      rcases ha with hall | hall
      · exact ((runHunt_unhandled hunt).final (s := env.session db) ⟨h, h⟩ hall).1
      · exact (runHunt_whole hunt (env.session db) (fun _ => ⟨h, h⟩) hall).1

theorem paired_reachable {db : Db} (h : pens.Reachable db) : Paired db.tables := by
  refine pens.invariant (P := fun db => Paired db.tables) ?_ ?_ db h
  · rintro db rfl
    exact paired_empty
  · intro db a db' hdb hstep
    simp only [pens, Option.ite_none_right_eq_some, Option.some.injEq] at hstep
    obtain ⟨ha, rfl⟩ := hstep
    exact paired_session hdb ha

end Histories

/-! ## The two pens -/

/-- What both pens say of a prey: its id, territory, posting and status. -/
abbrev PenRecord : Type := PyStr × PyStr × PyStr × PreyStatus

def PreyCard.record (card : PreyCard) : PenRecord :=
  (card.preyId, card.territory, card.posting, card.status)

def PenEntry.record (e : PenEntry) : PenRecord := (e.id, e.territory, e.posting, e.status)

def Prey.record (p : Prey) : PenRecord := (p.id, p.territory, p.posting, p.status)

/-- The card of a capture. -/
def PreyCapturedEvent.card (e : PreyCapturedEvent) : PreyCard :=
  ⟨e.preyId, e.territory, decodeReplace e.rawPosting, .awaitingVerdict, none, none⟩

/-- The cards that are projected are those of the captures. -/
theorem Paired.project_pen {t : Tables} (h : Paired t) (ht : t.Schema) (hour : Nat)
    (ceiling : Option ℚ) (schedule : List PyStr) :
    (project (t.readLogRows none) hour ceiling schedule).pen
      = t.captures.map PreyCapturedEvent.card := by
  have hascending : Ascending (t.readLogRows none) := by
    unfold Tables.readLogRows
    rw [Table.orderBy_of_sorted _ _ ht.eventsKey]
    refine ⟨List.pairwise_map.2 ht.eventsKey, fun row hrow => ?_⟩
    obtain ⟨r, hr, rfl⟩ := List.mem_map.1 hrow
    exact h.positive r hr
  rw [RexHunter.project_pen hascending]
  unfold RexHunter.captures Tables.captures Tables.readLogRows
  rw [Table.orderBy_of_sorted _ _ ht.eventsKey, List.filterMap_map, List.map_filterMap,
    List.map_filterMap]
  refine List.filterMap_congr (fun r _ => ?_)
  cases hevent : r.payload <;> simp [Tables.logRow, hevent, TrajectoryEvent.card,
    TrajectoryEvent.capture?, PreyCapturedEvent.card]

/-- What is said of captures and of their rows. -/
theorem map_eq_of_rows {β : Type} {f : PreyCapturedEvent → β} {g : Prey → β}
    {events : List PreyCapturedEvent} {rows : List Prey} (h : List.Forall₂ RowOf events rows)
    (hfg : ∀ e p, p ∈ rows → RowOf e p → f e = g p) : events.map f = rows.map g := by
  induction h with
  | nil => rfl
  | cons hrow _ ih =>
      rw [List.map_cons, List.map_cons, hfg _ _ List.mem_cons_self hrow,
        ih (fun e p hp => hfg e p (List.mem_cons_of_mem _ hp))]

/-- The board shows the rows. -/
theorem Paired.board_pen {t : Tables} (h : Paired t) (ht : t.Schema) (hour : Nat)
    (ceiling : Option ℚ) (schedule : List PyStr) :
    (t.buildViewstate hour none ceiling schedule).pen.map PreyCard.record
      = t.prey.map Prey.record := by
  show ((project (t.readLogRows none) hour ceiling schedule).pen.map t.overlayCard).map _ = _
  rw [h.project_pen ht, List.map_map, List.map_map]
  refine map_eq_of_rows h.rows (fun e p hp hrow => ?_)
  obtain ⟨hid, hterritory, hposting⟩ := hrow
  have hstatus : (fold (t.readPenEvents e.preyId)).1 = p.status := by
    rw [ht.readPenEvents, ← hid, ← h.pen.folded p hp]
    rfl
  have hrecord : (t.overlayCard e.card).record
      = (e.preyId, e.territory, decodeReplace e.rawPosting, (fold (t.readPenEvents e.preyId)).1) := rfl
  rw [Function.comp_apply, Function.comp_apply, hrecord, hstatus, ← hid, ← hterritory,
    Utf8.decodeReplace_encode hposting]
  rfl

section Agreement

variable [PyRuntime] [PydanticJson]

end Agreement

/-- A prey captured by hand and shelved, and one that a whole hunt caught and that is then let go. -/
def pennedRun : List PenAction :=
  [.startRun (py "x") none none (Env.calm [py "r"]),
    .capturePrey (py "r") (py "x") (py "Köln – 東京") true (Env.calm [py "p"]),
    .submitVerdict ⟨py "p", .amber, none, some (py "later")⟩ (Env.calm []),
    .runHunt oneCatch (Env.calm [py "s", py "q"]),
    .submitVerdict ⟨py "q", .release, some (py "no"), none⟩ (Env.calm [])]

end RexHunter
