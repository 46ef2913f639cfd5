import RexHunter.Implementation.Cost
import RexHunter.Proofs.Store

set_option autoImplicit false

/-! # Usage in the log

What the two folds of `fold_cost`, over the log of a run and over the whole log, see of the
statements that write to it. -/

namespace RexHunter

open Session (Closed execAll)

/-! ## What an append does to the two reads -/

theorem Tables.readEvents_append (runId : PyStr) {t t' : Tables} {c : Cursor}
    {runId' createdAt : PyStr} {event : TrajectoryEvent}
    (h : (Stmt.appendEvent runId' event createdAt).apply t = .ok (c, t')) :
    t'.readEvents runId = t.readEvents runId ++ if runId' = runId then [event] else [] := by
  obtain ⟨_, _, rfl⟩ := Stmt.apply_appendEvent h
  simp only [readEvents, List.filter_append]
  by_cases hrun : runId' = runId
  · subst hrun
    have hlast : ∀ r ∈ t.trajectoryEvents.filter (fun r => r.runId = runId'),
        r.seq ≤ t.nextSeq runId' := by
      intro r hr
      obtain ⟨hr, hrun⟩ := List.mem_filter.1 hr
      exact Nat.le_of_lt (seq_lt_nextSeq hr (of_decide_eq_true hrun))
    simp only [List.filter_cons, List.filter_nil, decide_true, if_true]
    rw [Table.orderBy_snoc hlast]
    simp
  · simp [hrun]

/-- A statement that appends no event leaves every log alone. -/
theorem Tables.readEvents_unappended (runId : PyStr) {t t' : Tables} {c : Cursor} {s : Stmt}
    (h : s.apply t = .ok (c, t')) (hs : s.appended = none) :
    t'.readEvents runId = t.readEvents runId := by
  unfold readEvents
  rw [Stmt.apply_trajectoryEvents h hs]

theorem TrajectoryEvent.type_eq_usage_iff (event : TrajectoryEvent) :
    event.type = py "usage" ↔ event.usage?.isSome = true := by
  cases event with
  | usage e => exact ⟨fun _ => rfl, fun _ => rfl⟩
  | sniff | toolCall | toolResult | error | preyCaptured | thinkingDelta =>
      exact ⟨fun h => absurd h (by simp only [type]; decide), fun h => nomatch h⟩

theorem Tables.readUsage_append {t t' : Tables} {c : Cursor} {runId createdAt : PyStr}
    {event : TrajectoryEvent} (ht : t.Schema)
    (h : (Stmt.appendEvent runId event createdAt).apply t = .ok (c, t')) :
    t'.readUsage.filterMap TrajectoryEvent.usage?
      = t.readUsage.filterMap TrajectoryEvent.usage? ++ event.usage?.toList := by
  obtain ⟨_, _, rfl⟩ := Stmt.apply_appendEvent h
  simp only [readUsage, List.filter_append, List.filter_cons, List.filter_nil,
    event.type_eq_usage_iff]
  cases husage : event.usage? with
  | none => simp
  | some usage =>
      have hlast : ∀ r ∈ t.trajectoryEvents.filter (fun r => r.type = py "usage"),
          r.id ≤ t.trajectorySeq + 1 :=
        fun r hr => Nat.le_succ_of_le (ht.eventsIssued r (List.mem_filter.1 hr).1)
      simp only [Option.isSome_some, decide_true, if_true]
      rw [Table.orderBy_snoc hlast]
      simp [husage]

/-! ## What statements cost -/

/-- The usage a statement adds to the log. -/
def Stmt.usage? : Stmt → Option UsageEvent
  | appendEvent _ event _ => event.usage?
  | _ => none

/-- The usage a statement adds to the log of the run. -/
def Stmt.usageOn (runId : PyStr) : Stmt → Option UsageEvent
  | appendEvent runId' event _ => if runId' = runId then event.usage? else none
  | _ => none

theorem Stmt.usageOn_eq_none {s : Stmt} (h : s.usage? = none) (runId : PyStr) :
    s.usageOn runId = none := by
  cases s with
  | appendEvent runId' event now =>
      have hevent : event.usage? = none := h
      simp [usageOn, hevent]
  | _ => rfl

/-- What the statements add to the cost of the whole log. -/
def spent (ss : List Stmt) : ℚ := ((ss.filterMap Stmt.usage?).map costOf).sum

/-- What the statements add to the cost of the run. -/
def spentOn (runId : PyStr) (ss : List Stmt) : ℚ :=
  ((ss.filterMap (Stmt.usageOn runId)).map costOf).sum

@[simp] theorem spent_nil : spent [] = 0 := rfl

@[simp] theorem spentOn_nil (runId : PyStr) : spentOn runId [] = 0 := rfl

theorem spent_append (ss ss' : List Stmt) : spent (ss ++ ss') = spent ss + spent ss' := by
  simp [spent, List.filterMap_append]

theorem spentOn_append (runId : PyStr) (ss ss' : List Stmt) :
    spentOn runId (ss ++ ss') = spentOn runId ss + spentOn runId ss' := by
  simp [spentOn, List.filterMap_append]

@[simp] theorem spent_singleton (s : Stmt) : spent [s] = (s.usage?.map costOf).getD 0 := by
  cases h : s.usage? <;> simp [spent, h]

@[simp] theorem spentOn_singleton (runId : PyStr) (s : Stmt) :
    spentOn runId [s] = ((s.usageOn runId).map costOf).getD 0 := by
  cases h : s.usageOn runId <;> simp [spentOn, h]

theorem Stmt.usages_run (runId : PyStr) {s : Stmt} {t t' : Tables} {c : Cursor}
    (h : s.apply t = .ok (c, t')) :
    (t'.readEvents runId).filterMap TrajectoryEvent.usage?
      = (t.readEvents runId).filterMap TrajectoryEvent.usage? ++ (s.usageOn runId).toList := by
  cases hs : s.appended with
  | none =>
      have hrows := Stmt.apply_trajectoryEvents h hs
      have hnone : s.usageOn runId = none := by
        cases s with
        | appendEvent => cases hs
        | _ => rfl
      simp [Tables.readEvents, hrows, hnone]
  | some e =>
      cases s with
      | appendEvent runId' event now =>
          rw [t.readEvents_append runId h, List.filterMap_append]
          by_cases hrun : runId' = runId
          · cases husage : event.usage? <;> simp [usageOn, hrun, husage]
          · simp [usageOn, hrun]
      | _ => cases hs

theorem Stmt.usages_all {s : Stmt} {t t' : Tables} {c : Cursor} (ht : t.Schema)
    (h : s.apply t = .ok (c, t')) :
    t'.readUsage.filterMap TrajectoryEvent.usage?
      = t.readUsage.filterMap TrajectoryEvent.usage? ++ s.usage?.toList := by
  cases hs : s.appended with
  | none =>
      have hrows := Stmt.apply_trajectoryEvents h hs
      have hnone : s.usage? = none := by
        cases s with
        | appendEvent => cases hs
        | _ => rfl
      simp [Tables.readUsage, hrows, hnone]
  | some e =>
      cases s with
      | appendEvent runId' event now => exact t.readUsage_append ht h
      | _ => cases hs

/-- **A statement adds its usage to the cost of its run.** -/
theorem Stmt.foldCost_run (runId : PyStr) {s : Stmt} {t t' : Tables} {c : Cursor}
    (h : s.apply t = .ok (c, t')) :
    foldCost (t'.readEvents runId) = foldCost (t.readEvents runId) + spentOn runId [s] := by
  unfold foldCost
  rw [s.usages_run runId h, List.map_append, List.sum_append]
  cases husage : s.usageOn runId <;> simp [husage]

/-- **A statement adds its usage to the cost of the whole log.** -/
theorem Stmt.foldCost_all {s : Stmt} {t t' : Tables} {c : Cursor} (ht : t.Schema)
    (h : s.apply t = .ok (c, t')) :
    foldCost t'.readUsage = foldCost t.readUsage + spent [s] := by
  unfold foldCost
  rw [s.usages_all ht h, List.map_append, List.sum_append]
  cases husage : s.usage? <;> simp [husage]

theorem foldCost_execAll {ss : List Stmt} : ∀ {db db' : Db},
    execAll Stmt.exec ss db = some db' →
      (∀ runId, foldCost (db'.tables.readEvents runId)
        = foldCost (db.tables.readEvents runId) + spentOn runId ss) ∧
      foldCost db'.tables.readUsage = foldCost db.tables.readUsage + spent ss := by
  induction ss with
  | nil =>
      intro db db' h
      cases h
      simp
  | cons s ss ih =>
      intro db db' h
      simp only [execAll] at h
      cases hs : s.exec db with
      | error e =>
          rw [hs] at h
          cases h
      | ok r =>
          rw [hs] at h
          obtain ⟨hrun, hall⟩ := ih h
          have happly := Stmt.exec_ok hs
          constructor
          · intro runId
            have hcons : spentOn runId (s :: ss) = spentOn runId [s] + spentOn runId ss :=
              spentOn_append runId [s] ss
            rw [hrun runId, s.foldCost_run runId happly, hcons, add_assoc]
          · have hcons : spent (s :: ss) = spent [s] + spent ss := spent_append [s] ss
            rw [hall, s.foldCost_all db.schema happly, hcons, add_assoc]

/-! ## The log of a run -/

/-- The event a statement appends to the log of the run. -/
def Stmt.eventOn (runId : PyStr) (s : Stmt) : Option TrajectoryEvent :=
  s.appended.bind (fun e => if e.1 = runId then some e.2 else none)

theorem Stmt.readEvents_apply (runId : PyStr) {s : Stmt} {t t' : Tables} {c : Cursor}
    (h : s.apply t = .ok (c, t')) :
    t'.readEvents runId = t.readEvents runId ++ (s.eventOn runId).toList := by
  cases hs : s.appended with
  | none =>
      rw [t.readEvents_unappended runId h hs]
      simp [eventOn, hs]
  | some e =>
      cases s with
      | appendEvent runId' event now =>
          rw [t.readEvents_append runId h]
          by_cases hrun : runId' = runId <;> simp [eventOn, appended, hrun]
      | _ => cases hs

/-- **Statements append their events to the log of the run**, in order. -/
theorem readEvents_execAll (runId : PyStr) {ss : List Stmt} : ∀ {db db' : Db},
    execAll Stmt.exec ss db = some db' →
      db'.tables.readEvents runId
        = db.tables.readEvents runId ++ ss.filterMap (Stmt.eventOn runId) := by
  induction ss with
  | nil =>
      intro db db' h
      cases h
      exact (List.append_nil _).symm
  | cons s ss ih =>
      intro db db' h
      simp only [execAll] at h
      cases hs : s.exec db with
      | error e =>
          rw [hs] at h
          cases h
      | ok r =>
          rw [hs] at h
          rw [ih h, s.readEvents_apply runId (Stmt.exec_ok hs), List.append_assoc]
          cases hevent : s.eventOn runId <;> simp [hevent]

theorem foldCost_eventOn (runId : PyStr) (ss : List Stmt) :
    foldCost (ss.filterMap (Stmt.eventOn runId)) = spentOn runId ss := by
  have husage : ∀ s : Stmt, (s.eventOn runId).bind TrajectoryEvent.usage? = s.usageOn runId := by
    intro s
    cases s with
    | appendEvent runId' event now =>
        by_cases hrun : runId' = runId <;> simp [Stmt.eventOn, Stmt.appended, Stmt.usageOn, hrun]
    | _ => rfl
  unfold foldCost spentOn
  rw [List.filterMap_filterMap]
  simp only [husage]

/-! ## What a program may append to the log of a run -/

/-- What the operation appends to the log of the run satisfies `P`. -/
def AppendsOnly (runId : PyStr) (P : TrajectoryEvent → Prop) (op : Op) : Prop :=
  ∀ s event, op = .execute s → s.appended = some (runId, event) → P event

theorem appendsOnly_other {runId : PyStr} {P : TrajectoryEvent → Prop} {op : Op}
    (h : ∀ s, op ≠ .execute s) : AppendsOnly runId P op :=
  fun s _ hop => absurd hop (h s)

theorem appendsOnly_controls {runId : PyStr} (P : TrajectoryEvent → Prop) :
    Controls (AppendsOnly runId P) where
  commit := appendsOnly_other (fun _ h => nomatch h)
  rollback := appendsOnly_other (fun _ h => nomatch h)
  other := fun _ _ => appendsOnly_other (fun _ h => nomatch h)

/-- A statement that appends nothing. -/
theorem appendsOnly_unappended {runId : PyStr} {P : TrajectoryEvent → Prop} {s : Stmt}
    (h : s.appended = none) : AppendsOnly runId P (.execute s) := by
  intro s' event hop hevent
  cases hop
  rw [h] at hevent
  cases hevent

theorem appendsOnly_append {runId : PyStr} {P : TrajectoryEvent → Prop} {event : TrajectoryEvent}
    (h : P event) (now : PyStr) :
    AppendsOnly runId P (.execute (.appendEvent runId event now)) := by
  intro s event' hs hevent
  cases hs
  cases hevent
  exact h

/-- A property of the log of a run that the events `P` keep. -/
theorem log_closed {runId : PyStr} {P : TrajectoryEvent → Prop} {L : List TrajectoryEvent → Prop}
    (h : ∀ log event, L log → P event → L (log ++ [event])) :
    Closed Stmt.exec (AppendsOnly runId P) (OnTables (fun t => L (t.readEvents runId))) := by
  refine closed_onTables (fun s t t' c hs _ hlog happly => ?_)
  by_cases hevent : s.appended = none
  · rwa [Tables.readEvents_unappended runId happly hevent]
  · cases s with
    | appendEvent runId' event createdAt =>
        rw [Tables.readEvents_append runId happly]
        by_cases hrun : runId' = runId
        · subst hrun
          rw [if_pos rfl]
          exact h _ _ hlog (hs _ event rfl rfl)
        · rw [if_neg hrun, List.append_nil]
          exact hlog
    | _ => exact absurd rfl hevent

/-! ## A run that is not in the database -/

theorem Tables.Schema.readEvents_eq_nil {t : Tables} (h : t.Schema) {runId : PyStr}
    (hnew : runId ∉ t.runs.map Run.id) : t.readEvents runId = [] := by
  have hrows : t.trajectoryEvents.filter (fun r => r.runId = runId) = [] := by
    refine List.filter_eq_nil_iff.2 (fun r hr hrun => hnew ?_)
    rw [← of_decide_eq_true hrun]
    exact h.eventsRun _ (List.mem_map_of_mem hr)
  unfold readEvents
  rw [hrows]
  rfl

end RexHunter
