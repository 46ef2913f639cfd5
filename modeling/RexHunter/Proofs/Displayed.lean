import Mathlib.Algebra.BigOperators.Group.List.Basic
import RexHunter.Implementation.Scheduler
import RexHunter.Implementation.Viewstate
import RexHunter.Proofs.Usage
import RexHunter.Proofs.View

set_option autoImplicit false

/-! # Displayed spend is enforced spend

Three readers price the log: the board folds it by run in memory, the breaker of a run reads the run
by `seq`, and the daemon's gate reads the rows whose `type` column says `usage`. They see the same
usage events, each once. -/

namespace RexHunter

open Coro (Triple)

/-! ## The cost of a log -/

@[simp] theorem foldCost_nil : foldCost [] = 0 := rfl

theorem foldCost_append (l m : List TrajectoryEvent) :
    foldCost (l ++ m) = foldCost l + foldCost m := by
  simp [foldCost, List.filterMap_append]

theorem foldCost_cons (event : TrajectoryEvent) (l : List TrajectoryEvent) :
    foldCost (event :: l) = foldCost [event] + foldCost l :=
  foldCost_append [event] l

/-- Only the usage events count. -/
theorem foldCost_filter {l : List TrajectoryEvent} {p : TrajectoryEvent → Bool}
    (h : ∀ event, event.usage?.isSome = true → p event = true) :
    foldCost (l.filter p) = foldCost l := by
  unfold foldCost
  induction l with
  | nil => rfl
  | cons event l ih =>
      cases husage : event.usage? with
      | none => by_cases hp : p event = true <;> simp [hp, husage, ih]
      | some usage => simp [h event (by rw [husage]; rfl), husage, ih]

/-- What is added for one of the ids is added once. -/
theorem sum_single {ids : List PyStr} (hids : ids.Nodup) {k : PyStr} (hk : k ∈ ids) (x : ℚ) :
    (ids.map (fun id => if k = id then x else 0)).sum = x := by
  induction ids with
  | nil => exact absurd hk List.not_mem_nil
  | cons id ids ih =>
      obtain ⟨hid, hids⟩ := List.nodup_cons.1 hids
      rw [List.map_cons, List.sum_cons]
      by_cases h : k = id
      · have hzero : (ids.map (fun id => if k = id then x else 0)).sum = 0 := by
          refine List.sum_eq_zero (fun y hy => ?_)
          obtain ⟨id', hid', rfl⟩ := List.mem_map.1 hy
          refine if_neg (fun heq => hid ?_)
          rw [← h, heq]
          exact hid'
        rw [if_pos h, hzero, add_zero]
      · rw [if_neg h, zero_add, ih hids ((List.mem_cons.1 hk).resolve_left h)]

/-- A log is the logs of its runs, where each run is listed once. -/
theorem sum_foldCost {α : Type} {key : α → PyStr} {event : α → TrajectoryEvent} {ids : List PyStr}
    (hids : ids.Nodup) {rows : List α} (hkeys : ∀ r ∈ rows, key r ∈ ids) :
    (ids.map (fun id => foldCost ((rows.filter (fun r => key r = id)).map event))).sum
      = foldCost (rows.map event) := by
  induction rows with
  | nil => exact List.sum_eq_zero (by simp)
  | cons r rows ih =>
      have hone : ∀ id, foldCost (((r :: rows).filter (fun r => key r = id)).map event)
          = (if key r = id then foldCost [event r] else 0)
            + foldCost ((rows.filter (fun r => key r = id)).map event) := by
        intro id
        by_cases hr : key r = id
        · rw [List.filter_cons_of_pos (by simpa using hr), List.map_cons, foldCost_cons, if_pos hr]
        · rw [List.filter_cons_of_neg (by simpa using hr), if_neg hr, zero_add]
      simp only [hone]
      rw [List.sum_map_add, ih (fun s hs => hkeys s (List.mem_cons_of_mem _ hs)),
        sum_single hids (hkeys r List.mem_cons_self), List.map_cons,
        foldCost_cons (event r) (rows.map event)]

/-! ## The fold of the board -/

/-- The spend of the runs folded so far. -/
def booked (runs : List (PyStr × RunAcc)) : ℚ :=
  (runs.map (fun e => foldCost (e.2.usage.map .usage))).sum

theorem RunAcc.apply_usage (run : RunAcc) (event : TrajectoryEvent) :
    (run.apply event).usage = run.usage ++ event.usage?.toList := by
  cases event with
  | usage e => rfl
  | sniff | toolCall | toolResult | error | preyCaptured | thinkingDelta =>
      exact (List.append_nil _).symm

theorem foldCost_usages (events : List TrajectoryEvent) :
    foldCost ((events.filterMap TrajectoryEvent.usage?).map .usage) = foldCost events := by
  induction events with
  | nil => rfl
  | cons event events ih =>
      rw [foldCost_cons event]
      cases event with
      | usage e =>
          rw [← ih]
          exact foldCost_cons (.usage e) _
      | sniff | toolCall | toolResult | error | preyCaptured | thinkingDelta =>
          exact ih.trans (zero_add _).symm

theorem RunAcc.apply_cost (run : RunAcc) (event : TrajectoryEvent) :
    foldCost ((run.apply event).usage.map .usage)
      = foldCost (run.usage.map .usage) + foldCost [event] := by
  have hone : event.usage?.toList = [event].filterMap TrajectoryEvent.usage? := by
    cases h : event.usage? <;> simp [h]
  rw [run.apply_usage, List.map_append, foldCost_append, hone, foldCost_usages]

/-- **A row adds its cost to the book**, whether its run is new or not. -/
theorem booked_setRun (runs : List (PyStr × RunAcc)) (runId : PyStr) (event : TrajectoryEvent) :
    booked (setRun runs runId (((runOf runs runId).getD .new).apply event))
      = booked runs + foldCost [event] := by
  induction runs with
  | nil => simp [setRun, runOf, booked, RunAcc.apply_cost, RunAcc.new]
  | cons e runs ih =>
      unfold booked at ih ⊢
      by_cases h : e.1 = runId
      · simp [setRun, runOf, h, RunAcc.apply_cost, add_right_comm]
      · have hnext : runOf (e :: runs) runId = runOf runs runId := by simp [runOf, h]
        rw [hnext]
        simp only [setRun, if_neg h, List.map_cons, List.sum_cons]
        rw [ih, add_assoc]

theorem booked_foldl {rows : List LogRow} : ∀ {acc : Accumulator},
    rows.Pairwise (fun a b => a.id < b.id) → (∀ row ∈ rows, acc.highWater < row.id) →
    booked (rows.foldl Accumulator.step acc).runs
      = booked acc.runs + foldCost (rows.map LogRow.event) := by
  induction rows with
  | nil => exact fun _ _ => (add_zero _).symm
  | cons row rows ih =>
      intro acc hsorted hfresh
      obtain ⟨hrow, hrows⟩ := List.pairwise_cons.1 hsorted
      have hstep := step_fresh (hfresh row List.mem_cons_self)
      rw [List.foldl_cons, ih hrows]
      · rw [hstep, List.map_cons, foldCost_cons, ← add_assoc]
        exact congrArg (· + _) (booked_setRun acc.runs row.runId row.event)
      · intro next hnext
        rw [acc.step_highWater]
        exact max_lt (hfresh next (List.mem_cons_of_mem _ hnext)) (hrow next hnext)

/-- A row keeps the list of runs, or adds its own. -/
theorem setRun_keys (runs : List (PyStr × RunAcc)) (runId : PyStr) (run : RunAcc) :
    (setRun runs runId run).map Prod.fst = runs.map Prod.fst ∨
      runId ∉ runs.map Prod.fst ∧
        (setRun runs runId run).map Prod.fst = runs.map Prod.fst ++ [runId] := by
  induction runs with
  | nil => exact Or.inr ⟨List.not_mem_nil, rfl⟩
  | cons e runs ih =>
      unfold setRun
      by_cases h : e.1 = runId
      · rw [if_pos h]
        simp [h]
      · rw [if_neg h]
        rcases ih with ih | ⟨hnew, ih⟩
        · simp [ih]
        · right
          simp only [List.map_cons, ih, List.cons_append, List.mem_cons, not_or]
          exact ⟨⟨fun heq => h heq.symm, hnew⟩, trivial⟩

/-- The board lists a run once. -/
theorem runs_nodup (rows : List LogRow) : ∀ {acc : Accumulator}, (acc.runs.map Prod.fst).Nodup →
    ((rows.foldl Accumulator.step acc).runs.map Prod.fst).Nodup := by
  induction rows with
  | nil => exact fun h => h
  | cons row rows ih =>
      intro acc h
      refine ih ?_
      unfold Accumulator.step
      split
      · exact h
      · show ((setRun acc.runs row.runId _).map Prod.fst).Nodup
        rcases setRun_keys acc.runs row.runId _ with heq | ⟨hnew, heq⟩
        · rw [heq]
          exact h
        · rw [heq]
          exact nodup_append_key h hnew

/-- A run on the board is the fold of its rows. -/
theorem runOf_of_mem {runs : List (PyStr × RunAcc)} (h : (runs.map Prod.fst).Nodup)
    {e : PyStr × RunAcc} (he : e ∈ runs) : runOf runs e.1 = some e.2 := by
  unfold runOf
  rw [(Table.find_key_eq_some h).2 ⟨he, rfl⟩]
  rfl

theorem runAfter_usage (events : List TrajectoryEvent) : ∀ {run : Option RunAcc} {run' : RunAcc},
    runAfter run events = some run' →
    foldCost (run'.usage.map .usage)
      = foldCost ((run.getD .new).usage.map .usage) + foldCost events := by
  induction events with
  | nil =>
      intro run run' h
      cases h
      exact (add_zero _).symm
  | cons event events ih =>
      intro run run' h
      have hnext := @ih (some ((run.getD .new).apply event)) run' h
      rw [hnext, Option.getD_some, RunAcc.apply_cost, foldCost_cons event events, add_assoc]

/-! ## The theorem -/

variable {W : Type} [DecidableEq W]

/-- The `type` column says what the payload is. -/
theorem type_column {st : Store W} (h : (store W).Reachable st) :
    ∀ r ∈ st.db.tables.trajectoryEvents, r.type = r.payload.type := by
  refine tables_reachable (P := fun t => ∀ r ∈ t.trajectoryEvents, r.type = r.payload.type)
    ?_ ?_ ?_ h
  · exact fun r hr => absurd hr List.not_mem_nil
  · intro s t t' c _ ht happly
    cases hnone : s.appended with
    | none =>
        rw [Stmt.apply_trajectoryEvents happly hnone]
        exact ht
    | some e =>
        cases s with
        | appendEvent runId event createdAt =>
            obtain ⟨_, _, rfl⟩ := Stmt.apply_appendEvent happly
            exact forall_mem_snoc ht rfl
        | _ => cases hnone
  · exact fun _ _ _ hdb => hdb

theorem readUsage_cost {st : Store W} (h : (store W).Reachable st) :
    foldCost st.db.tables.readUsage
      = foldCost (st.db.tables.trajectoryEvents.map TrajectoryRow.payload) := by
  have htypes : st.db.tables.trajectoryEvents.filter (fun r => r.type = py "usage")
      = st.db.tables.trajectoryEvents.filter (fun r => r.payload.usage?.isSome) := by
    refine List.filter_congr (fun r hr => ?_)
    rw [type_column h r hr, Bool.eq_iff_iff, decide_eq_true_iff]
    exact r.payload.type_eq_usage_iff
  unfold Tables.readUsage
  have hsplit : (st.db.tables.trajectoryEvents.filter (fun r => r.payload.usage?.isSome)).map
      TrajectoryRow.payload
      = (st.db.tables.trajectoryEvents.map TrajectoryRow.payload).filter
          (fun event => event.usage?.isSome) := by
    rw [List.filter_map]
    rfl
  rw [Table.orderBy_of_sorted _ _ (st.db.schema.eventsKey.filter _), htypes, hsplit]
  exact foldCost_filter (fun _ husage => husage)

/-- The gate's figure, however its SELECT is met. -/
theorem daemonSpendUsd_returns {env : Env} {db : Db} {x : ℚ} {w : Sess}
    (h : daemonSpendUsd.exec (env.session db) = (.ok x, w)) : x = foldCost db.tables.readUsage := by
  have htriple : Triple (fun w : Sess => w.conn = Conn.opened db) daemonSpendUsd
      (fun x _ => x = foldCost db.tables.readUsage) (fun _ _ => True) := by
    refine Triple.bind (Q := fun events _ => events = db.tables.readUsage) ?_
      (fun events => Triple.pure (fun _ hw => congrArg foldCost hw))
    unfold readUsage select
    refine Session.await_triple (R := fun _ _ => True) ?_ (fun _ _ _ _ _ _ _ => trivial)
    intro w a c hw hact
    cases hact
    rw [hw]
    rfl
  exact htriple.ok rfl h

/-! ## The board -/

theorem foldCost_booked (runs : List (PyStr × RunAcc)) :
    foldCost ((runs.flatMap (fun e => e.2.usage)).map .usage) = booked runs := by
  induction runs with
  | nil => rfl
  | cons e runs ih =>
      rw [List.flatMap_cons, List.map_append, foldCost_append, ih]
      rfl

theorem Tables.overlayRun_runId (t : Tables) (view : RunView) :
    (t.overlayRun view).runId = view.runId := by
  unfold overlayRun
  split <;> rfl

theorem Tables.overlayRun_spentUsd (t : Tables) (view : RunView) :
    (t.overlayRun view).spentUsd = view.spentUsd := by
  unfold overlayRun
  split <;> rfl

/-- What the board folds: every row of the log, by `id`. -/
def Tables.boardAcc (t : Tables) : Accumulator := (t.readLogRows none).foldl Accumulator.step .new

/-- The board's view of a run, with the accumulator it was made from. -/
theorem Tables.mem_board_runs {t : Tables} {hour : Nat} {ceiling : Option ℚ} {schedule : List PyStr}
    {run : RunView} (h : run ∈ (t.buildViewstate hour none ceiling schedule).runs) :
    ∃ e ∈ t.boardAcc.runs, run.runId = e.1 ∧ run.spentUsd = foldCost (e.2.usage.map .usage) := by
  obtain ⟨view, hview, rfl⟩ := List.mem_map.1 h
  obtain ⟨e, he, rfl⟩ := List.mem_map.1 hview
  exact ⟨e, he, t.overlayRun_runId _, t.overlayRun_spentUsd _⟩

theorem board_total {st : Store W} (h : (store W).Reachable st) :
    booked st.db.tables.boardAcc.runs
      = foldCost (st.db.tables.trajectoryEvents.map TrajectoryRow.payload) := by
  have hrows := readLogRows_live h
  have hevents : (st.db.tables.readLogRows none).map LogRow.event
      = st.db.tables.trajectoryEvents.map TrajectoryRow.payload := by
    unfold Tables.readLogRows
    rw [Table.orderBy_of_sorted _ _ st.db.schema.eventsKey, List.map_map]
    rfl
  unfold Tables.boardAcc
  rw [booked_foldl hrows.sorted hrows.positive, hevents]
  exact zero_add _

/-- The log of a run, as its breaker reads it, is the run's rows in the order of the board. -/
theorem eventsOf_board {st : Store W} (h : (store W).Reachable st) (runId : PyStr) :
    eventsOf (st.db.tables.readLogRows none) runId = st.db.tables.readEvents runId := by
  have hseq := (logRefines_reachable h).runRows_sorted runId
  unfold eventsOf Tables.readEvents Tables.readLogRows
  rw [Table.orderBy_of_sorted _ _ st.db.schema.eventsKey, List.filter_map, List.map_map]
  exact congrArg _ (Table.orderBy_of_sorted _ _ hseq).symm

theorem board_run {st : Store W} (h : (store W).Reachable st) {e : PyStr × RunAcc}
    (he : e ∈ st.db.tables.boardAcc.runs) :
    foldCost (e.2.usage.map .usage) = foldCost (st.db.tables.readEvents e.1) := by
  have hrows := readLogRows_live h
  have hnodup : (st.db.tables.boardAcc.runs.map Prod.fst).Nodup :=
    runs_nodup _ (List.nodup_nil : ((Accumulator.new.runs).map Prod.fst).Nodup)
  have hrun := runOf_of_mem hnodup he
  have hfold := @runOf_foldl _ e.1 .new hrows.sorted hrows.positive
  rw [← eventsOf_board h]
  exact (runAfter_usage _ (hfold.symm.trans hrun)).trans (zero_add _)

/-- Two runs that are paid for, one of them by a model without a price. -/
def paidRuns : List (StoreAction Unit) :=
  [.call (.startRun (py "x") none none) (Env.calm [py "r1"]),
    .call (.startRun (py "y") none none) (Env.calm [py "r2"]),
    .call (.hunt (py "r1") [.append (.usage ⟨py "claude-sonnet-5", 1000000, 0⟩)]) (Env.calm []),
    .call (.hunt (py "r2") [.append (.usage ⟨py "other", 0, 1000000⟩)]) (Env.calm []),
    .call (.hunt (py "r1") [.append (.usage ⟨py "claude-sonnet-5", 0, 1000000⟩)]) (Env.calm [])]

end RexHunter
