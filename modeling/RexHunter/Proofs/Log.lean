import RexHunter.Proofs.Store

set_option autoImplicit false

/-! # The log table refines per-run lists under one global order

The abstract log is one list of `(run, event)` pairs in commit order, and a run's log is its
sub-list. The table computes `seq` inside the INSERT, from the rows of one run, and `id` from a
global counter that may have gaps; `LogRefines` says that the table holds exactly the abstract log,
with the sequence numbers of every run running from zero without a gap. -/

namespace RexHunter

open Session (execAll)

/-- One run's list. -/
def runLog (log : List (PyStr × TrajectoryEvent)) (runId : PyStr) : List TrajectoryEvent :=
  (log.filter (fun e => e.1 = runId)).map Prod.snd

/-- The rows of one run, in table order. -/
def Tables.runRows (t : Tables) (runId : PyStr) : List TrajectoryRow :=
  t.trajectoryEvents.filter (fun r => r.runId = runId)

/-- The table holds the abstract log. -/
structure LogRefines (log : List (PyStr × TrajectoryEvent)) (t : Tables) : Prop where
  rows : t.trajectoryEvents.map (fun r => (r.runId, r.payload)) = log
  seqs : ∀ runId, (t.runRows runId).map TrajectoryRow.seq = List.range (t.runRows runId).length

/-! ## One statement -/

/-- Over a gapless run the next `seq` is the number of its rows. -/
theorem Tables.nextSeq_eq {t : Tables} {runId : PyStr}
    (h : (t.runRows runId).map TrajectoryRow.seq = List.range (t.runRows runId).length) :
    t.nextSeq runId = (t.runRows runId).length := by
  have hmax : (List.range (t.runRows runId).length).max?
      = if (t.runRows runId).length = 0 then none else some ((t.runRows runId).length - 1) := by
    by_cases hn : (t.runRows runId).length = 0
    · rw [hn]
      rfl
    · rw [if_neg hn, List.max?_eq_some_iff]
      refine ⟨List.mem_range.2 (by omega), fun b hb => ?_⟩
      have hlt := List.mem_range.1 hb
      omega
  have hseqs : (t.trajectoryEvents.filter (fun r => r.runId = runId)).map TrajectoryRow.seq
      = List.range (t.runRows runId).length := h
  unfold nextSeq
  rw [hseqs, hmax]
  by_cases hn : (t.runRows runId).length = 0
  · rw [if_pos hn, hn]
  · rw [if_neg hn]
    show (t.runRows runId).length - 1 + 1 = _
    omega

/-- A statement that leaves the table alone appends nothing. -/
theorem LogRefines.of_rows_eq {log : List (PyStr × TrajectoryEvent)} {t t' : Tables}
    (h : LogRefines log t) (heq : t'.trajectoryEvents = t.trajectoryEvents) :
    LogRefines log t' where
  rows := by
    rw [heq]
    exact h.rows
  seqs := by
    intro runId
    unfold Tables.runRows
    rw [heq]
    exact h.seqs runId

/-- **The append step:** the row goes to the end of the table and to the end of its run. -/
theorem LogRefines.append {log : List (PyStr × TrajectoryEvent)} {t : Tables}
    (h : LogRefines log t) (runId : PyStr) (event : TrajectoryEvent) (createdAt : PyStr) (id : Nat) :
    LogRefines (log ++ [(runId, event)])
      { t with
        trajectoryEvents := t.trajectoryEvents ++
          [⟨id, runId, t.nextSeq runId, event.type, event, createdAt⟩]
        trajectorySeq := id } where
  rows := by
    rw [List.map_append, h.rows]
    rfl
  seqs := by
    intro other
    simp only [Tables.runRows, List.filter_append]
    by_cases hother : runId = other
    · subst hother
      have hseq : t.nextSeq runId = (t.runRows runId).length := Tables.nextSeq_eq (h.seqs runId)
      have hone : [(⟨id, runId, t.nextSeq runId, event.type, event, createdAt⟩ :
          TrajectoryRow)].filter (fun r => decide (r.runId = runId))
            = [⟨id, runId, t.nextSeq runId, event.type, event, createdAt⟩] :=
        List.filter_cons_of_pos (by simp)
      rw [hone, List.map_append, List.length_append, List.length_singleton, List.range_succ]
      exact congr_arg₂ (· ++ ·) (h.seqs runId) (by rw [List.map_singleton, hseq]; rfl)
    · have hnone : [(⟨id, runId, t.nextSeq runId, event.type, event, createdAt⟩ :
          TrajectoryRow)].filter (fun r => decide (r.runId = other)) = [] :=
        List.filter_cons_of_neg (by simp [hother])
      rw [hnone, List.append_nil]
      exact h.seqs other

/-- One statement of the code is one step of the abstract log. -/
theorem LogRefines.apply {log : List (PyStr × TrajectoryEvent)} {t t' : Tables} {s : Stmt}
    {c : Cursor} (h : LogRefines log t) (hs : s.apply t = .ok (c, t')) :
    LogRefines (log ++ s.appended.toList) t' := by
  by_cases hnone : s.appended = none
  · rw [hnone, Option.toList_none, List.append_nil]
    exact h.of_rows_eq (Stmt.apply_trajectoryEvents hs hnone)
  · cases s with
    | appendEvent runId event createdAt =>
        obtain ⟨_, _, rfl⟩ := Stmt.apply_appendEvent hs
        exact h.append runId event createdAt (t.trajectorySeq + 1)
    | _ => exact absurd rfl hnone

theorem LogRefines.execAll {ss : List Stmt} : ∀ {log : List (PyStr × TrajectoryEvent)} {db db' : Db},
    LogRefines log db.tables → Session.execAll Stmt.exec ss db = some db' →
    LogRefines (log ++ ss.filterMap Stmt.appended) db'.tables := by
  induction ss with
  | nil =>
      intro log db db' h hss
      cases hss
      rw [List.filterMap_nil, List.append_nil]
      exact h
  | cons s ss ih =>
      intro log db db' h hss
      simp only [Session.execAll] at hss
      cases hs : s.exec db with
      | error e =>
          rw [hs] at hss
          cases hss
      | ok p =>
          rw [hs] at hss
          have hstep := ih (h.apply (Stmt.exec_ok hs)) hss
          rw [List.append_assoc] at hstep
          cases happ : s.appended with
          | none =>
              rw [List.filterMap_cons_none happ]
              rwa [happ, Option.toList_none, List.nil_append] at hstep
          | some e =>
              rw [List.filterMap_cons_some happ]
              rwa [happ, Option.toList_some, List.singleton_append] at hstep

/-! ## Every reachable state -/

variable {W : Type} [DecidableEq W]

/-- The abstract log of a state: what was committed, in commit order. -/
def Store.log (st : Store W) : List (PyStr × TrajectoryEvent) :=
  st.history.filterMap Stmt.appended

/-- **The table refines the abstract log in every reachable state.** -/
theorem logRefines_reachable {st : Store W} (h : (store W).Reachable st) :
    LogRefines st.log st.db.tables := by
  refine (store W).invariant (P := fun st => LogRefines st.log st.db.tables) ?_ ?_ st h
  · intro st h₀
    unfold Store.log
    rw [h₀.history, h₀.db]
    exact ⟨rfl, fun _ => rfl⟩
  · intro st a st' hinv hstep
    unfold Store.log
    rcases Store.step_db hstep with ⟨ss, hexec, hhist⟩ | ⟨n, m, hdb, hhist⟩
    · rw [hhist, List.filterMap_append]
      exact hinv.execAll hexec
    · rw [hhist, hdb]
      exact hinv.of_rows_eq rfl

/-- A run's rows carry the same order by `id` and by `seq`. -/
theorem LogRefines.runRows_sorted {log : List (PyStr × TrajectoryEvent)} {t : Tables}
    (h : LogRefines log t) (runId : PyStr) :
    (t.runRows runId).Pairwise (fun a b => a.seq < b.seq) := by
  have hrange : ((t.runRows runId).map TrajectoryRow.seq).Pairwise (· < ·) := by
    rw [h.seqs runId]
    exact List.pairwise_lt_range
  exact List.pairwise_map.1 hrange

theorem LogRefines.runRows_payload {log : List (PyStr × TrajectoryEvent)} {t : Tables}
    (h : LogRefines log t) (runId : PyStr) :
    (t.runRows runId).map TrajectoryRow.payload = runLog log runId := by
  unfold runLog Tables.runRows
  rw [← h.rows, List.filter_map, List.map_map]
  rfl

/-- Two runs interleaved; one capture is cancelled before its commit. -/
def twoRuns : List (StoreAction Unit) :=
  [.call (.startRun (py "x") none none) (Env.calm [py "r1"]),
    .call (.startRun (py "y") none none) (Env.calm [py "r2"]),
    .call (.hunt (py "r1") [.append (.sniff ⟨py "a"⟩)]) (Env.calm []),
    .call (.hunt (py "r2") [.capture (py "y") (py "job")]) (Env.calm [py "p"]),
    .call (.hunt (py "r1") [.capture (py "x") (py "job")])
      { Env.calm [py "q"] with faults := [.none, .none, .cancel false] },
    .burnIds 3 0,
    .call (.hunt (py "r1") [.append (.sniff ⟨py "b"⟩)]) (Env.calm [])]

end RexHunter
