import RexHunter.Proofs.Log

set_option autoImplicit false

/-! # The life of a run

Three statements write a row of `runs`: the INSERT of `start_run`, and the UPDATEs of `finish_run`
and of the boot sweep, both guarded by `outcome IS NULL`. So a row is closed at most once, whoever
writes it. The sweep dates a run by its last event, and a run that logged none stays undated. -/

namespace RexHunter

open Session (Writing)
open Coro (Triple)

/-! ## One row -/

/-- What may become of a row: its input facts stay, and once it has an outcome it stays whole. -/
structure Run.Becomes (r r' : Run) : Prop where
  id : r'.id = r.id
  territory : r'.territory = r.territory
  startedAt : r'.startedAt = r.startedAt
  costCeilingUsd : r'.costCeilingUsd = r.costCeilingUsd
  maxIterations : r'.maxIterations = r.maxIterations
  final : r.outcome ≠ none → r' = r

theorem Run.Becomes.refl (r : Run) : r.Becomes r := ⟨rfl, rfl, rfl, rfl, rfl, fun _ => rfl⟩

theorem Run.Becomes.trans {r₁ r₂ r₃ : Run} (h : r₁.Becomes r₂) (h' : r₂.Becomes r₃) :
    r₁.Becomes r₃ where
  id := h'.id.trans h.id
  territory := h'.territory.trans h.territory
  startedAt := h'.startedAt.trans h.startedAt
  costCeilingUsd := h'.costCeilingUsd.trans h.costCeilingUsd
  maxIterations := h'.maxIterations.trans h.maxIterations
  final := by
    intro hout
    have heq := h.final hout
    rw [heq] at h'
    exact h'.final hout

/-- A date is a date of an outcome, and only a crash may be undated. -/
structure Run.Dated (r : Run) : Prop where
  closed : r.endedAt ≠ none → r.outcome ≠ none
  undated : r.outcome ≠ none → r.endedAt = none → r.outcome = some .crashed

/-- A row of a run that is still open. -/
def Run.Open (r : Run) : Prop := r.outcome = none ∧ r.endedAt = none

theorem Run.Open.dated {r : Run} (h : r.Open) : r.Dated :=
  ⟨fun hended => absurd h.2 hended, fun hout => absurd h.1 hout⟩

/-! ## One statement -/

/-- **What a statement does to `runs`:** nothing, one new open row, or an update that closes open
    rows. -/
theorem Stmt.apply_runs {s : Stmt} {t t' : Tables} {c : Cursor} (h : s.apply t = .ok (c, t')) :
    t'.runs = t.runs ∨
      (∃ id territory startedAt costCeilingUsd maxIterations,
        s = .insertRun id territory startedAt costCeilingUsd maxIterations ∧ t'.runs = t.runs ++
          [⟨id, territory, startedAt, none, none, none, costCeilingUsd, maxIterations⟩]) ∨
      ∃ p f, t'.runs = Table.updateWhere p f t.runs ∧
        ∀ r : Run, p r = true → r.Becomes (f r) ∧ (f r).Dated := by
  cases s with
  | insertRun id territory startedAt costCeilingUsd maxIterations =>
      obtain ⟨_, rfl⟩ := apply_insertRun h
      exact Or.inr (Or.inl ⟨_, _, _, _, _, rfl, rfl⟩)
  | finishRun endedAt outcome abortReason id =>
      cases h
      refine Or.inr (Or.inr ⟨_, _, rfl, fun r hr => ⟨⟨rfl, rfl, rfl, rfl, rfl, ?_⟩, ?_⟩⟩)
      · exact fun hout => absurd (of_decide_eq_true hr).2 hout
      · exact ⟨fun _ => Option.some_ne_none _, fun _ hnone => absurd hnone (Option.some_ne_none _)⟩
  | markCrashedRuns =>
      cases h
      refine Or.inr (Or.inr ⟨_, _, rfl, fun r hr => ⟨⟨rfl, rfl, rfl, rfl, rfl, ?_⟩, ?_⟩⟩)
      · exact fun hout => absurd (of_decide_eq_true hr) hout
      · exact ⟨fun _ => Option.some_ne_none _, fun _ _ => rfl⟩
  | appendEvent runId event createdAt =>
      obtain ⟨_, _, rfl⟩ := apply_appendEvent h
      exact Or.inl rfl
  | insertPrey id runId territory posting status capturedAt =>
      obtain ⟨_, _, rfl⟩ := apply_insertPrey h
      exact Or.inl rfl
  | insertPenEvent preyId event createdAt =>
      obtain ⟨_, rfl⟩ := apply_insertPenEvent h
      exact Or.inl rfl
  | insertJob id kind preyId status createdAt =>
      obtain ⟨_, _, rfl⟩ := apply_insertJob h
      exact Or.inl rfl
  | updatePrey | claimJob | completeJob | requeueRunningJobs =>
      cases h
      exact Or.inl rfl

/-- Every row of `t` has become a row of `t'`. -/
def Tables.Ages (t t' : Tables) : Prop := ∀ r ∈ t.runs, ∃ r' ∈ t'.runs, r.Becomes r'

theorem Tables.Ages.apply {t₀ t t' : Tables} {s : Stmt} {c : Cursor} (h : t₀.Ages t)
    (hs : s.apply t = .ok (c, t')) : t₀.Ages t' := by
  intro r₀ hr₀
  obtain ⟨r, hr, hbecomes⟩ := h r₀ hr₀
  rcases Stmt.apply_runs hs with heq | ⟨_, _, _, _, _, _, heq⟩ | ⟨p, f, heq, hupdate⟩
  · rw [heq]
    exact ⟨r, hr, hbecomes⟩
  · rw [heq]
    exact ⟨r, List.mem_append_left _ hr, hbecomes⟩
  · rw [heq]
    refine ⟨_, Table.mem_updateWhere.2 ⟨r, hr, rfl⟩, hbecomes.trans ?_⟩
    by_cases hp : p r = true
    · rw [if_pos hp]
      exact (hupdate r hp).1
    · rw [if_neg hp]
      exact Run.Becomes.refl r

theorem dated_apply {t t' : Tables} {s : Stmt} {c : Cursor} (h : ∀ r ∈ t.runs, r.Dated)
    (hs : s.apply t = .ok (c, t')) : ∀ r ∈ t'.runs, r.Dated := by
  rcases Stmt.apply_runs hs with heq | ⟨_, _, _, _, _, _, heq⟩ | ⟨p, f, heq, hupdate⟩
  · rw [heq]
    exact h
  · rw [heq]
    exact forall_mem_snoc h (Run.Open.dated ⟨rfl, rfl⟩)
  · rw [heq]
    intro r' hr'
    obtain ⟨r, hr, rfl⟩ := Table.mem_updateWhere.1 hr'
    by_cases hp : p r = true
    · rw [if_pos hp]
      exact (hupdate r hp).2
    · rw [if_neg hp]
      exact h r hr

/-! ## The boot sweep -/

/-- The rows after the sweep. -/
def Tables.swept (t : Tables) : List Run :=
  Table.updateWhere (fun r => decide (r.outcome = none))
    (fun r => { r with outcome := some .crashed, endedAt := t.lastEventAt r.id }) t.runs

/-- A sweep that returns has closed the open rows, and nothing else. -/
theorem bootSweep_triple (db : Db) :
    Triple (Writing db db) bootSweep (fun _ w => w.conn.committed.tables.runs = db.tables.swept)
      (fun _ _ => True) := by
  unfold bootSweep
  refine Triple.bind (Q := fun _ w => ∃ db', db'.tables.runs = db.tables.swept ∧ Writing db' db' w)
    ?_ (fun _ => Triple.of_exists (fun db' => Triple.of_and (fun hswept => ?_)))
  · refine Triple.seq Session.execute_writing (fun _ _ _ => trivial) (fun cursor => ?_)
    refine Triple.of_exists (fun v => Triple.of_and (fun hmark => ?_))
    have hv := Stmt.exec_ok hmark
    simp only [Stmt.apply, Except.ok.injEq, Prod.mk.injEq] at hv
    have hruns : v.tables.runs = db.tables.swept := by
      rw [← hv.2]
      rfl
    exact Triple.seq Session.commit_writing (fun _ _ _ => trivial)
      (fun _ => Triple.pure (fun w hw => ⟨v, hruns, hw⟩))
  · refine Triple.bind (Q := fun _ w => w.conn.committed.tables.runs = db.tables.swept) ?_
      (fun _ => Triple.pure (fun _ hw => hw))
    refine Triple.seq Session.execute_writing (fun _ _ _ => trivial) (fun cursor => ?_)
    refine Triple.of_exists (fun v => Triple.of_and (fun hrequeue => ?_))
    have hv := Stmt.exec_ok hrequeue
    simp only [Stmt.apply, Except.ok.injEq, Prod.mk.injEq] at hv
    have hruns : v.tables.runs = db.tables.swept := by
      rw [← hv.2]
      exact hswept
    refine Triple.seq Session.commit_writing (fun _ _ _ => trivial)
      (fun _ => Triple.pure (fun w hw => ?_))
    rw [hw.1]
    exact hruns

/-- A run has no last event if it has no event. -/
theorem Tables.lastEventAt_eq_none {t : Tables} {runId : PyStr} :
    t.lastEventAt runId = none ↔ ∀ row ∈ t.trajectoryEvents, row.runId ≠ runId := by
  unfold lastEventAt
  rw [maxText_eq_none, List.map_eq_nil_iff, List.filter_eq_nil_iff]
  simp

/-! ## The theorem -/

variable {W : Type} [DecidableEq W]

/-- A boot that comes up has swept. -/
theorem Store.boot_swept {st st' : Store W} {env : Env}
    (h : (store W).step st (.boot env) = some st')
    (hup : st'.up = true) : st'.db.tables.runs = st.db.tables.swept := by
  simp only [store, step] at h
  split at h
  · cases h
  · cases h
    have htriple := bootSweep_triple st.db (env.session st.db) ⟨rfl, rfl⟩
    cases hrun : bootSweep.exec (env.session st.db) with
    | mk r w =>
        rw [hrun] at htriple hup
        cases r with
        | ok _ => exact htriple
        | error e => cases hup

/-- **The life of a run.** Over any steps of any parties its input facts stay, and a closed row stays
    as it is; a date is a date of an outcome and only a crash may be undated; and after a sweep no
    run is open, and a run it closed is undated exactly if it had logged nothing. -/
theorem run_lifecycle {st : Store W} (h : (store W).Reachable st) :
    (∀ as st', (store W).run st as = some st' →
      ∀ r ∈ st.db.tables.runs, ∃ r' ∈ st'.db.tables.runs, r.Becomes r') ∧
    (∀ r ∈ st.db.tables.runs, r.Dated) ∧
    ∀ env st', (store W).step st (.boot env) = some st' → st'.up = true →
      (∀ r' ∈ st'.db.tables.runs, r'.outcome ≠ none) ∧
      ∀ r ∈ st.db.tables.runs, r.outcome = none → ∃ r' ∈ st'.db.tables.runs, r'.id = r.id ∧
        r'.outcome = some .crashed ∧
        (r'.endedAt = none ↔ ∀ row ∈ st.db.tables.trajectoryEvents, row.runId ≠ r.id) := by
  refine ⟨fun as st' hrun => ?_, ?_, fun env st' hboot hup => ?_⟩
  · refine tables_run (P := st.db.tables.Ages) ?_ ?_ hrun
      (fun r hr => ⟨r, hr, Run.Becomes.refl r⟩)
    · exact fun _ _ _ _ _ hages hs => hages.apply hs
    · exact fun _ _ _ hages => hages
  · refine tables_reachable (P := fun t => ∀ r ∈ t.runs, r.Dated) ?_ ?_ ?_ h
    · exact fun r hr => absurd hr List.not_mem_nil
    · exact fun _ _ _ _ _ hdated hs => dated_apply hdated hs
    · exact fun _ _ _ hdated => hdated
  · rw [Store.boot_swept hboot hup]
    constructor
    · intro r' hr'
      obtain ⟨r, _, rfl⟩ := Table.mem_updateWhere.1 hr'
      by_cases hopen : r.outcome = none
      · rw [if_pos (decide_eq_true hopen)]
        exact Option.some_ne_none _
      · rw [if_neg (by simpa using hopen)]
        exact hopen
    · intro r hr hopen
      refine ⟨_, Table.mem_updateWhere.2 ⟨r, hr, if_pos (decide_eq_true hopen)⟩, rfl, rfl, ?_⟩
      exact Tables.lastEventAt_eq_none

/-- Two runs, the second of which logs nothing. -/
def silentRun : List (StoreAction Unit) :=
  [.call (.startRun (py "x") none none) (Env.calm [py "r1"]),
    .call (.hunt (py "r1") [.append (.sniff ⟨py "a"⟩)]) (Env.calm []),
    .call (.startRun (py "y") none none) (Env.calm [py "r2"])]

/-- After a crash of both, the boot sweep dates the first and leaves the second undated. -/
theorem silentRun_undated : ¬ ∀ st, (store Unit).Reachable st → ∀ r ∈ st.db.tables.runs,
    r.endedAt ≠ none ↔ r.outcome ≠ none := by
  intro hclaim
  have hlast : ((store Unit).run (Store.new Unit) (silentRun ++ [.boot (Env.calm [])])).map
      (fun st => st.db.tables.runs.map (fun r => (r.endedAt, r.outcome)))
      = some [(some (py "t"), some .crashed), (none, some .crashed)] := by decide +kernel
  obtain ⟨st, hst, hrows⟩ := Option.map_eq_some_iff.1 hlast
  have hmem : ((none, some .crashed) : Option PyStr × Option RunOutcome)
      ∈ st.db.tables.runs.map (fun r => (r.endedAt, r.outcome)) := by
    rw [hrows]
    decide
  obtain ⟨r, hr, heq⟩ := List.mem_map.1 hmem
  simp only [Prod.mk.injEq] at heq
  have hreachable : (store Unit).Reachable st := ⟨_, _, Store.new_fresh, hst⟩
  refine (hclaim st hreachable r hr).2 ?_ heq.1
  rw [heq.2]
  exact Option.some_ne_none _

theorem silentRun_swept : ∃ st st', (store Unit).run (Store.new Unit) silentRun = some st ∧
    (store Unit).step st (.boot (Env.calm [])) = some st' ∧ st.db.tables.runs.length = 2 ∧
    ∀ r ∈ st.db.tables.runs, r.outcome = none → ∃ r' ∈ st'.db.tables.runs, r'.id = r.id ∧
      r'.outcome = some .crashed ∧
      (r'.endedAt = none ↔ ∀ row ∈ st.db.tables.trajectoryEvents, row.runId ≠ r.id) := by
  have hlength : ((store Unit).run (Store.new Unit) silentRun).map
      (fun st => st.db.tables.runs.length) = some 2 := by decide +kernel
  obtain ⟨st, hst, htwo⟩ := Option.map_eq_some_iff.1 hlength
  have hup : (((store Unit).run (Store.new Unit) silentRun).bind
      (fun st => (store Unit).step st (.boot (Env.calm [])))).map Store.up = some true := by
    decide +kernel
  obtain ⟨st', hboot, hup⟩ := Option.map_eq_some_iff.1 hup
  rw [hst, Option.bind_some] at hboot
  have hreachable : (store Unit).Reachable st := ⟨_, _, Store.new_fresh, hst⟩
  exact ⟨st, st', hst, hboot, htwo, ((run_lifecycle hreachable).2.2 _ st' hboot hup).2⟩

end RexHunter
