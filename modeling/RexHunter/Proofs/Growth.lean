import RexHunter.Proofs.Budget
import RexHunter.Proofs.Pen

set_option autoImplicit false

/-! # What a later state keeps

Whatever the parties around the database do, a captured posting stays in the pen as it was captured,
and only a verdict on it changes its row (`prey_steady`). The log is only ever appended to, so the
board of a later state has every card of an earlier one in its place, and none of them went back
(`board_grows`). -/

namespace RexHunter

variable {W : Type} [DecidableEq W]

/-! ## The pen -/

/-- The columns that `capture_prey` wrote. -/
structure Prey.SameCapture (p p' : Prey) : Prop where
  id : p'.id = p.id
  runId : p'.runId = p.runId
  territory : p'.territory = p.territory
  posting : p'.posting = p.posting
  capturedAt : p'.capturedAt = p.capturedAt

theorem Prey.SameCapture.refl (p : Prey) : p.SameCapture p := ⟨rfl, rfl, rfl, rfl, rfl⟩

theorem Prey.SameCapture.trans {p₁ p₂ p₃ : Prey} (h : p₁.SameCapture p₂) (h' : p₂.SameCapture p₃) :
    p₁.SameCapture p₃ :=
  ⟨h'.id.trans h.id, h'.runId.trans h.runId, h'.territory.trans h.territory,
    h'.posting.trans h.posting, h'.capturedAt.trans h.capturedAt⟩

/-- The step is a verdict on the prey. -/
def StoreAction.Judges (preyId : PyStr) : StoreAction W → Prop
  | .call (.submitVerdict request) _ => request.preyId = preyId
  | _ => False

/-- A quiet statement leaves every row of the pen as it is. -/
theorem Stmt.Quiet.mem_prey {s : Stmt} {t t' : Tables} {c : Cursor} {p : Prey} (hs : s.Quiet)
    (h : s.apply t = .ok (c, t')) (hp : p ∈ t.prey) : p ∈ t'.prey := by
  rcases (hs.apply h).2 with hsame | ⟨new, -, -, -, -, -, hnew⟩
  · rw [hsame]
    exact hp
  · rw [hnew]
    exact List.mem_append_left _ hp

/-- A verdict on another prey. -/
theorem mem_prey_of_other {db db' : Db} {request : VerdictEvent} {p : Prey}
    (happ : Applied request db db') (hid : request.preyId ≠ p.id) (hp : p ∈ db.tables.prey) :
    p ∈ db'.tables.prey := by
  obtain ⟨-, -, now, jobId, heq⟩ := happ
  rw [heq]
  refine Table.mem_updateWhere.2 ⟨p, hp, ?_⟩
  rw [if_neg]
  simp [hid.symm]

theorem Applied.sameCapture {db db' : Db} {request : VerdictEvent} {p : Prey}
    (happ : Applied request db db') (hp : p ∈ db.tables.prey) :
    ∃ p' ∈ db'.tables.prey, p.SameCapture p' := by
  obtain ⟨-, -, now, jobId, heq⟩ := happ
  rw [heq]
  refine ⟨_, Table.mem_updateWhere.2 ⟨p, hp, rfl⟩, ?_⟩
  split
  · exact ⟨rfl, rfl, rfl, rfl, rfl⟩
  · exact .refl p

theorem Store.unjudged_step {st st' : Store W} {a : StoreAction W} {p : Prey}
    (hp : p ∈ st.db.tables.prey) (ha : ¬ a.Judges p.id) (hstep : st.step a = some st') :
    p ∈ st'.db.tables.prey := by
  refine Store.step_tables_of (P := fun t => p ∈ t.prey) ?_ ?_ ?_ hstep hp
  · exact fun s t t' c hs _ hmem happly => hs.mem_prey happly hmem
  · rintro request env db' rfl happ
    exact mem_prey_of_other happ ha hp
  · exact fun _ _ _ hmem => hmem

/-- **Only a verdict moves a prey.** Over any steps of any parties a captured posting stays in the
    pen with its run, territory, text and time, and as long as no verdict on it is submitted its row
    does not change at all. -/
theorem prey_steady {st st' : Store W} {as : List (StoreAction W)}
    (hrun : (store W).run st as = some st') {p : Prey} (hp : p ∈ st.db.tables.prey) :
    (∃ p' ∈ st'.db.tables.prey, p.SameCapture p') ∧
      ((∀ a ∈ as, ¬ a.Judges p.id) → p ∈ st'.db.tables.prey) := by
  constructor
  · refine (store W).run_induction
      (motive := fun _ st' => ∃ p' ∈ st'.db.tables.prey, p.SameCapture p')
      ⟨p, hp, .refl p⟩ (fun _ t a u _ ih hstep => ?_) as st' hrun
    refine Store.step_tables (P := fun t => ∃ p' ∈ t.prey, p.SameCapture p') ?_ ?_ ?_ hstep ih
    · rintro s t t' c hs - ⟨p', hp', hsame⟩ happly
      exact ⟨p', hs.mem_prey happly hp', hsame⟩
    · rintro db db' request ⟨p', hp', hsame⟩ happ
      obtain ⟨p'', hp'', hsame'⟩ := happ.sameCapture hp'
      exact ⟨p'', hp'', hsame.trans hsame'⟩
    · exact fun _ _ _ hmem => hmem
  · refine (store W).run_induction
      (motive := fun as st' => (∀ a ∈ as, ¬ a.Judges p.id) → p ∈ st'.db.tables.prey)
      (fun _ => hp) (fun as t a u _ ih hstep hnone => ?_) as st' hrun
    exact Store.unjudged_step (ih (fun b hb => hnone b (List.mem_append_left _ hb)))
      (hnone a (List.mem_append_right _ (List.mem_singleton_self _))) hstep

/-- Two captured postings. -/
def twoPrey : List (StoreAction Unit) :=
  [.call (.startRun (py "x") none none) (Env.calm [py "r"]),
    .call (.hunt (py "r") [.capture (py "x") (py "job"), .capture (py "x") (py "gig")])
      (Env.calm [py "p", py "q"])]

/-- A verdict on the second, a crash, and the next boot. -/
def judgedAndBooted : List (StoreAction Unit) :=
  [.call (.submitVerdict ⟨py "q", .feast, none, none⟩) (Env.calm [py "j"]), .crash,
    .boot (Env.calm [])]

/-- Run one list of steps after the other, and read off both states. -/
def inTwoParts {α : Type} (as bs : List (StoreAction Unit)) (read : Store Unit → Store Unit → α) :
    Option α :=
  ((store Unit).run (Store.new Unit) as).bind fun st => ((store Unit).run st bs).map (read st)

theorem inTwoParts_some {α : Type} {as bs : List (StoreAction Unit)}
    {read : Store Unit → Store Unit → α} {a : α} (h : inTwoParts as bs read = some a) :
    ∃ st st', (store Unit).run (Store.new Unit) as = some st ∧ (store Unit).run st bs = some st' ∧
      read st st' = a := by
  obtain ⟨st, hst, h⟩ := Option.bind_eq_some_iff.1 h
  obtain ⟨st', hst', h⟩ := Option.map_eq_some_iff.1 h
  exact ⟨st, st', hst, hst', h⟩

theorem first_prey_steady : ∃ (st st' : Store Unit) (p : Prey), p ∈ st.db.tables.prey ∧
    (store Unit).run st judgedAndBooted = some st' ∧ p ∈ st'.db.tables.prey := by
  have hread : inTwoParts twoPrey judgedAndBooted
      (fun st _ => st.db.tables.prey.head?.map Prey.id) = some (some (py "p")) := by
    decide +kernel
  obtain ⟨st, st', -, hrun, hhead⟩ := inTwoParts_some hread
  obtain ⟨p, hp, hid⟩ := Option.map_eq_some_iff.1 hhead
  have hmem : p ∈ st.db.tables.prey := List.mem_of_head? hp
  refine ⟨st, st', p, hmem, hrun, (prey_steady hrun hmem).2 (fun a ha => ?_)⟩
  rw [hid]
  simp only [judgedAndBooted, List.mem_cons, List.not_mem_nil, or_false] at ha
  rcases ha with rfl | rfl | rfl
  · show ¬ py "q" = py "p"
    decide
  · exact id
  · exact id

/-! ## The fold -/

/-- What a run's card shows only grows. -/
structure RunAcc.Grows (run run' : RunAcc) : Prop where
  thinking : run.thinking <+: run'.thinking
  preyCount : run.preyCount ≤ run'.preyCount
  errorCount : run.errorCount ≤ run'.errorCount
  turns : run.turns ≤ run'.turns

theorem RunAcc.Grows.refl (run : RunAcc) : run.Grows run :=
  ⟨List.prefix_rfl, Nat.le_refl _, Nat.le_refl _, Nat.le_refl _⟩

theorem RunAcc.Grows.trans {r₁ r₂ r₃ : RunAcc} (h : r₁.Grows r₂) (h' : r₂.Grows r₃) :
    r₁.Grows r₃ :=
  ⟨h.thinking.trans h'.thinking, Nat.le_trans h.preyCount h'.preyCount,
    Nat.le_trans h.errorCount h'.errorCount, Nat.le_trans h.turns h'.turns⟩

theorem RunAcc.grows_apply (run : RunAcc) (event : TrajectoryEvent) :
    run.Grows (run.apply event) := by
  cases event with
  | thinkingDelta e => exact ⟨List.prefix_append _ _, Nat.le_refl _, Nat.le_refl _, Nat.le_refl _⟩
  | toolCall e => exact ⟨List.prefix_rfl, Nat.le_refl _, Nat.le_refl _, Nat.le_succ _⟩
  | error e => exact ⟨List.prefix_rfl, Nat.le_refl _, Nat.le_succ _, Nat.le_refl _⟩
  | preyCaptured e => exact ⟨List.prefix_rfl, Nat.le_succ _, Nat.le_refl _, Nat.le_refl _⟩
  | sniff e => exact .refl run
  | toolResult e => exact ⟨List.prefix_rfl, Nat.le_refl _, Nat.le_refl _, Nat.le_refl _⟩
  | usage e => exact ⟨List.prefix_rfl, Nat.le_refl _, Nat.le_refl _, Nat.le_refl _⟩

/-- An assignment replaces the first entry with the key, in its place. -/
theorem getElem?_setRun {runs : List (PyStr × RunAcc)} {runId : PyStr} {run : RunAcc} :
    ∀ {i : Nat} {e : PyStr × RunAcc}, runs[i]? = some e →
      (setRun runs runId run)[i]? = some e ∨
        runOf runs runId = some e.2 ∧ (setRun runs runId run)[i]? = some (e.1, run) := by
  induction runs with
  | nil =>
      intro i e h
      cases h
  | cons f fs ih =>
      intro i e h
      unfold setRun
      by_cases hf : f.1 = runId
      · rw [if_pos hf]
        cases i with
        | zero =>
            cases h
            exact Or.inr ⟨by simp [runOf, hf], by simp [hf]⟩
        | succ i => exact Or.inl h
      · rw [if_neg hf]
        cases i with
        | zero => exact Or.inl h
        | succ i =>
            refine (ih (i := i) h).imp id (And.imp (fun hrun => ?_) id)
            simpa [runOf, hf] using hrun

/-- The accumulator of a longer log. -/
structure Accumulator.Grows (acc acc' : Accumulator) : Prop where
  highWater : acc.highWater ≤ acc'.highWater
  runs : ∀ (i : Nat) (e : PyStr × RunAcc), acc.runs[i]? = some e →
    ∃ run, acc'.runs[i]? = some (e.1, run) ∧ e.2.Grows run
  pen : acc.pen <+: acc'.pen

theorem Accumulator.Grows.refl (acc : Accumulator) : acc.Grows acc :=
  ⟨Nat.le_refl _, fun _ e he => ⟨e.2, he, .refl _⟩, List.prefix_rfl⟩

theorem Accumulator.Grows.trans {a₁ a₂ a₃ : Accumulator} (h : a₁.Grows a₂) (h' : a₂.Grows a₃) :
    a₁.Grows a₃ where
  highWater := Nat.le_trans h.highWater h'.highWater
  runs := by
    intro i e he
    obtain ⟨run, hrun, hgrows⟩ := h.runs i e he
    obtain ⟨run', hrun', hgrows'⟩ := h'.runs i _ hrun
    exact ⟨run', hrun', hgrows.trans hgrows'⟩
  pen := h.pen.trans h'.pen

theorem Accumulator.grows_step (acc : Accumulator) (row : LogRow) : acc.Grows (acc.step row) := by
  unfold Accumulator.step
  split
  · exact .refl acc
  · next hlt =>
      refine ⟨Nat.le_of_lt (Nat.lt_of_not_le hlt), fun i e he => ?_, List.prefix_append _ _⟩
      rcases getElem?_setRun he with hsame | ⟨hrun, hset⟩
      · exact ⟨e.2, hsame, .refl _⟩
      · refine ⟨_, hset, ?_⟩
        rw [hrun]
        exact RunAcc.grows_apply _ _

theorem Accumulator.grows_foldl (rows : List LogRow) : ∀ acc : Accumulator,
    acc.Grows (rows.foldl Accumulator.step acc) := by
  induction rows with
  | nil => exact fun acc => .refl acc
  | cons row rows ih => exact fun acc => (acc.grows_step row).trans (ih _)

/-! ## The board -/

/-- The card of a run, later. -/
structure RunView.Grows (v v' : RunView) : Prop where
  runId : v'.runId = v.runId
  territory : v'.territory = v.territory
  costCeilingUsd : v'.costCeilingUsd = v.costCeilingUsd
  maxIterations : v'.maxIterations = v.maxIterations
  outcome : v.outcome ≠ none → v'.outcome = v.outcome
  thinking : v.thinking <+: v'.thinking
  preyCount : v.preyCount ≤ v'.preyCount
  errorCount : v.errorCount ≤ v'.errorCount
  turns : v.turns ≤ v'.turns

/-- The card of a prey, later. -/
def PreyCard.SamePrey (c c' : PreyCard) : Prop :=
  c'.preyId = c.preyId ∧ c'.territory = c.territory ∧ c'.posting = c.posting

/-- The log is append-only. -/
theorem events_appended {st st' : Store W} {as : List (StoreAction W)}
    (hrun : (store W).run st as = some st') :
    st.db.tables.trajectoryEvents <+: st'.db.tables.trajectoryEvents := by
  refine tables_run (P := fun t => st.db.tables.trajectoryEvents <+: t.trajectoryEvents) ?_ ?_ hrun
    List.prefix_rfl
  · intro s t t' c _ hprefix happly
    cases hnone : s.appended with
    | none =>
        rw [Stmt.apply_trajectoryEvents happly hnone]
        exact hprefix
    | some e =>
        cases s with
        | appendEvent runId event createdAt =>
            obtain ⟨-, -, rfl⟩ := Stmt.apply_appendEvent happly
            exact hprefix.trans (List.prefix_append _ _)
        | _ => cases hnone
  · exact fun _ _ _ hprefix => hprefix

theorem readLogRows_grows {t t' : Tables} (ht : t.Schema) (ht' : t'.Schema)
    (h : t.trajectoryEvents <+: t'.trajectoryEvents) :
    t.readLogRows none <+: t'.readLogRows none := by
  unfold Tables.readLogRows
  rw [Table.orderBy_of_sorted _ _ ht.eventsKey, Table.orderBy_of_sorted _ _ ht'.eventsKey]
  exact h.map _

theorem boardAcc_grows {t t' : Tables} (ht : t.Schema) (ht' : t'.Schema)
    (h : t.trajectoryEvents <+: t'.trajectoryEvents) : t.boardAcc.Grows t'.boardAcc := by
  obtain ⟨more, hmore⟩ := readLogRows_grows ht ht' h
  unfold Tables.boardAcc
  rw [← hmore, List.foldl_append]
  exact Accumulator.grows_foldl more _

/-- What the card at a place is made from. -/
theorem Tables.board_card {t : Tables} (ht : t.Schema) {hour : Nat} {ceiling : Option ℚ}
    {schedule : List PyStr} {i : Nat} {view : RunView}
    (h : (t.buildViewstate hour none ceiling schedule).runs[i]? = some view) :
    ∃ e r, t.boardAcc.runs[i]? = some e ∧ r ∈ t.runs ∧ r.id = e.1 ∧
      view = t.overlayRun (e.2.view e.1) := by
  have hmap : ((t.boardAcc.runs.map (fun e => e.2.view e.1)).map t.overlayRun)[i]? = some view := h
  rw [List.getElem?_map, List.getElem?_map] at hmap
  obtain ⟨base, hbase, rfl⟩ := Option.map_eq_some_iff.1 hmap
  obtain ⟨e, he, rfl⟩ := Option.map_eq_some_iff.1 hbase
  have hrow : e.1 ∈ t.runs.map Run.id := by
    rcases keys_foldl _ (List.mem_map_of_mem (List.mem_of_getElem? he)) with
      hnil | ⟨row, hrow, hrun⟩
    · exact absurd hnil List.not_mem_nil
    · rw [← hrun]
      exact Tables.readLogRows_run ht hrow
  obtain ⟨r, hr, hid⟩ := List.mem_map.1 hrow
  exact ⟨e, r, he, hr, hid, rfl⟩

theorem Tables.overlayRun_eq {t : Tables} (ht : t.Schema) {r : Run} (hr : r ∈ t.runs)
    {view : RunView} (hid : r.id = view.runId) :
    t.overlayRun view = { view with
      territory := some r.territory
      outcome := r.outcome
      costCeilingUsd := r.costCeilingUsd
      maxIterations := r.maxIterations } := by
  unfold Tables.overlayRun
  rw [(Table.find_key_eq_some ht.runsKey).2 ⟨hr, hid⟩]

theorem overlayRun_grows {t t' : Tables} (ht : t.Schema) (ht' : t'.Schema) (hages : t.Ages t')
    {r : Run} (hr : r ∈ t.runs) {run run' : RunAcc} (hgrows : run.Grows run') :
    (t.overlayRun (run.view r.id)).Grows (t'.overlayRun (run'.view r.id)) := by
  obtain ⟨r', hr', hbecomes⟩ := hages r hr
  rw [Tables.overlayRun_eq ht hr rfl, Tables.overlayRun_eq ht' hr' hbecomes.id]
  refine ⟨rfl, congrArg some hbecomes.territory, hbecomes.costCeilingUsd, hbecomes.maxIterations,
    fun hout => ?_, hgrows.thinking, hgrows.preyCount, hgrows.errorCount, hgrows.turns⟩
  show r'.outcome = r.outcome
  rw [hbecomes.final hout]

/-- **The board only grows.** Of two boards, the later has every card of the earlier one in its
    place: a run's with the same territory and limits, an outcome once it has one, no fewer turns,
    captures and errors, and a text that goes on; a prey's with the same territory and posting. -/
theorem board_grows {st st' : Store W} {as : List (StoreAction W)}
    (hrun : (store W).run st as = some st') (hour hour' : Nat) (ceiling ceiling' : Option ℚ)
    (schedule schedule' : List PyStr) :
    (st.db.tables.buildViewstate hour none ceiling schedule).highWater
      ≤ (st'.db.tables.buildViewstate hour' none ceiling' schedule').highWater ∧
    (∀ (i : Nat) (v : RunView),
      (st.db.tables.buildViewstate hour none ceiling schedule).runs[i]? = some v →
        ∃ v', (st'.db.tables.buildViewstate hour' none ceiling' schedule').runs[i]? = some v' ∧
          v.Grows v') ∧
    ∀ (i : Nat) (c : PreyCard),
      (st.db.tables.buildViewstate hour none ceiling schedule).pen[i]? = some c →
        ∃ c', (st'.db.tables.buildViewstate hour' none ceiling' schedule').pen[i]? = some c' ∧
          c.SamePrey c' := by
  have hgrows := boardAcc_grows st.db.schema st'.db.schema (events_appended hrun)
  have hages : st.db.tables.Ages st'.db.tables :=
    tables_run (fun _ _ _ _ _ hages hs => hages.apply hs) (fun _ _ _ hages => hages) hrun
      (fun r hr => ⟨r, hr, Run.Becomes.refl r⟩)
  refine ⟨hgrows.highWater, fun i v hv => ?_, fun i c hc => ?_⟩
  · obtain ⟨e, r, he, hr, hid, rfl⟩ := Tables.board_card st.db.schema hv
    obtain ⟨run', hrun', hrungrows⟩ := hgrows.runs i e he
    refine ⟨st'.db.tables.overlayRun (run'.view e.1), ?_, ?_⟩
    · show ((st'.db.tables.boardAcc.runs.map (fun e => e.2.view e.1)).map
        st'.db.tables.overlayRun)[i]? = _
      rw [List.getElem?_map, List.getElem?_map, hrun']
      rfl
    · rw [← hid]
      exact overlayRun_grows st.db.schema st'.db.schema hages hr hrungrows
  · have hcards : (st.db.tables.boardAcc.pen.map st.db.tables.overlayCard)[i]? = some c := hc
    rw [List.getElem?_map] at hcards
    obtain ⟨card, hcard, rfl⟩ := Option.map_eq_some_iff.1 hcards
    obtain ⟨more, hmore⟩ := hgrows.pen
    refine ⟨st'.db.tables.overlayCard card, ?_, rfl, rfl, rfl⟩
    show (st'.db.tables.boardAcc.pen.map st'.db.tables.overlayCard)[i]? = _
    rw [← hmore, List.getElem?_map, List.getElem?_append_left, hcard]
    · rfl
    · exact (List.getElem?_eq_some_iff.1 hcard).1

/-- The hunt goes on and ends. -/
def huntGoesOn : List (StoreAction Unit) :=
  [.call (.hunt (py "r") [.append (.thinkingDelta ⟨py "hm"⟩)]) (Env.calm []),
    .call (.finishRun (py "r") .completed none) (Env.calm [])]

theorem card_grows : ∃ (st st' : Store Unit) (v v' : RunView),
    (store Unit).run st huntGoesOn = some st' ∧
      (st.db.tables.buildViewstate 12 none none []).runs[0]? = some v ∧
      (st'.db.tables.buildViewstate 12 none none []).runs[0]? = some v' ∧ v.Grows v' := by
  have hread : inTwoParts twoPrey huntGoesOn
      (fun st _ => (st.db.tables.buildViewstate 12 none none []).runs[0]?.isSome) = some true := by
    decide +kernel
  obtain ⟨st, st', -, hrun, hsome⟩ := inTwoParts_some hread
  obtain ⟨v, hv⟩ := Option.isSome_iff_exists.1 hsome
  obtain ⟨v', hv', hgrows⟩ := (board_grows hrun 12 12 none none [] []).2.1 0 v hv
  exact ⟨st, st', v, v', hrun, hv, hv', hgrows⟩

end RexHunter
