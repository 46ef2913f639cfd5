import RexHunter.Implementation.Viewstate
import RexHunter.Proofs.Log

set_option autoImplicit false

/-! # The reducer and its two cursors

Folding is idempotent on the global id, so any at-least-once delivery of a log, in pieces resumed
from any earlier accumulator, folds to the log (`redelivery_folds_to_log`). And what the fold makes
of one run depends on the rows of that run alone, so the run looks the same from the global cursor
and from its own (`ghost_equals_live`). -/

namespace RexHunter

/-! ## Accumulators on the heap -/

namespace Heap

theorem modify_last (cells : List Accumulator) (acc : Accumulator)
    (f : Accumulator → Accumulator) :
    (cells ++ [acc]).modify cells.length f = cells ++ [f acc] := by
  induction cells with
  | nil => rfl
  | cons c cells ih => simp [ih]

theorem foldl_step (cells : List Accumulator) (rows : List LogRow) : ∀ acc : Accumulator,
    rows.foldl (step cells.length) ⟨cells ++ [acc]⟩
      = ⟨cells ++ [rows.foldl Accumulator.step acc]⟩ := by
  induction rows with
  | nil => intro acc; rfl
  | cons row rows ih =>
      intro acc
      have hstep : step cells.length ⟨cells ++ [acc]⟩ row = ⟨cells ++ [acc.step row]⟩ := by
        unfold step
        rw [modify_last]
      rw [List.foldl_cons, List.foldl_cons, hstep, ih]

/-- **`fold` fills a new cell** and touches no other. -/
theorem fold_eq (h : Heap) (rows : List LogRow) :
    h.fold rows = (h.cells.length, ⟨h.cells ++ [rows.foldl Accumulator.step .new]⟩) := by
  simp only [fold, alloc, foldl_step]

/-- **`fold_from` fills a new cell** from the old one, and touches no other. -/
theorem foldFrom_eq {h : Heap} {a : Nat} {acc : Accumulator} (hread : h.read a = some acc)
    (rows : List LogRow) :
    h.foldFrom a rows
      = some (h.cells.length, ⟨h.cells ++ [rows.foldl Accumulator.step acc]⟩) := by
  simp only [foldFrom, hread, alloc, foldl_step]

theorem read_last (cells : List Accumulator) (acc : Accumulator) :
    (⟨cells ++ [acc]⟩ : Heap).read cells.length = some acc := by
  simp [read]

theorem read_append {cells : List Accumulator} {a : Nat} {acc : Accumulator}
    (h : (⟨cells⟩ : Heap).read a = some acc) (more : List Accumulator) :
    (⟨cells ++ more⟩ : Heap).read a = some acc := by
  have hlt : a < cells.length := (List.getElem?_eq_some_iff.1 h).1
  unfold read at h ⊢
  rw [List.getElem?_append_left hlt]
  exact h

/-- `fold_from` over the pieces, each on the accumulator the one before returned. -/
def resume (h : Heap) (a : Nat) : List (List LogRow) → Option (Nat × Heap)
  | [] => some (a, h)
  | rows :: rest =>
      match h.foldFrom a rows with
      | none => none
      | some (b, h) => h.resume b rest

theorem resume_spec (rest : List (List LogRow)) : ∀ {h : Heap} {a : Nat} {acc : Accumulator},
    h.read a = some acc → ∃ b more, h.resume a rest = some (b, ⟨h.cells ++ more⟩) ∧
      (⟨h.cells ++ more⟩ : Heap).read b = some (rest.flatten.foldl Accumulator.step acc) := by
  induction rest with
  | nil =>
      intro h a acc hread
      refine ⟨a, [], ?_, ?_⟩
      · simp [resume]
      · simpa using hread
  | cons rows rest ih =>
      intro h a acc hread
      obtain ⟨b, more, hresume, hlast⟩ :=
        ih (read_last h.cells (rows.foldl Accumulator.step acc))
      refine ⟨b, rows.foldl Accumulator.step acc :: more, ?_, ?_⟩
      · simp only [resume, foldFrom_eq hread, hresume, List.append_assoc, List.singleton_append]
      · rw [List.flatten_cons, List.foldl_append, ← hlast, List.append_assoc,
          List.singleton_append]

theorem resume_append {done : List (List LogRow)} : ∀ {h h₁ : Heap} {a b : Nat},
    h.resume a done = some (b, h₁) → ∀ todo, h.resume a (done ++ todo) = h₁.resume b todo := by
  induction done with
  | nil =>
      intro h h₁ a b hdone todo
      cases hdone
      rfl
  | cons rows done ih =>
      intro h h₁ a b hdone todo
      simp only [resume, List.cons_append] at hdone ⊢
      split at hdone
      · cases hdone
      · exact ih hdone todo

end Heap

/-! ## Replays are no-ops -/

theorem Accumulator.step_highWater (acc : Accumulator) (row : LogRow) :
    (acc.step row).highWater = max acc.highWater row.id := by
  unfold step
  split
  · next hle => exact (Nat.max_eq_left hle).symm
  · next hlt => exact (Nat.max_eq_right (Nat.le_of_lt (Nat.lt_of_not_le hlt))).symm

/-- The high-water mark covers every row that was folded in. -/
theorem id_le_highWater {row : LogRow} {rows : List LogRow} (h : row ∈ rows) :
    ∀ acc : Accumulator, row.id ≤ (rows.foldl Accumulator.step acc).highWater := by
  have hgrow : ∀ (rows : List LogRow) (acc : Accumulator),
      acc.highWater ≤ (rows.foldl Accumulator.step acc).highWater := by
    intro rows
    induction rows with
    | nil => exact fun _ => Nat.le_refl _
    | cons r rs ih =>
        intro acc
        refine Nat.le_trans ?_ (ih (acc.step r))
        rw [Accumulator.step_highWater]
        exact Nat.le_max_left ..
  induction rows with
  | nil => cases h
  | cons r rs ih =>
      intro acc
      rcases List.mem_cons.1 h with rfl | h
      · refine Nat.le_trans ?_ (hgrow rs (acc.step row))
        rw [Accumulator.step_highWater]
        exact Nat.le_max_right ..
      · exact ih h (acc.step r)

/-- **A row that was folded in already changes nothing.** -/
theorem step_replay {row : LogRow} {rows : List LogRow} (h : row ∈ rows) (acc : Accumulator) :
    (rows.foldl Accumulator.step acc).step row = rows.foldl Accumulator.step acc :=
  if_pos (id_le_highWater h acc)

/-- `D` delivers the log at least once: every row of it is the next one of the log, or one that
    was delivered before. -/
inductive Delivery : List LogRow → List LogRow → Prop
  | nil : Delivery [] []
  | next {L D : List LogRow} (row : LogRow) : Delivery L D → Delivery (L ++ [row]) (D ++ [row])
  | again {L D : List LogRow} {row : LogRow} : Delivery L D → row ∈ L → Delivery L (D ++ [row])

theorem Delivery.foldl_eq {L D : List LogRow} (h : Delivery L D) :
    D.foldl Accumulator.step .new = L.foldl Accumulator.step .new := by
  induction h with
  | nil => rfl
  | next row _ ih => rw [List.foldl_append, List.foldl_append, ih]
  | again _ hrow ih =>
      rw [List.foldl_append, ih]
      exact step_replay hrow .new

/-- **At-least-once delivery folds to the log.** However the delivery is cut, folding the first piece
    and resuming over the others ends with the accumulator of the log, so with the log's view for
    every clock, ceiling and schedule; and no call of `fold_from` changes an accumulator that
    existed before it. -/
theorem redelivery_folds_to_log {L D first : List LogRow} {rest : List (List LogRow)}
    (hdelivery : Delivery L D) (hcut : first ++ rest.flatten = D) (h : Heap) :
    ∃ b h', (h.fold first).2.resume (h.fold first).1 rest = some (b, h') ∧
      h'.read b = (h.fold L).2.read (h.fold L).1 ∧
      (∀ acc, h'.read b = some acc → ∀ hour ceiling schedule,
        finalize acc hour ceiling schedule = project L hour ceiling schedule) ∧
      ∀ done todo, rest = done ++ todo → ∃ a h₁, (h.fold first).2.resume (h.fold first).1 done
          = some (a, h₁) ∧ h₁.resume a todo = some (b, h') ∧
        ∀ a' acc, h₁.read a' = some acc → h'.read a' = some acc := by
  have hvalue : ∀ rest : List (List LogRow),
      rest.flatten.foldl Accumulator.step (first.foldl Accumulator.step .new)
        = (first ++ rest.flatten).foldl Accumulator.step .new :=
    fun rest => List.foldl_append.symm
  rw [Heap.fold_eq]
  have hfirst := Heap.read_last h.cells (first.foldl Accumulator.step .new)
  obtain ⟨b, more, hresume, hread⟩ := Heap.resume_spec rest hfirst
  rw [hvalue, hcut, hdelivery.foldl_eq] at hread
  refine ⟨b, _, hresume, ?_, ?_, ?_⟩
  · rw [hread, Heap.fold_eq]
    exact (Heap.read_last _ _).symm
  · intro acc hacc hour ceiling schedule
    rw [hread, Option.some.injEq] at hacc
    rw [← hacc]
    rfl
  · rintro done todo rfl
    obtain ⟨a, made, hdone, hmid⟩ := Heap.resume_spec done hfirst
    obtain ⟨b', more', htodo, _⟩ := Heap.resume_spec todo hmid
    have hall := Heap.resume_append hdone todo
    rw [hresume, htodo, Option.some.injEq, Prod.mk.injEq] at hall
    obtain ⟨rfl, hheap⟩ := hall
    refine ⟨a, _, hdone, ?_, fun a' acc hacc => ?_⟩
    · rw [htodo, hheap]
    · rw [hheap]
      exact Heap.read_append hacc more'

/-- Two rows; the second delivery starts over, the third repeats both. -/
def overheard : List LogRow :=
  [⟨1, 0, py "r", py "t", .thinkingDelta ⟨py "a"⟩⟩, ⟨2, 1, py "r", py "t", .thinkingDelta ⟨py "b"⟩⟩]

theorem overheard_folds_once : ∃ b h',
    (Heap.fold ⟨[]⟩ (overheard.take 1)).2.resume (Heap.fold ⟨[]⟩ (overheard.take 1)).1
        [overheard, overheard] = some (b, h') ∧
      h'.read b = (Heap.fold ⟨[]⟩ overheard).2.read (Heap.fold ⟨[]⟩ overheard).1 := by
  have hone := Delivery.next (⟨1, 0, py "r", py "t", .thinkingDelta ⟨py "a"⟩⟩ : LogRow) .nil
  have htwo := (hone.again (List.mem_singleton_self _)).next
    (⟨2, 1, py "r", py "t", .thinkingDelta ⟨py "b"⟩⟩ : LogRow)
  have hmem : ∀ row ∈ overheard, row ∈ overheard := fun _ h => h
  have hall := (htwo.again (hmem _ List.mem_cons_self)).again
    (hmem _ (List.mem_cons_of_mem _ List.mem_cons_self))
  obtain ⟨b, h', hresume, hread, _⟩ :=
    @redelivery_folds_to_log overheard _ (overheard.take 1) [overheard, overheard] hall rfl ⟨[]⟩
  exact ⟨b, h', hresume, hread⟩

/-! ## One run -/

/-- The state of a run after more of its events. -/
def runAfter (run : Option RunAcc) (events : List TrajectoryEvent) : Option RunAcc :=
  events.foldl (fun run event => some ((run.getD .new).apply event)) run

/-- The events of one run. -/
def eventsOf (rows : List LogRow) (runId : PyStr) : List TrajectoryEvent :=
  (rows.filter (fun row => row.runId = runId)).map LogRow.event

theorem runOf_setRun (runs : List (PyStr × RunAcc)) (runId : PyStr) (run : RunAcc)
    (other : PyStr) :
    runOf (setRun runs runId run) other = if runId = other then some run else runOf runs other := by
  induction runs with
  | nil =>
      by_cases h : runId = other <;> simp [setRun, runOf, h]
  | cons e es ih =>
      unfold setRun
      by_cases he : e.1 = runId
      · rw [if_pos he]
        by_cases h : runId = other
        · simp [runOf, h]
        · have hne : e.1 ≠ other := fun heq => h (he.symm.trans heq)
          simp [runOf, h, hne]
      · rw [if_neg he]
        by_cases heo : e.1 = other
        · have hne : runId ≠ other := fun heq => he (heo.trans heq.symm)
          simp [runOf, heo, hne]
        · have hfind : ∀ l, runOf (e :: l) other = runOf l other := by
            intro l
            simp [runOf, heo]
          rw [hfind, hfind, ih]

/-- Rows that come with increasing ids above the mark are all folded in. -/
theorem step_fresh {acc : Accumulator} {row : LogRow} (h : acc.highWater < row.id) :
    acc.step row = ({ acc with highWater := row.id } : Accumulator).apply row :=
  if_neg (Nat.not_le_of_lt h)

/-- **What the fold makes of a run depends on the rows of the run alone.** -/
theorem runOf_foldl {rows : List LogRow} (runId : PyStr) : ∀ {acc : Accumulator},
    rows.Pairwise (fun a b => a.id < b.id) → (∀ row ∈ rows, acc.highWater < row.id) →
    runOf (rows.foldl Accumulator.step acc).runs runId
      = runAfter (runOf acc.runs runId) (eventsOf rows runId) := by
  induction rows with
  | nil => exact fun _ _ => rfl
  | cons row rows ih =>
      intro acc hsorted hfresh
      obtain ⟨hrow, hrows⟩ := List.pairwise_cons.1 hsorted
      have hstep := step_fresh (hfresh row List.mem_cons_self)
      rw [List.foldl_cons, ih hrows ?_]
      · rw [hstep]
        simp only [Accumulator.apply, runOf_setRun, eventsOf]
        by_cases h : row.runId = runId
        · simp [h, runAfter]
        · simp [h]
      · intro r hr
        rw [Accumulator.step_highWater]
        exact Nat.max_lt.2 ⟨hfresh r (List.mem_cons_of_mem _ hr), hrow r hr⟩

/-- The pen is the cards of the rows, in order. -/
theorem pen_foldl {rows : List LogRow} : ∀ {acc : Accumulator},
    rows.Pairwise (fun a b => a.id < b.id) → (∀ row ∈ rows, acc.highWater < row.id) →
    (rows.foldl Accumulator.step acc).pen = acc.pen ++ rows.filterMap (fun row => row.event.card) := by
  induction rows with
  | nil => exact fun _ _ => (List.append_nil _).symm
  | cons row rows ih =>
      intro acc hsorted hfresh
      obtain ⟨hrow, hrows⟩ := List.pairwise_cons.1 hsorted
      have hstep := step_fresh (hfresh row List.mem_cons_self)
      rw [List.foldl_cons, ih hrows ?_]
      · rw [hstep]
        cases hcard : row.event.card <;> simp [Accumulator.apply, hcard]
      · intro r hr
        rw [Accumulator.step_highWater]
        exact Nat.max_lt.2 ⟨hfresh r (List.mem_cons_of_mem _ hr), hrow r hr⟩

theorem find_view (runs : List (PyStr × RunAcc)) (runId : PyStr) :
    (runs.map (fun e => e.2.view e.1)).find? (fun v => v.runId = runId)
      = (runOf runs runId).map (RunAcc.view runId) := by
  induction runs with
  | nil => rfl
  | cons e es ih =>
      by_cases h : e.1 = runId
      · simp [runOf, RunAcc.view, h]
      · have hview : (e.2.view e.1).runId ≠ runId := h
        simp only [List.map_cons, List.find?_cons, hview, decide_false, ih]
        simp [runOf, h]

/-! ## The two cursors -/

variable {W : Type} [DecidableEq W]

/-- The ids SQLite hands out start at one. -/
theorem ids_positive {st : Store W} (h : (store W).Reachable st) :
    ∀ r ∈ st.db.tables.trajectoryEvents, 0 < r.id := by
  refine tables_reachable (P := fun t => ∀ r ∈ t.trajectoryEvents, 0 < r.id) ?_ ?_ ?_ h
  · exact fun r hr => absurd hr List.not_mem_nil
  · intro s t t' c _ ht happly
    cases hnone : s.appended with
    | none =>
        rw [Stmt.apply_trajectoryEvents happly hnone]
        exact ht
    | some e =>
        cases s with
        | appendEvent runId event createdAt =>
            obtain ⟨_, _, rfl⟩ := Stmt.apply_appendEvent happly
            intro r hr
            rcases List.mem_append.1 hr with hr | hr
            · exact ht r hr
            · rw [List.mem_singleton.1 hr]
              exact Nat.succ_pos _
        | _ => cases hnone
  · exact fun _ _ _ hdb => hdb

/-- What the cursors have in common: the ids increase from one. -/
structure Ascending (rows : List LogRow) : Prop where
  sorted : rows.Pairwise (fun a b => a.id < b.id)
  positive : ∀ row ∈ rows, 0 < row.id

theorem Ascending.filter {rows : List LogRow} (h : Ascending rows) (p : LogRow → Bool) :
    Ascending (rows.filter p) :=
  ⟨h.sorted.filter p, fun row hrow => h.positive row (List.mem_of_mem_filter hrow)⟩

theorem readLogRows_live {st : Store W} (h : (store W).Reachable st) :
    Ascending (st.db.tables.readLogRows none) := by
  have hids := st.db.schema.eventsKey
  unfold Tables.readLogRows
  rw [Table.orderBy_of_sorted _ _ hids]
  refine ⟨List.pairwise_map.2 hids, fun row hrow => ?_⟩
  obtain ⟨r, hr, rfl⟩ := List.mem_map.1 hrow
  exact ids_positive h r hr

/-- **A run's own cursor reads the rows the global cursor reads of it**, in the same order. -/
theorem readLogRows_ghost {st : Store W} (h : (store W).Reachable st) (runId : PyStr) :
    st.db.tables.readLogRows (some runId)
      = (st.db.tables.readLogRows none).filter (fun row => row.runId = runId) := by
  have hseq := (logRefines_reachable h).runRows_sorted runId
  unfold Tables.readLogRows
  rw [Table.orderBy_of_sorted _ _ st.db.schema.eventsKey, List.filter_map]
  exact congrArg _ (Table.orderBy_of_sorted _ _ hseq)

/-- The cards of the rows, each with the run that captured it. -/
def captures (rows : List LogRow) : List (PyStr × PreyCard) :=
  rows.filterMap (fun row => row.event.card.map (fun card => (row.runId, card)))

theorem captures_filter (rows : List LogRow) (runId : PyStr) :
    captures (rows.filter (fun row => row.runId = runId))
      = (captures rows).filter (fun e => e.1 = runId) := by
  induction rows with
  | nil => rfl
  | cons row rows ih =>
      unfold captures at ih ⊢
      by_cases h : row.runId = runId
      · cases hcard : row.event.card <;> simp [h, hcard, ih]
      · cases hcard : row.event.card <;> simp [h, hcard, ih]

theorem project_pen {rows : List LogRow} (h : Ascending rows) (hour : Nat) (ceiling : Option ℚ)
    (schedule : List PyStr) :
    (project rows hour ceiling schedule).pen = (captures rows).map Prod.snd := by
  have hpen := @pen_foldl rows .new h.sorted h.positive
  refine hpen.trans ?_
  unfold captures
  rw [List.map_filterMap]
  refine (List.nil_append _).trans (List.filterMap_congr (fun row _ => ?_))
  cases row.event.card <;> rfl

theorem project_run {rows : List LogRow} (h : Ascending rows) (hour : Nat) (ceiling : Option ℚ)
    (schedule : List PyStr) (runId : PyStr) :
    (project rows hour ceiling schedule).runs.find? (fun v => v.runId = runId)
      = (runAfter none (eventsOf rows runId)).map (RunAcc.view runId) := by
  refine (find_view _ runId).trans (congrArg _ ?_)
  exact @runOf_foldl rows runId .new h.sorted h.positive

end RexHunter
