import RexHunter.Proofs.Pen

set_option autoImplicit false

/-! # Replayed verdict requests

The only idempotency mechanism is the guard on the status. FEAST and RELEASE lead to statuses no
verdict leaves, so their replays are refused for ever; AMBER and REENTER lead to each other's
source, so a replay of either is refused only until the other one has been applied. -/

namespace RexHunter

open Session (Writing)

/-- Delivering the request on a connection without faults returns `False` and leaves `prey`,
    `pen_events` and `jobs` unchanged. -/
def NoOp (request : VerdictEvent) (env : Env) (db : Db) : Prop :=
  ∃ w, (submitVerdict request).exec (env.session db) = (.ok false, w) ∧
    w.conn.committed.tables.prey = db.tables.prey ∧
    w.conn.committed.tables.penEvents = db.tables.penEvents ∧
    w.conn.committed.tables.jobs = db.tables.jobs

/-- The verdict that takes a prey back to where this one applies. -/
def Verdict.undo : Verdict → Option Verdict
  | amber => some reenter
  | reenter => some amber
  | feast => none
  | release => none

/-- The verdict last logged for a prey. -/
def lastVerdict (log : List VerdictEvent) : Option Verdict := log.getLast?.map VerdictEvent.verdict

/-! ## The guard, read off the log -/

theorem noOp_iff_refused {request : VerdictEvent} {env : Env} {db : Db}
    (hformed : request.WellFormed) (hcalm : env.faults = []) :
    NoOp request env db ↔ ¬ db.tables.Accepts request := by
  constructor
  · rintro ⟨w, hrun, _⟩
    have hpost := (submitVerdict_triple db request).ok ⟨rfl, rfl⟩ hrun
    exact hpost.2
  · intro hacc
    have hpost := submitVerdict_refused hformed hacc (env.session db) ⟨hcalm, rfl, rfl⟩
    cases hrun : (submitVerdict request).exec (env.session db) with
    | mk r w =>
        rw [hrun] at hpost
        cases r with
        | error e => exact hpost.elim
        | ok applied =>
            obtain ⟨rfl, hdb⟩ := hpost
            refine ⟨w, hrun, ?_⟩
            rw [hdb]
            exact ⟨rfl, rfl, rfl⟩

/-- The guard matches exactly when the fold of the prey's log stands at the verdict's source. -/
theorem accepts_iff_fold {t : Tables} (h : PenInv t) {request : VerdictEvent}
    (hprey : request.preyId ∈ t.prey.map Prey.id) (ht : t.Schema) :
    t.Accepts request ↔ (fold (t.penLog request.preyId)).1 = request.verdict.source := by
  obtain ⟨p, hp, hid⟩ := List.mem_map.1 hprey
  have hstatus : p.status = (fold (t.penLog request.preyId)).1 := by
    have hfold := h.folded p hp
    rw [hid] at hfold
    rw [← hfold]
    rfl
  constructor
  · rintro ⟨q, hq, hqid, hqstatus⟩
    have hqp : some q = some p :=
      ((Table.find_key_eq_some ht.preyKey).2 ⟨hq, hqid⟩).symm.trans
        ((Table.find_key_eq_some ht.preyKey).2 ⟨hp, hid⟩)
    obtain rfl := Option.some.inj hqp
    rw [← hstatus]
    exact hqstatus
  · intro hfold
    exact ⟨p, hp, hid, hstatus.trans hfold⟩

/-- No verdict applies to a prey that was feasted or released. -/
theorem Verdict.target_of_undo_none {v u : Verdict} (h : v.undo = none) : v.target ≠ u.source := by
  cases v with
  | feast => cases u <;> decide
  | release => cases u <;> decide
  | amber => cases h
  | reenter => cases h

/-- A feast or a release is the last event of its log. -/
theorem Unskipped.last_of_undo_none {before after : List VerdictEvent} {event : VerdictEvent}
    (h : Unskipped (before ++ [event] ++ after)) (hundo : event.verdict.undo = none) :
    after = [] := by
  cases after with
  | nil => rfl
  | cons e rest =>
      have hprefix : before ++ [event] ++ [e] <+: before ++ [event] ++ e :: rest :=
        ⟨rest, by simp⟩
      have hnext : (fold (before ++ [event])).1 = e.verdict.source := h _ e hprefix
      have hsub : Unskipped (before ++ [event]) := fun b x hb =>
        h b x (hb.trans (List.prefix_append _ _))
      rw [fold_unskipped_snoc hsub] at hnext
      exact absurd hnext (Verdict.target_of_undo_none hundo)

/-- In the cycle, a verdict applies exactly after the one that undoes it. -/
theorem Verdict.target_eq_source_iff {last v : Verdict} (h : v.undo ≠ none) :
    last.target = v.source ↔ v.undo = some last := by
  cases v with
  | feast => exact absurd rfl h
  | release => exact absurd rfl h
  | amber => cases last <;> decide
  | reenter => cases last <;> decide

/-- **When a logged request is refused again:** unless the verdict last logged undoes it. -/
theorem fold_ne_source_iff {log : List VerdictEvent} {request : VerdictEvent}
    (h : Unskipped log) (hmem : request ∈ log) :
    (fold log).1 ≠ request.verdict.source ↔ lastVerdict log ≠ request.verdict.undo := by
  obtain ⟨before, after, hlog⟩ := List.append_of_mem hmem
  rcases List.eq_nil_or_concat log with hnil | ⟨init, last, hlast⟩
  · rw [hnil] at hmem
    exact absurd hmem List.not_mem_nil
  rw [List.concat_eq_append] at hlast
  have hfold : (fold log).1 = last.verdict.target := by
    rw [hlast] at h ⊢
    exact fold_unskipped_snoc h
  have hverdict : lastVerdict log = some last.verdict := by
    rw [hlast, lastVerdict, List.getLast?_concat]
    rfl
  rw [hfold, hverdict]
  by_cases hundo : request.verdict.undo = none
  · -- the request ended its log
    have hend : before ++ [request] ++ after = log := by rw [hlog, List.append_assoc]; rfl
    have hafter : after = [] := Unskipped.last_of_undo_none (hend ▸ h) hundo
    rw [hafter, hlast] at hlog
    obtain rfl := List.singleton_inj.1 (List.append_inj' hlog rfl).2
    rw [hundo]
    exact ⟨fun _ => by simp, fun _ => (Verdict.source_ne_target _).symm⟩
  · rw [ne_eq, ne_eq, Verdict.target_eq_source_iff hundo]
    exact not_congr eq_comm

/-! ## The log only grows -/

variable {W : Type} [DecidableEq W]

theorem Store.penLog_prefix_step {st st' : Store W} {a : StoreAction W}
    (h : st.step a = some st') (preyId : PyStr) :
    st.db.tables.penLog preyId <+: st'.db.tables.penLog preyId := by
  refine Store.step_tables (P := fun t => st.db.tables.penLog preyId <+: t.penLog preyId)
    ?_ ?_ ?_ h (List.prefix_refl _)
  · intro s t t' c hs _ hP happly
    have hsame : t'.penLog preyId = t.penLog preyId := by
      rw [Tables.penLog, (hs.apply happly).1, Tables.penLog]
    rw [hsame]
    exact hP
  · rintro db db' request hP ⟨_, _, now, jobId, heq⟩
    rw [heq, penLog_applyVerdict]
    split
    · exact hP.trans (List.prefix_append _ _)
    · exact hP
  · exact fun db n m hP => hP

theorem Store.penLog_prefix {st : Store W} (preyId : PyStr) :
    ∀ as st', (store W).run st as = some st' →
      st.db.tables.penLog preyId <+: st'.db.tables.penLog preyId :=
  (store W).run_induction (List.prefix_refl _)
    (fun _ _ _ _ _ ih hstep => ih.trans (Store.penLog_prefix_step hstep preyId))

/-- A request that changed the pen log was applied. -/
theorem Store.applied_of_logged {st st' : Store W} {request : VerdictEvent} {env : Env}
    (h : st.step (.call (.submitVerdict request) env) = some st')
    (hlogged : st'.db.tables.penEvents ≠ st.db.tables.penEvents) :
    Applied request st.db st'.db := by
  cases h
  rcases submitVerdict_committed env st.db request with heq | happ
  · refine absurd ?_ hlogged
    show ((Call.submitVerdict request).run.exec
      (env.session st.db)).2.conn.committed.tables.penEvents = _
    rw [heq]
  · exact happ

/-- **When a replayed verdict is harmless.** In every history, a request that was applied and is
    delivered again at any later point returns `False` and changes nothing if and only if the
    verdict last logged for the prey is not the one that undoes it — which for FEAST and RELEASE is
    always, since no verdict undoes them. -/
theorem replay_noOp_iff {st₁ st₂ st₃ : Store W} (h : (store W).Reachable st₁)
    {request : VerdictEvent} {env : Env}
    (hstep : (store W).step st₁ (.call (.submitVerdict request) env) = some st₂)
    (hlogged : st₂.db.tables.penEvents ≠ st₁.db.tables.penEvents) {later : List (StoreAction W)}
    (hrun : (store W).run st₂ later = some st₃) {env' : Env} (hcalm : env'.faults = []) :
    NoOp request env' st₃.db ↔
      lastVerdict (st₃.db.tables.readPenEvents request.preyId) ≠ request.verdict.undo := by
  have happ := Store.applied_of_logged hstep hlogged
  have hreach₃ : (store W).Reachable st₃ := by
    obtain ⟨st₀, as, h₀, hrun₀⟩ := Transition.System.Reachable.next (store W) h hstep
    refine ⟨st₀, as ++ later, h₀, ?_⟩
    rw [(store W).run_append, hrun₀]
    exact hrun
  have hinv := penInv_reachable hreach₃
  -- the applied request is in the log from then on
  have hmem : request ∈ st₃.db.tables.penLog request.preyId := by
    obtain ⟨_, _, now, jobId, heq⟩ := happ
    have hin : request ∈ st₂.db.tables.penLog request.preyId := by
      rw [heq, penLog_applyVerdict, if_pos rfl]
      exact List.mem_append_right _ (List.mem_singleton_self _)
    exact (Store.penLog_prefix request.preyId later st₃ hrun).subset hin
  have hprey : request.preyId ∈ st₃.db.tables.prey.map Prey.id := by
    by_contra hnot
    rw [st₃.db.schema.penLog_eq_nil hnot] at hmem
    exact absurd hmem List.not_mem_nil
  obtain ⟨p, hp, hid⟩ := List.mem_map.1 hprey
  have hunskipped : Unskipped (st₃.db.tables.penLog request.preyId) := hid ▸ hinv.unskipped p hp
  rw [noOp_iff_refused happ.1 hcalm, accepts_iff_fold hinv hprey st₃.db.schema,
    st₃.db.schema.readPenEvents]
  exact fold_ne_source_iff hunskipped hmem

/-! ## A shelved prey, taken back, and the first request delivered again -/

/-- An AMBER request. -/
def shelve : VerdictEvent := ⟨py "p", .amber, none, none⟩

def beforeShelve : List (StoreAction Unit) :=
  [.call (.startRun (py "x") none none) (Env.calm [py "r"]),
    .call (.hunt (py "r") [.capture (py "x") (py "job")]) (Env.calm [py "p"])]

/-- The request is applied, and then undone. -/
def takenBack : List (StoreAction Unit) :=
  [.call (.submitVerdict ⟨py "p", .reenter, none, none⟩) (Env.calm [])]

/-- Run `beforeShelve`, the AMBER and the REENTER, and read off each state. -/
def shelvedAndBack {α : Type} (read : Store Unit → Store Unit → Store Unit → α) : Option α :=
  ((store Unit).run (Store.new Unit) beforeShelve).bind fun st₁ =>
    ((store Unit).step st₁ (.call (.submitVerdict shelve) (Env.calm []))).bind fun st₂ =>
      ((store Unit).run st₂ takenBack).map (read st₁ st₂)

theorem shelvedAndBack_some {α : Type} {read : Store Unit → Store Unit → Store Unit → α} {a : α}
    (h : shelvedAndBack read = some a) : ∃ st₁ st₂ st₃, (store Unit).Reachable st₁ ∧
      (store Unit).step st₁ (.call (.submitVerdict shelve) (Env.calm [])) = some st₂ ∧
      (store Unit).run st₂ takenBack = some st₃ ∧ read st₁ st₂ st₃ = a := by
  obtain ⟨st₁, hrun₁, h⟩ := Option.bind_eq_some_iff.1 h
  obtain ⟨st₂, hstep, h⟩ := Option.bind_eq_some_iff.1 h
  obtain ⟨st₃, hrun₃, h⟩ := Option.map_eq_some_iff.1 h
  exact ⟨st₁, st₂, st₃, ⟨_, _, Store.new_fresh, hrun₁⟩, hstep, hrun₃, h⟩

/-- The applied AMBER, delivered again after the REENTER, is applied again. -/
theorem replayed_amber_applies : ∃ st₁ st₂ st₃ : Store Unit, (store Unit).Reachable st₁ ∧
    (store Unit).step st₁ (.call (.submitVerdict shelve) (Env.calm [])) = some st₂ ∧
    st₂.db.tables.penEvents ≠ st₁.db.tables.penEvents ∧
    (store Unit).run st₂ takenBack = some st₃ ∧ ¬ NoOp shelve (Env.calm []) st₃.db := by
  have hread : shelvedAndBack (fun st₁ st₂ st₃ =>
      (st₁.db.tables.penEvents.length, st₂.db.tables.penEvents.length,
        decide (st₃.db.tables.Accepts shelve))) = some (0, 1, true) := by
    decide +kernel
  obtain ⟨st₁, st₂, st₃, hreach, hstep, hrun, hread⟩ := shelvedAndBack_some hread
  simp only [Prod.mk.injEq, decide_eq_true_eq] at hread
  obtain ⟨hlength₁, hlength₂, hacc⟩ := hread
  refine ⟨st₁, st₂, st₃, hreach, hstep, ?_, hrun, ?_⟩
  · intro hsame
    rw [hsame] at hlength₂
    omega
  · rintro ⟨w, hexec, _⟩
    exact ((submitVerdict_triple st₃.db shelve).ok ⟨rfl, rfl⟩ hexec).2 hacc

/-- Right after it was applied, the AMBER is refused. -/
theorem amber_refused_at_once : ∃ st₁ st₂ : Store Unit,
    (store Unit).step st₁ (.call (.submitVerdict shelve) (Env.calm [])) = some st₂ ∧
    NoOp shelve (Env.calm []) st₂.db := by
  have hread : shelvedAndBack (fun st₁ st₂ _ =>
      (st₁.db.tables.penEvents.length, st₂.db.tables.penEvents.length,
        lastVerdict (st₂.db.tables.readPenEvents shelve.preyId))) = some (0, 1, some .amber) := by
    decide +kernel
  obtain ⟨st₁, st₂, st₃, hreach, hstep, _, hread⟩ := shelvedAndBack_some hread
  simp only [Prod.mk.injEq] at hread
  obtain ⟨hlength₁, hlength₂, hlast⟩ := hread
  refine ⟨st₁, st₂, hstep, (replay_noOp_iff hreach hstep ?_
    (Transition.System.run_nil (store Unit) st₂) rfl).2 ?_⟩
  · intro hsame
    rw [hsame] at hlength₂
    omega
  · rw [hlast]
    decide

end RexHunter
