import Mathlib.Algebra.Order.BigOperators.Group.List
import Mathlib.Tactic.Linarith
import RexHunter.Implementation.Scheduler
import RexHunter.Proofs.Breaker

set_option autoImplicit false

/-! # Hunts side by side

What one step of the scheduled hunts does to the log they share. A hunt writes to the log of its own
run only, the gate compares the cost of the whole log, and as long as no usage costs less than
nothing every cost only grows. -/

namespace RexHunter

open Session (durable written ledger execAll)
open Coro (Triple)

/-! ## Costs that do not fall -/

/-- The usage an operation appends. -/
def usageOfOp : Op → Option UsageEvent
  | .execute s => s.usage?
  | _ => none

/-- The usage the operation appends costs at least nothing. -/
def Pays (op : Op) : Prop := ∀ u ∈ usageOfOp op, 0 ≤ costOf u

instance : DecidablePred Pays :=
  fun op => inferInstanceAs (Decidable (∀ u ∈ usageOfOp op, 0 ≤ costOf u))

theorem spentOn_nonneg {runId : PyStr} {ss : List Stmt} (h : ∀ s ∈ ss, Pays (.execute s)) :
    0 ≤ spentOn runId ss := by
  refine List.sum_nonneg (fun x hx => ?_)
  obtain ⟨u, hu, rfl⟩ := List.mem_map.1 hx
  obtain ⟨s, hs, husage⟩ := List.mem_filterMap.1 hu
  refine h s hs u ?_
  cases s with
  | appendEvent runId' event now =>
      simp only [Stmt.usageOn] at husage
      split at husage
      · exact husage
      · cases husage
  | _ => cases husage

theorem spent_nonneg {ss : List Stmt} (h : ∀ s ∈ ss, Pays (.execute s)) : 0 ≤ spent ss := by
  refine List.sum_nonneg (fun x hx => ?_)
  obtain ⟨u, hu, rfl⟩ := List.mem_map.1 hx
  obtain ⟨s, hs, husage⟩ := List.mem_filterMap.1 hu
  exact h s hs u husage

/-- No cost has fallen, of a run or of the whole log. -/
structure Latched (t t' : Tables) : Prop where
  run : ∀ runId, foldCost (t.readEvents runId) ≤ foldCost (t'.readEvents runId)
  all : foldCost t.readUsage ≤ foldCost t'.readUsage

theorem Latched.refl (t : Tables) : Latched t t := ⟨fun _ => le_refl _, le_refl _⟩

theorem Latched.trans {t t' t'' : Tables} (h : Latched t t') (h' : Latched t' t'') :
    Latched t t'' :=
  ⟨fun runId => (h.run runId).trans (h'.run runId), h.all.trans h'.all⟩

/-- **An event latches exactly when its usage costs at least nothing.** -/
theorem latched_append_iff {t t' : Tables} {c : Cursor} {runId now : PyStr}
    {event : TrajectoryEvent} (ht : t.Schema)
    (h : (Stmt.appendEvent runId event now).apply t = .ok (c, t')) :
    Latched t t' ↔ ∀ u, event.usage? = some u → 0 ≤ costOf u := by
  have hall := Stmt.foldCost_all ht h
  rw [spent_singleton] at hall
  constructor
  · intro hlatched u hu
    have hle := hlatched.all
    simp only [hall, Stmt.usage?, hu, Option.map_some, Option.getD_some] at hle
    linarith
  · intro hpays
    constructor
    · intro run
      have hrun := Stmt.foldCost_run run h
      rw [spentOn_singleton] at hrun
      by_cases hsame : runId = run
      · cases hu : event.usage? with
        | none => simp [hrun, Stmt.usageOn, hu]
        | some u => simpa [hrun, Stmt.usageOn, hsame, hu] using hpays u hu
      · simp [hrun, Stmt.usageOn, hsame]
    · cases hu : event.usage? with
      | none => simp [hall, Stmt.usage?, hu]
      | some u => simpa [hall, Stmt.usage?, hu] using hpays u hu

theorem Stmt.latched {s : Stmt} {t t' : Tables} {c : Cursor} (ht : t.Schema)
    (hs : Pays (.execute s)) (h : s.apply t = .ok (c, t')) : Latched t t' := by
  cases hevent : s.appended with
  | none =>
      have hrows := Stmt.apply_trajectoryEvents h hevent
      exact ⟨fun runId => by simp [Tables.readEvents, hrows], by simp [Tables.readUsage, hrows]⟩
  | some e =>
      cases s with
      | appendEvent runId event now => exact (latched_append_iff ht h).2 hs
      | _ => cases hevent

theorem latched_execAll {ss : List Stmt} (h : ∀ s ∈ ss, Pays (.execute s)) : ∀ {db db' : Db},
    execAll Stmt.exec ss db = some db' → Latched db.tables db'.tables := by
  induction ss with
  | nil =>
      rintro db _ ⟨⟩
      exact Latched.refl _
  | cons s ss ih =>
      intro db db' hexec
      simp only [execAll] at hexec
      cases hs : s.exec db with
      | error e =>
          rw [hs] at hexec
          cases hexec
      | ok r =>
          rw [hs] at hexec
          have hfirst : Latched db.tables r.2.tables :=
            Stmt.latched db.schema (h s List.mem_cons_self) (Stmt.exec_ok hs)
          exact hfirst.trans (ih (fun s hs => h s (List.mem_cons_of_mem _ hs)) hexec)

/-! ## The gate -/

/-- The gate compares the cost of the whole log. -/
theorem overBudget_reads (ceiling : ℚ) (db : Db) :
    Triple (OnTables (fun t => t = db.tables)) (overBudget (some ceiling))
      (fun refused _ => refused = decide (ceiling ≤ foldCost db.tables.readUsage))
      (fun _ _ => True) := by
  have hclosed : Session.Closed Stmt.exec (fun op : Op => ∀ s, op ≠ .execute s)
      (OnTables (fun t => t = db.tables)) :=
    closed_onTables (fun s _ _ _ hs _ _ _ => absurd rfl (hs s))
  have hcontrols : Controls (fun op : Op => ∀ s, op ≠ .execute s) := ⟨nofun, nofun, nofun⟩
  refine Triple.bind (Q := fun spend _ => spend = foldCost db.tables.readUsage) ?_ (fun spend => ?_)
  · refine Triple.bind ((select_triple hclosed hcontrols).conseq (fun _ hw => hw) (fun _ _ hw => hw)
      (fun _ _ _ => trivial)) (fun events => ?_)
    rintro w ⟨rfl, hw⟩
    rw [hw.2]
    rfl
  · rintro w rfl
    rfl

theorem below_of_passed {ceiling : ℚ} {env : Env} {db : Db}
    (h : ((overBudget (some ceiling)).exec (env.session db)).1 = .ok false) :
    foldCost db.tables.readUsage < ceiling := by
  have hread := overBudget_reads ceiling db (env.session db) ⟨rfl, rfl⟩
  generalize (overBudget (some ceiling)).exec (env.session db) = p at h hread
  obtain ⟨r, w⟩ := p
  cases h
  exact not_le.1 (of_decide_eq_false hread.symm)

/-! ## One step -/

theorem durable_snoc (past : List (Step Frame Op)) (await : Step Frame Op) :
    durable (past ++ [await]) = durable past ++ commits past await := by
  unfold durable commits
  rw [Session.ledger_snoc]
  exact Session.enter_fst _ _

section Steps

variable {T : Type} [DecidableEq T] [PyRuntime] {limits : Limits}

/-- **What a task can do next.** -/
theorem Daemon.act_cases {st st' : Daemon T} {a : DaemonAction T}
    (h : st.act limits a = some st') :
    (∃ t, st.slots t = .waiting ∧ 0 < st.free ∧
      st' = { st.setSlot t .connected with free := st.free - 1 }) ∨
    (∃ t, st.slots t = .connected ∧
      foldCost st.db.tables.readUsage < limits.daemonSpendCeilingUsd ∧
      st' = st.setSlot t (.admitted st.clock)) ∨
    (∃ t hunt env gate, a = .launch t hunt env ∧ st.slots t = .admitted gate ∧
      hunt.costCeilingUsd = limits.costCeilingUsd ∧
      st' = st.setSlot t (.hunting gate [] ((runHunt hunt).exec (env.session st.db)).2.trace)) ∨
    (∃ t gate past await rest db, st.slots t = .hunting gate past (await :: rest) ∧
      execAll Stmt.exec (commits past await) st.db = some db ∧
      st' = { st.setSlot t (.hunting gate (past ++ [await]) rest) with
        db := db
        created := st.created ++
          ((commits past await).filter Stmt.createsRun).map (fun _ => gate) }) ∨
    (∃ t, st.slots t ≠ .waiting ∧ st' = st.leave t) ∨
    st' = { st with slots := fun _ => .waiting, free := limits.maxConcurrent } := by
  cases a with
  | acquire t =>
      simp only [act] at h
      split at h
      · next henabled =>
          cases h
          exact Or.inl ⟨t, henabled.1, henabled.2, rfl⟩
      · cases h
  | gate t env =>
      simp only [act] at h
      split at h
      · next hslot =>
          split at h
          · next hpassed =>
              cases h
              exact Or.inr (Or.inl ⟨t, hslot, below_of_passed hpassed, rfl⟩)
          · cases h
            exact Or.inr (Or.inr (Or.inr (Or.inr (Or.inl ⟨t, by rw [hslot]; nofun, rfl⟩))))
      · cases h
  | launch t hunt env =>
      simp only [act] at h
      split at h
      · next gate hslot =>
          split at h
          · next hceiling =>
              cases h
              exact Or.inr (Or.inr (Or.inl ⟨t, hunt, env, gate, rfl, hslot, hceiling, rfl⟩))
          · cases h
      · cases h
  | advance t =>
      simp only [act] at h
      split at h
      · next gate past await rest hslot =>
          split at h
          · next db hdb =>
              cases h
              exact Or.inr (Or.inr (Or.inr (Or.inl ⟨t, gate, past, await, rest, db, hslot, hdb, rfl⟩)))
          · cases h
            exact Or.inr (Or.inr (Or.inr (Or.inr (Or.inl ⟨t, by rw [hslot]; nofun, rfl⟩))))
      · cases h
  | release t =>
      simp only [act] at h
      split at h
      · next hslot =>
          cases h
          exact Or.inr (Or.inr (Or.inr (Or.inr (Or.inl ⟨t, by rw [hslot]; nofun, rfl⟩))))
      · cases h
  | crash =>
      cases h
      exact Or.inr (Or.inr (Or.inr (Or.inr (Or.inr rfl))))

/-! ## What a step does to the log -/

/-- The awaits a task has committed, or may still commit, pay. -/
def Slot.Pays : Slot → Prop
  | .hunting _ past rest => ∀ await ∈ past ++ rest, RexHunter.Pays await.op
  | _ => True

variable {st st' : Daemon T} {a : DaemonAction T}

omit [PyRuntime] [DecidableEq T] in
theorem pays_commits {past : List (Step Frame Op)} {await : Step Frame Op}
    (h : ∀ st ∈ past ++ [await], Pays st.op) : ∀ s ∈ commits past await, Pays (.execute s) := by
  intro s hs
  have hdurable : s ∈ durable (past ++ [await]) := by
    rw [durable_snoc]
    exact List.mem_append_right _ hs
  obtain ⟨st, hst, hop⟩ := Session.mem_written (List.mem_append_left _ hdurable)
  rw [← hop]
  exact h st hst

/-- **No step lowers a cost**, as long as what the hunts append pays. -/
theorem latched_of_act (hpays : ∀ t, (st.slots t).Pays) (hact : st.act limits a = some st') :
    Latched st.db.tables st'.db.tables := by
  rcases Daemon.act_cases hact with ⟨t, hslot, hfree, rfl⟩ | ⟨t, hslot, hgate, rfl⟩ |
    ⟨t, hunt, env, gate, rfl, hslot, hhunt, rfl⟩ | ⟨t, gate, past, await, rest, db, hslot, hdb, rfl⟩ |
    ⟨t, hslot, rfl⟩ | rfl
  · exact Latched.refl _
  · exact Latched.refl _
  · exact Latched.refl _
  · refine latched_execAll (pays_commits ?_) hdb
    have hall := hpays t
    rw [hslot] at hall
    intro st' hst'
    refine hall st' ?_
    rw [← List.singleton_append, ← List.append_assoc]
    exact List.mem_append_left _ hst'
  · exact Latched.refl _
  · exact Latched.refl _

/-- What a hunt commits pays, if the hunts that are launched pay. -/
theorem pays_of_act (hpays : ∀ t, (st.slots t).Pays)
    (hlaunch : ∀ t hunt env, a = .launch t hunt env →
      ∀ await ∈ ((runHunt hunt).exec (env.session st.db)).2.trace, Pays await.op)
    (hact : st.act limits a = some st') : ∀ t, (st'.slots t).Pays := by
  have hset : ∀ t slot, slot.Pays → ∀ u, ((st.setSlot t slot).slots u).Pays := by
    intro t slot hslot u
    by_cases hu : u = t
    · subst hu
      simpa [Daemon.setSlot] using hslot
    · simpa [Daemon.setSlot, hu] using hpays u
  rcases Daemon.act_cases hact with ⟨t, hslot, hfree, rfl⟩ | ⟨t, hslot, hgate, rfl⟩ |
    ⟨t, hunt, env, gate, rfl, hslot, hhunt, rfl⟩ | ⟨t, gate, past, await, rest, db, hslot, hdb, rfl⟩ |
    ⟨t, hslot, rfl⟩ | rfl
  · exact hset t _ trivial
  · exact hset t _ trivial
  · exact hset t _ (hlaunch t hunt env rfl)
  · have hall := hpays t
    rw [hslot] at hall
    have hsame : past ++ [await] ++ rest = past ++ await :: rest := by simp
    refine hset t _ ?_
    simp only [Slot.Pays, hsame]
    exact hall
  · exact hset t _ trivial
  · exact fun _ => trivial

/-! ## The gates -/

/-- When the gate of the launch in a slot was read. -/
def Slot.gate? : Slot → Option Nat
  | .admitted gate => some gate
  | .hunting gate _ _ => some gate
  | _ => none

/-- The gates of all launches, past and present, were read before `n`. -/
structure Dated (n : Nat) (st : Daemon T) : Prop where
  created : ∀ gate ∈ st.created, gate < n
  slots : ∀ t, ∀ gate ∈ (st.slots t).gate?, gate < n

omit [PyRuntime] in
theorem Dated.move {n : Nat} (h : Dated n st) {t : T} {slot : Slot}
    (hslots : st'.slots = (st.setSlot t slot).slots) (hslot : ∀ gate ∈ slot.gate?, gate < n)
    (hcreated : ∀ gate ∈ st'.created, gate < n) : Dated n st' := by
  refine ⟨hcreated, fun u => ?_⟩
  rw [hslots]
  by_cases hu : u = t
  · subst hu
    simpa [Daemon.setSlot] using hslot
  · simpa [Daemon.setSlot, hu] using h.slots u

/-- Nobody passes the gate once the spend has reached the ceiling. -/
theorem Dated.act {n : Nat} (h : Dated n st) (hact : st.act limits a = some st')
    (hclosed : n ≤ st.clock → limits.daemonSpendCeilingUsd ≤ foldCost st.db.tables.readUsage) :
    Dated n st' := by
  rcases Daemon.act_cases hact with ⟨t, hslot, hfree, rfl⟩ | ⟨t, hslot, hgate, rfl⟩ |
    ⟨t, hunt, env, gate, rfl, hslot, hhunt, rfl⟩ | ⟨t, gate, past, await, rest, db, hslot, hdb, rfl⟩ |
    ⟨t, hslot, rfl⟩ | rfl
  · exact h.move rfl nofun h.created
  · have hearly : st.clock < n := by
      by_contra hlate
      exact absurd (hclosed (not_lt.1 hlate)) (not_le.2 hgate)
    exact h.move rfl (by simpa [Slot.gate?] using hearly) h.created
  · have hgate : gate < n := h.slots t gate (by rw [hslot]; rfl)
    exact h.move rfl (by simpa [Slot.gate?] using hgate) h.created
  · have hgate : gate < n := h.slots t gate (by rw [hslot]; rfl)
    refine h.move rfl (by simpa [Slot.gate?] using hgate) ?_
    intro gate' hgate'
    rcases List.mem_append.1 hgate' with hold | hnew
    · exact h.created gate' hold
    · obtain ⟨_, _, rfl⟩ := List.mem_map.1 hnew
      exact hgate
  · exact h.move rfl nofun h.created
  · exact ⟨h.created, fun _ => nofun⟩

end Steps

end RexHunter
