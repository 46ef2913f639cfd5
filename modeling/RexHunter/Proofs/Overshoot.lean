import Mathlib.Algebra.BigOperators.Group.Finset.Piecewise
import Mathlib.Algebra.BigOperators.Ring.Finset
import Mathlib.Algebra.Order.BigOperators.Group.Finset
import Mathlib.Data.Fintype.Basic
import Mathlib.Tactic.Linarith
import Mathlib.Tactic.Ring
import RexHunter.Proofs.Capture
import RexHunter.Proofs.Daemon

set_option autoImplicit false

/-! # The overshoot of the daemon

A hunt that has passed the gate goes on spending under its own breaker, and several hunts may pass
the gate on the same reading. A hunt in flight can still spend what its breaker leaves it, its
reserve; the gate opens only below the daemon's ceiling, with at most `maxConcurrent` hunts in
flight, and from then on the recorded spend and the reserves together never grow. -/

namespace RexHunter

open Session (durable written ledger execAll)
open Coro (Triple)

/-! ## What a hunt can spend -/

/-- The usage the operation appends costs between `0` and `c`. -/
def CostsWithin (c : ℚ) (op : Op) : Prop := ∀ u ∈ usageOfOp op, 0 ≤ costOf u ∧ costOf u ≤ c

instance (c : ℚ) (op : Op) : Decidable (CostsWithin c op) :=
  inferInstanceAs (Decidable (∀ u ∈ usageOfOp op, 0 ≤ costOf u ∧ costOf u ≤ c))

theorem CostsWithin.execute {c : ℚ} {op : Op} {s : Stmt} {u : UsageEvent} (h : CostsWithin c op)
    (hop : op = .execute s) (hu : s.usage? = some u) : 0 ≤ costOf u ∧ costOf u ≤ c := by
  subst hop
  exact h u hu

theorem spentOn_eq_spent {runId : PyStr} {ss : List Stmt} (h : ∀ s ∈ ss, s.ForRun runId) :
    spentOn runId ss = spent ss := by
  have husages : ss.filterMap (Stmt.usageOn runId) = ss.filterMap Stmt.usage? := by
    refine List.filterMap_congr (fun s hs => ?_)
    cases s with
    | appendEvent runId' event now =>
        have hrun : runId' = runId := h _ hs _ rfl
        simp [Stmt.usageOn, Stmt.usage?, hrun]
    | _ => rfl
  unfold spentOn spent
  rw [husages]

theorem Metered.left {runId : PyStr} {ceiling : ℚ} {past rest : List (Step Frame Op)}
    (h : Metered runId ceiling (past ++ rest)) : Metered runId ceiling past where
  ofRun := fun st hst => h.ofRun st (List.mem_append_left _ hst)
  below := by
    rintro pre st post rfl hspends
    exact h.below pre st (post ++ rest) (by simp) hspends

/-- **A run overshoots its ceiling by one call at most.** -/
theorem Metered.spentOn_le {runId : PyStr} {ceiling c : ℚ} {trace : List (Step Frame Op)}
    (h : Metered runId ceiling trace) (hcosts : ∀ st ∈ trace, CostsWithin c st.op)
    (hceiling : 0 ≤ ceiling) (hc : 0 ≤ c) :
    spentOn runId (ledger trace).1 ≤ ceiling + c ∧ spentOn runId (written trace) ≤ ceiling + c := by
  induction trace using List.reverseRecOn with
  | nil => exact ⟨add_nonneg hceiling hc, add_nonneg hceiling hc⟩
  | append_singleton trace st ih =>
      obtain ⟨hfirst, hboth⟩ := ih h.left (fun st' hst' => hcosts st' (List.mem_append_left _ hst'))
      have hbelow := h.below trace st [] rfl
      unfold written at hboth hbelow ⊢
      rw [Session.ledger_snoc]
      rcases Session.enter_cases (ledger trace) st with henter | henter | henter | ⟨s, hs, henter⟩
      · rw [henter]
        exact ⟨hfirst, hboth⟩
      · rw [henter, List.append_nil]
        exact ⟨hfirst, hfirst⟩
      · rw [henter, List.append_nil]
        exact ⟨hboth, hboth⟩
      · rw [henter, ← List.append_assoc, spentOn_append, spentOn_singleton]
        refine ⟨hfirst, ?_⟩
        cases husage : s.usage? with
        | none =>
            rw [Stmt.usageOn_eq_none husage]
            simpa using hboth
        | some u =>
            have hspends : Spends st.op := by
              rw [hs]
              exact fun hnone => nomatch husage.symm.trans hnone
            have hlast := hcosts st (List.mem_append_right _ (List.mem_singleton_self st))
            have hcost := (hlast.execute hs husage).2
            have hadded : ((s.usageOn runId).map costOf).getD 0 ≤ c := by
              cases s with
              | appendEvent runId' event now =>
                  have hevent : event.usage? = some u := husage
                  by_cases hrun : runId' = runId <;> simp [Stmt.usageOn, hrun, hevent, hcost, hc]
              | _ => cases husage
            linarith [hbelow hspends]

/-! ## The reserves -/

/-- What the hunt of a task can still spend. -/
def Slot.reserve (limits : Limits) (c : ℚ) : Slot → ℚ
  | .admitted _ => limits.costCeilingUsd + c
  | .hunting _ past _ => limits.costCeilingUsd + c - spent (durable past)
  | _ => 0

/-- The permits a task holds. -/
def Slot.permits : Slot → ℚ
  | .waiting => 0
  | _ => 1

/-- The hunt of a task is metered, and its calls cost between `0` and `c`. -/
def Slot.Sound (limits : Limits) (c : ℚ) : Slot → Prop
  | .hunting _ past rest =>
      (∃ runId, Metered runId limits.costCeilingUsd (past ++ rest)) ∧
        ∀ st ∈ past ++ rest, CostsWithin c st.op
  | _ => True

/-- The permits add up, every hunt is sound, and the recorded spend and the reserves together stay
    below the bound. -/
structure Bounded {T : Type} [Fintype T] (limits : Limits) (c : ℚ) (st : Daemon T) : Prop where
  permits : ∑ t, (st.slots t).permits + st.free = limits.maxConcurrent
  sound : ∀ t, (st.slots t).Sound limits c
  spend : foldCost st.db.tables.readUsage + ∑ t, (st.slots t).reserve limits c
    < limits.daemonSpendCeilingUsd + limits.maxConcurrent * (limits.costCeilingUsd + c)

theorem CostsWithin.pays {c : ℚ} {op : Op} (h : CostsWithin c op) : Pays op :=
  fun u hu => (h u hu).1

theorem Slot.Sound.pays {limits : Limits} {c : ℚ} {slot : Slot} (h : slot.Sound limits c) :
    slot.Pays := by
  cases slot with
  | hunting gate past rest => exact fun await hawait => (h.2 await hawait).pays
  | waiting | connected | admitted => trivial

theorem Slot.Sound.reserve_bounds {limits : Limits} {c : ℚ} {slot : Slot} (h : slot.Sound limits c)
    (hceiling : 0 ≤ limits.costCeilingUsd) (hc : 0 ≤ c) :
    0 ≤ slot.reserve limits c ∧
      slot.reserve limits c ≤ (limits.costCeilingUsd + c) * slot.permits := by
  have hsum : 0 ≤ limits.costCeilingUsd + c := add_nonneg hceiling hc
  cases slot with
  | waiting => simp [reserve, permits]
  | connected => simpa [reserve, permits] using hsum
  | admitted gate => simpa [reserve, permits] using hsum
  | hunting gate past rest =>
      obtain ⟨⟨runId, hmetered⟩, hcosts⟩ := h
      have hpast : ∀ st ∈ past, CostsWithin c st.op :=
        fun st hst => hcosts st (List.mem_append_left _ hst)
      have hown : ∀ s ∈ durable past, s.ForRun runId := by
        intro s hs
        obtain ⟨st, hst, hop⟩ := Session.mem_written (List.mem_append_left _ hs)
        have hofRun := hmetered.left.ofRun st hst
        rw [hop] at hofRun
        exact hofRun
      have hle : spentOn runId (durable past) ≤ limits.costCeilingUsd + c :=
        (hmetered.left.spentOn_le hpast hceiling hc).1
      have hnonneg : 0 ≤ spent (durable past) := by
        refine spent_nonneg (fun s hs => ?_)
        obtain ⟨st, hst, hop⟩ := Session.mem_written (List.mem_append_left _ hs)
        rw [← hop]
        exact (hpast st hst).pays
      rw [spentOn_eq_spent hown] at hle
      simp only [reserve, permits, mul_one]
      constructor <;> linarith

/-! ## The bound -/

section Bound

variable {T : Type} [DecidableEq T] [PyRuntime] {limits : Limits} [Fintype T]

omit [PyRuntime] in
theorem sum_setSlot (f : Slot → ℚ) (st : Daemon T) (t : T) (slot : Slot) :
    ∑ u, f ((st.setSlot t slot).slots u) = ∑ u, f (st.slots u) + (f slot - f (st.slots t)) := by
  have hupdate : ∀ u, f ((st.setSlot t slot).slots u)
      = Function.update (fun u => f (st.slots u)) t (f slot) u := by
    intro u
    by_cases hu : u = t
    · subst hu
      simp [Daemon.setSlot]
    · simp [Daemon.setSlot, hu]
  simp only [hupdate]
  rw [Finset.sum_update_of_mem (Finset.mem_univ t),
    Finset.sum_eq_add_sum_sdiff_singleton_of_mem (Finset.mem_univ t) (fun u => f (st.slots u))]
  ring

/-- The calls of a hunt that is launched cost between `0` and `c`. -/
def LaunchCosts (c : ℚ) (st : Daemon T) : DaemonAction T → Prop
  | .launch _ hunt env =>
      ∀ await ∈ ((runHunt hunt).exec (env.session st.db)).2.trace, CostsWithin c await.op
  | _ => True

omit [PyRuntime] [DecidableEq T] [Fintype T] in
theorem spend_commits {past : List (Step Frame Op)} {await : Step Frame Op} {db db' : Db}
    (h : execAll Stmt.exec (commits past await) db = some db') :
    foldCost db'.tables.readUsage
      = foldCost db.tables.readUsage + (spent (durable (past ++ [await])) - spent (durable past)) := by
  rw [(foldCost_execAll h).2, durable_snoc, spent_append]
  ring

variable {c : ℚ} {st st' : Daemon T} {a : DaemonAction T}

omit [PyRuntime] [Fintype T] in
theorem sound_setSlot (h : ∀ u, (st.slots u).Sound limits c) {t : T} {slot : Slot}
    (hslot : slot.Sound limits c) : ∀ u, ((st.setSlot t slot).slots u).Sound limits c := by
  intro u
  by_cases hu : u = t
  · subst hu
    simpa [Daemon.setSlot] using hslot
  · simpa [Daemon.setSlot, hu] using h u

omit [PyRuntime] in
/-- A task that moves on keeps the bound, if it frees the permits it gives up, and spends no more
    than its reserve loses. -/
theorem Bounded.move (h : Bounded limits c st) {t : T} {slot : Slot}
    (hslots : st'.slots = (st.setSlot t slot).slots) (hslot : slot.Sound limits c)
    (hpermits : slot.permits + st'.free = (st.slots t).permits + st.free)
    (hspend : foldCost st'.db.tables.readUsage + slot.reserve limits c
      ≤ foldCost st.db.tables.readUsage + (st.slots t).reserve limits c) :
    Bounded limits c st' := by
  obtain ⟨hold, hsound, hbound⟩ := h
  refine ⟨?_, ?_, ?_⟩
  · rw [hslots, sum_setSlot]
    linarith
  · rw [hslots]
    exact sound_setSlot hsound hslot
  · rw [hslots, sum_setSlot]
    linarith

omit [PyRuntime] in
/-- Past the gate the bound holds whatever it was before: the log is below the ceiling, and nobody
    has more in reserve than a whole run. -/
theorem Bounded.admit (h : Bounded limits c st) (hceiling : 0 ≤ limits.costCeilingUsd)
    (hc : 0 ≤ c) {t : T} (hslot : st.slots t = .connected)
    (hgate : foldCost st.db.tables.readUsage < limits.daemonSpendCeilingUsd) (gate : Nat) :
    Bounded limits c (st.setSlot t (.admitted gate)) := by
  obtain ⟨hold, hsound, -⟩ := h
  have hsound' : ∀ u, ((st.setSlot t (.admitted gate)).slots u).Sound limits c :=
    sound_setSlot hsound trivial
  have hpermits : ∑ u, ((st.setSlot t (.admitted gate)).slots u).permits + st.free
      = limits.maxConcurrent := by
    rw [sum_setSlot, hslot]
    simpa [Slot.permits] using hold
  refine ⟨hpermits, hsound', ?_⟩
  have hreserve : ∑ u, ((st.setSlot t (.admitted gate)).slots u).reserve limits c
      ≤ (limits.costCeilingUsd + c)
        * ∑ u, ((st.setSlot t (.admitted gate)).slots u).permits := by
    rw [Finset.mul_sum]
    exact Finset.sum_le_sum (fun u _ => ((hsound' u).reserve_bounds hceiling hc).2)
  have hfree : (0 : ℚ) ≤ st.free := Nat.cast_nonneg _
  have hle : (limits.costCeilingUsd + c)
        * ∑ u, ((st.setSlot t (.admitted gate)).slots u).permits
      ≤ limits.maxConcurrent * (limits.costCeilingUsd + c) := by
    rw [mul_comm]
    exact mul_le_mul_of_nonneg_right (by linarith) (add_nonneg hceiling hc)
  show foldCost st.db.tables.readUsage + _ < _
  linarith

instance (c : ℚ) (st : Daemon T) : ∀ a, Decidable (LaunchCosts c st a)
  | .launch _ hunt env =>
      inferInstanceAs (Decidable
        (∀ await ∈ ((runHunt hunt).exec (env.session st.db)).2.trace, CostsWithin c await.op))
  | .acquire _ => isTrue trivial
  | .gate _ _ => isTrue trivial
  | .advance _ => isTrue trivial
  | .release _ => isTrue trivial
  | .crash => isTrue trivial

theorem Bounded.act (h : Bounded limits c st) (hceiling : 0 ≤ limits.costCeilingUsd) (hc : 0 ≤ c)
    (hcosts : LaunchCosts c st a) (hact : st.act limits a = some st') : Bounded limits c st' := by
  have hbounds := fun t => (h.sound t).reserve_bounds hceiling hc
  rcases Daemon.act_cases hact with ⟨t, hslot, hfree, rfl⟩ | ⟨t, hslot, hgate, rfl⟩ |
    ⟨t, hunt, env, gate, rfl, hslot, hhunt, rfl⟩ | ⟨t, gate, past, await, rest, db, hslot, hdb, rfl⟩ |
    ⟨t, hslot, rfl⟩ | rfl
  · refine h.move rfl trivial ?_ (by simp [hslot, Slot.reserve, Daemon.setSlot])
    have hone : ((st.free - 1 : Nat) : ℚ) = st.free - 1 := by
      rw [Nat.cast_sub hfree, Nat.cast_one]
    simp [hslot, Slot.permits, hone]
  · exact h.admit hceiling hc hslot hgate _
  · refine h.move rfl ⟨⟨env.uuid4 0, ?_⟩, hcosts⟩ (by simp [hslot, Slot.permits, Daemon.setSlot])
      (by simp [hslot, Slot.reserve, Daemon.setSlot, Session.durable, Session.ledger])
    rw [← hhunt]
    exact (runHunt_metered hunt env st.db).1
  · have hsound := h.sound t
    rw [hslot] at hsound
    have hall : past ++ [await] ++ rest = past ++ await :: rest := by simp
    refine h.move rfl ?_ (by simp [hslot, Slot.permits, Daemon.setSlot]) ?_
    · simp only [Slot.Sound, hall]
      exact hsound
    · rw [hslot]
      simp only [Slot.reserve]
      linarith [spend_commits hdb]
  · have hreserve := (hbounds t).1
    have hpermits : (st.slots t).permits = 1 := by
      cases hs : st.slots t with
      | waiting => exact absurd hs hslot
      | connected | admitted | hunting => rfl
    refine h.move rfl trivial ?_ ?_
    · rw [hpermits]
      simp [Daemon.leave, Slot.permits, add_comm]
    · simpa [Daemon.leave, Daemon.setSlot, Slot.reserve] using hreserve
  · refine ⟨by simp [Slot.permits], fun _ => trivial, ?_⟩
    have hsum : 0 ≤ ∑ t, (st.slots t).reserve limits c :=
      Finset.sum_nonneg (fun t _ => (hbounds t).1)
    have hbound := h.spend
    simp only [Slot.reserve, Finset.sum_const_zero, add_zero]
    linarith

/-! ## Every run -/

theorem bounded_run (hceiling : 0 ≤ limits.costCeilingUsd) (hc : 0 ≤ c) {s : Daemon T}
    (hidle : s.Idle limits)
    (hbelow : foldCost s.db.tables.readUsage < limits.daemonSpendCeilingUsd) :
    ∀ as t, (daemon limits T).run s as = some t → (daemon limits T).Meets (LaunchCosts c) s as →
      Bounded limits c t ∧ Dated t.clock t := by
  have hstart : Bounded limits c s ∧ Dated s.clock s := by
    have hslots : ∀ t, s.slots t = .waiting := hidle.slots
    refine ⟨⟨?_, ?_, ?_⟩, ?_, ?_⟩
    · simp [hslots, Slot.permits, hidle.free]
    · intro t
      rw [hslots t]
      trivial
    · have hbound : 0 ≤ limits.maxConcurrent * (limits.costCeilingUsd + c) :=
        mul_nonneg (Nat.cast_nonneg _) (add_nonneg hceiling hc)
      simp only [hslots, Slot.reserve, Finset.sum_const_zero, add_zero]
      linarith
    · simp [hidle.created]
    · intro t
      rw [hslots t]
      nofun
  refine (daemon limits T).invariant_of_meets hstart ?_
  rintro st a st' ⟨hbounded, hdated⟩ hcosts hstep
  obtain ⟨u, hact, rfl⟩ := Option.map_eq_some_iff.1 hstep
  have hbounded' := hbounded.act hceiling hc hcosts hact
  have hdated' : Dated (st.clock + 1) u := by
    refine Dated.act ⟨fun gate hgate => ?_, fun t gate hgate => ?_⟩ hact (fun h => ?_)
    · exact Nat.lt_succ_of_lt (hdated.created gate hgate)
    · exact Nat.lt_succ_of_lt (hdated.slots t gate hgate)
    · omega
  exact ⟨⟨hbounded'.permits, hbounded'.sound, hbounded'.spend⟩, hdated'.created, hdated'.slots⟩

/-- **The overshoot of the daemon is bounded.** With at most `maxConcurrent` hunts at a time, each
    under the ceiling of a run, and calls that cost between `0` and `c`, the recorded spend stays
    below the ceiling of the daemon by more than that many overshooting runs; and once it has
    reached that ceiling, every run row that is still created belongs to a launch whose gate was
    read before. -/
theorem overshoot_bounded (limits : Limits) {c : ℚ} (hceiling : 0 ≤ limits.costCeilingUsd)
    (hc : 0 ≤ c) {s : Daemon T} (hidle : s.Idle limits)
    (hbelow : foldCost s.db.tables.readUsage < limits.daemonSpendCeilingUsd)
    {as : List (DaemonAction T)} {t : Daemon T} (hrun : (daemon limits T).run s as = some t)
    (hcosts : (daemon limits T).Meets (LaunchCosts c) s as) :
    foldCost t.db.tables.readUsage
        < limits.daemonSpendCeilingUsd + limits.maxConcurrent * (limits.costCeilingUsd + c) ∧
      (limits.daemonSpendCeilingUsd ≤ foldCost t.db.tables.readUsage →
        ∀ bs u, (daemon limits T).run t bs = some u →
          (daemon limits T).Meets (LaunchCosts c) t bs → ∀ gate ∈ u.created, gate < t.clock) := by
  obtain ⟨hbounded, hdated⟩ := bounded_run hceiling hc hidle hbelow as t hrun hcosts
  constructor
  · have hreserve : 0 ≤ ∑ u, (t.slots u).reserve limits c :=
      Finset.sum_nonneg (fun u _ => ((hbounded.sound u).reserve_bounds hceiling hc).1)
    linarith [hbounded.spend]
  · intro hreached bs u hbs hmeets
    have hinvariant := (daemon limits T).invariant_of_meets
      (P := fun u => Bounded limits c u ∧ Dated t.clock u ∧
        limits.daemonSpendCeilingUsd ≤ foldCost u.db.tables.readUsage)
      ⟨hbounded, hdated, hreached⟩ ?_ bs u hbs hmeets
    · exact hinvariant.2.1.created
    rintro st a st' ⟨hst, hgates, hspend⟩ hcosts' hstep
    obtain ⟨v, hact, rfl⟩ := Option.map_eq_some_iff.1 hstep
    have hst' := hst.act hceiling hc hcosts' hact
    have hgates' := hgates.act hact (fun _ => hspend)
    have hspend' := (latched_of_act (fun t => (hst.sound t).pays) hact).all
    exact ⟨⟨hst'.permits, hst'.sound, hst'.spend⟩, ⟨hgates'.created, hgates'.slots⟩,
      hspend.trans hspend'⟩

end Bound

/-! ## Two hunts past one reading -/

/-- A hunt whose only call costs fifteen dollars. -/
def dearHunt : Hunt :=
  { oneCatch with brain := fun _ _ => .ret (.needsHelp (some ⟨[], 1000000, 0⟩)) }

/-- The whole of one hunt. -/
def wholeHunt (t : Bool) (runId : String) : List (DaemonAction Bool) :=
  .launch t dearHunt (Env.calm [py runId]) :: List.replicate 9 (.advance t) ++ [.release t]

/-- Both tasks pass the gate before either has spent anything. -/
def twoPass : List (DaemonAction Bool) :=
  [.acquire true, .acquire false, .gate true (Env.calm []), .gate false (Env.calm [])] ++
    wholeHunt true "r" ++ wholeHunt false "s"

/-- Two hunts at a time, a dollar for each, ten dollars for the daemon. -/
def twoLimits : Limits := ⟨2, 1, 10⟩

/-- Nothing runs, and the log is empty. -/
def restingDaemon : Daemon Bool := ⟨Db.empty, fun _ => .waiting, 2, 0, []⟩

/-- The state the two hunts leave. -/
def overshotDaemon : Daemon Bool :=
  ((@daemon .ascii twoLimits Bool _).run restingDaemon twoPass).getD restingDaemon

theorem two_hunts_overshoot :
    foldCost overshotDaemon.db.tables.readUsage = 30 ∧
    foldCost overshotDaemon.db.tables.readUsage
        < twoLimits.daemonSpendCeilingUsd
          + twoLimits.maxConcurrent * (twoLimits.costCeilingUsd + 15) ∧
    (twoLimits.daemonSpendCeilingUsd ≤ foldCost overshotDaemon.db.tables.readUsage →
      ∀ bs u, (@daemon .ascii twoLimits Bool _).run overshotDaemon bs = some u →
        (@daemon .ascii twoLimits Bool _).Meets (@LaunchCosts Bool .ascii 15) overshotDaemon bs →
        ∀ gate ∈ u.created, gate < overshotDaemon.clock) := by
  obtain ⟨t, ht⟩ : ∃ t,
      (@daemon .ascii twoLimits Bool _).run restingDaemon twoPass = some t :=
    Option.isSome_iff_exists.1 (by decide +kernel)
  have hlast : overshotDaemon = t := by
    unfold overshotDaemon
    rw [ht]
    rfl
  rw [← hlast] at ht
  exact ⟨by decide +kernel, @overshoot_bounded Bool _ .ascii _ twoLimits 15 (by decide) (by decide)
    restingDaemon ⟨fun _ => rfl, rfl, rfl⟩ (by decide +kernel) twoPass overshotDaemon ht
    (by decide +kernel)⟩

end RexHunter
