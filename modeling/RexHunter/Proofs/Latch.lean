import RexHunter.Proofs.Overshoot
import RexHunter.Proofs.Spend

set_option autoImplicit false

/-! # The latch

The recorded spend should only grow, so that a breaker or a gate that has closed stays closed. The
counts of a usage come from the provider through `int`, which takes negative numbers: a response that
is accepted with such a usage lowers the cost of its run and of the whole log. As long as every
accepted usage costs at least nothing, every cost only grows, whatever the order of the hunts and
whatever fails on the way. -/

namespace RexHunter

open Session (Closed durable written execAll)
open Coro (Keeps Triple)

section Latch

variable [PyRuntime] [Pydantic]

/-- The response is not accepted with a usage that costs less than nothing. -/
def Harmless (stream : Bool) (response : Response) : Prop :=
  ∀ usage, carriedUsage stream response = some usage → Acceptable stream response →
    0 ≤ costOf usage

/-- A decision brings the usage of its response, so that of a harmless one pays. -/
theorem Harmless.usage {stream : Bool} {response : Response} (h : Harmless stream response)
    {decision : Decision} (hverdict : verdict stream response = .ok decision) {usage : UsageEvent}
    (husage : decision.usage = some usage) : 0 ≤ costOf usage := by
  have hcarried : carriedUsage stream response = some usage := by
    rw [← verdict_usage hverdict, husage]
  exact h usage hcarried ((accepted_iff hcarried).1 ⟨decision, hverdict⟩)

/-- The hunt is driven by the adapter, and its provider's responses are harmless. -/
structure Hunt.Harmless (stream : Bool) (hunt : Hunt) : Prop where
  brain : ∀ n context, hunt.brain n context = adapterBrain hunt.territory stream context
  server : ∀ n response, hunt.server n = .ok response → RexHunter.Harmless stream response

/-! ## One hunt -/

/-- **What a harmless hunt appends pays**, whatever fails on the way. -/
theorem runHunt_pays {stream : Bool} {hunt : Hunt} (h : hunt.Harmless stream) (env : Env)
    (db : Db) : ∀ st ∈ ((runHunt hunt).exec (env.session db)).2.trace, Pays st.op := by
  have hclosed : Closed Stmt.exec Pays (fun w : Sess => ∀ st ∈ w.trace, Pays st.op) :=
    Session.closed_trace (J := fun trace => ∀ st ∈ trace, Pays st.op)
      (fun _ _ hst hall => forall_mem_snoc hall hst)
  have hcontrols : Controls Pays := ⟨nofun, nofun, fun _ _ => nofun⟩
  have hframe : Session.Frameless (fun w : Sess => ∀ st ∈ w.trace, Pays st.op) :=
    Session.frameless_trace (fun trace => ∀ st ∈ trace, Pays st.op)
  have hfree : ∀ runId event now, event.usage? = none →
      Pays (.execute (.appendEvent runId event now)) := by
    intro runId event now hevent u hu
    rw [show usageOfOp (.execute (.appendEvent runId event now)) = event.usage? from rfl, hevent]
      at hu
    cases hu
  have hkeeps : Keeps (fun w : Sess => ∀ st ∈ w.trace, Pays st.op) (runHunt hunt) := by
    refine runHunt_of_drive hclosed hcontrols hframe (fun runId _ now => hfree runId _ now rfl)
      (fun _ _ => nofun) (fun _ _ _ _ => nofun) (fun runId => ?_)
    refine driveFor_gives hclosed hcontrols
      (fun _ now hevent => hfree runId _ now hevent.usage?)
      (fun _ now hevent => hfree runId _ now hevent.usage?) nofun (fun _ => nofun)
      (fun n response hn => (⟨n, hn⟩ : ∃ n, hunt.server n = .ok response))
      (fun n context => by
        rw [h.brain]
        exact adapterBrain_gives _ _ stream context) ?_ (fun posting => ?_) _
    · rintro decision ⟨response, ⟨n, hn⟩, hverdict⟩ u hu now v hv
      cases hv
      exact (h.server n response hn).usage hverdict hu
    · exact capturePrey_keeps hclosed hcontrols (fun _ now => hfree runId _ now rfl)
        (fun _ _ => nofun)
  exact hkeeps (env.session db) (by simp [Env.session])

/-- At every request, everything the log of the run has held so far costs less than the ceiling. -/
def CallsBelow (hunt : Hunt) (runId : PyStr) (db : Db) (trace : List (Step Frame Op)) : Prop :=
  ∀ pre st post, trace = pre ++ st :: post → st.op = .other .request →
    ∀ first more, pre = first ++ more → ∀ d, execAll Stmt.exec (durable first) db = some d →
      foldCost (d.tables.readEvents runId) < hunt.costCeilingUsd

/-- **A run that has reached its ceiling calls no more.** -/
theorem callsBelow {stream : Bool} {hunt : Hunt} (h : hunt.Harmless stream) (env : Env) (db : Db) :
    CallsBelow hunt (env.uuid4 0) db ((runHunt hunt).exec (env.session db)).2.trace := by
  intro pre st post htrace hop first more hpre d hd
  have hmetered := (runHunt_metered hunt env db).1
  have hmem : ∀ st' ∈ pre, st' ∈ ((runHunt hunt).exec (env.session db)).2.trace := by
    intro st' hst'
    rw [htrace]
    exact List.mem_append_left _ hst'
  have hspends : Spends st.op := by
    rw [hop]
    trivial
  have hnew : env.uuid4 0 ∉ db.tables.runs.map Run.id := by
    refine @runHunt_new _ hunt env db st ?_ hspends
    rw [htrace]
    simp
  have hbelow : spentOn (env.uuid4 0) (written pre) < hunt.costCeilingUsd :=
    hmetered.below pre st post htrace hspends
  -- what was durable then is still among what the run has written
  obtain ⟨later, hlater⟩ : durable first <+: written pre := by
    rw [hpre]
    exact (Session.durable_extends first more).trans (List.prefix_append _ _)
  have hpays : 0 ≤ spentOn (env.uuid4 0) later := by
    refine spentOn_nonneg (fun s hs => ?_)
    have hwritten : s ∈ written pre := by
      rw [← hlater]
      exact List.mem_append_right _ hs
    obtain ⟨st', hst', hop'⟩ := Session.mem_written hwritten
    rw [← hop']
    exact runHunt_pays h env db st' (hmem st' hst')
  rw [← hlater, spentOn_append] at hbelow
  rw [(foldCost_execAll hd).1, db.schema.readEvents_eq_nil hnew]
  have hzero : foldCost [] = 0 := rfl
  linarith

/-! ## All hunts -/

section Daemon

variable {T : Type} [DecidableEq T] {limits : Limits}

/-- A hunt that is launched is harmless. -/
def LaunchHarmless (stream : Bool) (_ : Daemon T) : DaemonAction T → Prop
  | .launch _ hunt _ => hunt.Harmless stream
  | _ => True

omit [DecidableEq T] in
theorem LaunchHarmless.pays {stream : Bool} {st : Daemon T} {a : DaemonAction T}
    (h : LaunchHarmless stream st a) (t : T) (hunt : Hunt) (env : Env)
    (ha : a = .launch t hunt env) :
    ∀ await ∈ ((runHunt hunt).exec (env.session st.db)).2.trace, Pays await.op := by
  subst ha
  exact runHunt_pays h env st.db

theorem pays_run {stream : Bool} {s : Daemon T} (hidle : s.Idle limits) :
    ∀ as t, (daemon limits T).run s as = some t →
      (daemon limits T).Meets (LaunchHarmless stream) s as → ∀ w, (t.slots w).Pays := by
  refine (daemon limits T).invariant_of_meets ?_ ?_
  · intro w
    rw [hidle.slots w]
    trivial
  · intro st a st' hpays hharmless hstep
    obtain ⟨u, hact, rfl⟩ := Option.map_eq_some_iff.1 hstep
    have hpays' := pays_of_act hpays hharmless.pays hact
    exact hpays'

/-- From a state of the daemon on, no cost falls. -/
theorem latched_run {stream : Bool} {t : Daemon T} (hpays : ∀ w, (t.slots w).Pays) :
    ∀ bs u, (daemon limits T).run t bs = some u →
      (daemon limits T).Meets (LaunchHarmless stream) t bs →
      Latched t.db.tables u.db.tables ∧ ∀ w, (u.slots w).Pays := by
  refine (daemon limits T).invariant_of_meets ⟨Latched.refl _, hpays⟩ ?_
  rintro st a st' ⟨hlatched, hst⟩ hharmless hstep
  obtain ⟨u, hact, rfl⟩ := Option.map_eq_some_iff.1 hstep
  have hstill := latched_of_act hst hact
  have hpays' := pays_of_act hst hharmless.pays hact
  exact ⟨hlatched.trans hstill, hpays'⟩

omit [Pydantic] in
/-- The gate refuses whoever reads it at the ceiling. -/
theorem gate_refuses {st st' : Daemon T} {w : T} {env : Env}
    (hceiling : limits.daemonSpendCeilingUsd ≤ foldCost st.db.tables.readUsage)
    (hstep : (daemon limits T).step st (.gate w env) = some st') : st'.slots w = .waiting := by
  obtain ⟨u, hact, rfl⟩ := Option.map_eq_some_iff.1 hstep
  simp only [Daemon.act] at hact
  split at hact
  · split at hact
    · next hpassed => exact absurd hceiling (not_le.2 (below_of_passed hpassed))
    · cases hact
      simp [Daemon.leave, Daemon.setSlot]
  · cases hact

/-- **The spend latch closes, and stays closed, as far as the responses are harmless.** An event
    lowers no cost exactly when its usage costs at least nothing. In every run of the daemon whose
    hunts are harmless no cost ever falls, and once the log costs as much as the daemon's ceiling
    every later launch is refused; and in every harmless hunt, once its run costs as much as its
    ceiling, the provider is not called again. -/
theorem latch_closes_of_harmless (T : Type) [DecidableEq T] (stream : Bool) (limits : Limits) :
    (∀ (t t' : Tables) (c : Cursor) (runId now : PyStr) (event : TrajectoryEvent), t.Schema →
      (Stmt.appendEvent runId event now).apply t = .ok (c, t') →
      (Latched t t' ↔ ∀ u, event.usage? = some u → 0 ≤ costOf u)) ∧
    (∀ (s t u : Daemon T) as bs, s.Idle limits → (daemon limits T).run s as = some t →
      (daemon limits T).run t bs = some u →
      (daemon limits T).Meets (LaunchHarmless stream) s (as ++ bs) →
      Latched t.db.tables u.db.tables ∧
        (limits.daemonSpendCeilingUsd ≤ foldCost t.db.tables.readUsage →
          ∀ w env v, (daemon limits T).step u (.gate w env) = some v → v.slots w = .waiting)) ∧
    ∀ (hunt : Hunt) (env : Env) (db : Db), hunt.Harmless stream →
      CallsBelow hunt (env.uuid4 0) db ((runHunt hunt).exec (env.session db)).2.trace := by
  refine ⟨fun t t' c runId now event ht h => latched_append_iff ht h, ?_,
    fun hunt env db h => callsBelow h env db⟩
  intro s t u as bs hidle has hbs hmeets
  obtain ⟨hmeets, hmeets'⟩ := ((daemon limits T).meets_append has bs).1 hmeets
  have hlatched := (latched_run (pays_run hidle as t has hmeets) bs u hbs hmeets').1
  exact ⟨hlatched, fun hceiling w env v hv => gate_refuses (hceiling.trans hlatched.all) hv⟩

end Daemon

end Latch

/-! ## A usage that opens the gate again -/

/-- A call for help that claims to have read a million tokens less than none. -/
def creditCall : Response :=
  .ofBody ("\x7b\"content\":[\x7b\"type\":\"tool_use\",\"id\":\"t\"," ++
    "\"name\":\"needs_help\",\"input\":\x7b\x7d\x7d]," ++
    "\"usage\":\x7b\"input_tokens\":-1000000,\"output_tokens\":0\x7d\x7d")

/-- The whole of an adapter's hunt that gets this response. -/
def answeredHunt (t : Bool) (response : Response) (runId : String) : List (DaemonAction Bool) :=
  .launch t (@adapterHunt .ascii (@Pydantic.plain .ascii) false response) (Env.calm [py runId]) ::
    List.replicate 10 (.advance t) ++ [.release t]

/-- Two tasks pass the gate, and the first of them hunts. -/
def firstAnswered (response : Response) : List (DaemonAction Bool) :=
  [.acquire true, .acquire false, .gate true (Env.calm []), .gate false (Env.calm [])] ++
    answeredHunt true response "r"

/-- A hundredth of a cent for the daemon. -/
def tightLimits : Limits := ⟨2, 1, 1 / 10000⟩

/-- The state these actions lead to. -/
def reachedDaemon (as : List (DaemonAction Bool)) : Daemon Bool :=
  ((@daemon .ascii tightLimits Bool _).run restingDaemon as).getD restingDaemon

/-- The second hunt, past its gate, is answered with a credit: the log costs less than the ceiling
    again, and the gate lets the next launch through. -/
theorem credit_opens_the_gate :
    ((@daemon .ascii tightLimits Bool _).run restingDaemon (firstAnswered helpCall ++
        answeredHunt false creditCall "s" ++ [.acquire true, .gate true (Env.calm [])])).isSome
      = true ∧
    tightLimits.daemonSpendCeilingUsd
      ≤ foldCost (reachedDaemon (firstAnswered helpCall)).db.tables.readUsage ∧
    ¬ Latched (reachedDaemon (firstAnswered helpCall)).db.tables
        (reachedDaemon (firstAnswered helpCall ++ answeredHunt false creditCall "s")).db.tables ∧
    (reachedDaemon (firstAnswered helpCall ++ answeredHunt false creditCall "s" ++
      [.acquire true, .gate true (Env.calm [])])).slots true = .admitted 29 := by
  refine ⟨by decide +kernel, by decide +kernel, fun h => ?_, by decide +kernel⟩
  have hall := h.all
  revert hall
  decide +kernel

theorem helpCall_harmless (t : Bool) (runId : String) :
    ∀ a ∈ answeredHunt t helpCall runId, ∀ st : Daemon Bool,
      @LaunchHarmless .ascii (@Pydantic.plain .ascii) Bool false st a := by
  have hcarried : @carriedUsage .ascii (@Pydantic.plain .ascii) false helpCall
      = some ⟨[], 5, 7⟩ := by
    decide +kernel
  have hharmless : @Harmless .ascii (@Pydantic.plain .ascii) false helpCall := by
    intro usage husage _
    rw [hcarried] at husage
    cases husage
    decide +kernel
  intro a ha st
  rcases List.mem_append.1 ha with ha | ha
  · rcases List.mem_cons.1 ha with rfl | ha
    · refine @Hunt.Harmless.mk .ascii (@Pydantic.plain .ascii) false _ (fun _ _ => rfl) ?_
      intro n response hresponse
      cases hresponse
      exact hharmless
    · rw [List.eq_of_mem_replicate ha]
      trivial
  · rw [List.mem_singleton.1 ha]
    trivial

/-- A second call for help leaves the gate closed. -/
theorem help_calls_keep_the_gate_closed :
    Latched (reachedDaemon (firstAnswered helpCall)).db.tables
        (reachedDaemon (firstAnswered helpCall ++ answeredHunt false helpCall "s")).db.tables ∧
    ∀ w env v, (@daemon .ascii tightLimits Bool _).step
        (reachedDaemon (firstAnswered helpCall ++ answeredHunt false helpCall "s")) (.gate w env)
          = some v → v.slots w = .waiting := by
  obtain ⟨u, hu⟩ : ∃ u, (@daemon .ascii tightLimits Bool _).run restingDaemon
      (firstAnswered helpCall ++ answeredHunt false helpCall "s") = some u :=
    Option.isSome_iff_exists.1 (by decide +kernel)
  have hlast : reachedDaemon (firstAnswered helpCall ++ answeredHunt false helpCall "s") = u := by
    unfold reachedDaemon
    rw [hu]
    rfl
  obtain ⟨t, ht, hbs⟩ := Option.bind_eq_some_iff.1
    (((@daemon .ascii tightLimits Bool _).run_append _ _ _).symm.trans hu)
  have hfirst : reachedDaemon (firstAnswered helpCall) = t := by
    unfold reachedDaemon
    rw [ht]
    rfl
  have hclosed := (@latch_closes_of_harmless .ascii (@Pydantic.plain .ascii) Bool _ false
    tightLimits).2.1 restingDaemon t u (firstAnswered helpCall) (answeredHunt false helpCall "s")
    ⟨fun _ => rfl, rfl, rfl⟩ ht hbs ?_
  · rw [hlast, ← hfirst] at *
    exact ⟨hclosed.1, hclosed.2 (by decide +kernel)⟩
  · refine (@daemon .ascii tightLimits Bool _).meets_of_forall (fun st a ha => ?_) _
    rcases List.mem_append.1 ha with ha | ha
    · rcases List.mem_append.1 ha with ha | ha
      · simp only [List.mem_cons, List.not_mem_nil, or_false] at ha
        rcases ha with rfl | rfl | rfl | rfl <;> trivial
      · exact helpCall_harmless true "r" a ha st
    · exact helpCall_harmless false "s" a ha st

end RexHunter
