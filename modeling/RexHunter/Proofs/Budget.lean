import RexHunter.Proofs.Breaker
import RexHunter.Proofs.Capture
import RexHunter.Proofs.Displayed
import RexHunter.Proofs.Lifecycle

set_option autoImplicit false

/-! # The breakers of a run

The cost ceiling is checked at the head of the outer loop only, and brain calls are retried in an
inner loop. So a run is bounded in two ways: each step is charged a toll, and an iteration is charged
for its brain calls, one usage and one tool call at most; and every brain call comes at a point where
the log of the run costs less than the ceiling, because a retry appends no usage. -/

namespace RexHunter

open Session (Closed Frameless Replays written)
open Coro (Keeps Triple)

/-! ## Tolls -/

def TrajectoryEvent.isToolCall : TrajectoryEvent → Bool
  | .toolCall _ => true
  | _ => false

def TrajectoryEvent.isUsage : TrajectoryEvent → Bool
  | .usage _ => true
  | _ => false

/-- The operation invokes the brain. -/
def invokes : Op → Bool
  | .other (.call _) => true
  | _ => false

/-- What an event is charged. -/
def TrajectoryEvent.toll (usage tool : Nat) : TrajectoryEvent → Nat
  | .usage _ => usage
  | .toolCall _ => tool
  | _ => 0

/-- What an operation is charged: the invocation of the brain, the append of a usage and the append
    of a tool call. -/
def toll (call usage tool : Nat) : Op → Nat
  | .other (.call _) => call
  | .execute (.appendEvent _ event _) => event.toll usage tool
  | _ => 0

/-- What a trace is charged. -/
def tolls (call usage tool : Nat) (trace : List (Step Frame Op)) : Nat :=
  (trace.map (fun st => toll call usage tool st.op)).sum

/-- The session has been charged at most this much. -/
def Within (call usage tool k : Nat) (w : Sess) : Prop := tolls call usage tool w.trace ≤ k

variable {call usage tool k : Nat} {hunt : Hunt} {runId : PyStr}

theorem tolls_snoc (trace : List (Step Frame Op)) (st : Step Frame Op) :
    tolls call usage tool (trace ++ [st])
      = tolls call usage tool trace + toll call usage tool st.op := by
  simp [tolls]

theorem Within.mono {k' : Nat} {w : Sess} (h : Within call usage tool k w) (hk : k ≤ k') :
    Within call usage tool k' w :=
  Nat.le_trans h hk

/-- The operations that are free. -/
def Free (call usage tool : Nat) (op : Op) : Prop := toll call usage tool op = 0

theorem free_controls : Controls (Free call usage tool) where
  commit := rfl
  rollback := rfl
  other := by
    intro x hx
    cases x with
    | call => cases hx
    | select | dump | encode | request | brain | tool | connect | close => rfl

theorem within_closed : Closed Stmt.exec (Free call usage tool) (Within call usage tool k) := by
  refine Session.closed_trace (J := fun trace => tolls call usage tool trace ≤ k) ?_
  intro trace st hst h
  have hfree : toll call usage tool st.op = 0 := hst
  rw [tolls_snoc, hfree]
  exact h

theorem within_frameless : Frameless (Within call usage tool k) :=
  Session.frameless_trace (fun trace => tolls call usage tool trace ≤ k)

/-- A statement is charged its toll, whatever becomes of it. -/
theorem execute_within (s : Stmt) :
    Triple (Within call usage tool k) (execute s)
      (fun _ => Within call usage tool (k + toll call usage tool (.execute s)))
      (fun _ => Within call usage tool (k + toll call usage tool (.execute s))) := by
  refine Triple.of_final (fun w hw => ?_)
  obtain ⟨fate, htrace⟩ := Session.await_trace (.execute s) (Session.execute s.exec) w
  have hstep : ((execute s).exec w).2.trace = w.trace ++ [⟨w.frame, .execute s, fate⟩] := htrace
  unfold Within
  rw [hstep, tolls_snoc]
  exact Nat.add_le_add_right hw _

theorem append_within (event : TrajectoryEvent) :
    Triple (Within call usage tool k) (append hunt runId event)
      (fun _ => Within call usage tool (k + event.toll usage tool))
      (fun _ => Within call usage tool (k + event.toll usage tool)) :=
  (appendEvent_step within_closed free_controls within_closed
    (fun _ hw => hw.mono (Nat.le_add_right ..)) (fun _ hw => hw)
    (fun now => execute_within (.appendEvent runId event now))).bind
    (fun _ => Triple.pure (fun _ hw => hw))

/-! ## An iteration -/

theorem TrajectoryEvent.OfCall.free {event : TrajectoryEvent} (h : event.OfCall) (now : PyStr) :
    Free call usage tool (.execute (.appendEvent runId event now)) := by
  cases event with
  | error | thinkingDelta => rfl
  | sniff | toolCall | toolResult | preyCaptured | usage => exact h.elim

theorem TrajectoryEvent.OfAttempt.free {event : TrajectoryEvent} (h : event.OfAttempt)
    (now : PyStr) : Free call usage tool (.execute (.appendEvent runId event now)) := by
  cases event with
  | error | toolResult => rfl
  | sniff | toolCall | thinkingDelta | preyCaptured | usage => exact h.elim

theorem callNumber_within (context : Context) :
    Triple (Within call usage tool k) (callNumber context)
      (fun _ => Within call usage tool (k + call)) (fun _ => Within call usage tool (k + call)) := by
  refine Triple.of_final (fun w hw => ?_)
  have hstep : ((callNumber context).exec w).2.trace
      = w.trace ++ [⟨w.frame, .other (.call context), .done⟩] := rfl
  unfold Within
  rw [hstep, tolls_snoc]
  exact Nat.add_le_add_right hw _

/-- **The retries of a brain call** are charged one by one. -/
theorem attemptBrain_within (context : Context) (n : Nat) : ∀ k : Nat,
    Triple (Within call usage tool k) (attemptBrain hunt runId context n)
      (fun _ => Within call usage tool (k + n * call))
      (fun _ => Within call usage tool (k + n * call)) := by
  induction n with
  | zero => exact fun k => Triple.pure (fun _ hw => hw.mono (Nat.le_add_right ..))
  | succ remaining ih =>
      intro k
      have hsum : k + (remaining + 1) * call = k + call + remaining * call := by
        rw [Nat.succ_mul]
        omega
      have hle : ∀ w : Sess, Within call usage tool (k + call) w →
          Within call usage tool (k + call + remaining * call) w :=
        fun _ hw => hw.mono (Nat.le_add_right ..)
      rw [hsum]
      refine (callNumber_within context).seq (fun _ => hle) (fun n => ?_)
      have hbrain : Keeps (Within call usage tool (k + call))
          (runBrain hunt runId (hunt.brain n context)) :=
        runBrain_keeps within_closed free_controls (fun _ now hevent => hevent.free now) rfl _
      refine hbrain.observe.triple.seq (fun _ => hle) (fun r => ?_)
      cases r with
      | ok decision =>
          exact (decided_keeps within_closed).triple.seq (fun _ => hle)
            (fun _ => Triple.pure hle)
      | error e =>
          cases e with
          | cancelled => exact Triple.throw hle
          | raised exc =>
              dsimp only
              cases httpFailure exc with
              | none => exact Triple.throw hle
              | some rawResponse =>
                  refine (append_within _).seq (fun _ => hle) (fun _ => ?_)
                  by_cases hretry : classify exc ∧ remaining ≠ 0
                  · rw [if_pos hretry]
                    exact ih (k + call)
                  · rw [if_neg hretry]
                    exact Triple.pure hle

theorem appendUsage_within (u : Option UsageEvent) :
    Triple (Within call usage tool k) (appendUsage hunt runId u)
      (fun _ => Within call usage tool (k + usage)) (fun _ => Within call usage tool (k + usage)) := by
  cases u with
  | none => exact Triple.pure (fun _ hw => hw.mono (Nat.le_add_right ..))
  | some u => exact append_within (.usage u)

/-- **A tool is charged for its call once**, however often it is tried. -/
theorem runTool_within [PyRuntime] (decision : ToolCallDecision) :
    Triple (Within call usage tool k) (runTool hunt runId decision)
      (fun _ => Within call usage tool (k + tool)) (fun _ => Within call usage tool (k + tool)) := by
  have hle : ∀ w : Sess, Within call usage tool k w → Within call usage tool (k + tool) w :=
    fun _ hw => hw.mono (Nat.le_add_right ..)
  have hattempts : Appends (Free call usage tool) runId TrajectoryEvent.OfAttempt :=
    fun _ now hevent => hevent.free now
  have hrefuse : ∀ error detail, Triple (Within call usage tool k)
      (refuseTool hunt runId decision error detail)
      (fun _ => Within call usage tool (k + tool)) (fun _ => Within call usage tool (k + tool)) :=
    fun error detail => (refuseTool_keeps within_closed free_controls hattempts).triple.conseq
      (fun _ hw => hw) (fun _ => hle) (fun _ => hle)
  unfold runTool
  cases hunt.registry.get decision.tool with
  | none => exact hrefuse _ _
  | some registered =>
      dsimp only
      split
      · exact hrefuse _ _
      · exact Triple.throw hle
      · next kwargs _ =>
          refine (attempt_keeps within_closed free_controls).triple.seq (fun _ => hle)
            (fun rawRequest => ?_)
          refine (append_within (.toolCall _)).bind (fun _ => ?_)
          exact (attemptTool_keeps within_closed free_controls hattempts hunt.attempts).triple

/-! ## A run -/

/-- The charge of an iteration: a brain call with its retries, one usage, one tool call. -/
def Hunt.fare (hunt : Hunt) (call usage tool : Nat) : Nat := hunt.attempts * call + usage + tool

/-- So much may still be charged. -/
def Affords (call usage tool total due : Nat) (w : Sess) : Prop :=
  tolls call usage tool w.trace + due ≤ total

theorem Affords.within {total due : Nat} {w : Sess} (h : Affords call usage tool total due w) :
    Within call usage tool total w :=
  Nat.le_trans (Nat.le_add_right ..) h

/-- What charges `cost` may be run where `cost` is still affordable. -/
theorem affords_triple {α : Type} {m : Prog α} {cost : Nat}
    (h : ∀ k, Triple (Within call usage tool k) m (fun _ => Within call usage tool (k + cost))
      (fun _ => Within call usage tool (k + cost))) (total due : Nat) :
    Triple (Affords call usage tool total (due + cost)) m
      (fun _ => Affords call usage tool total due) (fun _ => Within call usage tool total) := by
  intro s hs
  have hpost : ∀ w : Sess, Within call usage tool (tolls call usage tool s.trace + cost) w →
      Affords call usage tool total due w := by
    intro w hw
    unfold Affords Within at *
    omega
  exact (h (tolls call usage tool s.trace)).conseq (fun _ hw => hw) (fun _ => hpost)
    (fun _ w hw => (hpost w hw).within) s (Nat.le_refl _)

/-- What is free may be run anywhere. -/
theorem affords_of_keeps {α : Type} {m : Prog α}
    (h : ∀ k, Keeps (Within call usage tool k) m) (total due : Nat) :
    Triple (Affords call usage tool total due) m
      (fun _ => Affords call usage tool total due) (fun _ => Within call usage tool total) :=
  have hfree : ∀ k, Triple (Within call usage tool k) m
      (fun _ => Within call usage tool (k + 0)) (fun _ => Within call usage tool (k + 0)) :=
    fun k => (h k).triple
  affords_triple hfree total due

def affordedPlaces (hunt : Hunt) (call usage tool total : Nat) : LoopPlaces where
  head n := Affords call usage tool total (n * hunt.fare call usage tool)
  called n _ := Affords call usage tool total ((n + 1) * hunt.fare call usage tool)
  decided n _ _ := Affords call usage tool total (n * hunt.fare call usage tool + tool + usage)
  paid n _ := Affords call usage tool total (n * hunt.fare call usage tool + tool)
  left := Within call usage tool total
  failed _ := Within call usage tool total

section Loop

variable [PyRuntime]

theorem affordedPlaces_holds (total : Nat) :
    (affordedPlaces hunt call usage tool total).Holds hunt runId := by
  have hsplit : ∀ n, (n + 1) * hunt.fare call usage tool
      = n * hunt.fare call usage tool + tool + usage + hunt.attempts * call := by
    intro n
    rw [Nat.succ_mul]
    unfold Hunt.fare
    omega
  refine ⟨fun _ hw => hw.within, ?_, fun _ _ _ hw => hw.within, ?_, ?_, ?_, ?_,
    fun _ _ _ hw => hw.within⟩
  · intro n
    exact affords_of_keeps (fun _ => select_keeps within_closed free_controls) total _
  · intro n context _
    have hcall := affords_triple (fun k => @attemptBrain_within call usage tool hunt runId context
      hunt.attempts k) total (n * hunt.fare call usage tool + tool + usage)
    rw [← hsplit n] at hcall
    refine hcall.conseq (fun _ hw => hw) ?_ (fun _ _ hw => hw)
    intro r w hw
    cases r with
    | none => exact hw.within
    | some decision => exact hw
  · exact fun n context decision _ =>
      affords_triple (fun _ => appendUsage_within decision.usage) total _
  · intro n decision
    refine (affords_triple (fun _ => runTool_within decision) total _).conseq (fun _ hw => hw) ?_
      (fun _ _ hw => hw)
    intro goesOn w hw
    cases goesOn with
    | true => exact hw
    | false => exact hw.within
  · intro n _ posting
    exact affords_of_keeps (fun _ => capturePrey_keeps within_closed free_controls
      (fun _ _ => rfl) (fun _ _ => rfl)) total _

/-- **A run is charged for its iterations**, for every brain and tool and under every schedule of
    faults. -/
theorem runHunt_within (hunt : Hunt) (env : Env) (db : Db) (call usage tool : Nat) :
    tolls call usage tool ((runHunt hunt).exec (env.session db)).2.trace
      ≤ hunt.maxIterations.toNat * hunt.fare call usage tool := by
  have hrun : Triple (Within call usage tool 0) (runHunt hunt)
      (fun _ => Within call usage tool (hunt.maxIterations.toNat * hunt.fare call usage tool))
      (fun _ => Within call usage tool (hunt.maxIterations.toNat * hunt.fare call usage tool)) := by
    refine runHunt_rule within_closed free_controls within_frameless (fun _ => True)
      (fun _ => Within call usage tool 0) (fun _ _ _ _ => rfl) (fun _ _ _ _ _ => rfl) ?_ ?_
    · exact (within_frameless.inFrame (startRun_keeps within_closed free_controls
        (fun _ _ => rfl))).triple.conseq (fun _ hw => hw) (fun _ _ hw => ⟨trivial, hw⟩)
        (fun _ _ hw => hw.mono (Nat.zero_le _))
    · intro runId _
      refine Session.inFrame_triple (fun _ _ hw => hw) (fun _ _ _ hw => hw) (fun _ _ _ hw => hw) ?_
      refine (driveFor_rule (affordedPlaces_holds _) hunt.maxIterations.toNat).conseq ?_
        (fun _ _ hw => hw) (fun _ _ hw => hw)
      rintro w ⟨-, hw⟩
      have hzero : tolls call usage tool w.trace = 0 := Nat.le_zero.1 hw
      show tolls call usage tool w.trace + _ ≤ _
      rw [hzero, Nat.zero_add]
  exact hrun.final (s := env.session db) (Nat.le_refl 0)

end Loop

/-! ## The ceiling at each invocation -/

/-- The brain was invoked only below the ceiling. -/
def InvokedBelow (runId : PyStr) (ceiling : ℚ) (trace : List (Step Frame Op)) : Prop :=
  ∀ pre st post, trace = pre ++ st :: post → invokes st.op = true →
    spentOn runId (written pre) < ceiling

variable {db : Db}

/-- The same of a session. -/
def Heeds (hunt : Hunt) (runId : PyStr) (w : Sess) : Prop :=
  InvokedBelow runId hunt.costCeilingUsd w.trace

theorem heeds_closed : Closed Stmt.exec (fun op : Op => invokes op = false) (Heeds hunt runId) := by
  refine Session.closed_trace (J := InvokedBelow runId hunt.costCeilingUsd) ?_
  intro trace st hst h
  exact Session.Before.snoc h (fun hinvokes => absurd (hst.symm.trans hinvokes) (by decide))

theorem heeds_frameless : Frameless (Heeds hunt runId) :=
  Session.frameless_trace (InvokedBelow runId hunt.costCeilingUsd)

theorem heeds_controls : Controls (fun op : Op => invokes op = false) where
  commit := rfl
  rollback := rfl
  other := by
    intro x hx
    cases x with
    | call => cases hx
    | select | dump | encode | request | brain | tool | connect | close => rfl

/-- Below the ceiling the brain may be invoked. -/
theorem heeds_calls {x : ℚ} (hx : x < hunt.costCeilingUsd) :
    Closed Stmt.exec (Calls runId) (fun w => HasSpent hunt runId db x w ∧ Heeds hunt runId w) :=
  (calls_closed hx).before (fun _ _ _ _ hw _ => hw.1.2.2.trans_lt hx)

/-- The places of the meter, with what is known of the invocations. -/
def heededPlaces (hunt : Hunt) (runId : PyStr) (db : Db) : LoopPlaces where
  head _ w := (∃ x, HasSpent hunt runId db x w) ∧ Heeds hunt runId w
  called _ context w := HasSpent hunt runId db (foldCost context) w ∧ Heeds hunt runId w
  decided _ context _ w := HasSpent hunt runId db (foldCost context) w ∧ Heeds hunt runId w
  paid _ _ w := (∃ x, HasSpent hunt runId db x w) ∧ Heeds hunt runId w
  left := Heeds hunt runId
  failed _ := Heeds hunt runId

section Loop

variable [PyRuntime]

theorem heededPlaces_holds (hnew : runId ∉ db.tables.runs.map Run.id) :
    (heededPlaces hunt runId db).Holds hunt runId := by
  have hclosed : Closed Stmt.exec (fun op : Op => invokes op = false) (Heeds hunt runId) :=
    heeds_closed
  have hmeter := @meteredPlaces_holds hunt runId db _ hnew
  refine ⟨fun _ hw => hw.2, fun n => ?_, fun _ _ _ hw => hw.2, fun n context hbelow => ?_,
    fun n context decision hbelow => ?_, fun n decision => ?_, fun n decision posting => ?_,
    fun _ _ _ hw => hw.2⟩
  · have hread : Keeps (Heeds hunt runId) (readEvents runId) := select_keeps hclosed heeds_controls
    exact (hread.and_triple (hmeter.read n)).conseq (fun _ hw => hw) (fun _ _ hw => hw)
      (fun _ _ hw => hw.2)
  · have hkeeps : Keeps (fun w => HasSpent hunt runId db (foldCost context) w ∧ Heeds hunt runId w)
        (callBrain hunt runId context) :=
      attemptBrain_keeps (heeds_calls hbelow) (calls_controls runId)
        (fun _ now hevent => Or.inl (quiet_append hevent.usage? now)) (Or.inr rfl)
        (Or.inl trivial) hunt.attempts
    refine hkeeps.triple.conseq (fun _ hw => hw) ?_ (fun _ _ hw => hw.2)
    intro r w hw
    cases r with
    | none => exact hw.2
    | some decision => exact hw
  · have hpay : Keeps (Heeds hunt runId) (appendUsage hunt runId decision.usage) :=
      appendUsage_keeps hclosed heeds_controls (fun _ _ _ => rfl)
    exact (hpay.and_triple (hmeter.pay n context decision hbelow)).conseq (fun _ hw => hw)
      (fun _ _ hw => hw) (fun _ _ hw => hw.2)
  · have htool : Keeps (Heeds hunt runId) (runTool hunt runId decision) :=
      runTool_keeps hclosed heeds_controls (fun _ _ _ => rfl)
    have hspent : Keeps (fun w => ∃ x, HasSpent hunt runId db x w) (runTool hunt runId decision) :=
      fun w ⟨x, hw⟩ => ⟨x, runTool_meter w hw⟩
    refine (htool.and_triple hspent.triple).conseq (fun _ hw => hw) ?_ (fun _ _ hw => hw.2)
    intro goesOn w hw
    cases goesOn with
    | true => exact hw
    | false => exact hw.2
  · have hcapture : Keeps (Heeds hunt runId)
        (capturePrey runId hunt.territory posting hunt.publish) :=
      capturePrey_keeps hclosed heeds_controls (fun _ _ => rfl) (fun _ _ => rfl)
    exact (hcapture.and_triple (hmeter.capture n decision posting)).conseq (fun _ hw => hw)
      (fun _ _ hw => hw) (fun _ _ hw => hw.2)

theorem runHunt_heeds (hunt : Hunt) (env : Env) (db : Db) :
    InvokedBelow (env.uuid4 0) hunt.costCeilingUsd
      ((runHunt hunt).exec (env.session db)).2.trace := by
  have hclosed : Closed Stmt.exec (fun op : Op => invokes op = false)
      (Heeds hunt (env.uuid4 0)) := heeds_closed
  have hstart : Triple (Opening (env.uuid4 0) db)
      (startRun hunt.territory (some hunt.costCeilingUsd) (some hunt.maxIterations))
      (fun id w => (id = env.uuid4 0 ∧ env.uuid4 0 ∉ db.tables.runs.map Run.id) ∧
        (∃ x, HasSpent hunt (env.uuid4 0) db x w) ∧ Heeds hunt (env.uuid4 0) w)
      (fun _ => Heeds hunt (env.uuid4 0)) := by
    have hkeeps : Keeps (Heeds hunt (env.uuid4 0))
        (startRun hunt.territory (some hunt.costCeilingUsd) (some hunt.maxIterations)) :=
      startRun_keeps hclosed heeds_controls (fun _ _ => rfl)
    refine (startRun_meter.and (hkeeps.triple.pre ?_)).conseq (fun _ hw => hw)
      (fun _ _ hw => ⟨hw.1.1, hw.1.2, hw.2⟩) (fun _ _ hw => hw.2)
    rintro w ⟨-, htrace, -⟩ pre st post hsplit
    rw [htrace] at hsplit
    exact absurd hsplit (by simp)
  have hrun : Triple (Opening (env.uuid4 0) db) (runHunt hunt)
      (fun _ => Heeds hunt (env.uuid4 0)) (fun _ => Heeds hunt (env.uuid4 0)) := by
    refine runHunt_rule hclosed heeds_controls heeds_frameless
      (fun id => id = env.uuid4 0 ∧ env.uuid4 0 ∉ db.tables.runs.map Run.id)
      (fun _ w => (∃ x, HasSpent hunt (env.uuid4 0) db x w) ∧ Heeds hunt (env.uuid4 0) w)
      (fun _ _ _ _ => rfl) (fun _ _ _ _ _ => rfl) ?_ ?_
    · exact Session.inFrame_triple (fun _ _ hw => hw) (fun _ _ _ hw => hw) (fun _ _ _ hw => hw)
        (hstart.pre (fun _ hw => hw.2))
    · rintro _ ⟨rfl, hnew⟩
      exact Session.inFrame_triple (fun _ _ hw => hw) (fun _ _ _ hw => hw) (fun _ _ _ hw => hw)
        ((driveFor_rule (heededPlaces_holds hnew) _).pre (fun _ hw => hw.2))
  exact hrun.final (s := env.session db) ⟨rfl, rfl, rfl⟩

/-! ## Every moment of a run -/

/-- Every part of the run before was accepted by the database. -/
theorem runHunt_replays (hunt : Hunt) (env : Env) (db : Db) {pre : List (Step Frame Op)}
    (hpre : pre <+: ((runHunt hunt).exec (env.session db)).2.trace) :
    ∃ db', Session.execAll Stmt.exec (written pre) db = some db' := by
  have hclosed : Closed Stmt.exec (fun _ => True) (fun w : Sess => Replays Stmt.exec db w ∧
      ∀ pre, pre <+: w.trace → ∃ db', Session.execAll Stmt.exec (written pre) db = some db') :=
    (Session.replays_closed db).prefixes (fun w hw => ⟨_, hw.written⟩)
  have hframe : Frameless (fun w : Sess => Replays Stmt.exec db w ∧
      ∀ pre, pre <+: w.trace → ∃ db', Session.execAll Stmt.exec (written pre) db = some db') :=
    (Session.frameless_replays db).prefixes
  have hkeeps : Keeps _ (runHunt hunt) :=
    runHunt_keeps hclosed Controls.any trivial (fun _ => trivial) hframe
      (fun _ _ _ _ => trivial) (fun _ _ => trivial) (fun _ _ _ _ => trivial)
      (fun _ _ => capturePrey_keeps hclosed Controls.any (fun _ _ => trivial) (fun _ _ => trivial))
  refine (hkeeps (env.session db) ⟨⟨rfl, rfl⟩, ?_⟩).2 pre hpre
  intro pre hpre
  rw [List.prefix_nil.1 hpre]
  exact ⟨db, rfl⟩

end Loop

/-! ## The log and the board -/

theorem sum_toll_usage (log : List TrajectoryEvent) :
    (log.map (TrajectoryEvent.toll 1 0)).sum = log.countP TrajectoryEvent.isUsage := by
  induction log with
  | nil => rfl
  | cons event log ih =>
      rw [List.map_cons, List.sum_cons, ih, List.countP_cons, Nat.add_comm]
      cases event <;> rfl

theorem sum_toll_tool (log : List TrajectoryEvent) :
    (log.map (TrajectoryEvent.toll 0 1)).sum = log.countP TrajectoryEvent.isToolCall := by
  induction log with
  | nil => rfl
  | cons event log ih =>
      rw [List.map_cons, List.sum_cons, ih, List.countP_cons, Nat.add_comm]
      cases event <;> rfl

theorem tolls_call (trace : List (Step Frame Op)) :
    tolls 1 0 0 trace = trace.countP (fun st => invokes st.op) := by
  have hone : ∀ op : Op, toll 1 0 0 op = if invokes op = true then 1 else 0 := by
    intro op
    cases op with
    | execute s =>
        cases s with
        | appendEvent runId event now => cases event <;> rfl
        | _ => rfl
    | other x => cases x <;> rfl
    | commit | rollback => rfl
  induction trace with
  | nil => rfl
  | cons st trace ih =>
      unfold tolls at ih ⊢
      rw [List.map_cons, List.sum_cons, ih, hone, List.countP_cons, Nat.add_comm]

/-- The log of a run is charged no more than the statements that wrote it. -/
theorem sum_toll_eventOn (runId : PyStr) (ss : List Stmt) :
    ((ss.filterMap (Stmt.eventOn runId)).map (TrajectoryEvent.toll usage tool)).sum
      ≤ (ss.map (fun s => toll call usage tool (.execute s))).sum := by
  induction ss with
  | nil => exact Nat.le_refl 0
  | cons s ss ih =>
      rw [List.map_cons, List.sum_cons]
      cases hs : s.eventOn runId with
      | none =>
          rw [List.filterMap_cons_none hs]
          exact Nat.le_add_left_of_le ih
      | some event =>
          rw [List.filterMap_cons_some hs, List.map_cons, List.sum_cons]
          refine Nat.add_le_add ?_ ih
          cases s with
          | appendEvent runId' event' now =>
              have hevent : event' = event := by
                by_cases hrun : runId' = runId
                · simpa [Stmt.eventOn, Stmt.appended, hrun] using hs
                · simp [Stmt.eventOn, Stmt.appended, hrun] at hs
              rw [hevent]
              exact Nat.le_refl _
          | _ => cases hs

theorem tolls_prefix {pre trace : List (Step Frame Op)} (h : pre <+: trace) :
    tolls call usage tool pre ≤ tolls call usage tool trace := by
  obtain ⟨rest, rfl⟩ := h
  unfold tolls
  rw [List.map_append, List.sum_append]
  exact Nat.le_add_right ..

/-- What the fold counts as turns are tool calls of the run. -/
theorem turns_foldl (rows : List LogRow) (runId : PyStr) : ∀ {acc : Accumulator} {n : Nat},
    (∀ run, runOf acc.runs runId = some run → run.turns ≤ n) →
    ∀ run, runOf (rows.foldl Accumulator.step acc).runs runId = some run →
      run.turns ≤ n + (eventsOf rows runId).countP TrajectoryEvent.isToolCall := by
  induction rows with
  | nil => exact fun h => h
  | cons row rows ih =>
      intro acc n h run hrun
      have hsplit : (eventsOf (row :: rows) runId).countP TrajectoryEvent.isToolCall
          = (eventsOf [row] runId).countP TrajectoryEvent.isToolCall
            + (eventsOf rows runId).countP TrajectoryEvent.isToolCall := by
        unfold eventsOf
        rw [← List.countP_append, ← List.map_append, ← List.filter_append]
        rfl
      rw [hsplit, ← Nat.add_assoc]
      refine ih (fun run hrun => ?_) run hrun
      unfold Accumulator.step at hrun
      split at hrun
      · exact Nat.le_add_right_of_le (h run hrun)
      · simp only [Accumulator.apply, runOf_setRun] at hrun
        by_cases hrow : row.runId = runId
        · have hbefore : ((runOf acc.runs runId).getD .new).turns ≤ n := by
            cases hold : runOf acc.runs runId with
            | none => exact Nat.zero_le n
            | some old => exact h old hold
          rw [if_pos hrow, hrow, Option.some.injEq] at hrun
          rw [← hrun]
          cases hevent : row.event <;>
            simp [RunAcc.apply, eventsOf, hrow, hevent, TrajectoryEvent.isToolCall, hbefore]
        · rw [if_neg hrow] at hrun
          exact Nat.le_add_right_of_le (h run hrun)

/-- Every run of the fold has a row. -/
theorem keys_foldl (rows : List LogRow) : ∀ {acc : Accumulator} {runId : PyStr},
    runId ∈ (rows.foldl Accumulator.step acc).runs.map Prod.fst →
      runId ∈ acc.runs.map Prod.fst ∨ ∃ row ∈ rows, row.runId = runId := by
  induction rows with
  | nil => exact fun h => Or.inl h
  | cons row rows ih =>
      intro acc runId h
      rcases ih h with h | ⟨row', hrow', hrun⟩
      · unfold Accumulator.step at h
        split at h
        · exact Or.inl h
        · have hset : runId ∈ (setRun acc.runs row.runId
              (((runOf acc.runs row.runId).getD .new).apply row.event)).map Prod.fst := h
          rcases setRun_keys acc.runs row.runId
              (((runOf acc.runs row.runId).getD .new).apply row.event) with heq | ⟨_, heq⟩
          · rw [heq] at hset
            exact Or.inl hset
          · rw [heq] at hset
            rcases List.mem_append.1 hset with hset | hset
            · exact Or.inl hset
            · exact Or.inr ⟨row, List.mem_cons_self, (List.mem_singleton.1 hset).symm⟩
      · exact Or.inr ⟨row', List.mem_cons_of_mem _ hrow', hrun⟩

theorem Tables.readLogRows_run {t : Tables} (ht : t.Schema) {cursor : Option PyStr} {row : LogRow}
    (h : row ∈ t.readLogRows cursor) : row.runId ∈ t.runs.map Run.id := by
  have hrows : ∃ r ∈ t.trajectoryEvents, Tables.logRow r = row := by
    cases cursor with
    | none =>
        obtain ⟨r, hr, heq⟩ := List.mem_map.1 h
        exact ⟨r, (Table.mem_orderBy _ _ _).1 hr, heq⟩
    | some other =>
        obtain ⟨r, hr, heq⟩ := List.mem_map.1 h
        exact ⟨r, (List.mem_filter.1 ((Table.mem_orderBy _ _ _).1 hr)).1, heq⟩
  obtain ⟨r, hr, rfl⟩ := hrows
  exact ht.eventsRun _ (List.mem_map_of_mem hr)

/-- Whichever cursor reads them, the rows of a run are events of its log. -/
theorem countP_readLogRows (t : Tables) (cursor : Option PyStr) (runId : PyStr)
    (p : TrajectoryEvent → Bool) :
    (eventsOf (t.readLogRows cursor) runId).countP p ≤ (t.readEvents runId).countP p := by
  have hlog : (t.readEvents runId).countP p
      = ((t.trajectoryEvents.filter (fun r => r.runId = runId)).map
          TrajectoryRow.payload).countP p :=
    ((Table.orderBy_perm _ _).map _).countP_eq p
  have hrows : ∀ (key : TrajectoryRow → Nat) (rows : List TrajectoryRow),
      (eventsOf ((Table.orderBy key rows).map Tables.logRow) runId).countP p
        = ((rows.filter (fun r => r.runId = runId)).map TrajectoryRow.payload).countP p := by
    intro key rows
    unfold eventsOf
    rw [List.filter_map, List.map_map]
    exact (((Table.orderBy_perm key rows).filter _).map _).countP_eq p
  rw [hlog]
  cases cursor with
  | none => exact Nat.le_of_eq (hrows _ _)
  | some other =>
      refine Nat.le_trans (Nat.le_of_eq (hrows _ _)) ?_
      refine List.Sublist.countP_le (List.Sublist.map _ ?_)
      exact List.Sublist.filter _ List.filter_sublist

/-- The operation records no other limit than the hunt's. -/
def RecordsLimit (hunt : Hunt) : Op → Prop
  | .execute (.insertRun _ _ _ _ maxIterations) => maxIterations = some hunt.maxIterations
  | _ => True

theorem maxIterations_execAll {ss : List Stmt} {db db' : Db}
    (hss : ∀ s ∈ ss, RecordsLimit hunt (.execute s))
    (hexec : Session.execAll Stmt.exec ss db = some db')
    (hnew : runId ∉ db.tables.runs.map Run.id) :
    ∀ r ∈ db'.tables.runs, r.id = runId → r.maxIterations = some hunt.maxIterations := by
  refine execAll_tables (P := fun t => ∀ r ∈ t.runs, r.id = runId →
    r.maxIterations = some hunt.maxIterations) ?_ hss hexec ?_
  · intro s t t' c hs _ h happly
    rcases Stmt.apply_runs happly with heq | ⟨id, _, _, _, m, rfl, heq⟩ | ⟨p, f, heq, hupdate⟩
    · rw [heq]
      exact h
    · rw [heq]
      exact forall_mem_snoc h (fun _ => hs)
    · rw [heq]
      intro r' hr'
      obtain ⟨r, hr, rfl⟩ := Table.mem_updateWhere.1 hr'
      by_cases hp : p r = true
      · rw [if_pos hp]
        intro hid
        rw [(hupdate r hp).1.maxIterations]
        exact h r hr ((hupdate r hp).1.id.symm.trans hid)
      · rw [if_neg hp]
        exact h r hr
  · intro r hr hid
    exact absurd (List.mem_map.2 ⟨r, hr, hid⟩) hnew

/-- The view of a run on the board shows no more turns than its log has tool calls, and the limit of
    its row. -/
theorem Tables.board_turns {t : Tables} (ht : t.Schema) {cursor : Option PyStr} {hour : Nat}
    {ceiling : Option ℚ} {schedule : List PyStr} {view : RunView}
    (hview : view ∈ (t.buildViewstate hour cursor ceiling schedule).runs) :
    view.turns ≤ (t.readEvents view.runId).countP TrajectoryEvent.isToolCall ∧
      ∃ r ∈ t.runs, r.id = view.runId ∧ view.maxIterations = r.maxIterations := by
  obtain ⟨base, hbase, rfl⟩ := List.mem_map.1 hview
  obtain ⟨e, he, rfl⟩ := List.mem_map.1 hbase
  have hnodup : (((t.readLogRows cursor).foldl Accumulator.step .new).runs.map Prod.fst).Nodup :=
    runs_nodup _ (List.nodup_nil : ((Accumulator.new.runs).map Prod.fst).Nodup)
  have hturns : e.2.turns
      ≤ 0 + (eventsOf (t.readLogRows cursor) e.1).countP TrajectoryEvent.isToolCall :=
    @turns_foldl (t.readLogRows cursor) e.1 .new 0 nofun e.2 (runOf_of_mem hnodup he)
  have hrow : e.1 ∈ t.runs.map Run.id := by
    rcases keys_foldl _ (List.mem_map_of_mem he) with h | ⟨row, hrow, hrun⟩
    · exact absurd h List.not_mem_nil
    · rw [← hrun]
      exact Tables.readLogRows_run ht hrow
  obtain ⟨r, hr, hid⟩ := List.mem_map.1 hrow
  have hfind : t.runs.find? (fun r => r.id = (e.2.view e.1).runId) = some r :=
    (Table.find_key_eq_some ht.runsKey).2 ⟨hr, hid⟩
  rw [Nat.zero_add] at hturns
  unfold overlayRun
  rw [hfind]
  exact ⟨Nat.le_trans hturns (countP_readLogRows t cursor e.1 _), r, hr, hid, rfl⟩

/-- The log of the run at a moment. -/
theorem runHunt_log {env : Env} {db db' : Db} (hnew : env.uuid4 0 ∉ db.tables.runs.map Run.id)
    {pre : List (Step Frame Op)} (hexec : Session.execAll Stmt.exec (written pre) db = some db') :
    db'.tables.readEvents (env.uuid4 0)
      = (written pre).filterMap (Stmt.eventOn (env.uuid4 0)) := by
  rw [readEvents_execAll _ hexec, db.schema.readEvents_eq_nil hnew, List.nil_append]

section Loop

variable [PyRuntime]

theorem runHunt_recordsLimit (hunt : Hunt) (env : Env) (db : Db) :
    ∀ st ∈ ((runHunt hunt).exec (env.session db)).2.trace, RecordsLimit hunt st.op := by
  have hclosed : Closed Stmt.exec (RecordsLimit hunt)
      (fun w : Sess => ∀ st ∈ w.trace, RecordsLimit hunt st.op) :=
    Session.closed_trace (J := fun trace => ∀ st ∈ trace, RecordsLimit hunt st.op)
      (fun _ _ hst h => forall_mem_snoc h hst)
  have hcontrols : Controls (RecordsLimit hunt) := ⟨trivial, trivial, fun _ _ => trivial⟩
  have hkeeps : Keeps _ (runHunt hunt) :=
    runHunt_keeps hclosed hcontrols trivial (fun _ => trivial)
      (Session.frameless_trace (fun trace => ∀ st ∈ trace, RecordsLimit hunt st.op))
      (fun _ _ _ _ => trivial) (fun _ _ => rfl) (fun _ _ _ _ => trivial)
      (fun _ _ => capturePrey_keeps hclosed hcontrols (fun _ _ => trivial) (fun _ _ => trivial))
  exact hkeeps (env.session db) (fun st hst => absurd hst List.not_mem_nil)

/-- The log of the run is charged for the iterations, at every moment. -/
theorem runHunt_log_within {hunt : Hunt} {env : Env} {db db' : Db}
    (hnew : env.uuid4 0 ∉ db.tables.runs.map Run.id) {pre : List (Step Frame Op)}
    (hpre : pre <+: ((runHunt hunt).exec (env.session db)).2.trace)
    (hexec : Session.execAll Stmt.exec (written pre) db = some db') (usage tool : Nat) :
    ((db'.tables.readEvents (env.uuid4 0)).map (TrajectoryEvent.toll usage tool)).sum
      ≤ hunt.maxIterations.toNat * hunt.fare 0 usage tool := by
  have hevents : ((db'.tables.readEvents (env.uuid4 0)).map (TrajectoryEvent.toll usage tool)).sum
      ≤ ((written pre).map (fun s => toll 0 usage tool (.execute s))).sum := by
    rw [runHunt_log hnew hexec]
    exact sum_toll_eventOn _ _
  calc ((db'.tables.readEvents (env.uuid4 0)).map (TrajectoryEvent.toll usage tool)).sum
    _ ≤ ((written pre).map (fun s => toll 0 usage tool (.execute s))).sum := hevents
    _ ≤ tolls 0 usage tool pre := Session.sum_written_le (toll 0 usage tool) pre
    _ ≤ tolls 0 usage tool ((runHunt hunt).exec (env.session db)).2.trace := tolls_prefix hpre
    _ ≤ hunt.maxIterations.toNat * hunt.fare 0 usage tool := runHunt_within hunt env db 0 usage tool

theorem runHunt_usages {hunt : Hunt} {env : Env} {db db' : Db}
    (hnew : env.uuid4 0 ∉ db.tables.runs.map Run.id) {pre : List (Step Frame Op)}
    (hpre : pre <+: ((runHunt hunt).exec (env.session db)).2.trace)
    (hexec : Session.execAll Stmt.exec (written pre) db = some db') :
    (db'.tables.readEvents (env.uuid4 0)).countP TrajectoryEvent.isUsage
      ≤ hunt.maxIterations.toNat := by
  have h := runHunt_log_within hnew hpre hexec 1 0
  have hfare : hunt.fare 0 1 0 = 1 := by simp [Hunt.fare]
  rwa [sum_toll_usage, hfare, Nat.mul_one] at h

theorem runHunt_toolCalls {hunt : Hunt} {env : Env} {db db' : Db}
    (hnew : env.uuid4 0 ∉ db.tables.runs.map Run.id) {pre : List (Step Frame Op)}
    (hpre : pre <+: ((runHunt hunt).exec (env.session db)).2.trace)
    (hexec : Session.execAll Stmt.exec (written pre) db = some db') :
    (db'.tables.readEvents (env.uuid4 0)).countP TrajectoryEvent.isToolCall
      ≤ hunt.maxIterations.toNat := by
  have h := runHunt_log_within hnew hpre hexec 0 1
  have hfare : hunt.fare 0 0 1 = 1 := by simp [Hunt.fare]
  rwa [sum_toll_tool, hfare, Nat.mul_one] at h

/-- **Every usage in the log was appended below the ceiling**: the statements came one after the
    other, and the append of a usage is metered. -/
theorem runHunt_usage_below {hunt : Hunt} {env : Env} {db db' : Db}
    (hnew : env.uuid4 0 ∉ db.tables.runs.map Run.id) {pre : List (Step Frame Op)}
    (hpre : pre <+: ((runHunt hunt).exec (env.session db)).2.trace)
    (hexec : Session.execAll Stmt.exec (written pre) db = some db')
    {before after : List TrajectoryEvent} {usage : UsageEvent}
    (hsplit : db'.tables.readEvents (env.uuid4 0) = before ++ .usage usage :: after) :
    foldCost before < hunt.costCeilingUsd := by
  rw [runHunt_log hnew hexec] at hsplit
  obtain ⟨l, r, hl, rfl, hr⟩ := List.filterMap_eq_append_iff.1 hsplit
  obtain ⟨l', s, r', rfl, hnone, hs, -⟩ := List.filterMap_eq_cons_iff.1 hr
  rw [← List.append_assoc] at hl
  obtain ⟨past, st, rest, rfl, hop, hpast⟩ := Session.written_split hl
  obtain ⟨more, htrace⟩ := hpre
  rw [List.append_assoc] at htrace
  have hspends : Spends st.op := by
    rw [hop]
    cases s with
    | appendEvent runId event now =>
        have hevent : event = .usage usage := by
          by_cases hrun : runId = env.uuid4 0
          · simpa [Stmt.eventOn, Stmt.appended, hrun] using hs
          · simp [Stmt.eventOn, Stmt.appended, hrun] at hs
        rw [hevent]
        exact Option.some_ne_none usage
    | _ => cases hs
  have hskip : l'.filterMap (Stmt.eventOn (env.uuid4 0)) = [] := List.filterMap_eq_nil_iff.2 hnone
  have hbelow := (runHunt_metered hunt env db).1.below past st (rest ++ more) htrace.symm hspends
  rw [hpast, ← foldCost_eventOn, List.filterMap_append, hskip, List.append_nil] at hbelow
  exact hbelow

/-- **A run stays within its breakers.** Whatever the brain and the tools do and whatever faults meet
    the run, the brain is invoked only while the log of the run costs less than the ceiling, and at
    most once for each iteration and retry. At every moment each usage in the log was appended below
    the ceiling, there are at most as many usages and as many tool calls as iterations, and so many
    turns on the board, next to the recorded limit. -/
theorem runHunt_budgeted (hunt : Hunt) (env : Env) (db : Db)
    (hiterations : 0 ≤ hunt.maxIterations) (hretries : 0 ≤ hunt.retryBudget)
    (hnew : env.uuid4 0 ∉ db.tables.runs.map Run.id) :
    (∀ pre st post, ((runHunt hunt).exec (env.session db)).2.trace = pre ++ st :: post →
      invokes st.op = true → ∃ db', Session.execAll Stmt.exec (written pre) db = some db' ∧
        foldCost (db'.tables.readEvents (env.uuid4 0)) < hunt.costCeilingUsd) ∧
    ((((runHunt hunt).exec (env.session db)).2.trace.countP (fun st => invokes st.op) : Nat) : Int)
      ≤ hunt.maxIterations * (hunt.retryBudget + 1) ∧
    ∀ pre, pre <+: ((runHunt hunt).exec (env.session db)).2.trace →
      ∃ db', Session.execAll Stmt.exec (written pre) db = some db' ∧
        (∀ before usage after, db'.tables.readEvents (env.uuid4 0)
          = before ++ .usage usage :: after → foldCost before < hunt.costCeilingUsd) ∧
        ((db'.tables.readEvents (env.uuid4 0)).countP TrajectoryEvent.isUsage : Int)
          ≤ hunt.maxIterations ∧
        ((db'.tables.readEvents (env.uuid4 0)).countP TrajectoryEvent.isToolCall : Int)
          ≤ hunt.maxIterations ∧
        ∀ hour cursor ceiling schedule,
          ∀ view ∈ (db'.tables.buildViewstate hour cursor ceiling schedule).runs,
            view.runId = env.uuid4 0 → view.maxIterations = some hunt.maxIterations ∧
              (view.turns : Int) ≤ hunt.maxIterations := by
  have hiter : (hunt.maxIterations.toNat : Int) = hunt.maxIterations :=
    Int.toNat_of_nonneg hiterations
  refine ⟨?_, ?_, ?_⟩
  · intro pre st post htrace hinvokes
    obtain ⟨db', hexec⟩ := runHunt_replays hunt env db ⟨st :: post, htrace.symm⟩
    refine ⟨db', hexec, ?_⟩
    rw [runHunt_log hnew hexec, foldCost_eventOn]
    exact runHunt_heeds hunt env db pre st post htrace hinvokes
  · have hcalls := runHunt_within hunt env db 1 0 0
    have hfare : hunt.fare 1 0 0 = hunt.attempts := by simp [Hunt.fare]
    rw [tolls_call, hfare] at hcalls
    have hattempts : (hunt.attempts : Int) = hunt.retryBudget + 1 :=
      Int.toNat_of_nonneg (Int.le_add_one hretries)
    rw [← hiter, ← hattempts]
    exact_mod_cast hcalls
  · intro pre hpre
    obtain ⟨db', hexec⟩ := runHunt_replays hunt env db hpre
    have husages := runHunt_usages hnew hpre hexec
    have htools := runHunt_toolCalls hnew hpre hexec
    refine ⟨db', hexec, fun _ _ _ hsplit => runHunt_usage_below hnew hpre hexec hsplit,
      by omega, by omega, ?_⟩
    intro hour cursor ceiling schedule view hview hid
    obtain ⟨hturns, r, hr, hrow, hmax⟩ := Tables.board_turns db'.schema hview
    rw [hid] at hturns hrow
    refine ⟨?_, by omega⟩
    rw [hmax]
    refine maxIterations_execAll (fun s hs => ?_) hexec hnew r hr hrow
    obtain ⟨st, hst, hop⟩ := Session.mem_written hs
    rw [← hop]
    exact runHunt_recordsLimit hunt env db st (hpre.subset hst)

end Loop

/-- Every other brain call loses its connection; the tool it asks for runs. -/
def flakyHunt : Hunt :=
  { oneCatch with
    brain := fun n _ =>
      if n % 2 = 0 then .raise (.raised (.transportError (py "reset")))
      else .ret (.toolCall ⟨py "sniff", [], py "t", some ⟨py "claude-sonnet-5", 1000, 0⟩, []⟩)
    registry := [⟨py "sniff", .ok, fun _ => .ok [], fun _ _ => .ok (.bytes [])⟩]
    retryBudget := 1
    maxIterations := 2 }

/-- Its run uses up what it may: four invocations in two iterations. -/
theorem flakyRun_budgeted :
    ((@runHunt .ascii flakyHunt).exec ((Env.calm [py "r"]).session Db.empty)).2.trace.countP
        (fun st => invokes st.op) = 4 ∧
      ((((@runHunt .ascii flakyHunt).exec ((Env.calm [py "r"]).session Db.empty)).2.trace.countP
        (fun st => invokes st.op) : Nat) : Int)
        ≤ flakyHunt.maxIterations * (flakyHunt.retryBudget + 1) :=
  ⟨by decide +kernel, (@runHunt_budgeted .ascii flakyHunt (Env.calm [py "r"]) Db.empty (by decide)
    (by decide) List.not_mem_nil).2.1⟩

end RexHunter
