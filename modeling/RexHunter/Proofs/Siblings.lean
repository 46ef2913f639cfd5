import RexHunter.Implementation.Scheduler
import RexHunter.Proofs.Capture

set_option autoImplicit false

/-! # A hunt that fails and its siblings

`_bounded_hunt` opens its connection before its `try` and closes it in the `finally`, so an exception
leaves it exactly if one of these two raises. The task group then cancels the hunts of all other
territories. In the runs in which every connection is opened and closed without an exception, no
task fails, the group leaves all of them alone, and a territory whose hunt failed goes on to its next
tick. -/

namespace RexHunter

open Session (Closed Frameless)
open Coro (Keeps Triple)
open TaskGroup (Group Task)

/-! ## What leaves a pass -/

/-- The opening or the closing of a connection that raised. -/
def escapes (st : Step Frame Op) : Bool :=
  match st.op, st.fate with
  | .other .connect, .raised _ => true
  | .other .close, .raised _ => true
  | _, _ => false

/-- No connection has failed so far. -/
def Calm (trace : List (Step Frame Op)) : Prop := ∀ st ∈ trace, escapes st = false

/-- The trace of a pass that an exception leaves. -/
def Blamed (e : Exn PyExc) (trace : List (Step Frame Op)) : Prop :=
  match e with
  | .raised _ => ¬ Calm trace
  | .cancelled => Calm trace

theorem calm_snoc {trace : List (Step Frame Op)} {st : Step Frame Op} :
    Calm (trace ++ [st]) ↔ Calm trace ∧ escapes st = false := by
  simp [Calm, or_imp, forall_and]

/-- The operations inside the `try`. -/
def Guarded (op : Op) : Prop := op ≠ .other .connect ∧ op ≠ .other .close

theorem Guarded.escapes {st : Step Frame Op} (h : Guarded st.op) : escapes st = false := by
  unfold RexHunter.escapes
  split
  · next hop _ => exact absurd hop h.1
  · next hop _ => exact absurd hop h.2
  · rfl

theorem guarded_controls : Controls Guarded where
  commit := ⟨nofun, nofun⟩
  rollback := ⟨nofun, nofun⟩
  other := by
    intro x hx
    constructor
    · rintro ⟨⟩
      cases hx
    · rintro ⟨⟩
      cases hx

theorem guarded_execute (s : Stmt) : Guarded (.execute s) := ⟨nofun, nofun⟩

theorem calm_closed : Closed Stmt.exec Guarded (fun w : Sess => Calm w.trace) :=
  Session.closed_trace (J := Calm) (fun _ _ hop h => calm_snoc.2 ⟨h, hop.escapes⟩)

/-- An await outside the `try`. -/
theorem unguarded_blames {α : Type} {x : Act} {act : Conn Db → Except PyExc (α × Conn Db)}
    (hx : x = .connect ∨ x = .close) :
    Triple (fun w : Sess => Calm w.trace) (Session.await (.other x) act) (fun _ w => Calm w.trace)
      (fun e w => Blamed e w.trace) := by
  refine Session.await_triple_trace (J := Calm) (Q := fun _ => Calm) (R := Blamed) ?_ ?_ ?_
  · exact fun trace frame a h => calm_snoc.2 ⟨h, by rcases hx with rfl | rfl <;> rfl⟩
  · intro trace frame e b h hcalm
    have hlast := (calm_snoc.1 hcalm).2
    rcases hx with rfl | rfl
    · cases hlast
    · cases hlast
  · exact fun trace frame ex h => calm_snoc.2 ⟨h, by rcases hx with rfl | rfl <;> rfl⟩

theorem connecting_blames :
    Triple (fun w : Sess => Calm w.trace) connecting (fun _ w => Calm w.trace)
      (fun e w => Blamed e w.trace) :=
  unguarded_blames (Or.inl rfl)

theorem connect_blames (columns : List PyStr) :
    Triple (fun w : Sess => Calm w.trace) (connect columns) (fun _ w => Calm w.trace)
      (fun e w => Blamed e w.trace) := by
  have hcolumn : ∀ name, Triple (fun w : Sess => Calm w.trace)
      (if name ∈ columns then pure ⟨⟩ else connecting) (fun _ w => Calm w.trace)
      (fun e w => Blamed e w.trace) := by
    intro name
    split
    · exact Triple.pure (fun _ hw => hw)
    · exact connecting_blames
  refine connecting_blames.bind (fun _ => connecting_blames.bind (fun _ => ?_))
  refine connecting_blames.bind (fun _ => connecting_blames.bind (fun _ => ?_))
  refine connecting_blames.bind (fun _ => connecting_blames.bind (fun _ => ?_))
  exact (Triple.forM hcolumn _).bind (fun _ => connecting_blames)

theorem close_blames :
    Triple (fun w : Sess => Calm w.trace) close (fun _ w => Calm w.trace)
      (fun e w => Blamed e w.trace) :=
  unguarded_blames (Or.inr rfl)

section Passes

variable [PyRuntime] {daemonSpendCeilingUsd : Option ℚ}

omit [PyRuntime] in
theorem overBudget_calm :
    Keeps (fun w : Sess => Calm w.trace) (overBudget daemonSpendCeilingUsd) := by
  cases daemonSpendCeilingUsd with
  | none => exact Keeps.pure false
  | some ceiling =>
      refine Keeps.bind ?_ (fun spend => Keeps.pure _)
      exact (select_keeps calm_closed guarded_controls).bind (fun _ => Keeps.pure _)

theorem runHunt_calm (hunt : Hunt) : Keeps (fun w : Sess => Calm w.trace) (runHunt hunt) :=
  runHunt_keeps calm_closed guarded_controls ⟨nofun, nofun⟩ (fun _ => ⟨nofun, nofun⟩)
    (Session.frameless_trace Calm)
    (fun _ _ _ _ => guarded_execute _) (fun _ _ => guarded_execute _)
    (fun _ _ _ _ => guarded_execute _)
    (fun _ _ => capturePrey_keeps calm_closed guarded_controls (fun _ _ => guarded_execute _)
      (fun _ _ => guarded_execute _))

/-- No exception leaves the `try`, whatever its statements raise. -/
theorem tryHunt_calm (hunt : Except PyExc Hunt) :
    Triple (fun w : Sess => Calm w.trace) (tryHunt daemonSpendCeilingUsd hunt)
      (fun _ w => Calm w.trace) (fun e w => e = .cancelled ∧ Calm w.trace) := by
  refine Triple.tryCatch (R := fun _ w => Calm w.trace) (Keeps.triple ?_) (fun e => ?_)
  · refine overBudget_calm.bind (fun spent => ?_)
    cases spent with
    | true => exact Keeps.pure none
    | false =>
        cases hunt with
        | error e => exact Keeps.raise e
        | ok h => exact (runHunt_calm h).bind (fun _ => Keeps.pure _)
  · cases e with
    | cancelled => exact Triple.throw (fun _ hw => ⟨rfl, hw⟩)
    | raised e => exact Triple.pure (fun _ hw => hw)

theorem openedHunt_blames (columns : List PyStr) (hunt : Except PyExc Hunt) :
    Triple (fun w : Sess => Calm w.trace) (openedHunt daemonSpendCeilingUsd columns hunt)
      (fun _ w => Calm w.trace) (fun e w => Blamed e w.trace) := by
  refine (connect_blames columns).bind (fun _ => (tryHunt_calm hunt).observe.bind (fun r => ?_))
  cases r with
  | ok runId => exact close_blames.bind (fun _ => Triple.pure (fun _ hw => hw))
  | error e =>
      refine Triple.of_and (fun he => ?_)
      subst he
      exact close_blames.bind (fun _ => Triple.throw (fun _ hw => hw))

/-- **An exception leaves a pass exactly if its connection could not be opened or closed.** -/
theorem Pass.raises_iff (pass : Pass daemonSpendCeilingUsd) :
    (∃ e, pass.result = .error (.raised e)) ↔ ¬ Calm pass.trace := by
  have hblames : Triple (fun w : Sess => Calm w.trace)
      (openedHunt daemonSpendCeilingUsd pass.columns pass.hunt) (fun _ w => Calm w.trace)
      (fun e w => Blamed e w.trace) := openedHunt_blames pass.columns pass.hunt
  have hpass := hblames (pass.env.session pass.db) (fun _ hst => absurd hst List.not_mem_nil)
  unfold Pass.result Pass.trace
  cases hrun : (openedHunt daemonSpendCeilingUsd pass.columns pass.hunt).exec
      (pass.env.session pass.db) with
  | mk r w =>
      rw [hrun] at hpass
      cases r with
      | ok runId => exact iff_of_false (by simp) (not_not_intro hpass)
      | error e =>
          cases e with
          | raised e => exact iff_of_true ⟨e, rfl⟩ hpass
          | cancelled => exact iff_of_false (by simp) (not_not_intro hpass)

end Passes

/-! ## The group -/

section Runs

variable [PyRuntime] {daemonSpendCeilingUsd : Option ℚ} {forever : Bool} {T : Type} [DecidableEq T]

/-- A pass that ends has opened and closed its connection without an exception. -/
def OpensAndCloses
    (g : Group T Nat (TerritoryLoop daemonSpendCeilingUsd) (Option PyStr) PyExc)
    (a : T × LoopAction daemonSpendCeilingUsd) : Prop :=
  match a.2, g.tasks a.1 with
  | .leave, .running (.inside pass _ []) => Calm pass.trace
  | _, _ => True

instance : DecidablePred Calm := fun trace =>
  inferInstanceAs (Decidable (∀ st ∈ trace, escapes st = false))

instance (g : Group T Nat (TerritoryLoop daemonSpendCeilingUsd) (Option PyStr) PyExc)
    (a : T × LoopAction daemonSpendCeilingUsd) : Decidable (OpensAndCloses g a) := by
  unfold OpensAndCloses
  split <;> infer_instance

/-- The task goes on, or, without a loop, is done. -/
def GoesOn (forever : Bool) : Task (TerritoryLoop daemonSpendCeilingUsd) (Option PyStr) PyExc → Prop
  | .running _ => True
  | .returned _ => forever = false
  | _ => False

/-- What is true of a task: only one that was asked to is cancelled. -/
def Obeys (forever asked : Bool) :
    Task (TerritoryLoop daemonSpendCeilingUsd) (Option PyStr) PyExc → Prop
  | .running (.inside pass past rest) =>
      past ++ rest = pass.trace ∧ (asked = false → ∀ st ∈ past, st.fate.isCancelled = false)
  | .returned _ => forever = false
  | .cancelled => asked = true
  | _ => True

theorem Obeys.ask {task : Task (TerritoryLoop daemonSpendCeilingUsd) (Option PyStr) PyExc}
    (h : Obeys forever false task) : Obeys forever true task := by
  cases task with
  | running loop =>
      cases loop with
      | inside pass past rest => exact ⟨h.1, nofun⟩
      | queueing | sleeping => trivial
  | returned r => exact h
  | failed e => trivial
  | cancelled => rfl

theorem Obeys.outcome {asked : Bool} {pass : Pass daemonSpendCeilingUsd}
    {past : List (Step Frame Op)} (h : Obeys forever asked (.running (.inside pass past []))) :
    Obeys forever asked (pass.outcome forever) := by
  obtain ⟨htrace, hpast⟩ := h
  rw [List.append_nil] at htrace
  unfold Pass.outcome
  split
  · cases forever with
    | true => trivial
    | false => rfl
  · trivial
  · next hresult =>
      cases asked with
      | true => rfl
      | false =>
          obtain ⟨st, hst, hcancelled⟩ := pass.genuine hresult
          have hopen := hpast rfl st (htrace ▸ hst)
          rw [hopen] at hcancelled
          cases hcancelled

/-- **What a step of a task is.** -/
theorem TerritoryLoop.next_cases {free free' : Nat} {asked : Bool}
    {loop : TerritoryLoop daemonSpendCeilingUsd} {b : LoopAction daemonSpendCeilingUsd}
    {task : Task (TerritoryLoop daemonSpendCeilingUsd) (Option PyStr) PyExc}
    (h : loop.next forever free asked b = some (free', task)) :
    (∃ pass, b = .acquire pass ∧ task = .running (.inside pass [] pass.trace)) ∨
    (∃ pass past st rest, b = .advance ∧ loop = .inside pass past (st :: rest) ∧
      (asked = false → st.fate.isCancelled = false) ∧
      task = .running (.inside pass (past ++ [st]) rest)) ∨
    (∃ pass past, b = .leave ∧ loop = .inside pass past [] ∧ task = pass.outcome forever) ∨
    (b = .wake ∧ task = .running .queueing) ∨
    (b = .interrupt ∧ asked = true ∧ task = .cancelled) := by
  unfold next at h
  split at h
  · next pass =>
      split at h
      · cases h
        exact Or.inl ⟨pass, rfl, rfl⟩
      · cases h
  · next pass past st rest =>
      split at h
      · cases h
      · next hopen =>
          cases h
          exact Or.inr (Or.inl
            ⟨pass, past, st, rest, rfl, rfl, fun hasked => by simpa [hasked] using hopen, rfl⟩)
  · next pass past =>
      cases h
      exact Or.inr (Or.inr (Or.inl ⟨pass, past, rfl, rfl, rfl⟩))
  · cases h
    exact Or.inr (Or.inr (Or.inr (Or.inl ⟨rfl, rfl⟩)))
  · split at h
    · cases h
      exact Or.inr (Or.inr (Or.inr (Or.inr ⟨rfl, by assumption, rfl⟩)))
    · cases h
  · split at h
    · cases h
      exact Or.inr (Or.inr (Or.inr (Or.inr ⟨rfl, by assumption, rfl⟩)))
    · cases h
  · cases h

theorem Obeys.next {free free' : Nat} {asked : Bool} {loop : TerritoryLoop daemonSpendCeilingUsd}
    {b : LoopAction daemonSpendCeilingUsd}
    {task : Task (TerritoryLoop daemonSpendCeilingUsd) (Option PyStr) PyExc}
    (h : Obeys forever asked (.running loop))
    (hnext : loop.next forever free asked b = some (free', task)) : Obeys forever asked task := by
  rcases TerritoryLoop.next_cases hnext with ⟨pass, -, rfl⟩ | ⟨pass, past, st, rest, -, rfl, hst, rfl⟩
    | ⟨pass, past, -, rfl, rfl⟩ | ⟨-, rfl⟩ | ⟨-, hasked, rfl⟩
  · exact ⟨List.nil_append _, fun _ st hst => absurd hst List.not_mem_nil⟩
  · refine ⟨by rw [List.append_assoc]; exact h.1, fun hasked => ?_⟩
    exact forall_mem_snoc (h.2 hasked) (hst hasked)
  · exact h.outcome
  · trivial
  · exact hasked

theorem Pass.outcome_failed_iff (pass : Pass daemonSpendCeilingUsd) :
    (∃ e, pass.outcome forever = .failed e) ↔ ¬ Calm pass.trace := by
  rw [← pass.raises_iff]
  unfold Pass.outcome
  split
  · next hresult => cases forever <;> simp [hresult]
  · next e hresult => simp [hresult]
  · next hresult => simp [hresult]

/-- A step lets its task fail exactly if it ends a pass whose connection could not be opened or
    closed. -/
theorem fails_iff {g g' : Group T Nat (TerritoryLoop daemonSpendCeilingUsd) (Option PyStr) PyExc}
    {a : T × LoopAction daemonSpendCeilingUsd}
    (hstep : g.step (TerritoryLoop.next forever) a = some g') :
    ¬ g.Fails (TerritoryLoop.next forever) a ↔ OpensAndCloses g a := by
  obtain ⟨loop, free', task, hloop, hnext, -⟩ := Group.step_cases hstep
  have hfails : g.Fails (TerritoryLoop.next forever) a ↔ ∃ e, task = .failed e := by
    constructor
    · rintro ⟨loop', free'', e, hloop', hnext'⟩
      rw [hloop] at hloop'
      cases hloop'
      rw [hnext] at hnext'
      cases hnext'
      exact ⟨e, rfl⟩
    · rintro ⟨e, rfl⟩
      exact ⟨loop, free', e, hloop, hnext⟩
  unfold OpensAndCloses
  rw [hfails]
  rcases TerritoryLoop.next_cases hnext with ⟨pass, hb, rfl⟩ | ⟨pass, past, st, rest, hb, -, -, rfl⟩
    | ⟨pass, past, hb, rfl, rfl⟩ | ⟨hb, rfl⟩ | ⟨hb, -, rfl⟩
  · simp [hb]
  · simp [hb]
  · rw [pass.outcome_failed_iff, not_not, hb, hloop]
  · simp [hb]
  · simp [hb]

/-- **One hunt's failure does not reach its siblings, as long as connections open and close.** In
    exactly those runs in which every pass that ends has opened and closed its connection without an
    exception, the group leaves every task alone, and every territory goes on to its next tick. -/
theorem siblings_undisturbed_iff {maxConcurrent : Nat}
    {g g' : Group T Nat (TerritoryLoop daemonSpendCeilingUsd) (Option PyStr) PyExc}
    {as : List (T × LoopAction daemonSpendCeilingUsd)} (hstarted : Started maxConcurrent g)
    (hrun : (territories forever T maxConcurrent).run g as = some g') :
    (territories forever T maxConcurrent).Meets OpensAndCloses g as ↔
      g'.LeavesAlone ∧ ∀ t, GoesOn forever (g'.tasks t) := by
  have horderly : g.Orderly :=
    ⟨fun _ => hstarted.asked, fun _ t e => by rw [hstarted.tasks t]; nofun⟩
  have hobeys : ∀ t, Obeys forever (g'.asked t) (g'.tasks t) := by
    refine (territories forever T maxConcurrent).run_induction
      (motive := fun _ g => ∀ t, Obeys forever (g.asked t) (g.tasks t)) ?_ ?_ as g' hrun
    · intro t
      rw [hstarted.tasks t]
      trivial
    · intro _ g _ g' _ ih hstep
      exact Group.forall_task (P := Obeys forever) (fun _ => Obeys.ask)
        (fun _ _ _ _ _ _ => Obeys.next) ih hstep
  have halone := Group.leavesAlone_iff (Started maxConcurrent) horderly
    ⟨hstarted.aborting, hstarted.asked⟩ hrun
  rw [← (territories forever T maxConcurrent).meets_congr
    (fun _ _ _ hstep => fails_iff hstep) hrun]
  refine halone.trans ⟨fun h => ⟨h, fun t => ?_⟩, And.left⟩
  have htask := hobeys t
  have hfailed := (horderly.run (Started maxConcurrent) hrun).failed h.aborting t
  rw [h.asked t] at htask
  cases htask' : g'.tasks t with
  | running loop => trivial
  | returned r =>
      rw [htask'] at htask
      exact htask
  | failed e => exact absurd htask' (hfailed e)
  | cancelled =>
      rw [htask'] at htask
      cases htask

end Runs

/-! ## A connection that cannot be opened -/

section Example

local instance asciiTerritories : PyRuntime := .ascii

/-- A file whose table `runs` has both columns. -/
def bothColumns : List PyStr := [py "cost_ceiling_usd", py "max_iterations"]

/-- What a pass meets on an empty database. -/
def meeting (faults : List (Fault PyExc)) : Env :=
  { Env.calm [py "r", py "p"] with faults := faults }

/-- The database is locked when the pass opens its connection. -/
def lockedPass : Pass none :=
  ⟨bothColumns, .ok oneCatch, Db.empty,
    meeting [.raise (.databaseError (py "database is locked")) false], nofun⟩

/-- The pass is cancelled while its run is open. -/
def cancelledPass : Pass none :=
  ⟨bothColumns, .ok oneCatch, Db.empty,
    meeting (List.replicate 9 Fault.none ++ [Fault.cancel false]), fun _ => by decide +kernel⟩

/-- The database goes away inside the hunt. -/
def brokenPass : Pass none :=
  ⟨bothColumns, .ok oneCatch, Db.empty,
    meeting (List.replicate 7 Fault.none ++
      [Fault.raise (.databaseError (py "disk I/O error")) false]), nofun⟩

/-- Two territories right after their tasks are created, with a permit for each. -/
def twoTerritories : Group Bool Nat (TerritoryLoop none) (Option PyStr) PyExc :=
  ⟨2, fun _ => .running .queueing, fun _ => false, false⟩

/-- One territory cannot open its connection while the hunt of the other one is under way. -/
def lockedOut : List (Bool × LoopAction none) :=
  [(true, .acquire cancelledPass)] ++ List.replicate 9 (true, .advance) ++
    [(false, .acquire lockedPass), (false, .advance), (false, .leave)] ++
    List.replicate 4 (true, .advance) ++ [(true, .leave)]

/-- The other hunt is cancelled, and its territory is not hunted again. -/
theorem failed_connect_cancels_sibling :
    ∃ g, (territories true Bool 2).run twoTerritories lockedOut = some g ∧
      (g.tasks false).exception = some (.databaseError (py "database is locked")) ∧
      g.asked true = true ∧ (g.tasks true).isCancelled = true := by
  obtain ⟨g, hg⟩ := Option.isSome_iff_exists.1
    (show ((territories true Bool 2).run twoTerritories lockedOut).isSome = true by decide +kernel)
  have hlast : ((territories true Bool 2).run twoTerritories lockedOut).map
      (fun g => ((g.tasks false).exception, g.asked true, (g.tasks true).isCancelled))
      = some (some (.databaseError (py "database is locked")), true, true) := by decide +kernel
  rw [hg] at hlast
  exact ⟨g, hg, by simpa using hlast⟩

/-- The hunt of one territory loses the database and is over; its territory sleeps, and the other
    hunt is still under way. -/
def brokenOff : List (Bool × LoopAction none) :=
  [(true, .acquire cancelledPass), (true, .advance), (false, .acquire brokenPass)] ++
    List.replicate 9 (false, .advance) ++ [(false, .leave), (true, .advance)]

/-- The territory whose hunt failed goes on, and so does the other one. -/
theorem failed_hunt_leaves_sibling :
    ∃ g, (territories true Bool 2).run twoTerritories brokenOff = some g ∧
      g.LeavesAlone ∧ ∀ t, GoesOn true (g.tasks t) := by
  obtain ⟨g, hg⟩ := Option.isSome_iff_exists.1
    (show ((territories true Bool 2).run twoTerritories brokenOff).isSome = true by decide +kernel)
  have hstarted : Started 2 twoTerritories := ⟨rfl, fun _ => rfl, fun _ => rfl, rfl⟩
  have hiff := @siblings_undisturbed_iff _ none true Bool _ 2 twoTerritories g brokenOff hstarted hg
  exact ⟨g, hg, hiff.1 (by decide +kernel)⟩

end Example

end RexHunter
