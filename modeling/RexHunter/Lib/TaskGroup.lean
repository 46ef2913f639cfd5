import Mathlib.Logic.Function.Basic
import RexHunter.Lib.Transition

set_option autoImplicit false

/-! # Structured concurrency

A task group (`asyncio.TaskGroup`) runs its tasks until all of them are done. A task that fails makes
the group abort: it calls `cancel` on every task that is still running, once. What one task does next
is a partial function of what it shares with the others, of its own state, and of whether `cancel`
was called on it; which task goes on is the choice of the action. A run in which no task fails leaves
every task alone, and no other run does (`leavesAlone_iff`). -/

namespace TaskGroup

/-- Where a task is. -/
inductive Task (σ ρ ε : Type) where
  | running (s : σ)
  | returned (r : ρ)
  | failed (e : ε)
  | cancelled

def Task.isRunning {σ ρ ε : Type} : Task σ ρ ε → Bool
  | running _ => true
  | _ => false

/-- `task.exception()`. -/
def Task.exception {σ ρ ε : Type} : Task σ ρ ε → Option ε
  | failed e => some e
  | _ => none

/-- `task.cancelled()`. -/
def Task.isCancelled {σ ρ ε : Type} : Task σ ρ ε → Bool
  | cancelled => true
  | _ => false

/-- The tasks, what they share, and the tasks `cancel` was called on. -/
structure Group (T S σ ρ ε : Type) where
  shared : S
  tasks : T → Task σ ρ ε
  asked : T → Bool
  aborting : Bool

variable {T S σ ρ ε α : Type}

namespace Group

/-- `_abort`, the first time a task fails. -/
def abort (g : Group T S σ ρ ε) : Group T S σ ρ ε :=
  if g.aborting then g
  else { g with aborting := true, asked := fun t => g.asked t || (g.tasks t).isRunning }

/-- The group has called `cancel` on no task. -/
structure LeavesAlone (g : Group T S σ ρ ε) : Prop where
  aborting : g.aborting = false
  asked : ∀ t, g.asked t = false

/-- The group as long as no task has failed. -/
structure Orderly (g : Group T S σ ρ ε) : Prop where
  asked : g.aborting = false → ∀ t, g.asked t = false
  failed : g.aborting = false → ∀ t e, g.tasks t ≠ .failed e

variable {g : Group T S σ ρ ε}

@[simp] theorem aborting_abort : g.abort.aborting = true := by
  unfold abort
  split
  · assumption
  · rfl

@[simp] theorem tasks_abort : g.abort.tasks = g.tasks := by
  unfold abort
  split
  · rfl
  · rfl

theorem asked_abort {t : T} (h : g.asked t = true) : g.abort.asked t = true := by
  unfold abort
  split
  · exact h
  · simp [h]

theorem Orderly.leavesAlone_iff (hg : g.Orderly) : g.LeavesAlone ↔ g.aborting = false :=
  ⟨fun h => h.aborting, fun h => ⟨h, hg.asked h⟩⟩

variable [DecidableEq T] (next : S → Bool → σ → α → Option (S × Task σ ρ ε))

/-- A task goes on to `task`. -/
def goTo (g : Group T S σ ρ ε) (t : T) (shared : S) (task : Task σ ρ ε) : Group T S σ ρ ε :=
  { g with shared := shared, tasks := Function.update g.tasks t task }

def step (g : Group T S σ ρ ε) (a : T × α) : Option (Group T S σ ρ ε) :=
  match g.tasks a.1 with
  | .running s =>
      match next g.shared (g.asked a.1) s a.2 with
      | some (shared, .failed e) => some (g.goTo a.1 shared (.failed e)).abort
      | some (shared, task) => some (g.goTo a.1 shared task)
      | none => none
  | _ => none

/-- The step lets its task fail. -/
def Fails (g : Group T S σ ρ ε) (a : T × α) : Prop :=
  ∃ s shared e, g.tasks a.1 = .running s ∧
    next g.shared (g.asked a.1) s a.2 = some (shared, .failed e)

end Group

/-- The system. -/
def system [DecidableEq T] (next : S → Bool → σ → α → Option (S × Task σ ρ ε))
    (Init : Group T S σ ρ ε → Prop) : Transition.System (Group T S σ ρ ε) (T × α) where
  Init := Init
  step := Group.step next

namespace Group

variable [DecidableEq T] {next : S → Bool → σ → α → Option (S × Task σ ρ ε)}
  {g g' : Group T S σ ρ ε} {a : T × α}

@[simp] theorem aborting_goTo {t : T} {shared : S} {task : Task σ ρ ε} :
    (g.goTo t shared task).aborting = g.aborting := rfl

@[simp] theorem asked_goTo {t : T} {shared : S} {task : Task σ ρ ε} :
    (g.goTo t shared task).asked = g.asked := rfl

/-- **What a step of the group is**: a step of one task, after which the group aborts if the task
    failed. -/
theorem step_cases (h : g.step next a = some g') :
    ∃ s shared task, g.tasks a.1 = .running s ∧
      next g.shared (g.asked a.1) s a.2 = some (shared, task) ∧
      ((∃ e, task = .failed e ∧ g' = (g.goTo a.1 shared task).abort) ∨
        ((∀ e, task ≠ .failed e) ∧ g' = g.goTo a.1 shared task)) := by
  unfold step at h
  cases hs : g.tasks a.1 with
  | running s =>
      simp only [hs] at h
      cases hnext : next g.shared (g.asked a.1) s a.2 with
      | none =>
          rw [hnext] at h
          cases h
      | some p =>
          obtain ⟨shared, task⟩ := p
          rw [hnext] at h
          cases task with
          | failed e =>
              cases h
              exact ⟨s, shared, _, rfl, hnext, Or.inl ⟨e, rfl, rfl⟩⟩
          | running s' =>
              cases h
              exact ⟨s, shared, _, rfl, hnext, Or.inr ⟨nofun, rfl⟩⟩
          | returned r =>
              cases h
              exact ⟨s, shared, _, rfl, hnext, Or.inr ⟨nofun, rfl⟩⟩
          | cancelled =>
              cases h
              exact ⟨s, shared, _, rfl, hnext, Or.inr ⟨nofun, rfl⟩⟩
  | returned | failed | cancelled =>
      simp only [hs] at h
      cases h

/-- The group aborts with a step exactly if it was aborting or the step lets its task fail. -/
theorem aborting_step (h : g.step next a = some g') :
    g'.aborting = true ↔ g.aborting = true ∨ g.Fails next a := by
  obtain ⟨s, shared, task, hs, hnext, ⟨e, rfl, rfl⟩ | ⟨hne, rfl⟩⟩ := step_cases h
  · simp only [aborting_abort, true_iff]
    exact Or.inr ⟨s, shared, e, hs, hnext⟩
  · refine ⟨Or.inl, ?_⟩
    rintro (h | ⟨s', shared', e, hs', hnext'⟩)
    · exact h
    · rw [hs] at hs'
      cases hs'
      rw [hnext] at hnext'
      cases hnext'
      exact absurd rfl (hne e)

/-- What each task keeps by itself, and what being cancelled only weakens, every task keeps. -/
theorem forall_task {P : Bool → Task σ ρ ε → Prop} (hask : ∀ task, P false task → P true task)
    (hnext : ∀ shared asked s b shared' task, P asked (.running s) →
      next shared asked s b = some (shared', task) → P asked task)
    (hg : ∀ t, P (g.asked t) (g.tasks t)) (h : g.step next a = some g') :
    ∀ t, P (g'.asked t) (g'.tasks t) := by
  obtain ⟨s, shared, task, hs, hstep, hg'⟩ := step_cases h
  have hmoved : ∀ t, P (g.asked t) ((g.goTo a.1 shared task).tasks t) := by
    intro t
    by_cases ht : t = a.1
    · subst ht
      have hrunning := hg a.1
      rw [hs] at hrunning
      simpa [goTo] using hnext _ _ _ _ _ _ hrunning hstep
    · simpa [goTo, ht] using hg t
  obtain ⟨e, -, rfl⟩ | ⟨-, rfl⟩ := hg'
  · intro t
    rw [tasks_abort]
    cases hasked : g.asked t with
    | true =>
        rw [asked_abort (g := g.goTo a.1 shared task) hasked, ← hasked]
        exact hmoved t
    | false =>
        have hfalse := hmoved t
        rw [hasked] at hfalse
        cases (g.goTo a.1 shared task).abort.asked t with
        | true => exact hask _ hfalse
        | false => exact hfalse
  · exact hmoved

theorem Orderly.step (hg : g.Orderly) (h : g.step next a = some g') : g'.Orderly := by
  obtain ⟨s, shared, task, -, -, ⟨e, rfl, rfl⟩ | ⟨hne, rfl⟩⟩ := step_cases h
  · constructor
    · intro haborting
      rw [aborting_abort] at haborting
      cases haborting
    · intro haborting
      rw [aborting_abort] at haborting
      cases haborting
  · refine ⟨hg.asked, fun haborting t e => ?_⟩
    by_cases ht : t = a.1
    · subst ht
      simpa [goTo] using hne e
    · simpa [goTo, ht] using hg.failed haborting t e

variable (Init : Group T S σ ρ ε → Prop)

theorem Orderly.run {as : List (T × α)} (h0 : g.Orderly)
    (hrun : (system next Init).run g as = some g') : g'.Orderly :=
  (system next Init).run_induction (motive := fun _ t => t.Orderly) h0
    (fun _ _ _ _ _ ih hstep => ih.step hstep) as g' hrun

/-- **The group leaves its tasks alone in exactly those runs in which none of them fails.** -/
theorem leavesAlone_iff {as : List (T × α)} (h0 : g.Orderly) (halone : g.LeavesAlone)
    (hrun : (system next Init).run g as = some g') :
    (system next Init).Meets (fun g a => ¬ g.Fails next a) g as ↔ g'.LeavesAlone := by
  rw [(h0.run Init hrun).leavesAlone_iff]
  refine (system next Init).run_induction (motive := fun as t =>
    (system next Init).Meets (fun g a => ¬ g.Fails next a) g as ↔ t.aborting = false)
    (by simp [Transition.System.Meets, halone.aborting]) ?_ as g' hrun
  intro as t b u ht ih hstep
  rw [(system next Init).meets_snoc ht, ih, ← Bool.not_eq_true, ← Bool.not_eq_true,
    aborting_step hstep, not_or]

end Group

end TaskGroup
