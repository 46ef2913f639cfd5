import Mathlib.Data.List.Induction

set_option autoImplicit false

/-! # Labelled transition systems: runs, invariants, stepwise conditions

A `System` changes its state by one labelled action at a time; `step` is a partial function, so a
disabled action is `none` and every run can be evaluated. The file provides the three rules the
protocol proofs are assembled from: an inductive invariant holds in every reachable state
(`System.invariant`), an invariant may lean on a condition that every step of the run meets
(`System.invariant_of_meets`), and a fact about a run and the state it ends in is proved by
appending one action at a time (`System.run_induction`). -/

namespace Transition

/-- A labelled transition system with partial deterministic steps: nondeterminism lives in the
    choice of the action. -/
structure System (σ α : Type) where
  Init : σ → Prop
  step : σ → α → Option σ

variable {σ α : Type}

namespace System

/-- Execute a list of actions; `none` as soon as one of them is disabled. -/
def run (S : System σ α) : σ → List α → Option σ
  | s, [] => some s
  | s, a :: as => (S.step s a).bind (fun t => run S t as)

/-- `t` ends a run that starts in an initial state. -/
def Reachable (S : System σ α) (t : σ) : Prop :=
  ∃ s as, S.Init s ∧ S.run s as = some t

/-- Every step of the run is taken in a state where `C` allows it. -/
def Meets (S : System σ α) (C : σ → α → Prop) : σ → List α → Prop
  | _, [] => True
  | s, a :: as => C s a ∧ ∀ t, S.step s a = some t → Meets S C t as

variable (S : System σ α)

@[simp] theorem run_nil (s : σ) : S.run s [] = some s := rfl

theorem run_cons (s : σ) (a : α) (as : List α) :
    S.run s (a :: as) = (S.step s a).bind (fun t => S.run t as) := rfl

theorem run_cons_some {s u : σ} {a : α} {as : List α} (h : S.run s (a :: as) = some u) :
    ∃ t, S.step s a = some t ∧ S.run t as = some u := by
  rw [run_cons] at h
  exact Option.bind_eq_some_iff.1 h

theorem run_append (s : σ) (as bs : List α) :
    S.run s (as ++ bs) = (S.run s as).bind (fun t => S.run t bs) := by
  induction as generalizing s with
  | nil => rfl
  | cons a as ih =>
      rw [List.cons_append, run_cons, run_cons]
      cases S.step s a with
      | none => rfl
      | some t => exact ih t

theorem run_snoc_some {s u : σ} {as : List α} {a : α} (h : S.run s (as ++ [a]) = some u) :
    ∃ t, S.run s as = some t ∧ S.step t a = some u := by
  rw [run_append] at h
  obtain ⟨t, ht, hu⟩ := Option.bind_eq_some_iff.1 h
  obtain ⟨u', hu', hnil⟩ := S.run_cons_some hu
  rw [run_nil, Option.some.injEq] at hnil
  subst hnil
  exact ⟨t, ht, hu'⟩

/-- A fact about a run and the state it ends in, proved by appending one action at a time. -/
theorem run_induction {s : σ} {motive : List α → σ → Prop} (nil : motive [] s)
    (snoc : ∀ as t a u, S.run s as = some t → motive as t → S.step t a = some u →
      motive (as ++ [a]) u) :
    ∀ as t, S.run s as = some t → motive as t := by
  intro as
  induction as using List.reverseRecOn with
  | nil =>
      intro t h
      rw [run_nil, Option.some.injEq] at h
      exact h ▸ nil
  | append_singleton as a ih =>
      intro u h
      obtain ⟨t, ht, hu⟩ := S.run_snoc_some h
      exact snoc as t a u ht (ih t ht) hu

theorem Reachable.init {s : σ} (h : S.Init s) : S.Reachable s :=
  ⟨s, [], h, rfl⟩

theorem Reachable.next {s t : σ} {a : α} (h : S.Reachable s) (hstep : S.step s a = some t) :
    S.Reachable t := by
  obtain ⟨s0, as, h0, hrun⟩ := h
  refine ⟨s0, as ++ [a], h0, ?_⟩
  rw [run_append, hrun]
  simp [run_cons, hstep]

theorem Reachable.run {s t : σ} {as : List α} (h : S.Reachable s) (hrun : S.run s as = some t) :
    S.Reachable t := by
  obtain ⟨s0, before, h0, hbefore⟩ := h
  exact ⟨s0, before ++ as, h0, by rw [run_append, hbefore]; exact hrun⟩

/-- **Invariant rule.** What holds initially and survives every step holds of every reachable
    state. -/
theorem invariant {P : σ → Prop} (h0 : ∀ s, S.Init s → P s)
    (hstep : ∀ s a t, P s → S.step s a = some t → P t) : ∀ t, S.Reachable t → P t := by
  rintro t ⟨s, as, hs, hrun⟩
  exact S.run_induction (motive := fun _ t => P t) (h0 s hs)
    (fun _ s a t _ ih ha => hstep s a t ih ha) as t hrun

/-- Whether a run meets a decidable condition can be computed. -/
instance decidableMeets (C : σ → α → Prop) [∀ s a, Decidable (C s a)] :
    ∀ s as, Decidable (S.Meets C s as)
  | _, [] => isTrue trivial
  | s, a :: as =>
      match h : S.step s a with
      | none =>
          decidable_of_iff (C s a) ⟨fun hC => ⟨hC, fun t ht => by rw [h] at ht; cases ht⟩, And.left⟩
      | some t =>
          have := decidableMeets C t as
          decidable_of_iff (C s a ∧ S.Meets C t as)
            ⟨fun hC => ⟨hC.1, fun u hu => by rw [h] at hu; cases hu; exact hC.2⟩,
              fun hC => ⟨hC.1, hC.2 t h⟩⟩

/-- A condition on the actions alone. -/
theorem meets_of_forall {C : σ → α → Prop} {as : List α} (h : ∀ s, ∀ a ∈ as, C s a) :
    ∀ s, S.Meets C s as := by
  induction as with
  | nil => exact fun _ => trivial
  | cons a as ih =>
      intro s
      exact ⟨h s a List.mem_cons_self,
        fun t _ => ih (fun s a ha => h s a (List.mem_cons_of_mem _ ha)) t⟩

/-- Along a run, conditions that agree on the steps that are taken are met together. -/
theorem meets_congr {C C' : σ → α → Prop} {s u : σ} {as : List α}
    (h : ∀ s a t, S.step s a = some t → (C s a ↔ C' s a)) (hrun : S.run s as = some u) :
    S.Meets C s as ↔ S.Meets C' s as := by
  induction as generalizing s with
  | nil => rfl
  | cons a as ih =>
      obtain ⟨t, ht, hrest⟩ := S.run_cons_some hrun
      simp only [Meets, ht, Option.some.injEq, forall_eq', ih hrest, h s a t ht]

theorem meets_append {C : σ → α → Prop} {s t : σ} {as : List α} (h : S.run s as = some t)
    (bs : List α) : S.Meets C s (as ++ bs) ↔ S.Meets C s as ∧ S.Meets C t bs := by
  induction as generalizing s with
  | nil =>
      rw [run_nil, Option.some.injEq] at h
      subst h
      simp [Meets]
  | cons a as ih =>
      obtain ⟨s', hs', hrun⟩ := S.run_cons_some h
      simp only [List.cons_append, Meets, hs', Option.some.injEq, forall_eq', ih hrun, and_assoc]

theorem meets_snoc {C : σ → α → Prop} {s t : σ} {as : List α} (h : S.run s as = some t) (a : α) :
    S.Meets C s (as ++ [a]) ↔ S.Meets C s as ∧ C t a := by
  rw [S.meets_append h]
  simp [Meets]

/-- **Conditional invariant rule.** In a run whose steps all meet `C`, an invariant may use `C` at
    each step. -/
theorem invariant_of_meets {C : σ → α → Prop} {P : σ → Prop} {s : σ} (h0 : P s)
    (hstep : ∀ s a t, P s → C s a → S.step s a = some t → P t) :
    ∀ as t, S.run s as = some t → S.Meets C s as → P t :=
  S.run_induction (motive := fun as t => S.Meets C s as → P t) (fun _ => h0)
    (fun _ t a u ht ih hu hmeets =>
      have hm := (S.meets_snoc ht a).1 hmeets
      hstep t a u (ih hm.1) hm.2 hu)

end System

end Transition
