import Mathlib.Logic.Basic

set_option autoImplicit false

/-! # Coroutines with exceptions and cancellation

A Python coroutine run to its end is a state transformer that returns, raises, or is cancelled:
`asyncio.CancelledError` is a `BaseException`, so `except Exception` lets it pass. The monad is the
standard exception transformer over the standard state monad, so `do`, `try … catch` and `for` are
the usual ones. The file adds the rules proofs about such programs are assembled from: a triple
with one postcondition for a return and one for an exception, and, as its most used special case,
a state predicate that a program keeps on every way out (`Keeps`). -/

/-- How a coroutine is left other than by returning. -/
inductive Exn (ε : Type) where
  | raised (e : ε)
  | cancelled
deriving DecidableEq, Repr

/-- A coroutine over the world `σ`. -/
abbrev Coro (σ ε : Type) : Type → Type := ExceptT (Exn ε) (StateM σ)

namespace Coro

variable {σ ε α β : Type}

/-- Run a coroutine to its end. -/
def exec (m : Coro σ ε α) (s : σ) : Except (Exn ε) α × σ := m.run.run s

/-- The coroutine with the given run. -/
def ofExec (f : σ → Except (Exn ε) α × σ) : Coro σ ε α := ExceptT.mk (fun s => f s)

/-- Raise a Python exception. -/
def raise (e : ε) : Coro σ ε α := throw (.raised e)

/-- Run a coroutine and go on with how it ended. -/
def observe (m : Coro σ ε α) : Coro σ ε (Except (Exn ε) α) :=
  tryCatch (do
    let a ← m
    return .ok a) (fun e => pure (.error e))

@[simp] theorem exec_ofExec (f : σ → Except (Exn ε) α × σ) (s : σ) : (ofExec f).exec s = f s := rfl

@[simp] theorem exec_pure (a : α) (s : σ) : (pure a : Coro σ ε α).exec s = (.ok a, s) := rfl

@[simp] theorem exec_throw (e : Exn ε) (s : σ) :
    (throw e : Coro σ ε α).exec s = (.error e, s) := rfl

@[simp] theorem exec_raise (e : ε) (s : σ) :
    (raise e : Coro σ ε α).exec s = (.error (.raised e), s) := rfl

@[simp] theorem exec_get (s : σ) : (get : Coro σ ε σ).exec s = (.ok s, s) := rfl

@[simp] theorem exec_modify (f : σ → σ) (s : σ) :
    (modify f : Coro σ ε PUnit).exec s = (.ok ⟨⟩, f s) := rfl

theorem exec_bind (m : Coro σ ε α) (f : α → Coro σ ε β) (s : σ) :
    (m >>= f).exec s = match m.exec s with
      | (.ok a, t) => (f a).exec t
      | (.error e, t) => (.error e, t) := by
  have hrun : (m >>= f).exec s = ExceptT.bindCont f (m.exec s).1 (m.exec s).2 := rfl
  rw [hrun]
  cases m.exec s with
  | mk r t =>
      cases r with
      | ok a => rfl
      | error e => rfl

theorem exec_tryCatch (m : Coro σ ε α) (h : Exn ε → Coro σ ε α) (s : σ) :
    (tryCatch m h).exec s = match m.exec s with
      | (.ok a, t) => (.ok a, t)
      | (.error e, t) => (h e).exec t := by
  have hcatch : (tryCatch m h).exec s = exec (ExceptT.tryCatch m h) s := rfl
  rw [hcatch]
  unfold ExceptT.tryCatch
  cases hm : m.exec s with
  | mk r t =>
      have hms : m s = (r, t) := hm
      simp only [exec, ExceptT.run, ExceptT.mk, StateT.run, bind, StateT.bind, hms]
      cases r with
      | ok a => rfl
      | error e => rfl

@[simp] theorem exec_observe (m : Coro σ ε α) (s : σ) :
    (observe m).exec s = (.ok (m.exec s).1, (m.exec s).2) := by
  unfold observe
  rw [exec_tryCatch, exec_bind]
  cases m.exec s with
  | mk r t =>
      cases r with
      | ok a => rfl
      | error e => rfl

/-! ## Triples -/

/-- From a state with `P`, the coroutine returns into `Q` or is left by an exception into `R`. -/
def Triple (P : σ → Prop) (m : Coro σ ε α) (Q : α → σ → Prop) (R : Exn ε → σ → Prop) : Prop :=
  ∀ s, P s → match m.exec s with
    | (.ok a, t) => Q a t
    | (.error e, t) => R e t

namespace Triple

variable {P P' : σ → Prop} {Q Q' : α → σ → Prop} {R R' : Exn ε → σ → Prop}

theorem ok {m : Coro σ ε α} (h : Triple P m Q R) {s t : σ} {a : α} (hs : P s)
    (hrun : m.exec s = (.ok a, t)) : Q a t := by
  have hm := h s hs
  rwa [hrun] at hm

theorem error {m : Coro σ ε α} (h : Triple P m Q R) {s t : σ} {e : Exn ε} (hs : P s)
    (hrun : m.exec s = (.error e, t)) : R e t := by
  have hm := h s hs
  rwa [hrun] at hm

/-- A postcondition common to every way out holds of the state the coroutine ends in. -/
theorem final {m : Coro σ ε α} {T : σ → Prop} (h : Triple P m (fun _ => T) (fun _ => T)) {s : σ}
    (hs : P s) : T (m.exec s).2 := by
  have hm := h s hs
  cases hrun : m.exec s with
  | mk r t =>
      rw [hrun] at hm
      cases r with
      | ok a => exact hm
      | error e => exact hm

/-- What holds of the state the coroutine ends in is a postcondition common to every way out. -/
theorem of_final {m : Coro σ ε α} {T : σ → Prop} (h : ∀ s, P s → T (m.exec s).2) :
    Triple P m (fun _ => T) (fun _ => T) := by
  intro s hs
  have hm := h s hs
  cases hrun : m.exec s with
  | mk r t =>
      rw [hrun] at hm
      cases r with
      | ok a => exact hm
      | error e => exact hm

/-- Two triples of one coroutine. -/
theorem and {m : Coro σ ε α} (h : Triple P m Q R) (h' : Triple P m Q' R') :
    Triple P m (fun a s => Q a s ∧ Q' a s) (fun e s => R e s ∧ R' e s) := by
  intro s hs
  have hm := h s hs
  have hm' := h' s hs
  cases hrun : m.exec s with
  | mk r t =>
      rw [hrun] at hm hm'
      cases r with
      | ok a => exact ⟨hm, hm'⟩
      | error e => exact ⟨hm, hm'⟩

theorem pure {a : α} (h : ∀ s, P s → Q a s) : Triple P (Pure.pure a : Coro σ ε α) Q R :=
  fun s hs => h s hs

theorem throw {e : Exn ε} (h : ∀ s, P s → R e s) :
    Triple P (MonadExcept.throw e : Coro σ ε α) Q R :=
  fun s hs => h s hs

theorem conseq {m : Coro σ ε α} (h : Triple P m Q R) (hP : ∀ s, P' s → P s)
    (hQ : ∀ a s, Q a s → Q' a s) (hR : ∀ e s, R e s → R' e s) : Triple P' m Q' R' := by
  intro s hs
  have hm := h s (hP s hs)
  cases hrun : m.exec s with
  | mk r t =>
      rw [hrun] at hm
      cases r with
      | ok a => exact hQ a t hm
      | error e => exact hR e t hm

theorem pre {m : Coro σ ε α} (h : Triple P m Q R) (hP : ∀ s, P' s → P s) : Triple P' m Q R :=
  h.conseq hP (fun _ _ h => h) (fun _ _ h => h)

theorem bind {m : Coro σ ε α} {f : α → Coro σ ε β} {S : β → σ → Prop} (hm : Triple P m Q R)
    (hf : ∀ a, Triple (Q a) (f a) S R) : Triple P (m >>= f) S R := by
  intro s hs
  have hms := hm s hs
  rw [exec_bind]
  cases hrun : m.exec s with
  | mk r t =>
      rw [hrun] at hms
      cases r with
      | ok a => exact hf a t hms
      | error e => exact hms

/-- Sequencing, where the first part fails into less than the whole may. -/
theorem seq {m : Coro σ ε α} {f : α → Coro σ ε β} {S : β → σ → Prop} (hm : Triple P m Q R)
    (hR : ∀ e s, R e s → R' e s) (hf : ∀ a, Triple (Q a) (f a) S R') :
    Triple P (m >>= f) S R' :=
  bind (hm.conseq (fun _ h => h) (fun _ _ h => h) hR) hf

/-- What the precondition only says to exist may be fixed. -/
theorem of_exists {ι : Type} {P : ι → σ → Prop} {m : Coro σ ε α} (h : ∀ i, Triple (P i) m Q R) :
    Triple (fun s => ∃ i, P i s) m Q R :=
  fun s ⟨i, hi⟩ => h i s hi

/-- What the precondition says apart from the state may be assumed. -/
theorem of_and {φ : Prop} {m : Coro σ ε α} (h : φ → Triple P m Q R) :
    Triple (fun s => φ ∧ P s) m Q R :=
  fun s ⟨hφ, hs⟩ => h hφ s hs

theorem tryCatch {m : Coro σ ε α} {h : Exn ε → Coro σ ε α} (hm : Triple P m Q R)
    (hh : ∀ e, Triple (R e) (h e) Q R') : Triple P (MonadExcept.tryCatch m h) Q R' := by
  intro s hs
  have hms := hm s hs
  rw [exec_tryCatch]
  cases hrun : m.exec s with
  | mk r t =>
      rw [hrun] at hms
      cases r with
      | ok a => exact hms
      | error e => exact hh e t hms

/-- A loop, with an invariant. -/
theorem forM {f : α → Coro σ ε PUnit} (h : ∀ a, Triple P (f a) (fun _ => P) R) (l : List α) :
    Triple P (l.forM f) (fun _ => P) R := by
  induction l with
  | nil => exact pure (fun _ hs => hs)
  | cons a l ih => exact bind (h a) (fun _ => ih)

theorem observe {m : Coro σ ε α} (hm : Triple P m Q R) :
    Triple P (Coro.observe m)
      (fun r s => match r with
        | .ok a => Q a s
        | .error e => R e s) R' := by
  intro s hs
  have hms := hm s hs
  rw [exec_observe]
  cases hrun : m.exec s with
  | mk r t =>
      rw [hrun] at hms
      cases r with
      | ok a => exact hms
      | error e => exact hms

end Triple

/-! ## What a program keeps on every way out -/

/-- Whatever way the coroutine is left, `I` still holds. -/
def Keeps (I : σ → Prop) (m : Coro σ ε α) : Prop := ∀ s, I s → I (m.exec s).2

namespace Keeps

variable {I : σ → Prop}

theorem triple {m : Coro σ ε α} (h : Keeps I m) : Triple I m (fun _ => I) (fun _ => I) :=
  Triple.of_final h

theorem of_triple {m : Coro σ ε α} (h : Triple I m (fun _ => I) (fun _ => I)) : Keeps I m :=
  fun _ hs => h.final hs

/-- What a coroutine keeps may be added to a triple of it. -/
theorem and_triple {m : Coro σ ε α} (hI : Keeps I m) {P : σ → Prop} {Q : α → σ → Prop}
    {R : Exn ε → σ → Prop} (h : Triple P m Q R) :
    Triple (fun s => P s ∧ I s) m (fun a s => Q a s ∧ I s) (fun e s => R e s ∧ I s) :=
  (h.pre (fun _ hs => hs.1)).and (hI.triple.pre (fun _ hs => hs.2))

theorem pure (a : α) : Keeps I (Pure.pure a : Coro σ ε α) := fun _ hs => hs

theorem throw (e : Exn ε) : Keeps I (MonadExcept.throw e : Coro σ ε α) := fun _ hs => hs

theorem raise (e : ε) : Keeps I (Coro.raise e : Coro σ ε α) := fun _ hs => hs

theorem modify {f : σ → σ} (h : ∀ s, I s → I (f s)) :
    Keeps I (modify f : Coro σ ε PUnit) := fun s hs => h s hs

theorem bind {m : Coro σ ε α} {f : α → Coro σ ε β} (hm : Keeps I m) (hf : ∀ a, Keeps I (f a)) :
    Keeps I (m >>= f) :=
  of_triple (hm.triple.bind (fun a => (hf a).triple))

theorem tryCatch {m : Coro σ ε α} {h : Exn ε → Coro σ ε α} (hm : Keeps I m)
    (hh : ∀ e, Keeps I (h e)) : Keeps I (MonadExcept.tryCatch m h) :=
  of_triple (hm.triple.tryCatch (fun e => (hh e).triple))

theorem observe {m : Coro σ ε α} (hm : Keeps I m) : Keeps I (Coro.observe m) := by
  intro s hs
  rw [exec_observe]
  exact hm s hs

/-- A loop keeps what its body keeps. -/
theorem forM {f : α → Coro σ ε PUnit} (h : ∀ a, Keeps I (f a)) (l : List α) :
    Keeps I (l.forM f) :=
  of_triple (Triple.forM (fun a => (h a).triple) l)

end Keeps

end Coro
