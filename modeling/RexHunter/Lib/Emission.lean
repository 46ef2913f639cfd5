import Mathlib.Algebra.BigOperators.Ring.Finset
import Mathlib.Computability.Language
import Mathlib.Order.ConditionallyCompleteLattice.Basic
import Mathlib.Order.CompletePartialOrder
import RexHunter.Lib.Coro

set_option autoImplicit false

/-! # What a coroutine writes

Some part of the world is a record to which letters are only ever appended. The assertion language
of this file are the languages over these letters: `Emits L m T E` says that, wherever the record
stands, a run of `m` that starts with a word of `L` behind it ends with one of `T` or of `E` behind
it. Sequencing composes such statements, `Emits.after` frames them, and so a grammar of the record
is read off the program part by part. A loop that gives up after so many passes writes a bounded
number of words (`fewer`). The word is only promised in states that satisfy a condition `C`, which
a program that has lost it must not regain (`Emits.of_empty`). -/

/-! ## Bounded repetition -/

namespace Language

variable {ι : Type} {L M : Language ι}

/-- Fewer than `n` words of `L`, one after the other. -/
def fewer (L : Language ι) (n : Nat) : Language ι := ∑ k ∈ Finset.range n, L ^ k

theorem fewer_succ (L : Language ι) (n : Nat) : L.fewer (n + 1) = 1 + L * L.fewer n := by
  simp only [fewer, Finset.sum_range_succ', Finset.mul_sum, pow_succ', pow_zero]
  exact add_comm _ _

/-- No word at all. -/
theorem le_fewer_mul (L M : Language ι) (n : Nat) : M ≤ L.fewer (n + 1) * M := by
  rw [fewer_succ, add_mul, one_mul]
  exact le_self_add

/-- One more word. -/
theorem mul_fewer_mul_le (L M : Language ι) (n : Nat) :
    L * (L.fewer n * M) ≤ L.fewer (n + 1) * M := by
  rw [fewer_succ, add_mul, mul_assoc]
  exact le_add_self

/-- Up to `n` words: at most `n - 1` of `L` and one of `M`, or `n` of `L`. -/
def spent (L M : Language ι) (n : Nat) : Language ι := L.fewer n * M + L ^ n

theorem spent_zero (L M : Language ι) : L.spent M 0 = 1 := by
  simp [spent, fewer]

theorem spent_succ (L M : Language ι) (n : Nat) :
    L.spent M (n + 1) = M + L * L.spent M n := by
  simp only [spent, fewer_succ, pow_succ', add_mul, one_mul, mul_add, mul_assoc, add_assoc]

theorem mul_spent_le (L M : Language ι) (n : Nat) : L * L.spent M n ≤ L.spent M (n + 1) := by
  rw [spent_succ]
  exact le_add_self

/-- Giving up: after a word of `M`, or after a word of `L` with nothing left. -/
theorem le_spent {B : Bool → Language ι} {again : Bool} {n : Nat}
    (h : ¬ (again = true ∧ n ≠ 0)) : B again ≤ (B true).spent (B false) (n + 1) := by
  cases again with
  | false =>
      rw [spent_succ]
      exact le_self_add
  | true =>
      obtain rfl : n = 0 := by simpa using h
      rw [spent_succ, spent_zero, mul_one]
      exact le_add_self

/-- A word of fewer than `n` words of `L`, taken apart. -/
theorem mem_fewer {n : Nat} {x : List ι} : x ∈ L.fewer n ↔ ∃ k < n, x ∈ L ^ k := by
  unfold fewer
  induction n with
  | zero => simp [Language.notMem_zero]
  | succ n ih =>
      rw [Finset.sum_range_succ, Language.mem_add, ih]
      constructor
      · rintro (⟨k, hk, hx⟩ | hx)
        · exact ⟨k, Nat.lt_succ_of_lt hk, hx⟩
        · exact ⟨n, Nat.lt_succ_self n, hx⟩
      · rintro ⟨k, hk, hx⟩
        rcases Nat.lt_succ_iff_lt_or_eq.1 hk with hk | rfl
        · exact Or.inl ⟨k, hk, hx⟩
        · exact Or.inr hx

end Language

namespace Coro

variable {σ ε α β ι : Type}

/-- The record stands at a word of `L`, if the state satisfies `C`. -/
def Written (C : σ → Prop) (At : List ι → σ → Prop) (L : Language ι) (s : σ) : Prop :=
  C s → ∃ x ∈ L, At x s

/-- With a word of `L` behind it, the coroutine returns with one of `T` behind it or is left with one
    of `E` behind it. -/
def Emits (C : σ → Prop) (At : List ι → σ → Prop) (L : Language ι) (m : Coro σ ε α)
    (T : α → Language ι) (E : Exn ε → Language ι) : Prop :=
  ∀ S : Language ι, Triple (Written C At (S * L)) m (fun a => Written C At (S * T a))
    (fun e => Written C At (S * E e))

variable {C : σ → Prop} {At : List ι → σ → Prop} {L L' : Language ι} {m : Coro σ ε α}
  {T T' : α → Language ι} {E E' : Exn ε → Language ι}

/-- A cancelled coroutine promises nothing. -/
def unlessCancelled (L : Language ι) : Exn ε → Language ι
  | .cancelled => 0
  | .raised _ => L

theorem zero_le_language (L : Language ι) : 0 ≤ L :=
  fun x hx => absurd hx (Language.notMem_zero x)

theorem mul_zero_le (M L : Language ι) : M * 0 ≤ L := by
  rw [mul_zero]
  exact zero_le_language L

theorem unlessCancelled_mono (h : L ≤ L') (e : Exn ε) :
    unlessCancelled L e ≤ unlessCancelled L' e := by
  cases e with
  | cancelled => exact le_rfl
  | raised e => exact h

theorem mul_unlessCancelled (M L : Language ι) (e : Exn ε) :
    M * unlessCancelled L e = unlessCancelled (M * L) e := by
  cases e with
  | cancelled => exact mul_zero M
  | raised e => rfl

theorem mul_unlessCancelled_le {M : Language ι} (h : M * L ≤ L') (e : Exn ε) :
    M * unlessCancelled L e ≤ unlessCancelled L' e :=
  (mul_unlessCancelled M L e).le.trans (unlessCancelled_mono h e)

theorem Written.mono {s : σ} (h : Written C At L s) (hL : L ≤ L') : Written C At L' s := by
  intro hC
  obtain ⟨x, hx, hAt⟩ := h hC
  exact ⟨x, hL hx, hAt⟩

namespace Emits

theorem conseq (h : Emits C At L m T E) (hL : L' ≤ L) (hT : ∀ a, T a ≤ T' a)
    (hE : ∀ e, E e ≤ E' e) : Emits C At L' m T' E' :=
  fun S => (h S).conseq (fun _ hs => hs.mono (mul_le_mul_right hL S))
    (fun a _ hs => hs.mono (mul_le_mul_right (hT a) S))
    (fun e _ hs => hs.mono (mul_le_mul_right (hE e) S))

/-- It is enough to say what is added. -/
theorem of_one (h : ∀ S : Language ι, Triple (Written C At S) m
    (fun a => Written C At (S * T a)) (fun e => Written C At (S * E e))) : Emits C At 1 m T E := by
  intro S
  rw [mul_one]
  exact h S

/-- What is already behind stays there. -/
theorem after (h : Emits C At L m T E) (M : Language ι) :
    Emits C At (M * L) m (fun a => M * T a) (fun e => M * E e) := by
  intro S
  have hS := h (S * M)
  simp only [mul_assoc] at hS
  exact hS

/-- What is added to what is behind. -/
theorem next (h : Emits C At 1 m T E) (hT : ∀ a, L * T a ≤ T' a) (hE : ∀ e, L * E e ≤ E' e) :
    Emits C At L m T' E' :=
  (h.after L).conseq (mul_one L).ge hT hE

/-- From the beginning of the record. -/
theorem run (h : Emits C At L m T E) :
    Triple (Written C At L) m (fun a => Written C At (T a)) (fun e => Written C At (E e)) := by
  have hone := h 1
  simp only [one_mul] at hone
  exact hone

theorem pure {a : α} (h : L ≤ T a) : Emits C At L (Pure.pure a : Coro σ ε α) T E :=
  fun S _ hs => Written.mono hs (mul_le_mul_right h S)

theorem throw {e : Exn ε} (h : L ≤ E e) :
    Emits C At L (MonadExcept.throw e : Coro σ ε α) T E :=
  fun S _ hs => Written.mono hs (mul_le_mul_right h S)

theorem bind {f : α → Coro σ ε β} {V : β → Language ι} (hm : Emits C At L m T E)
    (hf : ∀ a, Emits C At (T a) (f a) V E) : Emits C At L (m >>= f) V E :=
  fun S => (hm S).bind (fun a => hf a S)

/-- Sequencing, where the first part is left with less behind it than the whole may be. -/
theorem seq {f : α → Coro σ ε β} {V : β → Language ι} (hm : Emits C At L m T E)
    (hE : ∀ e, E e ≤ E' e) (hf : ∀ a, Emits C At (T a) (f a) V E') :
    Emits C At L (m >>= f) V E' :=
  bind (hm.conseq le_rfl (fun _ => le_rfl) hE) hf

/-- Sequencing, where more is known about what the first part returns. -/
theorem bind_of {f : α → Coro σ ε β} {V : β → Language ι} {φ : α → Prop}
    (hm : Emits C At L m T E)
    (hφ : Triple (fun _ => True) m (fun a _ => φ a) (fun _ _ => True))
    (hf : ∀ a, φ a → Emits C At (T a) (f a) V E) : Emits C At L (m >>= f) V E := by
  intro S
  have hboth := ((hφ.pre (fun _ _ => trivial)).and (hm S)).conseq (fun _ hs => hs)
    (fun _ _ hs => hs) (fun _ _ hs => hs.2)
  exact hboth.bind (fun a => Triple.of_and (fun ha => hf a ha S))

theorem observe (hm : Emits C At L m T E) :
    Emits C At L (Coro.observe m) (fun r => match r with
      | .ok a => T a
      | .error e => E e) E' := by
  intro S
  refine (hm S).observe.conseq (fun _ hs => hs) ?_ (fun _ _ hs => hs)
  intro r s hs
  cases r with
  | ok a => exact hs
  | error e => exact hs

/-- A loop writes what its passes write, one after the other. -/
theorem forM {f : α → Coro σ ε PUnit} {F : α → Language ι} {l : List α}
    (h : ∀ a ∈ l, Emits C At 1 (f a) (fun _ => F a) (fun _ => 0)) :
    Emits C At 1 (l.forM f) (fun _ => (l.map F).prod) (fun _ => 0) := by
  induction l with
  | nil => exact pure le_rfl
  | cons a l ih =>
      refine bind (h a List.mem_cons_self) (fun _ => ?_)
      exact (ih (fun b hb => h b (List.mem_cons_of_mem a hb))).next
        (fun _ => List.prod_cons.ge) (fun _ => mul_zero_le _ _)

/-- A program that never regains the condition may do anything after a word that cannot be. -/
theorem of_empty (h : Keeps (fun s => ¬ C s) m) : Emits C At 0 m T E := by
  intro S
  rw [mul_zero]
  have hlost : ∀ s, Written C At 0 s → ¬ C s := by
    intro s hs hC
    obtain ⟨x, hx, -⟩ := hs hC
    exact Language.notMem_zero x hx
  exact h.triple.conseq hlost (fun _ _ hs hC => absurd hC hs) (fun _ _ hs hC => absurd hC hs)

end Emits

end Coro
