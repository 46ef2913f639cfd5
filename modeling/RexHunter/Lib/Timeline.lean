import Mathlib.Algebra.Group.Nat.Defs
import Mathlib.Data.List.Lex
import Mathlib.Order.Monotone.Basic
import Mathlib.Data.Set.Function
import Mathlib.Order.Fin.Basic
import Mathlib.Order.Interval.Set.Defs
import Mathlib.Tactic.Common
import RexHunter.Lib.Text

set_option autoImplicit false

/-! # Texts and positions in lexicographic order

Two ways in which a tuple of numbers is turned into one ordered thing. As a text: the numbers are
written in decimal at a fixed width, one after the other, and texts are compared code point by code
point. As a position on a line: an outer number selects a stretch of the line and the inner number is
the offset in it, and stretches may have different lengths (months). Both orders are the
lexicographic one. -/

namespace Timeline

/-! ## Texts -/

variable {α : Type} [LinearOrder α]

/-- Texts that start with equally long parts. -/
theorem append_lt_append_iff {as bs : List α} (hlength : as.length = bs.length) (cs ds : List α) :
    as ++ cs < bs ++ ds ↔ as < bs ∨ (as = bs ∧ cs < ds) := by
  induction as generalizing bs with
  | nil =>
      rw [List.length_nil, eq_comm, List.length_eq_zero_iff] at hlength
      simp [hlength]
  | cons a as ih =>
      cases bs with
      | nil => simp at hlength
      | cons b bs =>
          simp only [List.length_cons, Nat.add_right_cancel_iff] at hlength
          simp only [List.cons_append, List.cons_lt_cons_iff, ih hlength, List.cons.injEq]
          tauto

@[simp] theorem append_lt_append_left_iff (as cs ds : List α) :
    as ++ cs < as ++ ds ↔ cs < ds := by
  rw [append_lt_append_iff rfl]
  simp

/-- A decimal digit. -/
def digit (n : Nat) : CodePoint := Fin.ofNat _ (0x30 + n)

theorem digit_val {n : Nat} (h : n < 10) : (digit n).val = 0x30 + n :=
  Nat.mod_eq_of_lt (by omega)

theorem digit_lt_iff {n m : Nat} (hn : n < 10) (hm : m < 10) : digit n < digit m ↔ n < m := by
  rw [Fin.lt_def, digit_val hn, digit_val hm]
  omega

/-- The last `width` decimal digits of a number: `f"{n:0{width}d}"` of a number that fits. -/
def padded : Nat → Nat → PyStr
  | 0, _ => []
  | width + 1, n => padded width (n / 10) ++ [digit (n % 10)]

@[simp] theorem length_padded (width n : Nat) : (padded width n).length = width := by
  induction width generalizing n with
  | zero => rfl
  | succ width ih => simp [padded, ih]

/-- At a fixed width, texts are ordered as the numbers are. -/
theorem padded_strictMonoOn (width : Nat) : StrictMonoOn (padded width) (Set.Iio (10 ^ width)) := by
  induction width with
  | zero =>
      intro n hn m hm hnm
      simp only [Set.mem_Iio, Nat.pow_zero] at hn hm
      omega
  | succ width ih =>
      intro n hn m hm hnm
      simp only [Set.mem_Iio, Nat.pow_succ] at hn hm
      simp only [padded]
      rw [append_lt_append_iff (by simp)]
      rcases Nat.lt_or_eq_of_le (Nat.div_le_div_right (c := 10) (Nat.le_of_lt hnm)) with hlt | heq
      · exact Or.inl (ih (Set.mem_Iio.2 (by omega)) (Set.mem_Iio.2 (by omega)) hlt)
      · refine Or.inr ⟨by rw [heq], ?_⟩
        have hdigit : digit (n % 10) < digit (m % 10) :=
          (digit_lt_iff (by omega) (by omega)).2 (by omega)
        simp [List.cons_lt_cons_iff, hdigit]

/-- Two texts that start with a number at a fixed width. -/
theorem padded_append_lt_iff {width n m : Nat} (hn : n < 10 ^ width) (hm : m < 10 ^ width)
    (cs ds : PyStr) :
    padded width n ++ cs < padded width m ++ ds ↔ n < m ∨ (n = m ∧ cs < ds) := by
  have hmono := padded_strictMonoOn width
  rw [append_lt_append_iff (by simp), hmono.lt_iff_lt hn hm, hmono.injOn.eq_iff hn hm]

/-! ## Positions -/

/-- A stretch of a line ends where the next one starts. -/
theorem start_le {start len : Nat → Nat} (h : ∀ i, start (i + 1) = start i + len i) {i k : Nat}
    (hik : i < k) : start i + len i ≤ start k := by
  induction k with
  | zero => omega
  | succ k ih =>
      rw [h k]
      rcases Nat.lt_or_eq_of_le (Nat.le_of_lt_succ hik) with hlt | rfl
      · exact Nat.le_add_right_of_le (ih hlt)
      · exact Nat.le_refl _

/-- Of two positions the one in the earlier stretch, or at the smaller offset, comes first. -/
theorem offset_lt_iff {start len : Nat → Nat} (h : ∀ i, start (i + 1) = start i + len i)
    {i k j l : Nat} (hj : j < len i) (hl : l < len k) :
    start i + j < start k + l ↔ i < k ∨ (i = k ∧ j < l) := by
  rcases Nat.lt_trichotomy i k with hik | rfl | hki
  · have hle := start_le h hik
    omega
  · omega
  · have hle := start_le h hki
    omega

/-- Stretches of one length. -/
theorem mul_add_lt_iff {len i k j l : Nat} (hj : j < len) (hl : l < len) :
    i * len + j < k * len + l ↔ i < k ∨ (i = k ∧ j < l) :=
  @offset_lt_iff (· * len) (fun _ => len) (fun i => Nat.succ_mul i len) i k j l hj hl

theorem mul_add_eq_iff {len i k j l : Nat} (hj : j < len) (hl : l < len) :
    i * len + j = k * len + l ↔ i = k ∧ j = l := by
  have hlt := mul_add_lt_iff (i := i) (k := k) hj hl
  have hgt := mul_add_lt_iff (i := k) (k := i) hl hj
  omega

end Timeline
