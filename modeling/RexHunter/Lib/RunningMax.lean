import Mathlib.Data.List.Nodup
import Mathlib.Data.List.Infix

set_option autoImplicit false

/-! # Splicing a stream at a high-water mark

Items carry an optional key. `splice hw` lets an item without a key through, and an item with a key
only if the key is above every key let through before it and above the starting mark `hw`: the
spliced keys are the strict running maxima. This is the idempotent consumer of an at-least-once
feed; the file says what it never does (repeat, reorder, invent) and, exactly, when it loses
nothing: `keys_splice_eq_iff`. -/

namespace RunningMax

variable {α : Type} (key : α → Option Nat)

/-- The keys of the items that have one. -/
def keys (l : List α) : List Nat := l.filterMap key

/-- The items let through from mark `hw` on. -/
def splice (hw : Nat) : List α → List α
  | [] => []
  | a :: l =>
      match key a with
      | none => a :: splice hw l
      | some i => if hw < i then a :: splice i l else splice hw l

/-- The mark after the whole list. -/
def mark (hw : Nat) : List α → Nat
  | [] => hw
  | a :: l =>
      match key a with
      | none => mark hw l
      | some i => if hw < i then mark i l else mark hw l

/-- The keys above a mark, in stream order. -/
def above (hw : Nat) (l : List α) : List Nat := (keys key l).filter (fun i => hw < i)

variable {key}

@[simp] theorem keys_nil : keys key [] = [] := rfl

@[simp] theorem keys_append (l m : List α) : keys key (l ++ m) = keys key l ++ keys key m :=
  List.filterMap_append

theorem keys_cons_none {a : α} (h : key a = none) (l : List α) : keys key (a :: l) = keys key l :=
  List.filterMap_cons_none h

theorem keys_cons_some {a : α} {i : Nat} (h : key a = some i) (l : List α) :
    keys key (a :: l) = i :: keys key l :=
  List.filterMap_cons_some h

theorem mem_keys {l : List α} {i : Nat} : i ∈ keys key l ↔ ∃ a ∈ l, key a = some i :=
  List.mem_filterMap

@[simp] theorem above_append (hw : Nat) (l m : List α) :
    above key hw (l ++ m) = above key hw l ++ above key hw m := by
  simp [above]

theorem mem_above {hw i : Nat} {l : List α} : i ∈ above key hw l ↔ i ∈ keys key l ∧ hw < i := by
  simp [above]

theorem splice_append (l m : List α) : ∀ hw : Nat,
    splice key hw (l ++ m) = splice key hw l ++ splice key (mark key hw l) m := by
  induction l with
  | nil => intro hw; rfl
  | cons a l ih =>
      intro hw
      rw [List.cons_append]
      cases ha : key a with
      | none => simp only [splice, mark, ha, ih, List.cons_append]
      | some i =>
          by_cases hi : hw < i
          · simp only [splice, mark, ha, if_pos hi, ih, List.cons_append]
          · simp only [splice, mark, ha, if_neg hi, ih]

theorem mark_append (l m : List α) : ∀ hw : Nat,
    mark key hw (l ++ m) = mark key (mark key hw l) m := by
  induction l with
  | nil => intro hw; rfl
  | cons a l ih =>
      intro hw
      rw [List.cons_append]
      cases ha : key a with
      | none => simp only [mark, ha, ih]
      | some i =>
          by_cases hi : hw < i
          · simp only [mark, ha, if_pos hi, ih]
          · simp only [mark, ha, if_neg hi, ih]

/-- What was dropped never moved the mark. -/
theorem mark_splice (l : List α) : ∀ hw : Nat, mark key hw (splice key hw l) = mark key hw l := by
  induction l with
  | nil => intro hw; rfl
  | cons a l ih =>
      intro hw
      cases ha : key a with
      | none => simp only [splice, mark, ha, ih]
      | some i =>
          by_cases hi : hw < i
          · simp only [splice, mark, ha, if_pos hi, ih]
          · simp only [splice, mark, ha, if_neg hi, ih]

theorem le_mark (l : List α) : ∀ hw : Nat, hw ≤ mark key hw l := by
  induction l with
  | nil => intro hw; exact Nat.le_refl hw
  | cons a l ih =>
      intro hw
      cases ha : key a with
      | none => simpa only [mark, ha] using ih hw
      | some i =>
          by_cases hi : hw < i
          · simp only [mark, ha, if_pos hi]
            exact Nat.le_trans (Nat.le_of_lt hi) (ih i)
          · simpa only [mark, ha, if_neg hi] using ih hw

/-- Every key of the list is at or below the final mark. -/
theorem key_le_mark {l : List α} {i : Nat} : ∀ hw : Nat, i ∈ keys key l → i ≤ mark key hw l := by
  induction l with
  | nil => intro hw h; exact absurd h (by simp)
  | cons a l ih =>
      intro hw h
      cases ha : key a with
      | none =>
          rw [keys_cons_none ha] at h
          simpa only [mark, ha] using ih hw h
      | some j =>
          rw [keys_cons_some ha, List.mem_cons] at h
          by_cases hj : hw < j
          · simp only [mark, ha, if_pos hj]
            rcases h with rfl | h
            · exact le_mark l i
            · exact ih j h
          · simp only [mark, ha, if_neg hj]
            rcases h with rfl | h
            · exact Nat.le_trans (Nat.le_of_not_lt hj) (le_mark l hw)
            · exact ih hw h

/-- The mark is the starting mark or a key of the list. -/
theorem mark_lt {l : List α} {n : Nat} : ∀ hw : Nat, hw < n → (∀ i ∈ keys key l, i < n) →
    mark key hw l < n := by
  induction l with
  | nil => intro hw h _; exact h
  | cons a l ih =>
      intro hw h hkeys
      cases ha : key a with
      | none =>
          rw [keys_cons_none ha] at hkeys
          simpa only [mark, ha] using ih hw h hkeys
      | some i =>
          rw [keys_cons_some ha] at hkeys
          have hrest : ∀ j ∈ keys key l, j < n := fun j hj => hkeys j (List.mem_cons_of_mem _ hj)
          by_cases hi : hw < i
          · simpa only [mark, ha, if_pos hi] using ih i (hkeys i List.mem_cons_self) hrest
          · simpa only [mark, ha, if_neg hi] using ih hw h hrest

theorem splice_sublist (l : List α) : ∀ hw : Nat, (splice key hw l).Sublist l := by
  induction l with
  | nil => intro hw; exact List.Sublist.refl _
  | cons a l ih =>
      intro hw
      cases ha : key a with
      | none => simp only [splice, ha]; exact (ih hw).cons_cons a
      | some i =>
          by_cases hi : hw < i
          · simp only [splice, ha, if_pos hi]; exact (ih i).cons_cons a
          · simp only [splice, ha, if_neg hi]; exact (ih hw).cons a

/-- **The spliced keys strictly increase, from above the mark.** -/
theorem keys_splice_increasing (l : List α) : ∀ hw : Nat,
    (keys key (splice key hw l)).Pairwise (· < ·) ∧ ∀ i ∈ keys key (splice key hw l), hw < i := by
  induction l with
  | nil => intro hw; simp [splice]
  | cons a l ih =>
      intro hw
      cases ha : key a with
      | none =>
          simp only [splice, ha, keys_cons_none ha]
          exact ih hw
      | some i =>
          by_cases hi : hw < i
          · simp only [splice, ha, if_pos hi, keys_cons_some ha, List.pairwise_cons, List.mem_cons]
            obtain ⟨hpair, habove⟩ := ih i
            refine ⟨⟨habove, hpair⟩, ?_⟩
            rintro j (rfl | hj)
            · exact hi
            · exact Nat.lt_trans hi (habove j hj)
          · simp only [splice, ha, if_neg hi]
            exact ih hw

/-- The spliced keys are among the keys above the mark, in their order. -/
theorem keys_splice_sublist (l : List α) (hw : Nat) :
    (keys key (splice key hw l)).Sublist (above key hw l) := by
  have hsub : (keys key (splice key hw l)).Sublist (keys key l) := (splice_sublist l hw).filterMap key
  have hfilter := hsub.filter (fun i => decide (hw < i))
  rwa [List.filter_eq_self.2
    (fun i hi => decide_eq_true ((keys_splice_increasing l hw).2 i hi))] at hfilter

/-- **Exactly when nothing above the mark is lost:** the keys above the mark arrive in order. -/
theorem keys_splice_eq_iff (l : List α) : ∀ hw : Nat,
    keys key (splice key hw l) = above key hw l ↔ (above key hw l).Pairwise (· < ·) := by
  intro hw
  refine ⟨fun h => h ▸ (keys_splice_increasing l hw).1, ?_⟩
  induction l generalizing hw with
  | nil => intro _; rfl
  | cons a l ih =>
      intro h
      cases ha : key a with
      | none =>
          simp only [splice, above, ha, keys_cons_none ha] at h ⊢
          exact ih hw h
      | some i =>
          by_cases hi : hw < i
          · simp only [above, keys_cons_some ha, List.filter_cons, decide_eq_true hi, if_true,
              List.pairwise_cons] at h
            -- every later key above `hw` is above `i` as well, so both filters agree
            have hsame : above key hw l = above key i l := by
              refine List.filter_congr (fun j hj => decide_eq_decide.2 ⟨fun hhw => ?_, ?_⟩)
              · exact h.1 j (List.mem_filter.2 ⟨hj, decide_eq_true hhw⟩)
              · exact fun hij => Nat.lt_trans hi hij
            have hrest : keys key (splice key i l) = above key i l :=
              ih i (hsame ▸ h.2)
            simp only [splice, above, ha, if_pos hi, keys_cons_some ha, List.filter_cons,
              decide_eq_true hi, if_true]
            rw [hrest, ← hsame]
            rfl
          · simp only [splice, above, ha, if_neg hi, keys_cons_some ha, List.filter_cons,
              decide_eq_false hi] at h ⊢
            exact ih hw h

/-- In a stream that repeats no key, selecting one key returns one item. -/
theorem filter_key_eq_singleton {l : List α} {a : α} {i : Nat} (hnodup : (keys key l).Nodup)
    (ha : a ∈ l) (hi : key a = some i) : l.filter (fun b => decide (key b = some i)) = [a] := by
  induction l with
  | nil => exact absurd ha (by simp)
  | cons b l ih =>
      -- once the key is met, no later item carries it
      have hrest : i ∉ keys key l → l.filter (fun c => decide (key c = some i)) = [] := fun hnot => by
        refine List.filter_eq_nil_iff.2 (fun c hc hkey => hnot (mem_keys.2 ⟨c, hc, ?_⟩))
        exact of_decide_eq_true hkey
      cases hb : key b with
      | none =>
          rw [keys_cons_none hb] at hnodup
          have hne : a ≠ b := fun he => by rw [he, hb] at hi; exact absurd hi (by simp)
          rw [List.filter_cons_of_neg (by simp [hb])]
          exact ih hnodup ((List.mem_cons.1 ha).resolve_left hne)
      | some j =>
          rw [keys_cons_some hb, List.nodup_cons] at hnodup
          rcases List.mem_cons.1 ha with rfl | hmem
          · rw [hb, Option.some.injEq] at hi
            subst hi
            rw [List.filter_cons_of_pos (by simp [hb]), hrest hnodup.1]
          · have hin : i ∈ keys key l := mem_keys.2 ⟨a, hmem, hi⟩
            have hji : j ≠ i := fun he => hnodup.1 (he ▸ hin)
            rw [List.filter_cons_of_neg (by simp [hb, hji])]
            exact ih hnodup.2 hmem

/-- Membership form, for a stream that never repeats a key. -/
theorem mem_keys_splice_iff (l : List α) (hw : Nat) (hnodup : (keys key l).Nodup) :
    (∀ i ∈ keys key l, hw < i → i ∈ keys key (splice key hw l)) ↔
      (above key hw l).Pairwise (· < ·) := by
  rw [← keys_splice_eq_iff]
  constructor
  · intro h
    refine (keys_splice_sublist l hw).eq_of_length_le ?_
    refine List.Nodup.length_le_of_subset (hnodup.filter _) (fun i hi => ?_)
    obtain ⟨hmem, hgt⟩ := mem_above.1 hi
    exact h i hmem hgt
  · intro h i hi hgt
    rw [h]
    exact mem_above.2 ⟨hi, hgt⟩

/-! ## The spliced keys as running maxima -/

/-- The strict running maxima of a list of keys, above a mark. -/
def maxima (hw : Nat) : List Nat → List Nat
  | [] => []
  | i :: l => if hw < i then i :: maxima i l else maxima hw l

/-- **What is spliced carries exactly the strict running maxima of the keys.** -/
theorem keys_splice (l : List α) : ∀ hw : Nat,
    keys key (splice key hw l) = maxima hw (keys key l) := by
  induction l with
  | nil => intro hw; rfl
  | cons a l ih =>
      intro hw
      cases ha : key a with
      | none =>
          simp only [splice, ha]
          rw [keys_cons_none ha, keys_cons_none ha, ih]
      | some i =>
          simp only [splice, ha]
          rw [keys_cons_some ha]
          by_cases hlt : hw < i
          · rw [if_pos hlt, keys_cons_some ha, ih]
            simp [maxima, hlt]
          · rw [if_neg hlt, ih]
            simp [maxima, hlt]

end RunningMax
