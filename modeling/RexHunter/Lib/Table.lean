import Mathlib.Data.List.Sort
import Mathlib.Data.List.Nodup
import Mathlib.Data.List.Induction

set_option autoImplicit false

/-! # Tables as lists of rows

`orderBy key rows` is `SELECT … ORDER BY key` over a numeric column; on rows that are already in
key order it is the identity, and two numeric columns that order the rows alike select the same
list. `sortOn` is the same over a column of any order, and `pick` selects a single row. A dictionary whose
values know their keys is such a list too (`upsert`). -/

namespace Table

variable {α : Type}

/-- `ORDER BY key`, stable. -/
def orderBy (key : α → Nat) (rows : List α) : List α :=
  rows.insertionSort (fun a b => key a ≤ key b)

theorem orderBy_perm (key : α → Nat) (rows : List α) : (orderBy key rows).Perm rows :=
  List.perm_insertionSort _ rows

@[simp] theorem mem_orderBy (key : α → Nat) (rows : List α) (a : α) :
    a ∈ orderBy key rows ↔ a ∈ rows :=
  (orderBy_perm key rows).mem_iff

theorem orderBy_of_sorted (key : α → Nat) (rows : List α)
    (h : rows.Pairwise (fun a b => key a < key b)) : orderBy key rows = rows :=
  List.Pairwise.insertionSort_eq (h.imp (fun hab => Nat.le_of_lt hab))

theorem orderedInsert_snoc {r : α → α → Prop} [DecidableRel r] {a b : α} (h : r a b)
    (rows : List α) : (rows ++ [b]).orderedInsert r a = rows.orderedInsert r a ++ [b] := by
  induction rows with
  | nil => simp [h]
  | cons c rows ih =>
      simp only [List.cons_append, List.orderedInsert]
      split
      · rfl
      · rw [ih, List.cons_append]

/-- A row whose key is above all others comes last. -/
theorem orderBy_snoc {key : α → Nat} {rows : List α} {a : α} (h : ∀ b ∈ rows, key b ≤ key a) :
    orderBy key (rows ++ [a]) = orderBy key rows ++ [a] := by
  unfold orderBy
  induction rows with
  | nil => rfl
  | cons b rows ih =>
      simp only [List.cons_append, List.insertionSort_cons]
      rw [ih (fun c hc => h c (List.mem_cons_of_mem _ hc))]
      exact orderedInsert_snoc (r := fun a b => key a ≤ key b) (h b List.mem_cons_self) _

/-- A strictly increasing column identifies its row. -/
theorem eq_of_key_eq {key : α → Nat} {rows : List α}
    (h : rows.Pairwise (fun a b => key a < key b)) {a b : α} (ha : a ∈ rows) (hb : b ∈ rows)
    (hkey : key a = key b) : a = b := by
  induction rows with
  | nil => exact absurd ha (by simp)
  | cons c rows ih =>
      obtain ⟨hc, hrows⟩ := List.pairwise_cons.1 h
      rcases List.mem_cons.1 ha with hac | ha
      · rcases List.mem_cons.1 hb with hbc | hb
        · exact hac.trans hbc.symm
        · have hlt := hc b hb
          rw [← hac, hkey] at hlt
          exact absurd hlt (Nat.lt_irrefl _)
      · rcases List.mem_cons.1 hb with hbc | hb
        · have hlt := hc a ha
          rw [hkey, hbc] at hlt
          exact absurd hlt (Nat.lt_irrefl _)
        · exact ih hrows ha hb

/-! ## Text columns -/

section

variable {κ : Type} [LinearOrder κ]

/-- `ORDER BY key` over a column of any order, stable. -/
def sortOn (key : α → κ) (rows : List α) : List α :=
  rows.insertionSort (fun a b => key a ≤ key b)

theorem sortOn_perm (key : α → κ) (rows : List α) : (sortOn key rows).Perm rows :=
  List.perm_insertionSort _ rows

@[simp] theorem mem_sortOn (key : α → κ) (rows : List α) (a : α) :
    a ∈ sortOn key rows ↔ a ∈ rows :=
  (sortOn_perm key rows).mem_iff

theorem sortOn_pairwise (key : α → κ) (rows : List α) :
    (sortOn key rows).Pairwise (fun a b => key a ≤ key b) :=
  have : Std.Total (fun a b : α => key a ≤ key b) := ⟨fun a b => le_total (key a) (key b)⟩
  have : IsTrans α (fun a b => key a ≤ key b) := ⟨fun _ _ _ => le_trans⟩
  List.pairwise_insertionSort _ rows

end

/-! ## The first row of an order -/

/-- The row no later row `replaces`: `LIMIT 1`, or the bare columns beside a `MAX`. -/
def pick (replaces : α → α → Prop) [DecidableRel replaces] (rows : List α) : Option α :=
  rows.foldl
    (fun best r => match best with
      | none => some r
      | some b => if replaces b r then some r else best)
    none

section

variable {replaces : α → α → Prop} [DecidableRel replaces]

theorem pick_snoc (rows : List α) (r : α) : pick replaces (rows ++ [r]) =
    match pick replaces rows with
    | none => some r
    | some b => if replaces b r then some r else some b := by
  unfold pick
  rw [List.foldl_append, List.foldl_cons, List.foldl_nil]
  split
  · rfl
  · next hbest => rw [hbest]

theorem pick_eq_none {rows : List α} : pick replaces rows = none ↔ rows = [] := by
  induction rows using List.reverseRecOn with
  | nil => simp [pick]
  | append_singleton rows r ih =>
      rw [pick_snoc]
      split
      · simp
      · split <;> simp

/-- **The row picked is one that no row replaces.** -/
theorem pick_eq_some (htrans : ∀ a b c, replaces a b → replaces b c → replaces a c)
    (hirrefl : ∀ a, ¬ replaces a a) {rows : List α} {b : α} (h : pick replaces rows = some b) :
    b ∈ rows ∧ ∀ r ∈ rows, ¬ replaces b r := by
  induction rows using List.reverseRecOn generalizing b with
  | nil => simp [pick] at h
  | append_singleton rows r ih =>
      rw [pick_snoc] at h
      split at h
      · next hnone =>
          obtain rfl := Option.some.inj h
          obtain rfl := pick_eq_none.1 hnone
          simpa using hirrefl r
      · next best hbest =>
          obtain ⟨hmem, hnot⟩ := ih hbest
          split at h
          · next hreplaces =>
              obtain rfl := Option.some.inj h
              refine ⟨by simp, fun x hx hrx => ?_⟩
              rcases List.mem_append.1 hx with hx | hx
              · exact hnot x hx (htrans _ _ _ hreplaces hrx)
              · rw [List.mem_singleton.1 hx] at hrx
                exact hirrefl r hrx
          · next hkeep =>
              obtain rfl := Option.some.inj h
              refine ⟨by simp [hmem], fun x hx => ?_⟩
              rcases List.mem_append.1 hx with hx | hx
              · exact hnot x hx
              · rw [List.mem_singleton.1 hx]
                exact hkeep

end

/-! ## Dictionaries -/

section

variable {κ : Type} [DecidableEq κ] {key : α → κ}

/-- `d[key a] = a`, in a dictionary whose values know their keys. -/
def upsert (key : α → κ) (rows : List α) (a : α) : List α :=
  match rows with
  | [] => [a]
  | b :: rows => if key b = key a then a :: rows else b :: upsert key rows a

theorem mem_upsert {rows : List α} (hnodup : (rows.map key).Nodup) {a b : α} :
    b ∈ upsert key rows a ↔ b = a ∨ (b ∈ rows ∧ key b ≠ key a) := by
  induction rows with
  | nil => simp [upsert]
  | cons c rows ih =>
      rw [List.map_cons, List.nodup_cons] at hnodup
      by_cases hc : key c = key a
      · have hrest : ∀ d ∈ rows, key d ≠ key a := fun d hd he =>
          hnodup.1 (List.mem_map.2 ⟨d, hd, he.trans hc.symm⟩)
        simp only [upsert, if_pos hc, List.mem_cons]
        constructor
        · rintro (rfl | hb)
          · exact Or.inl rfl
          · exact Or.inr ⟨Or.inr hb, hrest b hb⟩
        · rintro (rfl | ⟨rfl | hb, hne⟩)
          · exact Or.inl rfl
          · exact absurd hc hne
          · exact Or.inr hb
      · simp only [upsert, if_neg hc, List.mem_cons, ih hnodup.2]
        constructor
        · rintro (rfl | rfl | ⟨hb, hne⟩)
          · exact Or.inr ⟨Or.inl rfl, hc⟩
          · exact Or.inl rfl
          · exact Or.inr ⟨Or.inr hb, hne⟩
        · rintro (rfl | ⟨rfl | hb, hne⟩)
          · exact Or.inr (Or.inl rfl)
          · exact Or.inl rfl
          · exact Or.inr (Or.inr ⟨hb, hne⟩)

theorem nodup_upsert {rows : List α} (hnodup : (rows.map key).Nodup) (a : α) :
    ((upsert key rows a).map key).Nodup := by
  induction rows with
  | nil => simp [upsert]
  | cons c rows ih =>
      rw [List.map_cons, List.nodup_cons] at hnodup
      by_cases hc : key c = key a
      · simp only [upsert, if_pos hc, List.map_cons, List.nodup_cons]
        exact ⟨hc ▸ hnodup.1, hnodup.2⟩
      · simp only [upsert, if_neg hc, List.map_cons, List.nodup_cons]
        refine ⟨fun hmem => ?_, ih hnodup.2⟩
        obtain ⟨b, hb, hkey⟩ := List.mem_map.1 hmem
        rcases (mem_upsert hnodup.2).1 hb with rfl | ⟨hb, _⟩
        · exact hc hkey.symm
        · exact hnodup.1 (List.mem_map.2 ⟨b, hb, hkey⟩)

/-- Assignments that agree where they repeat a key: each replaces what was there or joins. -/
theorem foldl_upsert {new : List α} : ∀ {rows : List α}, (rows.map key).Nodup →
    (∀ a ∈ new, ∀ b ∈ new, key a = key b → a = b) →
    ((new.foldl (upsert key) rows).map key).Nodup ∧
    ∀ a, a ∈ new.foldl (upsert key) rows ↔ a ∈ new ∨ (a ∈ rows ∧ key a ∉ new.map key) := by
  induction new with
  | nil =>
      intro rows hnodup _
      exact ⟨hnodup, by simp⟩
  | cons b new ih =>
      intro rows hnodup hagree
      obtain ⟨hkeys, hmem⟩ := ih (nodup_upsert hnodup b)
        (fun a ha c hc => hagree a (List.mem_cons_of_mem _ ha) c (List.mem_cons_of_mem _ hc))
      refine ⟨hkeys, fun a => ?_⟩
      rw [List.foldl_cons, hmem, mem_upsert hnodup, List.map_cons, List.mem_cons, List.mem_cons]
      constructor
      · rintro (ha | ⟨rfl | ⟨ha, hne⟩, hnew⟩)
        · exact Or.inl (Or.inr ha)
        · exact Or.inl (Or.inl rfl)
        · exact Or.inr ⟨ha, fun h => h.elim hne hnew⟩
      · rintro ((rfl | ha) | ⟨ha, hnot⟩)
        · by_cases hnew : key a ∈ new.map key
          · obtain ⟨c, hc, hkey⟩ := List.mem_map.1 hnew
            have hca : c = a := hagree c (List.mem_cons_of_mem _ hc) a List.mem_cons_self hkey
            exact Or.inl (hca ▸ hc)
          · exact Or.inr ⟨Or.inl rfl, hnew⟩
        · exact Or.inl ha
        · exact Or.inr ⟨Or.inr ⟨ha, fun he => hnot (Or.inl he)⟩, fun h => hnot (Or.inr h)⟩

end

/-! ## Updates -/

/-- `UPDATE … SET f WHERE p`. -/
def updateWhere (p : α → Bool) (f : α → α) (rows : List α) : List α :=
  rows.map (fun r => if p r then f r else r)

/-- A column the update does not set is unchanged. -/
theorem map_updateWhere {β : Type} {p : α → Bool} {f : α → α} {g : α → β} {rows : List α}
    (h : ∀ r, g (f r) = g r) : (updateWhere p f rows).map g = rows.map g := by
  unfold updateWhere
  rw [List.map_map]
  refine List.map_congr_left (fun r _ => ?_)
  by_cases hp : p r = true
  · simp [hp, h]
  · simp [hp]

theorem mem_updateWhere {p : α → Bool} {f : α → α} {rows : List α} {a : α} :
    a ∈ updateWhere p f rows ↔ ∃ r ∈ rows, (if p r then f r else r) = a := by
  simp [updateWhere]

/-- An update that matches nothing changes nothing. -/
theorem updateWhere_of_forall_not {p : α → Bool} {f : α → α} {rows : List α}
    (h : ∀ r ∈ rows, ¬ p r) : updateWhere p f rows = rows := by
  unfold updateWhere
  conv => rhs; rw [← List.map_id rows]
  refine List.map_congr_left (fun r hr => ?_)
  simp [h r hr]

/-- At most one row of a key column matches; the row count of a guarded UPDATE says whether. -/
theorem countP_key_eq_one {κ : Type} [DecidableEq κ] {key : α → κ} {rows : List α} {k : κ}
    {q : α → Bool} (hnodup : (rows.map key).Nodup) :
    rows.countP (fun r => decide (key r = k) && q r) = 1 ↔ ∃ r ∈ rows, key r = k ∧ q r = true := by
  induction rows with
  | nil => simp
  | cons r rows ih =>
      rw [List.map_cons, List.nodup_cons] at hnodup
      have hzero : key r = k → rows.countP (fun r => decide (key r = k) && q r) = 0 := by
        intro hr
        refine List.countP_eq_zero.2 (fun a ha hm => hnodup.1 ?_)
        rw [Bool.and_eq_true, decide_eq_true_eq] at hm
        exact List.mem_map.2 ⟨a, ha, hm.1.trans hr.symm⟩
      by_cases hr : key r = k ∧ q r = true
      · rw [List.countP_cons_of_pos (by simp [hr]), hzero hr.1]
        exact ⟨fun _ => ⟨r, List.mem_cons_self, hr⟩, fun _ => rfl⟩
      · rw [List.countP_cons_of_neg (by simpa using hr), ih hnodup.2]
        constructor
        · rintro ⟨a, ha, hm⟩
          exact ⟨a, List.mem_cons_of_mem r ha, hm⟩
        · rintro ⟨a, ha, hm⟩
          rcases List.mem_cons.1 ha with rfl | ha
          · exact absurd hm hr
          · exact ⟨a, ha, hm⟩

/-- `SELECT … WHERE key = k` of a key column: the first match is the only one. -/
theorem find_key_eq_some {κ : Type} [DecidableEq κ] {key : α → κ} {rows : List α} {k : κ} {a : α}
    (hnodup : (rows.map key).Nodup) :
    rows.find? (fun r => decide (key r = k)) = some a ↔ a ∈ rows ∧ key a = k := by
  induction rows with
  | nil => simp
  | cons r rows ih =>
      rw [List.map_cons, List.nodup_cons] at hnodup
      by_cases hr : key r = k
      · rw [List.find?_cons_of_pos (by simp [hr])]
        constructor
        · intro h
          obtain rfl := Option.some.inj h
          exact ⟨List.mem_cons_self, hr⟩
        · rintro ⟨ha, hak⟩
          rcases List.mem_cons.1 ha with rfl | ha
          · rfl
          · exact absurd (List.mem_map.2 ⟨a, ha, hak.trans hr.symm⟩) hnodup.1
      · rw [List.find?_cons_of_neg (by simp [hr]), ih hnodup.2, List.mem_cons]
        constructor
        · exact fun h => ⟨Or.inr h.1, h.2⟩
        · rintro ⟨rfl | ha, hak⟩
          · exact absurd hak hr
          · exact ⟨ha, hak⟩

end Table
