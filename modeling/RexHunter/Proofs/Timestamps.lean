import RexHunter.Implementation.Clock
import RexHunter.Implementation.Snapshot

set_option autoImplicit false

/-! # Text order is time order

`isoformat` leaves the fraction out of a whole second, so two texts may differ in length; at the
place of the missing fraction stands a plus sign, which sorts before the full stop. Both orders are
therefore the lexicographic order of the seven fields (`Instant.Before`), and every `MAX` and
`ORDER BY` over a column of such texts is one over the instants. -/

namespace RexHunter

namespace Instant

/-- Earlier in the first field in which they differ. -/
def Before (a b : Instant) : Prop :=
  a.year < b.year ∨ (a.year = b.year ∧ (a.month < b.month ∨ (a.month = b.month ∧
    (a.day < b.day ∨ (a.day = b.day ∧ (a.hour < b.hour ∨ (a.hour = b.hour ∧
      (a.minute < b.minute ∨ (a.minute = b.minute ∧ (a.second < b.second ∨ (a.second = b.second ∧
        a.microsecond < b.microsecond)))))))))))

/-! ## Time -/

theorem start_succ_le {year month : Nat} (h : month ≤ 12) :
    daysBeforeMonth year month + daysInMonth year month ≤ daysInYear year :=
  Timeline.start_le (fun _ => rfl)
    (Nat.lt_succ_of_le h)

theorem dayOfYear_lt (a : Instant) :
    daysBeforeMonth a.year a.month + (a.day - 1) < daysInYear a.year := by
  have hle : daysBeforeMonth a.year a.month + daysInMonth a.year a.month ≤ daysInYear a.year :=
    start_succ_le a.monthRange.2
  have hday := a.dayRange
  omega

theorem ordinal_lt_iff (a b : Instant) : a.ordinal < b.ordinal ↔
    a.year < b.year ∨ (a.year = b.year ∧ (a.month < b.month ∨ (a.month = b.month ∧
      a.day < b.day))) := by
  have hday := a.dayRange
  have hday' := b.dayRange
  unfold ordinal
  rw [Timeline.offset_lt_iff (fun _ => rfl)
    a.dayOfYear_lt b.dayOfYear_lt]
  refine or_congr_right (and_congr_right (fun hyear => ?_))
  rw [hyear] at hday ⊢
  rw [Timeline.offset_lt_iff (fun _ => rfl) (by omega) (by omega)]
  omega

theorem ordinal_eq_iff (a b : Instant) : a.ordinal = b.ordinal ↔
    a.year = b.year ∧ a.month = b.month ∧ a.day = b.day := by
  have hlt := ordinal_lt_iff a b
  have hgt := ordinal_lt_iff b a
  constructor
  · intro heq
    omega
  · rintro ⟨hyear, hmonth, hday⟩
    omega

/-- **Time is counted in the order of the fields.** -/
theorem elapsed_lt_iff (a b : Instant) : a.elapsed < b.elapsed ↔ a.Before b := by
  unfold elapsed Before
  rw [Timeline.mul_add_lt_iff a.microsecondRange b.microsecondRange,
    Timeline.mul_add_lt_iff a.secondRange b.secondRange,
    Timeline.mul_add_lt_iff a.minuteRange b.minuteRange,
    Timeline.mul_add_lt_iff a.hourRange b.hourRange,
    Timeline.mul_add_eq_iff a.secondRange b.secondRange,
    Timeline.mul_add_eq_iff a.minuteRange b.minuteRange,
    Timeline.mul_add_eq_iff a.hourRange b.hourRange, ordinal_lt_iff, ordinal_eq_iff]
  simp only [and_or_left, or_assoc, and_assoc]

/-! ## Text -/

theorem day_le (a : Instant) : a.day ≤ 31 := by
  have hday := a.dayRange
  have hmonth : daysInMonth a.year a.month ≤ 31 := by
    unfold daysInMonth
    split <;> try split
    all_goals omega
  omega

/-- A missing fraction sorts before every other. -/
theorem fraction_lt_iff {n m : Nat} (hn : n < 1000000) (hm : m < 1000000) :
    fraction n < fraction m ↔ n < m := by
  have hmissing : fraction 0 = 0x2b :: py "00:00" := rfl
  have hpresent : ∀ {k}, k ≠ 0 → fraction k = 0x2e :: (Timeline.padded 6 k ++ py "+00:00") := by
    intro k hk
    unfold fraction
    rw [if_neg hk]
    rfl
  have hsigns : (0x2b : CodePoint) < 0x2e := by decide
  by_cases hn0 : n = 0
  · by_cases hm0 : m = 0
    · simp [hn0, hm0]
    · rw [hn0, hmissing, hpresent hm0]
      simp only [List.cons_lt_cons_iff, hsigns, true_or, true_iff]
      omega
  · by_cases hm0 : m = 0
    · rw [hm0, hmissing, hpresent hn0]
      simp [List.cons_lt_cons_iff, not_lt_of_gt hsigns, hsigns.ne']
    · rw [hpresent hn0, hpresent hm0, List.cons_lt_cons_iff, Timeline.padded_append_lt_iff hn hm]
      simp

/-- **Texts are ordered by the fields.** -/
theorem isoformat_lt_iff (a b : Instant) : a.isoformat < b.isoformat ↔ a.Before b := by
  have hyear := a.yearRange
  have hyear' := b.yearRange
  have hmonth := a.monthRange
  have hmonth' := b.monthRange
  have hday := a.day_le
  have hday' := b.day_le
  have hhour := a.hourRange
  have hhour' := b.hourRange
  have hminute := a.minuteRange
  have hminute' := b.minuteRange
  have hsecond := a.secondRange
  have hsecond' := b.secondRange
  unfold isoformat Before
  simp (disch := omega) only [Timeline.padded_append_lt_iff, Timeline.append_lt_append_left_iff,
    fraction_lt_iff a.microsecondRange b.microsecondRange]

/-- **Text order is time order.** -/
theorem isoformat_lt_isoformat (a b : Instant) : a.isoformat < b.isoformat ↔ a.elapsed < b.elapsed :=
  (isoformat_lt_iff a b).trans (elapsed_lt_iff a b).symm

end Instant

/-! ## What the statements select -/

/-- The instant of the first text is not later than that of the second. -/
def NotLater (s s' : PyStr) : Prop :=
  ∀ a b : Instant, s = a.isoformat → s' = b.isoformat → a.elapsed ≤ b.elapsed

theorem notLater_of_not_lt {s s' : PyStr} (h : ¬ s' < s) : NotLater s s' := by
  rintro a b rfl rfl
  rw [Instant.isoformat_lt_isoformat] at h
  exact Nat.le_of_not_lt h

theorem maxText_eq_some {texts : List PyStr} {s : PyStr} (h : maxText texts = some s) :
    s ∈ texts ∧ ∀ s' ∈ texts, ¬ s < s' := by
  induction texts generalizing s with
  | nil => simp [maxText] at h
  | cons a texts ih =>
      simp only [maxText] at h
      split at h
      · next b hb =>
          obtain ⟨hmem, hmax⟩ := ih hb
          obtain rfl := Option.some.inj h
          split
          · next hlt =>
              refine ⟨List.mem_cons_of_mem a hmem, fun s' hs' => ?_⟩
              rcases List.mem_cons.1 hs' with rfl | hs'
              · exact lt_asymm hlt
              · exact hmax s' hs'
          · next hlt =>
              refine ⟨List.mem_cons_self, fun s' hs' => ?_⟩
              rcases List.mem_cons.1 hs' with rfl | hs'
              · exact lt_irrefl s'
              · exact fun hgt => hmax s' hs' (lt_of_le_of_lt (not_lt.1 hlt) hgt)
      · next hnone =>
          obtain rfl := Option.some.inj h
          rw [maxText_eq_none] at hnone
          simp [hnone]

namespace Tables

variable {t : Tables}

/-- The latest run of a territory, by the texts. -/
theorem latestRun_eq_some {territory : PyStr} {r : Run} (h : t.latestRun territory = some r) :
    (r ∈ t.runs ∧ r.territory = territory) ∧
      ∀ r' ∈ t.runs, r'.territory = territory → ¬ r.startedAt < r'.startedAt := by
  have htrans : ∀ a b c : Run, a.startedAt < b.startedAt → b.startedAt < c.startedAt →
      a.startedAt < c.startedAt := fun _ _ _ => lt_trans
  obtain ⟨hmem, hmax⟩ := Table.pick_eq_some htrans (fun a => lt_irrefl a.startedAt) h
  simp only [List.mem_filter, decide_eq_true_eq] at hmem hmax
  exact ⟨hmem, fun r' hr' hterritory => hmax r' ⟨hr', hterritory⟩⟩

theorem oldestQueued_eq_some {j : Job} (h : t.oldestQueued = some j) :
    (j ∈ t.jobs ∧ j.status = .queued) ∧
      ∀ j' ∈ t.jobs, j'.status = .queued → ¬ j'.createdAt < j.createdAt := by
  have htrans : ∀ a b c : Job,
      b.createdAt < a.createdAt ∨ (b.createdAt = a.createdAt ∧ b.id < a.id) →
      c.createdAt < b.createdAt ∨ (c.createdAt = b.createdAt ∧ c.id < b.id) →
      c.createdAt < a.createdAt ∨ (c.createdAt = a.createdAt ∧ c.id < a.id) := by
    rintro a b c (hab | ⟨hab, hid⟩) (hbc | ⟨hbc, hid'⟩)
    · exact Or.inl (lt_trans hbc hab)
    · exact Or.inl (hbc ▸ hab)
    · exact Or.inl (hab ▸ hbc)
    · exact Or.inr ⟨hbc.trans hab, lt_trans hid' hid⟩
  obtain ⟨hmem, hmin⟩ := Table.pick_eq_some htrans (by simp) h
  simp only [List.mem_filter, decide_eq_true_eq] at hmem hmin
  exact ⟨hmem, fun j' hj' hqueued hlt => hmin j' ⟨hj', hqueued⟩ (Or.inl hlt)⟩

end Tables

end RexHunter
