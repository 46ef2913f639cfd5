import RexHunter.Implementation.Brain
import RexHunter.Lib.JsonSpelling
import RexHunter.Lib.Utf8

set_option autoImplicit false

/-! # What the reader to compute with reads

`readUtf8` takes every text of a value within its limits, and no text of any other. -/

namespace RexHunter

variable [PyRuntime] {v : Json} {s : PyStr} {raw : PyBytes}

theorem readUtf8_encoded (h : encode s = some raw) :
    readUtf8 raw = match Json.loads s with
      | .error _ => .error (py "Invalid JSON")
      | .ok v =>
          if v.surrogateFree && v.intsWithin PyRuntime.maxStrDigits then .ok v
          else .error (py "Invalid JSON") := by
  unfold readUtf8
  split
  · next hnone => cases (Utf8.decode_encode h).symm.trans hnone
  · next hsome =>
      cases (Utf8.decode_encode h).symm.trans hsome
      rfl

/-- A value within the limits is read from each of its texts. -/
theorem readUtf8_spelled (hreread : v.reread = v) (hs : v.Spells s) (hraw : encode s = some raw)
    (h : v.Readable PyRuntime.recursionLimit PyRuntime.maxStrDigits) : readUtf8 raw = .ok v := by
  have hloads := loads_spelled hs h.fault
  rw [hreread] at hloads
  rw [readUtf8_encoded hraw, hloads]
  exact if_pos (Bool.and_eq_true_iff.2 ⟨h.surrogateFree, h.ints⟩)

/-- A value beyond a limit is read from none. -/
theorem readUtf8_unreadable (hreread : v.reread = v) (hs : v.Spells s) (hraw : encode s = some raw)
    (h : ¬ v.Readable PyRuntime.recursionLimit PyRuntime.maxStrDigits) :
    readUtf8 raw = .error (py "Invalid JSON") := by
  have hkeys : v.textKeys = true := hreread ▸ textKeys_reread v
  rw [readUtf8_encoded hraw]
  cases hloads : Json.loads s with
  | error e => rfl
  | ok w =>
      have hfault := (loads_spelled_iff hs hkeys).1 ⟨w, hloads⟩
      have hw : w = v := by
        rw [loads_spelled hs hfault, hreread] at hloads
        exact (Except.ok.inj hloads).symm
      subst hw
      refine if_neg (fun hfree => h ?_)
      obtain ⟨hfree, hints⟩ := Bool.and_eq_true_iff.1 hfree
      exact ⟨hfree, hfault, hints⟩

end RexHunter
