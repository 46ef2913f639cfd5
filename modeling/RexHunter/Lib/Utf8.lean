import RexHunter.Lib.Text

set_option autoImplicit false

/-! # UTF-8

The bytes of a text decode to the text, one code point after the other. -/

namespace Utf8

theorem toNat_ofNat {n : Nat} (h : n < 0x100) : (UInt8.ofNat n).toNat = n := by
  rw [UInt8.toNat_ofNat']
  omega

theorem continuation_ofNat {x : Nat} (h : x < 0x40) :
    continuation (UInt8.ofNat (0x80 + x)) = some x := by
  unfold continuation
  rw [toNat_ofNat (by omega), if_pos (by omega)]
  exact congrArg some (by omega)

variable {surrogates : Bool} {c : CodePoint}

theorem decoded_val {least n : Nat} (hc : surrogates = true ∨ c.isSurrogate = false)
    (hleast : least ≤ c.val) (hn : n = c.val) : decoded surrogates least n = some c := by
  subst hn
  unfold decoded
  rw [dif_pos c.isLt, if_pos ⟨hleast, hc⟩]

/-- The first code point of the bytes is the one they start with. -/
theorem decode_utf8_append (hc : surrogates = true ∨ c.isSurrogate = false) (bs : PyBytes) :
    decode surrogates (c.utf8 ++ bs) = (decode surrogates bs).map (c :: ·) := by
  have hmap : ∀ r : Option PyStr, (some c).map List.cons <*> r = r.map (c :: ·) := by
    intro r
    cases r <;> rfl
  have hlt := c.isLt
  generalize hrest : decode surrogates bs = r
  unfold CodePoint.utf8
  -- the four widths; the lead byte tells the decoder which it is
  split
  · have hchar : Fin.ofNat 0x110000 c.val = c := Fin.ext (Nat.mod_eq_of_lt c.isLt)
    rw [List.singleton_append]
    unfold decode
    rw [toNat_ofNat (by omega), if_pos (by assumption), hchar, hrest]
  split
  · have hlead : (UInt8.ofNat (0xC0 + c.val / 0x40)).toNat = 0xC0 + c.val / 0x40 :=
      toNat_ofNat (by omega)
    have hvalue := decoded_val (n := (0xC0 + c.val / 0x40 - 0xC0) * 0x40 + c.val % 0x40) hc
      (show 0x80 ≤ c.val by omega) (by omega)
    simp only [List.cons_append, List.nil_append]
    unfold decode
    simp only [hlead]
    rw [if_neg (by omega), if_pos (by omega), continuation_ofNat (Nat.mod_lt _ (by omega))]
    simp only [hvalue, hrest, hmap]
  split
  · have hlead : (UInt8.ofNat (0xE0 + c.val / 0x1000)).toNat = 0xE0 + c.val / 0x1000 :=
      toNat_ofNat (by omega)
    have hvalue := decoded_val (n := (0xE0 + c.val / 0x1000 - 0xE0) * 0x1000
      + c.val / 0x40 % 0x40 * 0x40 + c.val % 0x40) hc (show 0x800 ≤ c.val by omega) (by omega)
    simp only [List.cons_append, List.nil_append]
    unfold decode
    simp only [hlead]
    rw [if_neg (by omega), if_neg (by omega), if_pos (by omega),
      continuation_ofNat (Nat.mod_lt _ (by omega)), continuation_ofNat (Nat.mod_lt _ (by omega))]
    simp only [hvalue, hrest, hmap]
  · have hlead : (UInt8.ofNat (0xF0 + c.val / 0x40000)).toNat = 0xF0 + c.val / 0x40000 :=
      toNat_ofNat (by omega)
    have hvalue := decoded_val (n := (0xF0 + c.val / 0x40000 - 0xF0) * 0x40000
      + c.val / 0x1000 % 0x40 * 0x1000 + c.val / 0x40 % 0x40 * 0x40 + c.val % 0x40) hc
      (show 0x10000 ≤ c.val by omega) (by omega)
    simp only [List.cons_append, List.nil_append]
    unfold decode
    simp only [hlead]
    rw [if_neg (by omega), if_neg (by omega), if_neg (by omega), if_pos (by omega),
      continuation_ofNat (Nat.mod_lt _ (by omega)), continuation_ofNat (Nat.mod_lt _ (by omega)),
      continuation_ofNat (Nat.mod_lt _ (by omega))]
    simp only [hvalue, hrest, hmap]

theorem encode_eq_some {s : PyStr} {bs : PyBytes} (h : encode s = some bs) :
    encodable s = true ∧ s.flatMap CodePoint.utf8 = bs := by
  unfold encode at h
  split at h
  · next hs => exact ⟨hs, Option.some.inj h⟩
  · cases h

/-- **Decoding undoes encoding.** -/
theorem decode_encode {s : PyStr} {bs : PyBytes} (h : encode s = some bs) :
    decode surrogates bs = some s := by
  obtain ⟨hs, rfl⟩ := encode_eq_some h
  clear h
  induction s with
  | nil => rfl
  | cons c s ih =>
      simp only [encodable, List.all_cons, Bool.and_eq_true, Bool.not_eq_true'] at hs
      rw [List.flatMap_cons, decode_utf8_append (Or.inr hs.1), ih hs.2]
      rfl

/-! ## Positions -/

theorem utf8_ascii (h : c.val < 0x80) : c.utf8 = [UInt8.ofNat c.val] := by
  unfold CodePoint.utf8
  rw [if_pos h]

theorem utf8_ne_nil : c.utf8 ≠ [] := by
  unfold CodePoint.utf8
  split
  · simp
  split
  · simp
  split <;> simp

/-- No byte of a code point that is not ASCII is. -/
theorem utf8_high (h : 0x80 ≤ c.val) {b : UInt8} (hb : b ∈ c.utf8) : 0x80 ≤ b.toNat := by
  have hlt := c.isLt
  have hbyte : ∀ n, 0x80 ≤ n → n < 0x100 → b = UInt8.ofNat n → 0x80 ≤ b.toNat := by
    rintro n hn hlt rfl
    rwa [toNat_ofNat hlt]
  unfold CodePoint.utf8 at hb
  rw [if_neg (by omega)] at hb
  split at hb
  · simp only [List.mem_cons, List.not_mem_nil, or_false] at hb
    rcases hb with hb | hb <;> exact hbyte _ (by omega) (by omega) hb
  split at hb
  · simp only [List.mem_cons, List.not_mem_nil, or_false] at hb
    rcases hb with hb | hb | hb <;> exact hbyte _ (by omega) (by omega) hb
  · simp only [List.mem_cons, List.not_mem_nil, or_false] at hb
    rcases hb with hb | hb | hb | hb <;> exact hbyte _ (by omega) (by omega) hb

theorem val_of_ascii {b : UInt8} (hb : b ∈ c.utf8) (hascii : b.toNat < 0x80) :
    b.toNat = c.val := by
  by_cases h : c.val < 0x80
  · rw [utf8_ascii h, List.mem_singleton] at hb
    rw [hb, toNat_ofNat (by omega)]
  · exact absurd (utf8_high (by omega) hb) (by omega)

/-- No byte is `0xFE` or `0xFF`. -/
theorem utf8_lt {b : UInt8} (hb : b ∈ c.utf8) : b.toNat < 0xF8 := by
  have hlt := c.isLt
  have hbyte : ∀ n, n < 0xF8 → b = UInt8.ofNat n → b.toNat < 0xF8 := by
    rintro n hn rfl
    rwa [toNat_ofNat (by omega)]
  unfold CodePoint.utf8 at hb
  split at hb
  · exact hbyte _ (by omega) (List.mem_singleton.1 hb)
  split at hb
  · simp only [List.mem_cons, List.not_mem_nil, or_false] at hb
    rcases hb with hb | hb <;> exact hbyte _ (by omega) hb
  split at hb
  · simp only [List.mem_cons, List.not_mem_nil, or_false] at hb
    rcases hb with hb | hb | hb <;> exact hbyte _ (by omega) hb
  · simp only [List.mem_cons, List.not_mem_nil, or_false] at hb
    rcases hb with hb | hb | hb | hb <;> exact hbyte _ (by omega) hb

/-- **An ASCII byte is a character of its own**: the bytes around it are those of the text around it. -/
theorem split_at_ascii {s : PyStr} {a : UInt8} (ha : a.toNat < 0x80) :
    ∀ {u v : PyBytes}, s.flatMap CodePoint.utf8 = u ++ a :: v →
      ∃ s₁ c s₂, s = s₁ ++ c :: s₂ ∧ s₁.flatMap CodePoint.utf8 = u ∧ c.val = a.toNat ∧
        s₂.flatMap CodePoint.utf8 = v := by
  induction s with
  | nil =>
      intro u v h
      exact absurd h.symm (by simp)
  | cons c s ih =>
      intro u v h
      rw [List.flatMap_cons] at h
      have hlater : ∀ w, s.flatMap CodePoint.utf8 = w ++ a :: v → u = c.utf8 ++ w →
          ∃ s₁ k s₂, c :: s = s₁ ++ k :: s₂ ∧ s₁.flatMap CodePoint.utf8 = u ∧ k.val = a.toNat ∧
            s₂.flatMap CodePoint.utf8 = v := by
        rintro w hw rfl
        obtain ⟨s₁, k, s₂, rfl, rfl, hk, rfl⟩ := ih hw
        exact ⟨c :: s₁, k, s₂, rfl, rfl, hk, rfl⟩
      rcases List.append_eq_append_iff.1 h with ⟨w, hu, hw⟩ | ⟨w, hc, hw⟩
      · exact hlater w hw hu
      · cases w with
        | nil =>
            rw [List.append_nil] at hc
            exact hlater [] hw.symm (by rw [hc, List.append_nil])
        | cons b w =>
            obtain ⟨rfl, rfl⟩ := List.cons.inj hw
            -- the byte is in the encoding of `c`, and is all of it: longer ones are all high bytes
            by_cases hascii : c.val < 0x80
            · rw [utf8_ascii hascii] at hc
              obtain ⟨rfl, hc⟩ | ⟨u', rfl, hc⟩ := List.cons_eq_append_iff.1 hc
              · obtain ⟨rfl, rfl⟩ := List.cons.inj hc
                exact ⟨[], c, s, rfl, rfl, (toNat_ofNat (by omega)).symm, rfl⟩
              · exact absurd hc.symm (by simp)
            · have hmem : a ∈ c.utf8 := by
                rw [hc]
                simp
              exact absurd (utf8_high (by omega) hmem) (by omega)

/-- What starts with the bytes of an ASCII text starts with the text. -/
theorem split_after_ascii {p : PyStr} (hp : isAscii p = true) :
    ∀ {s : PyStr} {v : PyBytes}, s.flatMap CodePoint.utf8 = p.flatMap CodePoint.utf8 ++ v →
      ∃ s', s = p ++ s' ∧ s'.flatMap CodePoint.utf8 = v := by
  induction p with
  | nil => exact fun h => ⟨_, rfl, h⟩
  | cons c p ih =>
      intro s v h
      simp only [isAscii, List.all_cons, Bool.and_eq_true, decide_eq_true_eq] at hp
      rw [List.flatMap_cons, utf8_ascii hp.1] at h
      have hbyte := toNat_ofNat (n := c.val) (by omega)
      obtain ⟨s₁, k, s₂, rfl, hs₁, hk, hs₂⟩ := split_at_ascii (u := []) (by omega) h
      have hnil : s₁ = [] := by
        cases s₁ with
        | nil => rfl
        | cons k' s₁ => exact absurd (List.append_eq_nil_iff.1 hs₁).1 utf8_ne_nil
      obtain rfl : k = c := Fin.ext (hk.trans hbyte)
      obtain ⟨s', rfl, hs'⟩ := ih hp.2 hs₂
      exact ⟨s', by rw [hnil]; rfl, hs'⟩

/-! ## Decoding with replacement -/

theorem follows_two {x y : Nat} (h : 2 ≤ x) (hx : x < 0x20) (hy : y < 0x40) :
    follows (UInt8.ofNat (0xC0 + x)) (UInt8.ofNat (0x80 + y)) = true := by
  unfold follows
  rw [toNat_ofNat (by omega), toNat_ofNat (by omega), if_pos (by omega)]
  exact decide_eq_true (by omega)

theorem follows_three {x y : Nat} (hx : x < 0x10) (hy : y < 0x40) (h : x = 0 → 0x20 ≤ y)
    (hs : x = 0xD → y < 0x20) :
    follows (UInt8.ofNat (0xE0 + x)) (UInt8.ofNat (0x80 + y)) = true := by
  unfold follows
  rw [toNat_ofNat (by omega), toNat_ofNat (by omega), if_neg (by omega)]
  split
  · exact decide_eq_true (by omega)
  split
  · exact decide_eq_true (by omega)
  · rw [if_pos (by omega)]
    exact decide_eq_true (by omega)

theorem follows_four {x y : Nat} (hx : x < 5) (hy : y < 0x40) (h : x = 0 → 0x10 ≤ y)
    (hs : x = 4 → y < 0x10) :
    follows (UInt8.ofNat (0xF0 + x)) (UInt8.ofNat (0x80 + y)) = true := by
  unfold follows
  rw [toNat_ofNat (by omega), toNat_ofNat (by omega), if_neg (by omega), if_neg (by omega),
    if_neg (by omega), if_neg (by omega)]
  split
  · exact decide_eq_true (by omega)
  split
  · exact decide_eq_true (by omega)
  · rw [if_pos (by omega)]
    exact decide_eq_true (by omega)

/-- The first code point, if errors are replaced. -/
theorem decodeReplace_utf8_append {c : CodePoint} (hc : c.isSurrogate = false) (bs : PyBytes) :
    decodeReplace (c.utf8 ++ bs) = c :: decodeReplace bs := by
  have hlt := c.isLt
  simp only [CodePoint.isSurrogate, decide_eq_false_iff_not, not_and] at hc
  have hchar : ∀ n, n = c.val → Fin.ofNat 0x110000 n = c := by
    rintro n rfl
    exact Fin.ext (Nat.mod_eq_of_lt c.isLt)
  generalize hrest : decodeReplace bs = r
  unfold CodePoint.utf8
  split
  · rw [List.singleton_append]
    unfold decodeReplace
    rw [toNat_ofNat (by omega), if_pos (by assumption), hchar _ rfl, hrest]
  split
  · simp only [List.cons_append, List.nil_append]
    unfold decodeReplace
    simp only [follows_two (x := c.val / 0x40) (by omega) (by omega) (Nat.mod_lt _ (by omega))]
    rw [toNat_ofNat (by omega), toNat_ofNat (by omega), if_neg (by omega), if_neg (by simp),
      if_pos (by omega), hrest, hchar _ (by omega)]
  split
  · have hfollows := follows_three (x := c.val / 0x1000) (y := c.val / 0x40 % 0x40) (by omega)
      (Nat.mod_lt _ (by omega)) (by omega) (by omega)
    simp only [List.cons_append, List.nil_append]
    unfold decodeReplace
    simp only [hfollows, continuation_ofNat (Nat.mod_lt c.val (show 0x40 > 0 by omega))]
    rw [toNat_ofNat (by omega), toNat_ofNat (by omega), if_neg (by omega), if_neg (by simp),
      if_neg (by omega), if_pos (by omega), hrest, hchar _ (by omega)]
  · have hfollows := follows_four (x := c.val / 0x40000) (y := c.val / 0x1000 % 0x40) (by omega)
      (Nat.mod_lt _ (by omega)) (by omega) (by omega)
    simp only [List.cons_append, List.nil_append]
    unfold decodeReplace
    simp only [hfollows, continuation_ofNat (Nat.mod_lt c.val (show 0x40 > 0 by omega)),
      continuation_ofNat (Nat.mod_lt (c.val / 0x40) (show 0x40 > 0 by omega))]
    rw [toNat_ofNat (by omega), toNat_ofNat (by omega), if_neg (by omega), if_neg (by simp),
      if_neg (by omega), if_neg (by omega), hrest, hchar _ (by omega)]

/-- **Nothing that was encoded is replaced.** -/
theorem decodeReplace_encode {s : PyStr} {bs : PyBytes} (h : encode s = some bs) :
    decodeReplace bs = s := by
  unfold encode at h
  split at h
  · next hs =>
      cases h
      induction s with
      | nil => rfl
      | cons c s ih =>
          simp only [encodable, List.all_cons, Bool.and_eq_true, Bool.not_eq_true'] at hs
          rw [List.flatMap_cons, decodeReplace_utf8_append hs.1, ih hs.2]
  · cases h

end Utf8
