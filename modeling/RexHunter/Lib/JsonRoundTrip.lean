import Mathlib.Data.List.Nodup
import RexHunter.Lib.JsonReader

set_option autoImplicit false

/-! # `json.loads` after `json.dumps`

What `json.dumps` writes, `json.loads` reads back as the value with its texts re-read: two surrogates
that stood next to each other become one character, and keys become texts. The proof has two
halves, one for the lexer and one for the machine, each by induction on the value. -/

/-! ## Integer literals -/

theorem codePoint_digitChar : ∀ d, d < 10 →
    (Nat.digitChar d).codePoint = Fin.ofNat _ (0x30 + d) := by
  decide

theorem decimalDigits_eq (n : Nat) : decimalDigits n =
    if n < 10 then [Fin.ofNat _ (0x30 + n)] else decimalDigits (n / 10) ++ [Fin.ofNat _ (0x30 + n % 10)] := by
  unfold decimalDigits
  rw [Nat.toDigits_eq_if (by omega)]
  by_cases hn : n < 10
  · rw [if_pos hn, if_pos hn, List.map_singleton, codePoint_digitChar n hn]
  · rw [if_neg hn, if_neg hn, List.map_append, List.map_singleton,
      codePoint_digitChar _ (Nat.mod_lt n (by omega))]

theorem val_ofNat_digit {d : Nat} (h : d < 10) :
    ((Fin.ofNat 0x110000 (0x30 + d) : CodePoint)).val = 0x30 + d := by
  rw [Fin.val_ofNat]
  omega

theorem isDigit_ofNat {d : Nat} (h : d < 10) : isDigit (Fin.ofNat _ (0x30 + d)) = true := by
  unfold isDigit
  rw [val_ofNat_digit h]
  exact decide_eq_true (by omega)

theorem decimalDigits_all (n : Nat) : ∀ c ∈ decimalDigits n, isDigit c = true := by
  induction n using Nat.strongRecOn with
  | _ n ih =>
      rw [decimalDigits_eq]
      by_cases hn : n < 10
      · rw [if_pos hn]
        intro c hc
        rw [List.mem_singleton.1 hc]
        exact isDigit_ofNat hn
      · rw [if_neg hn]
        intro c hc
        rcases List.mem_append.1 hc with hinit | hlast
        · exact ih (n / 10) (by omega) c hinit
        · rw [List.mem_singleton.1 hlast]
          exact isDigit_ofNat (Nat.mod_lt n (by omega))

/-- The first digit is a zero only in the number zero. -/
theorem decimalDigits_cons (n : Nat) :
    ∃ c rest, decimalDigits n = c :: rest ∧ (c.val = 0x30 → rest = []) := by
  induction n using Nat.strongRecOn with
  | _ n ih =>
      rw [decimalDigits_eq]
      by_cases hn : n < 10
      · rw [if_pos hn]
        exact ⟨_, [], rfl, fun _ => rfl⟩
      · rw [if_neg hn]
        obtain ⟨c, rest, hdigits, hzero⟩ := ih (n / 10) (by omega)
        refine ⟨c, rest ++ [Fin.ofNat _ (0x30 + n % 10)], by rw [hdigits]; rfl, fun hc => ?_⟩
        exfalso
        rw [decimalDigits_eq] at hdigits
        have hrest := hzero hc
        subst hrest
        by_cases hlt : n / 10 < 10
        · rw [if_pos hlt] at hdigits
          have hval : c.val = 0x30 + n / 10 := by
            rw [← (List.cons.inj hdigits).1, val_ofNat_digit hlt]
          omega
        · rw [if_neg hlt] at hdigits
          have hlength := congrArg List.length hdigits
          obtain ⟨d, ds, hds, _⟩ := ih (n / 10 / 10) (by omega)
          rw [hds] at hlength
          simp at hlength

theorem foldl_decimalDigits (n : Nat) :
    (decimalDigits n).foldl (fun n c => n * 10 + (c.val - 0x30)) 0 = n := by
  induction n using Nat.strongRecOn with
  | _ n ih =>
      rw [decimalDigits_eq]
      by_cases hn : n < 10
      · rw [if_pos hn, List.foldl_cons, List.foldl_nil, val_ofNat_digit hn]
        omega
      · rw [if_neg hn, List.foldl_append, ih (n / 10) (by omega), List.foldl_cons, List.foldl_nil,
          val_ofNat_digit (Nat.mod_lt n (by omega))]
        omega

theorem Delimited.takeWhile_eq {rest : PyStr} (h : Delimited rest) : rest.takeWhile isDigit = [] := by
  cases rest with
  | nil => rfl
  | cons c rest =>
      have hc := h c rfl
      simp only [endsNumber, Bool.and_eq_true, Bool.not_eq_true'] at hc
      exact List.takeWhile_cons_of_neg (by simp [hc.1])

theorem digitRun_append {s rest : PyStr} (hs : ∀ c ∈ s, isDigit c = true) (h : Delimited rest) :
    digitRun (s ++ rest) = s.length := by
  unfold digitRun
  rw [List.takeWhile_append_of_pos hs, h.takeWhile_eq, List.append_nil]

theorem Delimited.fractionRun_eq {rest : PyStr} (h : Delimited rest) : fractionRun rest = 0 := by
  cases rest with
  | nil => rfl
  | cons c rest =>
      have hc := h c rfl
      simp only [endsNumber, Bool.and_eq_true, decide_eq_true_eq] at hc
      exact if_neg (fun hdot => hc.2.1 hdot.1)

theorem Delimited.exponentRun_eq {rest : PyStr} (h : Delimited rest) : exponentRun rest = 0 := by
  cases rest with
  | nil => rfl
  | cons c rest =>
      have hc := h c rfl
      simp only [endsNumber, Bool.and_eq_true, decide_eq_true_eq] at hc
      simp only [exponentRun]
      exact if_neg (fun he => he.elim hc.2.2.1 hc.2.2.2)

/-- A literal that is an integer run and is delimited is a number token. -/
theorem scanNumber_of_integerRun {s rest : PyStr} (hs : integerRun (s ++ rest) = s.length)
    (hne : s ≠ []) (h : Delimited rest) : scanNumber (s ++ rest) = some (s.length, true) := by
  have hlength : s.length ≠ 0 := fun hzero => hne (List.length_eq_zero_iff.1 hzero)
  simp only [scanNumber, hs, if_neg hlength, List.drop_left, h.fractionRun_eq, Nat.add_zero,
    h.exponentRun_eq, decide_true]

theorem integerRun_digits (n : Nat) {rest : PyStr} (h : Delimited rest) :
    integerRun (decimalDigits n ++ rest) = (decimalDigits n).length := by
  obtain ⟨c, ds, hdigits, hzero⟩ := decimalDigits_cons n
  have hall := decimalDigits_all n
  rw [hdigits] at hall ⊢
  have hc : isDigit c = true := hall c List.mem_cons_self
  have hds : ∀ d ∈ ds, isDigit d = true := fun d hd => hall d (List.mem_cons_of_mem _ hd)
  have hrange := of_decide_eq_true hc
  have hsign : c.val ≠ 0x2D := by omega
  simp only [integerRun, List.cons_append, if_neg hsign, List.drop_zero, List.length_cons]
  by_cases hz : c.val = 0x30
  · rw [if_pos hz, hzero hz]
    rfl
  · rw [if_neg hz, if_pos hc, digitRun_append hds h]
    omega

theorem integerRun_neg (n : Nat) {rest : PyStr} (h : Delimited rest) :
    integerRun (py "-" ++ decimalDigits n ++ rest) = (decimalDigits n).length + 1 := by
  obtain ⟨c, ds, hdigits, hzero⟩ := decimalDigits_cons n
  have hall := decimalDigits_all n
  rw [hdigits] at hall ⊢
  have hc : isDigit c = true := hall c List.mem_cons_self
  have hds : ∀ d ∈ ds, isDigit d = true := fun d hd => hall d (List.mem_cons_of_mem _ hd)
  show (if c.val = 0x30 then 1 + 1 else if isDigit c = true then 1 + 1 + digitRun (ds ++ rest)
    else 0) = ds.length + 1 + 1
  by_cases hz : c.val = 0x30
  · rw [if_pos hz, hzero hz]
    rfl
  · rw [if_neg hz, if_pos hc, digitRun_append hds h]
    omega

theorem scanNumber_intRepr (i : Int) {rest : PyStr} (h : Delimited rest) :
    scanNumber (intRepr i ++ rest) = some ((intRepr i).length, true) := by
  obtain ⟨c, ds, hdigits, _⟩ := decimalDigits_cons i.natAbs
  unfold intRepr
  by_cases hi : i < 0
  · rw [if_pos hi]
    refine scanNumber_of_integerRun ?_ (List.cons_ne_nil _ _) h
    rw [integerRun_neg _ h]
    simp [py]
  · rw [if_neg hi, List.nil_append]
    refine scanNumber_of_integerRun (integerRun_digits _ h) ?_ h
    rw [hdigits]
    exact List.cons_ne_nil _ _

theorem intOfLiteral_intRepr [PyRuntime] {i : Int} (h : intFault i = none) :
    intOfLiteral (intRepr i) = .ok i := by
  have hall := decimalDigits_all i.natAbs
  have hsize : (decimalDigits i.natAbs).length ≤ PyRuntime.maxStrDigits := by
    unfold intFault at h
    split at h
    · cases h
    · omega
  have hfilter : (intRepr i).filter isDigit = decimalDigits i.natAbs := by
    unfold intRepr
    rw [List.filter_append, List.filter_eq_self.2 hall]
    by_cases hi : i < 0
    · rw [if_pos hi]
      rfl
    · rw [if_neg hi]
      rfl
  simp only [intOfLiteral, hfilter, if_neg (Nat.not_lt.2 hsize), foldl_decimalDigits]
  congr 1
  unfold intRepr
  by_cases hi : i < 0
  · rw [if_pos hi, if_pos (by rfl)]
    omega
  · rw [if_neg hi, if_neg]
    · omega
    · obtain ⟨c, ds, hdigits, _⟩ := decimalDigits_cons i.natAbs
      rw [hdigits] at hall ⊢
      intro hhead
      have hc : c = Fin.ofNat _ 0x2D := Option.some.inj hhead
      have hdigit := hall c List.mem_cons_self
      rw [hc] at hdigit
      exact absurd hdigit (by decide)

/-! ## String literals -/

/-- Surrogates that stand next to each other, joined. -/
def joined : PyStr → PyStr
  | [] => []
  | [c] => [c]
  | c :: d :: s =>
      if isHigh c.val = true ∧ isLow d.val = true then joinPair c.val d.val :: joined s
      else c :: joined (d :: s)

theorem hexValue_hexDigit : ∀ d, d < 16 → hexValue (hexDigit d) = some d := by decide

/-- The four digits of an escape. -/
theorem hex4_value {n : Nat} (h : n < 0x10000) : ∃ w x y z, hex4 n = [w, x, y, z] ∧
    hex4Value w x y z = some n := by
  refine ⟨_, _, _, _, rfl, ?_⟩
  simp only [hex4Value, hexValue_hexDigit _ (Nat.mod_lt _ (by decide : 0 < 16))]
  congr 1
  omega

/-- A backslash and a `u`. -/
theorem unicodeEscape_eq (n : Nat) : unicodeEscape n = Fin.ofNat _ 0x5C :: Fin.ofNat _ 0x75 :: hex4 n :=
  rfl

/-- How a character is written. -/
inductive Escaped (c : CodePoint) : PyStr → Prop where
  | simple (e : CodePoint) (h : e.val ≠ 0x75) (hvalue : simpleEscape e = some c)
      (hhigh : isHigh c.val = false) (hlow : isLow c.val = false) : Escaped c [Fin.ofNat _ 0x5C, e]
  | plain (hquote : c.val ≠ 0x22) (hbackslash : c.val ≠ 0x5C) (hleast : 0x20 ≤ c.val)
      (hhigh : isHigh c.val = false) (hlow : isLow c.val = false) : Escaped c [c]
  | bmp (h : c.val < 0x10000) : Escaped c (unicodeEscape c.val)
  | pair (high low : Nat) (hhigh : isHigh high = true) (hlow : isLow low = true)
      (hnot : isHigh c.val = false) (hnot' : isLow c.val = false) (hjoin : joinPair high low = c) :
      Escaped c (unicodeEscape high ++ unicodeEscape low)

theorem not_surrogate_of_lt {c : CodePoint} (h : c.val < 0xD800 ∨ 0xDFFF < c.val) :
    isHigh c.val = false ∧ isLow c.val = false := by
  unfold isHigh isLow
  exact ⟨decide_eq_false (by omega), decide_eq_false (by omega)⟩

theorem escaped_simple {c : CodePoint} {n : Nat} (hc : c.val = n) (hn : n < 0xD800)
    {s : String} {e : CodePoint} (hs : py s = [Fin.ofNat _ 0x5C, e]) (he : e.val ≠ 0x75)
    (hvalue : simpleEscape e = some (Fin.ofNat _ n)) : Escaped c (py s) := by
  have hsurrogate := not_surrogate_of_lt (c := c) (Or.inl (by omega))
  rw [hs]
  refine Escaped.simple e he ?_ hsurrogate.1 hsurrogate.2
  rw [hvalue]
  congr 1
  apply Fin.ext
  rw [Fin.val_ofNat, hc]
  omega

theorem escapeChar_escaped (c : CodePoint) : Escaped c (escapeChar c) := by
  have hlt := c.isLt
  unfold escapeChar
  split
  · next h => exact escaped_simple h (by decide) rfl (by decide) rfl
  split
  · next h => exact escaped_simple h (by decide) rfl (by decide) rfl
  split
  · next h => exact escaped_simple h (by decide) rfl (by decide) rfl
  split
  · next h => exact escaped_simple h (by decide) rfl (by decide) rfl
  split
  · next h => exact escaped_simple h (by decide) rfl (by decide) rfl
  split
  · next h => exact escaped_simple h (by decide) rfl (by decide) rfl
  split
  · next h => exact escaped_simple h (by decide) rfl (by decide) rfl
  split
  · next hquote hbackslash _ _ _ _ _ h =>
      have hsurrogate := not_surrogate_of_lt (c := c) (Or.inl (by omega))
      exact Escaped.plain hquote hbackslash h.1 hsurrogate.1 hsurrogate.2
  split
  · next h => exact Escaped.bmp h
  · next h =>
      have hsurrogate := not_surrogate_of_lt (c := c) (Or.inr (by omega))
      refine Escaped.pair _ _ ?_ ?_ hsurrogate.1 hsurrogate.2 ?_
      · exact decide_eq_true (by omega)
      · exact decide_eq_true (by omega)
      · apply Fin.ext
        unfold joinPair
        rw [Fin.val_ofNat]
        omega

/-- Characters already read are passed over. -/
theorem scanString_append (s t : PyStr) :
    scanString s.length (s ++ t) = (scanString 0 t).map (fun r => (r.1, r.2 + s.length)) := by
  induction s with
  | nil =>
      simp only [List.length_nil, List.nil_append, Nat.add_zero]
      cases scanString 0 t with
      | none => rfl
      | some r => rfl
  | cons c s ih =>
      have hskip : scanString (s.length + 1) (c :: (s ++ t))
          = (scanString s.length (s ++ t)).map (fun r => (r.1, r.2 + 1)) := rfl
      rw [List.cons_append, List.length_cons, hskip, ih]
      cases scanString 0 t with
      | none => rfl
      | some r =>
          simp only [Option.map_some, Option.some.injEq, Prod.mk.injEq, true_and]
          omega

/-- A simple escape. -/
theorem scanString_simple {e c : CodePoint} (h : e.val ≠ 0x75) (hvalue : simpleEscape e = some c)
    (t : PyStr) : scanString 0 ([Fin.ofNat _ 0x5C, e] ++ t)
      = (scanString 0 t).map (fun r => (c :: r.1, r.2 + 2)) := by
  have hskip := scanString_append [e] t
  rw [List.singleton_append, List.length_singleton] at hskip
  rw [List.cons_append, List.singleton_append, scanString.eq_def]
  simp only
  rw [if_neg (by decide), if_pos (by decide), if_neg h, hvalue]
  simp only [hskip]
  cases scanString 0 t with
  | none => rfl
  | some r => rfl

/-- A plain character. -/
theorem scanString_plain {c : CodePoint} (hquote : c.val ≠ 0x22) (hbackslash : c.val ≠ 0x5C)
    (hleast : 0x20 ≤ c.val) (t : PyStr) : scanString 0 (c :: t)
      = (scanString 0 t).map (fun r => (c :: r.1, r.2 + 1)) := by
  rw [scanString.eq_def]
  simp only
  rw [if_neg hquote, if_neg hbackslash, if_neg (by omega)]

/-- A `\u` escape that starts no pair. -/
theorem scanString_unicode {n : Nat} (h : n < 0x10000) {t : PyStr}
    (hnext : (if isHigh n then nextLow t else none) = none) :
    scanString 0 (unicodeEscape n ++ t)
      = (scanString 0 t).map (fun r => (Fin.ofNat _ n :: r.1, r.2 + 6)) := by
  obtain ⟨w, x, y, z, hhex, hvalue⟩ := hex4_value h
  have hskip := scanString_append [Fin.ofNat _ 0x75, w, x, y, z] t
  rw [unicodeEscape_eq, hhex]
  simp only [List.cons_append, List.nil_append, List.length_cons, List.length_nil] at hskip ⊢
  rw [scanString.eq_def]
  simp only [List.drop_succ_cons, List.drop_zero]
  rw [if_neg (by decide), if_pos (by decide), if_pos (by decide), hvalue]
  simp only [hnext, hskip]
  cases scanString 0 t with
  | none => rfl
  | some r => rfl

/-- The escapes of a pair. -/
theorem scanString_pair {high low : Nat} (hhigh : isHigh high = true) (hlow : isLow low = true)
    (t : PyStr) : scanString 0 (unicodeEscape high ++ unicodeEscape low ++ t)
      = (scanString 0 t).map (fun r => (joinPair high low :: r.1, r.2 + 12)) := by
  have hhigh' := of_decide_eq_true hhigh
  have hlow' := of_decide_eq_true hlow
  obtain ⟨w, x, y, z, hhex, hvalue⟩ := hex4_value (n := high) (by omega)
  obtain ⟨w', x', y', z', hhex', hvalue'⟩ := hex4_value (n := low) (by omega)
  have hskip := scanString_append [Fin.ofNat _ 0x75, w, x, y, z, Fin.ofNat _ 0x5C, Fin.ofNat _ 0x75,
    w', x', y', z'] t
  have hnext : nextLow (Fin.ofNat _ 0x5C :: Fin.ofNat _ 0x75 :: w' :: x' :: y' :: z' :: t)
      = some low := by
    simp only [nextLow, hvalue', hlow]
    rfl
  rw [unicodeEscape_eq, unicodeEscape_eq, hhex, hhex']
  simp only [List.cons_append, List.nil_append, List.length_cons, List.length_nil] at hskip ⊢
  rw [scanString.eq_def]
  simp only [List.drop_succ_cons, List.drop_zero]
  rw [if_neg (by decide), if_pos (by decide), if_pos (by decide), hvalue]
  simp only [hhigh, if_true, hnext, hskip]
  cases scanString 0 t with
  | none => rfl
  | some r => rfl

/-- The low surrogate a text starts with, seen through its escape. -/
theorem nextLow_escape (c : CodePoint) (t : PyStr) :
    nextLow (escapeChar c ++ t) = if isLow c.val then some c.val else none := by
  generalize escapeChar c = e, escapeChar_escaped c = he
  cases he with
  | simple e h hvalue hhigh hlow =>
      rw [hlow, List.cons_append, List.singleton_append]
      unfold nextLow
      split
      · next heq =>
          obtain ⟨_, h₂⟩ := List.cons.inj heq
          rw [if_neg (fun hb => h ((List.cons.inj h₂).1 ▸ hb.2))]
          rfl
      · rfl
  | plain hquote hbackslash hleast hhigh hlow =>
      rw [hlow, List.singleton_append]
      unfold nextLow
      split
      · next heq =>
          rw [if_neg (fun ha => hbackslash ((List.cons.inj heq).1 ▸ ha.1))]
          rfl
      · rfl
  | bmp h =>
      obtain ⟨w, x, y, z, hhex, hvalue⟩ := hex4_value h
      rw [unicodeEscape_eq, hhex]
      simp only [List.cons_append, List.nil_append, nextLow, hvalue]
      rfl
  | pair high low hhigh hlow hnot hnot' hjoin =>
      have hhigh' := of_decide_eq_true hhigh
      obtain ⟨w, x, y, z, hhex, hvalue⟩ := hex4_value (n := high) (by omega)
      have hlow'' : isLow high = false := decide_eq_false (by omega)
      rw [hnot', unicodeEscape_eq, hhex]
      simp only [List.cons_append, List.nil_append, nextLow, hvalue, hlow'']
      rfl

theorem ofNat_val (c : CodePoint) : (Fin.ofNat _ c.val : CodePoint) = c := by
  apply Fin.ext
  rw [Fin.val_ofNat]
  exact Nat.mod_eq_of_lt c.isLt

/-- One character, however it is written, unless it is the first half of a pair. -/
theorem Escaped.scan {c : CodePoint} {e t : PyStr} (he : Escaped c e)
    (h : isHigh c.val = true → nextLow t = none) :
    scanString 0 (e ++ t) = (scanString 0 t).map (fun r => (c :: r.1, r.2 + e.length)) := by
  cases he with
  | simple e hu hvalue hhigh hlow => exact scanString_simple hu hvalue t
  | plain hquote hbackslash hleast hhigh hlow => exact scanString_plain hquote hbackslash hleast t
  | bmp hlt =>
      have hnext : (if isHigh c.val then nextLow t else none) = none := by
        split
        · next hhigh => exact h hhigh
        · rfl
      rw [scanString_unicode hlt hnext, ofNat_val]
      rfl
  | pair high low hhigh hlow hnot hnot' hjoin =>
      rw [scanString_pair hhigh hlow, hjoin]
      rfl

/-- A surrogate is written as its own escape. -/
theorem escapeChar_surrogate {c : CodePoint} (h : isHigh c.val = true ∨ isLow c.val = true) :
    escapeChar c = unicodeEscape c.val := by
  generalize escapeChar c = e, escapeChar_escaped c = he
  cases he with
  | simple e hu hvalue hhigh hlow => simp [hhigh, hlow] at h
  | plain hquote hbackslash hleast hhigh hlow => simp [hhigh, hlow] at h
  | bmp hlt => rfl
  | pair high low hhigh hlow hnot hnot' hjoin => simp [hnot, hnot'] at h

/-- **A string literal is read back, pairs joined.** -/
theorem scanString_escaped (s rest : PyStr) :
    scanString 0 (s.flatMap escapeChar ++ Fin.ofNat _ 0x22 :: rest)
      = some (joined s, (s.flatMap escapeChar).length + 1) := by
  have hquote : scanString 0 (Fin.ofNat _ 0x22 :: rest) = some ([], 1) := rfl
  have hend : nextLow (Fin.ofNat _ 0x22 :: rest) = none := by
    unfold nextLow
    split
    · next heq =>
        refine if_neg (fun ha => ?_)
        rw [← (List.cons.inj heq).1] at ha
        exact absurd ha.1 (by decide)
    · rfl
  induction s using joined.induct with
  | case1 => exact hquote
  | case2 c =>
      rw [List.flatMap_singleton, (escapeChar_escaped c).scan (fun _ => hend), hquote]
      simp [joined, Nat.add_comm]
  | case3 c d s hpair ih =>
      have hc := escapeChar_surrogate (Or.inl hpair.1)
      have hd := escapeChar_surrogate (Or.inr hpair.2)
      rw [List.flatMap_cons, List.flatMap_cons, hc, hd, ← List.append_assoc, List.append_assoc,
        scanString_pair hpair.1 hpair.2, ih, joined, if_pos hpair]
      simp only [Option.map_some, List.length_append, unicodeEscape_eq, hex4, List.length_cons,
        List.length_nil]
      congr 2
      omega
  | case4 c d s hpair ih =>
      have hnext : isHigh c.val = true →
          nextLow ((d :: s).flatMap escapeChar ++ Fin.ofNat _ 0x22 :: rest) = none := by
        intro hhigh
        rw [List.flatMap_cons, List.append_assoc, nextLow_escape, if_neg]
        exact fun hlow => hpair ⟨hhigh, hlow⟩
      rw [List.flatMap_cons, List.append_assoc, (escapeChar_escaped c).scan hnext, ih, joined,
        if_neg hpair]
      simp only [Option.map_some, List.length_append]
      congr 2
      omega

/-! ## The lexer on what `json.dumps` writes -/

theorem lex_append (s t : PyStr) : lex s.length (s ++ t) = lex 0 t := by
  induction s with
  | nil => rfl
  | cons c s ih => exact ih

/-- A token followed by more text. -/
theorem lex_token {s rest : PyStr} {t : Token} (hne : s ≠ [])
    (hspace : ∀ c ∈ s.head?, isJsonSpace c = false)
    (hscan : scanToken (s ++ rest) = some (t, s.length)) : lex 0 (s ++ rest) = t :: lex 0 rest := by
  cases s with
  | nil => exact absurd rfl hne
  | cons c s =>
      rw [List.cons_append] at hscan ⊢
      rw [lex, if_neg (by simp [hspace c rfl]), hscan]
      simp only [List.length_cons, Nat.add_sub_cancel]
      rw [lex_append]

theorem isJsonSpace_of_digit {c : CodePoint} (h : isDigit c = true ∨ c.val = 0x2D) :
    isJsonSpace c = false := by
  have hc : (0x30 ≤ c.val ∧ c.val ≤ 0x39) ∨ c.val = 0x2D := h.imp_left of_decide_eq_true
  exact decide_eq_false (by omega)

/-- A number literal starts with a sign or a digit. -/
theorem scanNumber_head {c : CodePoint} {rest : PyStr} {r : Nat × Bool}
    (h : scanNumber (c :: rest) = some r) : isDigit c = true ∨ c.val = 0x2D := by
  by_cases hsign : c.val = 0x2D
  · exact Or.inr hsign
  · refine Or.inl ?_
    by_cases hdigit : isDigit c = true
    · exact hdigit
    · exfalso
      have hzero : c.val ≠ 0x30 := by
        intro hc
        exact hdigit (decide_eq_true (by omega))
      have hrun : integerRun (c :: rest) = 0 := by
        simp only [integerRun, if_neg hsign, List.drop_zero, if_neg hzero, if_neg hdigit]
      simp only [scanNumber, hrun, if_true] at h
      cases h

theorem lex_number {s rest : PyStr} {isInt : Bool} (hne : s ≠ [])
    (h : scanNumber (s ++ rest) = some (s.length, isInt)) :
    lex 0 (s ++ rest) = (if isInt then .int s else .float s) :: lex 0 rest := by
  refine lex_token hne ?_ ?_
  · intro c hc
    cases s with
    | nil => exact absurd rfl hne
    | cons d s =>
        cases hc
        exact isJsonSpace_of_digit (scanNumber_head h)
  · simp only [scanToken, h, List.take_left]

theorem lex_quoted (s rest : PyStr) : lex 0 (quoted s ++ rest) = .str (joined s) :: lex 0 rest := by
  refine lex_token (List.cons_ne_nil _ _) ?_ ?_
  · intro c hc
    cases hc
    rfl
  · have hscan := scanString_escaped s rest
    have htext : quoted s ++ rest
        = Fin.ofNat _ 0x22 :: (s.flatMap escapeChar ++ Fin.ofNat _ 0x22 :: rest) := by
      simp only [quoted, List.append_assoc]
      rfl
    have hlength : (quoted s).length = (s.flatMap escapeChar).length + 1 + 1 := by
      simp only [quoted, List.length_append]
      show 1 + _ + 1 = _
      omega
    have hnone : scanNumber (Fin.ofNat _ 0x22 :: (s.flatMap escapeChar ++ Fin.ofNat _ 0x22 :: rest))
        = none := rfl
    rw [htext, hlength]
    simp only [scanToken, hnone]
    rw [if_pos (by decide), hscan]
    rfl

theorem delimited_of_val {c : CodePoint} {rest : PyStr}
    (h : c.val = 0x2C ∨ c.val = 0x5D ∨ c.val = 0x7D) : Delimited (c :: rest) := by
  intro d hd
  cases hd
  simp only [endsNumber, isDigit, Bool.and_eq_true, Bool.not_eq_true', decide_eq_false_iff_not,
    decide_eq_true_eq]
  omega

/-- A comma between two items, and the blank after it. -/
theorem lex_comma (rest : PyStr) : lex 0 (py ", " ++ rest) = .comma :: lex 0 rest := rfl

/-- The colon of an entry, and the blank after it. -/
theorem lex_colon (rest : PyStr) : lex 0 (py ": " ++ rest) = .colon :: lex 0 rest := rfl

theorem lex_lbracket (rest : PyStr) : lex 0 (py "[" ++ rest) = .lbracket :: lex 0 rest := rfl

theorem lex_rbracket (rest : PyStr) : lex 0 (py "]" ++ rest) = .rbracket :: lex 0 rest := rfl

theorem lex_lbrace (rest : PyStr) : lex 0 (py "\x7b" ++ rest) = .lbrace :: lex 0 rest := rfl

theorem lex_rbrace (rest : PyStr) : lex 0 (py "\x7d" ++ rest) = .rbrace :: lex 0 rest := rfl

/-- Joining makes characters outside the basic plane only. -/
theorem joined_eq_of_basic {s : PyStr} : ∀ {t : PyStr}, joined s = t → (∀ c ∈ t, c.val < 0x10000) →
    s = t := by
  induction s using joined.induct with
  | case1 => exact fun h _ => h
  | case2 c => exact fun h _ => h
  | case3 c d s hpair ih =>
      intro t h ht
      unfold joined at h
      rw [if_pos hpair] at h
      have hbasic := ht (joinPair c.val d.val) (by rw [← h]; exact List.mem_cons_self)
      simp only [isHigh, isLow, decide_eq_true_eq] at hpair
      simp only [joinPair, Fin.val_ofNat] at hbasic
      omega
  | case4 c d s hpair ih =>
      intro t h ht
      unfold joined at h
      rw [if_neg hpair] at h
      subst h
      exact congrArg (c :: ·) (ih rfl (fun c' hc' => ht c' (List.mem_cons_of_mem _ hc')))

/-! ## Dictionaries with text keys -/

/-- A `dict` whose keys are texts, each once. -/
structure Dict.Textual (d : Dict) : Prop where
  keys : ∀ e ∈ d, ∃ s, e.1 = .str s
  nodup : (d.map Prod.fst).Nodup

theorem Key.same_str (k : Key) (s : PyStr) : k.same (.str s) = decide (k = .str s) := by
  unfold Key.same
  cases k.number <;> rfl

theorem Dict.mem_set {d : Dict} {s : PyStr} {v : Json} {e : Key × Json}
    (h : e ∈ Dict.set d (.str s) v) : e = (.str s, v) ∨ e ∈ d := by
  induction d with
  | nil => exact Or.inl (List.mem_singleton.1 h)
  | cons e' d ih =>
      unfold Dict.set at h
      rw [Key.same_str] at h
      by_cases hkey : e'.1 = .str s
      · rw [if_pos (decide_eq_true hkey), hkey] at h
        exact (List.mem_cons.1 h).imp_right (List.mem_cons_of_mem _)
      · rw [if_neg (by simpa using hkey)] at h
        rcases List.mem_cons.1 h with rfl | h
        · exact Or.inr List.mem_cons_self
        · exact (ih h).imp_right (List.mem_cons_of_mem _)

theorem Dict.Textual.set {d : Dict} (h : d.Textual) (s : PyStr) (v : Json) :
    (Dict.set d (.str s) v).Textual where
  keys := by
    intro e he
    rcases Dict.mem_set he with rfl | he
    · exact ⟨s, rfl⟩
    · exact h.keys e he
  nodup := by
    induction d with
    | nil => simp [Dict.set]
    | cons e d ih =>
        have htail : Dict.Textual d :=
          ⟨fun e' he' => h.keys e' (List.mem_cons_of_mem _ he'), (List.nodup_cons.1 h.nodup).2⟩
        unfold Dict.set
        rw [Key.same_str]
        by_cases hkey : e.1 = .str s
        · rw [if_pos (decide_eq_true hkey)]
          exact h.nodup
        · rw [if_neg (by simpa using hkey)]
          refine List.nodup_cons.2 ⟨fun hmem => ?_, ih htail⟩
          obtain ⟨e', he', heq⟩ := List.mem_map.1 hmem
          rcases Dict.mem_set he' with rfl | he'
          · exact hkey heq.symm
          · exact (List.nodup_cons.1 h.nodup).1 (List.mem_map.2 ⟨e', he', heq⟩)

theorem textual_nil : Dict.Textual [] := ⟨nofun, List.nodup_nil⟩

theorem Dict.get_set (d : Dict) (s key : PyStr) (v : Json) :
    (Dict.set d (.str s) v).get key = if s = key then some v else d.get key := by
  induction d with
  | nil => by_cases hs : s = key <;> simp [Dict.set, Dict.get, hs]
  | cons e d ih =>
      unfold Dict.set
      rw [Key.same_str]
      by_cases hkey : e.1 = .str s
      · rw [if_pos (decide_eq_true hkey)]
        by_cases hs : s = key <;> simp [Dict.get, hkey, hs]
      · rw [if_neg (by simpa using hkey)]
        by_cases he : e.1 = .str key
        · have hs : s ≠ key := fun hs => hkey (he.trans (hs ▸ rfl))
          simp [Dict.get, he, hs]
        · have hskip : ∀ d : Dict, Dict.get (e :: d) key = Dict.get d key := by
            intro d
            simp [Dict.get, he]
          rw [hskip, hskip, ih]

section Values

variable [PyRuntime]

mutual

/-- The tokens of the text `json.dumps` writes. -/
def Json.tokens : Json → List Token
  | .null => [.const .null]
  | .bool b => [.const (.bool b)]
  | .int i => [.int (intRepr i)]
  | .float x =>
      match x with
      | .finite _ _ _ => [.float (PyRuntime.floatRepr x)]
      | _ => [.const (.float x)]
  | .str s => [.str (joined s)]
  | .arr items => .lbracket :: tokensItems items ++ [.rbracket]
  | .obj entries => .lbrace :: tokensEntries entries ++ [.rbrace]
termination_by structural v => v

def Json.tokensItems : List Json → List Token
  | [] => []
  | v :: vs =>
      match vs with
      | [] => v.tokens
      | _ => v.tokens ++ .comma :: tokensItems vs
termination_by structural vs => vs

def Json.tokensEntries : List (Key × Json) → List Token
  | [] => []
  | (k, v) :: es =>
      match es with
      | [] => .str (joined k.text) :: .colon :: v.tokens
      | _ => .str (joined k.text) :: .colon :: v.tokens ++ .comma :: tokensEntries es
termination_by structural es => es

end

theorem lex_floatText (x : PyFloat) {rest : PyStr} (h : Delimited rest) :
    lex 0 (floatText x ++ rest) = (Json.float x).tokens ++ lex 0 rest := by
  cases x with
  | nan => rfl
  | inf negative =>
      cases negative with
      | true => rfl
      | false => rfl
  | finite negative mantissa exponent =>
      have hscan := PyRuntime.scanNumber_floatRepr negative mantissa exponent rest h
      refine lex_number (s := floatText (.finite negative mantissa exponent)) ?_ hscan
      intro hnil
      have hnil' : PyRuntime.floatRepr (.finite negative mantissa exponent) = [] := hnil
      have hempty := PyRuntime.scanNumber_floatRepr negative mantissa exponent []
        (fun _ hc => nomatch hc)
      rw [hnil'] at hempty
      cases hempty

@[simp] theorem Json.writeItems_cons (v w : Json) (vs : List Json) :
    writeItems (v :: w :: vs) = v.write ++ py ", " ++ writeItems (w :: vs) := rfl

@[simp] theorem Json.tokensItems_cons (v w : Json) (vs : List Json) :
    tokensItems (v :: w :: vs) = v.tokens ++ .comma :: tokensItems (w :: vs) := rfl

@[simp] theorem Json.writeEntries_cons (k : Key) (v : Json) (e : Key × Json)
    (es : List (Key × Json)) : writeEntries ((k, v) :: e :: es)
      = quoted k.text ++ py ": " ++ v.write ++ py ", " ++ writeEntries (e :: es) := rfl

@[simp] theorem Json.tokensEntries_cons (k : Key) (v : Json) (e : Key × Json)
    (es : List (Key × Json)) : tokensEntries ((k, v) :: e :: es)
      = .str (joined k.text) :: .colon :: v.tokens ++ .comma :: tokensEntries (e :: es) := rfl

mutual

/-- **The lexer reads what the writer wrote.** -/
theorem lex_write : ∀ (v : Json) (rest : PyStr), Delimited rest →
    lex 0 (v.write ++ rest) = v.tokens ++ lex 0 rest
  | .null, _, _ => rfl
  | .bool true, _, _ => rfl
  | .bool false, _, _ => rfl
  | .int i, rest, h => by
      have hne : intRepr i ≠ [] := by
        obtain ⟨c, ds, hdigits, _⟩ := decimalDigits_cons i.natAbs
        simp [intRepr, hdigits]
      exact lex_number hne (scanNumber_intRepr i h)
  | .float x, _, h => lex_floatText x h
  | .str s, rest, _ => lex_quoted s rest
  | .arr items, rest, _ => by
      have hitems := lex_writeItems items (py "]" ++ rest) (delimited_of_val (Or.inr (Or.inl rfl)))
      simp only [Json.write, Json.tokens, List.append_assoc, List.cons_append]
      rw [lex_lbracket, hitems, lex_rbracket]
      rfl
  | .obj entries, rest, _ => by
      have hentries := lex_writeEntries entries (py "\x7d" ++ rest)
        (delimited_of_val (Or.inr (Or.inr rfl)))
      simp only [Json.write, Json.tokens, List.append_assoc, List.cons_append]
      rw [lex_lbrace, hentries, lex_rbrace]
      rfl

theorem lex_writeItems : ∀ (items : List Json) (rest : PyStr), Delimited rest →
    lex 0 (Json.writeItems items ++ rest) = Json.tokensItems items ++ lex 0 rest
  | [], _, _ => rfl
  | [v], rest, h => lex_write v rest h
  | v :: w :: vs, rest, h => by
      have hv := lex_write v (py ", " ++ (Json.writeItems (w :: vs) ++ rest))
        (delimited_of_val (Or.inl rfl))
      have hvs := lex_writeItems (w :: vs) rest h
      simp only [Json.writeItems_cons, Json.tokensItems_cons, List.append_assoc, List.cons_append]
      rw [hv, lex_comma, hvs]

theorem lex_writeEntries : ∀ (entries : List (Key × Json)) (rest : PyStr), Delimited rest →
    lex 0 (Json.writeEntries entries ++ rest) = Json.tokensEntries entries ++ lex 0 rest
  | [], _, _ => rfl
  | [(k, v)], rest, h => by
      have hv := lex_write v rest h
      rw [Json.writeEntries, Json.tokensEntries]
      simp only [List.append_assoc, List.cons_append]
      rw [lex_quoted, lex_colon, hv]
  | (k, v) :: e :: es, rest, h => by
      have hv := lex_write v (py ", " ++ (Json.writeEntries (e :: es) ++ rest))
        (delimited_of_val (Or.inl rfl))
      have hes := lex_writeEntries (e :: es) rest h
      simp only [Json.writeEntries_cons, Json.tokensEntries_cons, List.append_assoc,
        List.cons_append]
      rw [lex_quoted, lex_colon, hv, lex_comma, hes]

end

/-! ## The machine on these tokens -/

mutual

/-- The value `json.loads` reads back. -/
def Json.reread : Json → Json
  | .float x =>
      match x with
      | .finite _ _ _ => .float (PyRuntime.floatOfText (PyRuntime.floatRepr x))
      | _ => .float x
  | .str s => .str (joined s)
  | .arr items => .arr (rereadItems items)
  | .obj entries => .obj (rereadEntries [] entries)
  | v => v
termination_by structural v => v

def Json.rereadItems : List Json → List Json
  | [] => []
  | v :: vs => v.reread :: rereadItems vs
termination_by structural vs => vs

def Json.rereadEntries (read : Dict) : List (Key × Json) → Dict
  | [] => read
  | (k, v) :: es => rereadEntries (Dict.set read (.str (joined k.text)) v.reread) es
termination_by structural es => es

end

theorem readTokens_cons {st st' : ReadState} {t : Token} (ts : List Token)
    (h : readToken st t = .ok st') : readTokens st (t :: ts) = readTokens st' ts := by
  simp only [readTokens, h]

/-- No value starts with a closing bracket. -/
theorem tokens_cons (v : Json) : ∃ t ts, v.tokens = t :: ts ∧ t ≠ .rbracket := by
  cases v with
  | float x => cases x <;> exact ⟨_, _, rfl, nofun⟩
  | null | bool | int | str | arr | obj => exact ⟨_, _, rfl, nofun⟩

/-- The first item of a list is read like any other. -/
theorem readTokens_firstItem (stack : List Ctx) (v : Json) (ts : List Token) :
    readTokens (.firstItem stack) (v.tokens ++ ts)
      = readTokens (.value (.item [] :: stack)) (v.tokens ++ ts) := by
  obtain ⟨t, ts', htokens, hne⟩ := tokens_cons v
  rw [htokens, List.cons_append]
  have hstep : readToken (.firstItem stack) t = readToken (.value (.item [] :: stack)) t := by
    cases t with
    | rbracket => exact absurd rfl hne
    | lbrace | rbrace | lbracket | colon | comma | str | int | float | const | bad => rfl
  simp only [readTokens, hstep]

theorem enter_ok {stack : List Ctx} {st : ReadState} {room : Nat}
    (hroom : room + stack.length = PyRuntime.recursionLimit) (h : room ≠ 0) :
    enter stack st = .ok st :=
  if_pos (by omega)

mutual

/-- **The machine reads the tokens of a value as one value.** -/
theorem readTokens_value : ∀ (v : Json) (stack : List Ctx) (ts : List Token) (room : Nat),
    room + stack.length = PyRuntime.recursionLimit → v.fault room = none →
    readTokens (.value stack) (v.tokens ++ ts) = readTokens (close v.reread stack) ts
  | .null, _, _, _, _, _ => rfl
  | .bool _, _, _, _, _, _ => rfl
  | .int i, stack, ts, room, _, h => by
      refine readTokens_cons ts ?_
      show (match intOfLiteral (intRepr i) with
        | .ok i => Except.ok (close (.int i) stack)
        | .error e => .error e) = _
      rw [intOfLiteral_intRepr h]
      rfl
  | .float .nan, _, _, _, _, _ => rfl
  | .float (.inf _), _, _, _, _, _ => rfl
  | .float (.finite _ _ _), _, _, _, _, _ => rfl
  | .str _, _, _, _, _, _ => rfl
  | .arr items, stack, ts, room, hroom, h => by
      have hne : room ≠ 0 := by
        intro hzero
        simp [Json.fault, hzero] at h
      have hitems : Json.faultItems (room - 1) items = none := by
        simpa [Json.fault, hne] using h
      have hopen : readToken (.value stack) .lbracket = .ok (.firstItem stack) :=
        enter_ok hroom hne
      have htokens : (Json.arr items).tokens ++ ts
          = .lbracket :: (Json.tokensItems items ++ .rbracket :: ts) := by
        simp [Json.tokens]
      have hread := fun hcons => readTokens_items items [] stack ts (room - 1)
        (by simp only [List.length_cons]; omega) hcons hitems
      rw [htokens, readTokens_cons _ hopen]
      cases items with
      | nil => rfl
      | cons v vs =>
          refine Eq.trans ?_ (hread (List.cons_ne_nil v vs))
          cases vs with
          | nil => exact readTokens_firstItem stack v _
          | cons w vs =>
              simp only [Json.tokensItems_cons, List.append_assoc]
              exact readTokens_firstItem stack v _
  | .obj entries, stack, ts, room, hroom, h => by
      have hne : room ≠ 0 := by
        intro hzero
        simp [Json.fault, hzero] at h
      have hentries : Json.faultEntries (room - 1) entries = none := by
        simpa [Json.fault, hne] using h
      have hopen : readToken (.value stack) .lbrace = .ok (.firstKey stack) :=
        enter_ok hroom hne
      have htokens : (Json.obj entries).tokens ++ ts
          = .lbrace :: (Json.tokensEntries entries ++ .rbrace :: ts) := by
        simp [Json.tokens]
      have hread := fun hcons => readTokens_entries entries [] stack ts (room - 1) (by omega) hcons
        hentries
      rw [htokens, readTokens_cons _ hopen]
      cases entries with
      | nil => rfl
      | cons e es =>
          refine Eq.trans ?_ (hread (List.cons_ne_nil e es))
          -- the first key is read like any other
          cases es with
          | nil => rfl
          | cons e' es => rfl

theorem readTokens_items : ∀ (items read : List Json) (stack : List Ctx) (ts : List Token)
    (room : Nat), room + (Ctx.item read :: stack).length = PyRuntime.recursionLimit →
    items ≠ [] → Json.faultItems room items = none →
    readTokens (.value (.item read :: stack)) (Json.tokensItems items ++ .rbracket :: ts)
      = readTokens (close (.arr (read ++ Json.rereadItems items)) stack) ts
  | [], _, _, _, _, _, hne, _ => absurd rfl hne
  | [v], read, stack, ts, room, hroom, _, h => by
      have hv : v.fault room = none := by
        cases hfault : v.fault room with
        | none => rfl
        | some e => simp [Json.faultItems, hfault] at h
      have hread := readTokens_value v (.item read :: stack) (.rbracket :: ts) room hroom hv
      exact hread.trans (readTokens_cons ts rfl)
  | v :: w :: vs, read, stack, ts, room, hroom, _, h => by
      have hv : v.fault room = none := by
        cases hfault : v.fault room with
        | none => rfl
        | some e => simp [Json.faultItems, hfault] at h
      have hvs : Json.faultItems room (w :: vs) = none := by
        rw [Json.faultItems, hv] at h
        exact h
      have hread := readTokens_value v (.item read :: stack)
        (.comma :: (Json.tokensItems (w :: vs) ++ .rbracket :: ts)) room hroom hv
      have hcomma : readToken (close v.reread (.item read :: stack)) .comma
          = .ok (.value (.item (read ++ [v.reread]) :: stack)) := rfl
      have hrest := readTokens_items (w :: vs) (read ++ [v.reread]) stack ts room hroom
        (List.cons_ne_nil w vs) hvs
      have hreread : read ++ Json.rereadItems (v :: w :: vs)
          = read ++ [v.reread] ++ Json.rereadItems (w :: vs) := by
        simp [Json.rereadItems]
      rw [Json.tokensItems_cons, List.append_assoc, List.cons_append, hread,
        readTokens_cons _ hcomma, hrest, hreread]

theorem readTokens_entries : ∀ (entries : List (Key × Json)) (read : Dict) (stack : List Ctx)
    (ts : List Token) (room : Nat), room + stack.length + 1 = PyRuntime.recursionLimit →
    entries ≠ [] → Json.faultEntries room entries = none →
    readTokens (.nextKey read stack) (Json.tokensEntries entries ++ .rbrace :: ts)
      = readTokens (close (.obj (Json.rereadEntries read entries)) stack) ts
  | [], _, _, _, _, _, hne, _ => absurd rfl hne
  | [(k, v)], read, stack, ts, room, hroom, _, h => by
      have hv : v.fault room = none := by
        simp only [Json.faultEntries] at h
        split at h
        · cases h
        · split at h
          · cases h
          · next hnone => exact hnone
      have hread := readTokens_value v (.entry read (joined k.text) :: stack) (.rbrace :: ts) room
        (by simp only [List.length_cons]; omega) hv
      have hclose : readToken (close v.reread (.entry read (joined k.text) :: stack)) .rbrace
          = .ok (close (.obj (Dict.set read (.str (joined k.text)) v.reread)) stack) := rfl
      exact hread.trans (readTokens_cons ts hclose)
  | (k, v) :: e' :: es, read, stack, ts, room, hroom, _, h => by
      obtain ⟨hv, hes⟩ : v.fault room = none ∧ Json.faultEntries room (e' :: es) = none := by
        rw [Json.faultEntries] at h
        split at h
        · cases h
        · split at h
          · cases h
          · next hnone => exact ⟨hnone, h⟩
      have hread := readTokens_value v (.entry read (joined k.text) :: stack)
        (.comma :: (Json.tokensEntries (e' :: es) ++ .rbrace :: ts)) room
        (by simp only [List.length_cons]; omega) hv
      have hcomma : readToken (close v.reread (.entry read (joined k.text) :: stack)) .comma
          = .ok (.nextKey (Dict.set read (.str (joined k.text)) v.reread) stack) := rfl
      have hrest := readTokens_entries (e' :: es) (Dict.set read (.str (joined k.text)) v.reread)
        stack ts room hroom (List.cons_ne_nil e' es) hes
      rw [Json.tokensEntries_cons]
      simp only [List.append_assoc, List.cons_append]
      exact hread.trans ((readTokens_cons _ hcomma).trans hrest)

end

/-! ## The characters of a text

Every character that `json.dumps` writes is between the space and the tilde, if those of floats are. -/

section Characters

variable {P : CodePoint → Bool} (hP : ∀ c : CodePoint, 0x20 ≤ c.val → c.val ≤ 0x7E → P c = true)

include hP

omit [PyRuntime] in
/-- A literal. -/
theorem all_literal {s : PyStr} (h : s.all (fun c => decide (0x20 ≤ c.val ∧ c.val ≤ 0x7E)) = true) :
    s.all P = true := by
  refine List.all_eq_true.2 (fun c hc => ?_)
  obtain ⟨hlow, hhigh⟩ := of_decide_eq_true (List.all_eq_true.1 h c hc)
  exact hP c hlow hhigh

omit [PyRuntime] in
theorem all_hex4 (n : Nat) : (hex4 n).all P = true := by
  have hdigit : ∀ d, d < 16 → 0x20 ≤ (hexDigit d).val ∧ (hexDigit d).val ≤ 0x7E := by decide
  have hmod : ∀ m, P (hexDigit (m % 16)) = true := by
    intro m
    obtain ⟨hlow, hhigh⟩ := hdigit _ (Nat.mod_lt m (by decide))
    exact hP _ hlow hhigh
  simp only [hex4, List.all_cons, hmod, List.all_nil, Bool.and_self]

omit [PyRuntime] in
theorem all_unicodeEscape (n : Nat) : (unicodeEscape n).all P = true := by
  unfold unicodeEscape
  rw [List.all_append, all_hex4 hP, all_literal hP (by decide)]
  rfl

omit [PyRuntime] in
theorem all_escapeChar (c : CodePoint) : (escapeChar c).all P = true := by
  unfold escapeChar
  repeat' split
  all_goals first
    | exact all_literal hP (by decide)
    | exact all_unicodeEscape hP _
    | skip
  · next h => rw [List.all_cons, hP c h.1 h.2]; rfl
  · rw [List.all_append, all_unicodeEscape hP, all_unicodeEscape hP]
    rfl

omit [PyRuntime] in
theorem all_quoted (s : PyStr) : (quoted s).all P = true := by
  have hbody : (s.flatMap escapeChar).all P = true := by
    induction s with
    | nil => rfl
    | cons c s ih => rw [List.flatMap_cons, List.all_append, all_escapeChar hP, ih]; rfl
  unfold quoted
  rw [List.all_append, List.all_append, hbody, all_literal hP (by decide)]
  rfl

omit [PyRuntime] in
theorem all_intRepr (i : Int) : (intRepr i).all P = true := by
  have hdigits : (decimalDigits i.natAbs).all P = true := by
    refine List.all_eq_true.2 (fun c hc => ?_)
    have hdigit := of_decide_eq_true (decimalDigits_all _ c hc)
    exact hP c (by omega) (by omega)
  unfold intRepr
  rw [List.all_append, hdigits, Bool.and_true]
  split
  · exact all_literal hP (by decide)
  · rfl

mutual

theorem all_write (hfloat : ∀ x, (floatText x).all P = true) : ∀ v : Json, v.write.all P = true
  | .null => all_literal hP (s := py "null") (by decide)
  | .bool true => all_literal hP (s := py "true") (by decide)
  | .bool false => all_literal hP (s := py "false") (by decide)
  | .int i => all_intRepr hP i
  | .float x => hfloat x
  | .str s => all_quoted hP s
  | .arr items => by
      rw [Json.write, List.all_append, List.all_append, all_writeItems hfloat items,
        all_literal hP (by decide), all_literal hP (by decide)]
      rfl
  | .obj entries => by
      rw [Json.write, List.all_append, List.all_append, all_writeEntries hfloat entries,
        all_literal hP (by decide), all_literal hP (by decide)]
      rfl

theorem all_writeItems (hfloat : ∀ x, (floatText x).all P = true) :
    ∀ items : List Json, (Json.writeItems items).all P = true
  | [] => rfl
  | [v] => all_write hfloat v
  | v :: w :: vs => by
      rw [Json.writeItems_cons, List.all_append, List.all_append, all_write hfloat v,
        all_writeItems hfloat (w :: vs), all_literal hP (by decide)]
      rfl

theorem all_writeEntries (hfloat : ∀ x, (floatText x).all P = true) :
    ∀ entries : List (Key × Json), (Json.writeEntries entries).all P = true
  | [] => rfl
  | [(k, v)] => by
      rw [Json.writeEntries, List.all_append, List.all_append, all_quoted hP, all_write hfloat v,
        all_literal hP (by decide)]
      rfl
  | (k, v) :: e :: es => by
      rw [Json.writeEntries_cons, List.all_append, List.all_append, List.all_append, List.all_append,
        all_quoted hP, all_write hfloat v, all_writeEntries hfloat (e :: es), all_literal hP (by decide),
        all_literal hP (by decide)]
      rfl

end

end Characters

theorem isAscii_floatText (x : PyFloat) : isAscii (floatText x) = true := by
  cases x with
  | nan => rfl
  | inf negative => cases negative <;> rfl
  | finite negative mantissa exponent => exact PyRuntime.isAscii_floatRepr _ _ _

/-- `json.dumps` writes ASCII text. -/
theorem isAscii_write (v : Json) : isAscii v.write = true :=
  all_write (fun c _ hc => decide_eq_true (by omega)) isAscii_floatText v

/-- **`json.loads` after `json.dumps`.** -/
theorem loads_write {v : Json} (h : v.fault PyRuntime.recursionLimit = none) :
    Json.loads v.write = .ok v.reread := by
  have hlex := lex_write v [] (fun _ hc => nomatch hc)
  have hread := readTokens_value v [] [] PyRuntime.recursionLimit rfl h
  have hbom : v.write.head? ≠ some (Fin.ofNat _ 0xFEFF) := by
    intro hhead
    have hascii := List.all_eq_true.1 (isAscii_write v) _ (List.mem_of_mem_head? hhead)
    exact absurd hascii (by decide)
  rw [List.append_nil] at hlex hread
  have htokens : lex 0 v.write = v.tokens := by
    rw [hlex]
    exact List.append_nil _
  unfold Json.loads
  rw [if_neg hbom, htokens, hread]
  rfl

/-! ## What is read back can be written again -/

mutual

/-- What fits into some levels fits into one more. -/
theorem fault_succ : ∀ (v : Json) (room : Nat), v.fault room = none → v.fault (room + 1) = none
  | .null, _, _ => rfl
  | .bool _, _, _ => rfl
  | .int _, _, h => h
  | .float _, _, _ => rfl
  | .str _, _, _ => rfl
  | .arr items, room, h => by
      unfold Json.fault at h ⊢
      split at h
      · cases h
      · next hroom =>
          obtain ⟨n, rfl⟩ := Nat.exists_eq_succ_of_ne_zero hroom
          rw [if_neg (Nat.succ_ne_zero _)]
          exact faultItems_succ items n h
  | .obj entries, room, h => by
      unfold Json.fault at h ⊢
      split at h
      · cases h
      · next hroom =>
          obtain ⟨n, rfl⟩ := Nat.exists_eq_succ_of_ne_zero hroom
          rw [if_neg (Nat.succ_ne_zero _)]
          exact faultEntries_succ entries n h
termination_by structural v => v

theorem faultItems_succ : ∀ (items : List Json) (room : Nat),
    Json.faultItems room items = none → Json.faultItems (room + 1) items = none
  | [], _, _ => rfl
  | v :: vs, room, h => by
      unfold Json.faultItems at h ⊢
      split at h
      · cases h
      · next hv =>
          rw [fault_succ v room hv]
          exact faultItems_succ vs room h
termination_by structural items => items

theorem faultEntries_succ : ∀ (entries : List (Key × Json)) (room : Nat),
    Json.faultEntries room entries = none → Json.faultEntries (room + 1) entries = none
  | [], _, _ => rfl
  | (k, v) :: es, room, h => by
      unfold Json.faultEntries at h ⊢
      split at h
      · cases h
      · next hk =>
          split at h
          · cases h
          · next hv =>
              rw [fault_succ v room hv]
              exact faultEntries_succ es room h
termination_by structural entries => entries

end

theorem fault_mono {v : Json} {room room' : Nat} (hroom : room ≤ room')
    (h : v.fault room = none) : v.fault room' = none := by
  induction hroom with
  | refl => exact h
  | step _ ih => exact fault_succ v _ ih

theorem faultEntries_set {d : Dict} {k : Key} {v : Json} {room : Nat}
    (hd : Json.faultEntries room d = none) (hk : k.fault = none) (hv : v.fault room = none) :
    Json.faultEntries room (Dict.set d k v) = none := by
  induction d with
  | nil => simp only [Dict.set, Json.faultEntries, hk, hv]
  | cons e d ih =>
      obtain ⟨key, value⟩ := e
      unfold Json.faultEntries at hd
      split at hd
      · cases hd
      · next hkey =>
          split at hd
          · cases hd
          · next hvalue =>
              unfold Dict.set
              split
              · simp only [Json.faultEntries, hkey, hv, hd]
              · simp only [Json.faultEntries, hkey, hvalue, ih hd]

mutual

/-- What can be written can be written again after it was read back. -/
theorem fault_reread : ∀ (v : Json) (room : Nat), v.fault room = none → v.reread.fault room = none
  | .null, _, _ => rfl
  | .bool _, _, _ => rfl
  | .int _, _, h => h
  | .float x, _, _ => by cases x <;> rfl
  | .str _, _, _ => rfl
  | .arr items, room, h => by
      unfold Json.fault at h
      simp only [Json.reread, Json.fault]
      split at h
      · cases h
      · next hroom =>
          rw [if_neg hroom]
          exact faultItems_reread items _ h
  | .obj entries, room, h => by
      unfold Json.fault at h
      simp only [Json.reread, Json.fault]
      split at h
      · cases h
      · next hroom =>
          rw [if_neg hroom]
          exact faultEntries_reread entries [] _ rfl h
termination_by structural v => v

theorem faultItems_reread : ∀ (items : List Json) (room : Nat),
    Json.faultItems room items = none → Json.faultItems room (Json.rereadItems items) = none
  | [], _, _ => rfl
  | v :: vs, room, h => by
      unfold Json.faultItems at h
      split at h
      · cases h
      · next hv =>
          simp only [Json.rereadItems, Json.faultItems, fault_reread v room hv]
          exact faultItems_reread vs room h
termination_by structural items => items

theorem faultEntries_reread : ∀ (entries : List (Key × Json)) (read : Dict) (room : Nat),
    Json.faultEntries room read = none → Json.faultEntries room entries = none →
    Json.faultEntries room (Json.rereadEntries read entries) = none
  | [], _, _, hread, _ => hread
  | (k, v) :: es, read, room, hread, h => by
      unfold Json.faultEntries at h
      split at h
      · cases h
      · split at h
        · cases h
        · next hv =>
            exact faultEntries_reread es _ room
              (faultEntries_set hread rfl (fault_reread v room hv)) h
termination_by structural entries => entries

end

/-! ## Looking up what was read back -/

/-- What is read back is textual. -/
theorem textual_rereadEntries (entries : List (Key × Json)) : ∀ {read : Dict}, read.Textual →
    (Json.rereadEntries read entries).Textual := by
  induction entries with
  | nil => exact fun h => h
  | cons e entries ih =>
      intro read h
      obtain ⟨k, v⟩ := e
      exact ih (h.set _ _)

/-- The entries under one key agree with what the key is read back as. -/
theorem get_rereadEntries {entries : List (Key × Json)} {key : PyStr} {v : Json} :
    ∀ {read : Dict}, (∀ e ∈ entries, joined e.1.text = key → e.2.reread = v) →
    (read.get key = some v ∨ ∃ e ∈ entries, joined e.1.text = key) →
    (Json.rereadEntries read entries).get key = some v := by
  induction entries with
  | nil =>
      rintro read - (h | ⟨e, he, -⟩)
      · exact h
      · cases he
  | cons e entries ih =>
      intro read hall hsome
      obtain ⟨k, x⟩ := e
      refine ih (fun e he => hall e (List.mem_cons_of_mem _ he)) ?_
      rw [Dict.get_set]
      by_cases hk : joined k.text = key
      · have hx := hall (k, x) List.mem_cons_self hk
        rw [if_pos hk]
        exact Or.inl (congrArg some hx)
      · rw [if_neg hk]
        rcases hsome with h | ⟨e, he, hkey⟩
        · exact Or.inl h
        · rcases List.mem_cons.1 he with rfl | he
          · exact absurd hkey hk
          · exact Or.inr ⟨e, he, hkey⟩

/-- **A value under a plain key is found again.** -/
theorem Dict.Textual.get_reread {d : Dict} (h : d.Textual) {key : PyStr} {v : Json}
    (hplain : joined key = key) (hbasic : key.all (fun c => decide (c.val < 0x10000)) = true)
    (hget : d.get key = some v) : (Json.rereadEntries [] d).get key = some v.reread := by
  obtain ⟨e, he, hek, hev⟩ : ∃ e ∈ d, e.1 = .str key ∧ e.2 = v := by
    unfold Dict.get at hget
    split at hget
    · next e hfind =>
        exact ⟨e, List.mem_of_find?_eq_some hfind, by simpa using List.find?_some hfind,
          Option.some.inj hget⟩
    · cases hget
  refine get_rereadEntries (fun e' he' hjoined => ?_) (Or.inr ⟨e, he, ?_⟩)
  · -- the texts of the other keys are other texts, before and after
    obtain ⟨s, hs⟩ := h.keys e' he'
    rw [hs] at hjoined
    obtain rfl : s = key := joined_eq_of_basic hjoined
      (fun c hc => of_decide_eq_true (List.all_eq_true.1 hbasic c hc))
    have hsame : e' = e := List.inj_on_of_nodup_map h.nodup he' he (hs.trans hek.symm)
    rw [hsame, hev]
  · rw [hek]
    exact hplain

end Values

/-! ## Reading back twice -/

theorem joined_cons {c : CodePoint} {s : PyStr}
    (h : ∀ d ∈ s.head?, ¬ (isHigh c.val = true ∧ isLow d.val = true)) :
    joined (c :: s) = c :: joined s := by
  cases s with
  | nil => rfl
  | cons d s => exact if_neg (h d rfl)

theorem isHigh_joinPair {high low : Nat} (h : isHigh high = true ∧ isLow low = true) :
    isHigh (joinPair high low).val = false ∧ isLow (joinPair high low).val = false := by
  simp only [isHigh, isLow, decide_eq_true_eq] at h
  have hval : 0x10000 ≤ (joinPair high low).val := by
    simp only [joinPair, Fin.val_ofNat]
    omega
  unfold isHigh isLow
  exact ⟨decide_eq_false (by omega), decide_eq_false (by omega)⟩

theorem head_joined {d c : CodePoint} {s : PyStr} (h : c ∈ (joined (d :: s)).head?) :
    c = d ∨ isLow c.val = false := by
  cases s with
  | nil => exact Or.inl (Option.mem_some_iff.1 h).symm
  | cons e s =>
      unfold joined at h
      by_cases hpair : isHigh d.val = true ∧ isLow e.val = true
      · rw [if_pos hpair] at h
        rw [← Option.mem_some_iff.1 h]
        exact Or.inr (isHigh_joinPair hpair).2
      · rw [if_neg hpair] at h
        exact Or.inl (Option.mem_some_iff.1 h).symm

/-- What was joined has no pair left to join. -/
theorem joined_joined (s : PyStr) : joined (joined s) = joined s := by
  induction s using joined.induct with
  | case1 => rfl
  | case2 c => rfl
  | case3 c d s hpair ih =>
      rw [joined, if_pos hpair, joined_cons, ih]
      intro e _ h
      rw [(isHigh_joinPair hpair).1] at h
      exact absurd h.1 (by decide)
  | case4 c d s hpair ih =>
      rw [joined, if_neg hpair, joined_cons, ih]
      rintro e he ⟨hhigh, hlow⟩
      rcases head_joined he with rfl | hnot
      · exact hpair ⟨hhigh, hlow⟩
      · exact absurd (hnot.symm.trans hlow) (by decide)

theorem Dict.set_new {d : Dict} {s : PyStr} (h : ∀ e ∈ d, e.1 ≠ .str s) (v : Json) :
    Dict.set d (.str s) v = d ++ [(.str s, v)] := by
  induction d with
  | nil => rfl
  | cons e d ih =>
      have hkey := h e List.mem_cons_self
      unfold Dict.set
      rw [Key.same_str, if_neg (by simpa using hkey),
        ih (fun e' he' => h e' (List.mem_cons_of_mem _ he'))]
      rfl

def Json.isScalar : Json → Bool
  | .null => true
  | .bool _ => true
  | .int _ => true
  | .str _ => true
  | _ => false

/-- The `dict` has texts for keys, each once, and neither floats nor containers for values. -/
structure Dict.Flat (d : Dict) : Prop where
  textual : d.Textual
  scalar : ∀ e ∈ d, e.2.isScalar = true

theorem joined_of_encodable {s : PyStr} (h : encodable s = true) : joined s = s := by
  induction s with
  | nil => rfl
  | cons c s ih =>
      simp only [encodable, List.all_cons, Bool.and_eq_true, Bool.not_eq_true'] at h
      have hhigh : isHigh c.val = false := by
        refine decide_eq_false (fun hrange => ?_)
        exact of_decide_eq_false h.1 ⟨hrange.1, by omega⟩
      rw [joined_cons, ih h.2]
      intro _ _ hpair
      rw [hhigh] at hpair
      exact absurd hpair.1 (by decide)

theorem surrogateFree_of_mem {d : Dict} (h : Json.surrogateFreeEntries d = true) :
    ∀ e ∈ d, e.1.surrogateFree = true ∧ e.2.surrogateFree = true := by
  induction d with
  | nil => exact fun _ he => nomatch he
  | cons e d ih =>
      simp only [Json.surrogateFreeEntries, Bool.and_eq_true] at h
      exact List.forall_mem_cons.2 ⟨h.1, ih h.2⟩

section Twice

variable [PyRuntime]

/-- A `dict` that is read back as it is. -/
structure Dict.Canonical (d : Dict) : Prop where
  textual : d.Textual
  keys : ∀ e ∈ d, joined e.1.text = e.1.text
  values : ∀ e ∈ d, e.2.reread = e.2

theorem canonical_nil : Dict.Canonical [] :=
  ⟨textual_nil, fun _ he => (nomatch he), fun _ he => (nomatch he)⟩

theorem Dict.Canonical.set {d : Dict} (h : d.Canonical) (s : PyStr) {v : Json} (hv : v.reread = v) :
    (Dict.set d (.str (joined s)) v).Canonical where
  textual := h.textual.set _ _
  keys := by
    intro e he
    rcases Dict.mem_set he with rfl | he
    · exact joined_joined s
    · exact h.keys e he
  values := by
    intro e he
    rcases Dict.mem_set he with rfl | he
    · exact hv
    · exact h.values e he

theorem rereadEntries_canonical {entries : Dict}
    (hvalues : ∀ e ∈ entries, e.2.reread.reread = e.2.reread) :
    ∀ {read : Dict}, read.Canonical → (Json.rereadEntries read entries).Canonical := by
  induction entries with
  | nil => exact fun h => h
  | cons e entries ih =>
      intro read h
      obtain ⟨k, v⟩ := e
      exact ih (fun e' he' => hvalues e' (List.mem_cons_of_mem _ he'))
        (h.set k.text (hvalues (k, v) List.mem_cons_self))

theorem rereadEntries_eq {entries : Dict} : ∀ {read : Dict}, Dict.Canonical (read ++ entries) →
    Json.rereadEntries read entries = read ++ entries := by
  induction entries with
  | nil => exact fun _ => (List.append_nil _).symm
  | cons e entries ih =>
      intro read h
      obtain ⟨k, v⟩ := e
      have hmem : (k, v) ∈ read ++ (k, v) :: entries := by simp
      obtain ⟨s, rfl⟩ := h.textual.keys _ hmem
      have hnodup := h.textual.nodup
      rw [List.map_append, List.map_cons] at hnodup
      have hnew : ∀ e' ∈ read, e'.1 ≠ Key.str s := by
        intro e' he' heq
        refine List.disjoint_of_nodup_append hnodup (List.mem_map_of_mem he') ?_
        rw [heq]
        exact List.mem_cons_self
      have hkey : joined (Key.str s).text = s := h.keys _ hmem
      have hv : v.reread = v := h.values _ hmem
      show Json.rereadEntries (Dict.set read (.str (joined (Key.str s).text)) v.reread) entries = _
      rw [hkey, hv, Dict.set_new hnew, ih (by rwa [List.append_assoc]), List.append_assoc]
      rfl

theorem reread_scalar {v : Json} (hscalar : v.isScalar = true) (hfree : v.surrogateFree = true) :
    v.reread = v := by
  cases v with
  | null | bool | int => rfl
  | str s => exact congrArg Json.str (joined_of_encodable hfree)
  | float | arr | obj => cases hscalar

/-- A flat object of Unicode texts is read back as it is. -/
theorem Dict.Flat.reread {d : Dict} (h : d.Flat) (hfree : Json.surrogateFreeEntries d = true) :
    (Json.obj d).reread = .obj d := by
  have hcanonical : Dict.Canonical d := by
    refine ⟨h.textual, fun e he => ?_, fun e he => ?_⟩
    · have hkey := (surrogateFree_of_mem hfree e he).1
      obtain ⟨s, hs⟩ := h.textual.keys e he
      rw [hs] at hkey ⊢
      exact joined_of_encodable hkey
    · exact reread_scalar (h.scalar e he) (surrogateFree_of_mem hfree e he).2
  exact congrArg Json.obj (@rereadEntries_eq _ d [] hcanonical)

/-- `float(repr(x))` is `x`. -/
def FloatsReread : Prop := ∀ s : PyStr, PyRuntime.floatOfText
  (PyRuntime.floatRepr (PyRuntime.floatOfText s)) = PyRuntime.floatOfText s

mutual

/-- **What was read back once is read back as it is.** -/
theorem reread_reread (hfloat : FloatsReread) : ∀ v : Json, v.reread.reread = v.reread
  | .null => rfl
  | .bool _ => rfl
  | .int _ => rfl
  | .float x => by
      cases x with
      | nan | inf => rfl
      | finite negative mantissa exponent =>
          have hround := hfloat (PyRuntime.floatRepr (.finite negative mantissa exponent))
          generalize hx : PyRuntime.floatOfText
            (PyRuntime.floatRepr (.finite negative mantissa exponent)) = x at hround
          have hread : (Json.float (.finite negative mantissa exponent)).reread = .float x :=
            congrArg Json.float hx
          rw [hread]
          cases x with
          | nan | inf => rfl
          | finite n m e => exact congrArg Json.float hround
  | .str s => congrArg Json.str (joined_joined s)
  | .arr items => congrArg Json.arr (rereadItems_reread hfloat items)
  | .obj entries => by
      have hcanonical : (Json.rereadEntries [] entries).Canonical :=
        rereadEntries_canonical (rereadEntries_values hfloat entries) canonical_nil
      exact congrArg Json.obj (rereadEntries_eq hcanonical)
termination_by structural v => v

theorem rereadItems_reread (hfloat : FloatsReread) : ∀ items : List Json,
    Json.rereadItems (Json.rereadItems items) = Json.rereadItems items
  | [] => rfl
  | v :: vs => congrArg₂ List.cons (reread_reread hfloat v) (rereadItems_reread hfloat vs)
termination_by structural items => items

theorem rereadEntries_values (hfloat : FloatsReread) : ∀ entries : List (Key × Json),
    ∀ e ∈ entries, e.2.reread.reread = e.2.reread
  | [], _, he => nomatch he
  | (k, v) :: es, e, he => by
      have hv := reread_reread hfloat v
      have hes := rereadEntries_values hfloat es
      rcases List.mem_cons.1 he with rfl | he
      · exact hv
      · exact hes e he
termination_by structural entries => entries

end

end Twice
