import RexHunter.Lib.JsonSpelling

set_option autoImplicit false

/-! # Compact JSON

Writers of JSON other than `json.dumps` put no blanks, leave a character as it is unless JSON forbids
it, and write a float that is no number as `null`. Such a text of a flat object has the tokens
`json.dumps` gives it, so `json.loads` reads it as the same object. -/

/-- A character of a string literal: quotes, backslashes and control characters are escaped. -/
def compactEscape (c : CodePoint) : PyStr :=
  if c.val = 0x22 then py "\\\""
  else if c.val = 0x5C then py "\\\\"
  else if c.val = 0x0A then py "\\n"
  else if c.val = 0x0D then py "\\r"
  else if c.val = 0x09 then py "\\t"
  else if c.val = 0x0C then py "\\f"
  else if c.val = 0x08 then py "\\b"
  else if c.val < 0x20 then unicodeEscape c.val
  else [c]

/-- A string literal. -/
def compactQuoted (s : PyStr) : PyStr := py "\"" ++ s.flatMap compactEscape ++ py "\""

section Compact

variable [PyRuntime]

mutual

/-- The compact text. -/
def Json.compact : Json → PyStr
  | .null => py "null"
  | .bool b => if b then py "true" else py "false"
  | .int i => intRepr i
  | .float x =>
      match x with
      | .finite _ _ _ => floatText x
      | _ => py "null"
  | .str s => compactQuoted s
  | .arr items => py "[" ++ compactItems items ++ py "]"
  | .obj entries => py "\x7b" ++ compactEntries entries ++ py "\x7d"
termination_by structural v => v

def Json.compactItems : List Json → PyStr
  | [] => []
  | v :: vs =>
      match vs with
      | [] => v.compact
      | _ => v.compact ++ py "," ++ compactItems vs
termination_by structural vs => vs

def Json.compactEntries : List (Key × Json) → PyStr
  | [] => []
  | (k, v) :: es =>
      match es with
      | [] => compactQuoted k.text ++ py ":" ++ v.compact
      | _ => compactQuoted k.text ++ py ":" ++ v.compact ++ py "," ++ compactEntries es
termination_by structural es => es

end

@[simp] theorem Json.compactItems_cons (v w : Json) (vs : List Json) :
    compactItems (v :: w :: vs) = v.compact ++ py "," ++ compactItems (w :: vs) := rfl

@[simp] theorem Json.compactEntries_cons (k : Key) (v : Json) (e : Key × Json)
    (es : List (Key × Json)) : compactEntries ((k, v) :: e :: es)
      = compactQuoted k.text ++ py ":" ++ v.compact ++ py "," ++ compactEntries (e :: es) := rfl

end Compact

/-! ## The tokens -/

theorem compactEscape_escaped {c : CodePoint} (hc : c.isSurrogate = false) :
    Escaped c (compactEscape c) := by
  unfold compactEscape
  split
  · next h => exact escaped_simple h (by decide) rfl (by decide) rfl
  split
  · next h => exact escaped_simple h (by decide) rfl (by decide) rfl
  split
  · next h => exact escaped_simple h (by decide) rfl (by decide) rfl
  split
  · next h => exact escaped_simple h (by decide) rfl (by decide) rfl
  split
  · next h => exact escaped_simple h (by decide) rfl (by decide) rfl
  split
  · next h => exact escaped_simple h (by decide) rfl (by decide) rfl
  split
  · next h => exact escaped_simple h (by decide) rfl (by decide) rfl
  split
  · next h => exact Escaped.bmp (by omega)
  · next hquote hbackslash _ _ _ _ _ hleast =>
      have hrange := of_decide_eq_false hc
      have hsurrogate := not_surrogate_of_lt (c := c) (by omega)
      exact Escaped.plain hquote hbackslash (by omega) hsurrogate.1 hsurrogate.2

/-- A string literal is read back. -/
theorem scanString_compact {s : PyStr} (h : encodable s = true) (rest : PyStr) :
    scanString 0 (s.flatMap compactEscape ++ Fin.ofNat _ 0x22 :: rest)
      = some (s, (s.flatMap compactEscape).length + 1) := by
  induction s with
  | nil => rfl
  | cons c s ih =>
      simp only [encodable, List.all_cons, Bool.and_eq_true, Bool.not_eq_true'] at h
      have hhigh : isHigh c.val ≠ true := by
        intro hhigh
        have hrange := of_decide_eq_false h.1
        have := of_decide_eq_true hhigh
        omega
      rw [List.flatMap_cons, List.append_assoc,
        (compactEscape_escaped h.1).scan (fun hc => absurd hc hhigh), ih h.2]
      simp only [Option.map_some, List.length_append]
      congr 2
      omega

theorem lex_compactQuoted {s : PyStr} (h : encodable s = true) (rest : PyStr) :
    lex 0 (compactQuoted s ++ rest) = .str s :: lex 0 rest := by
  refine lex_token (List.cons_ne_nil _ _) ?_ ?_
  · intro c hc
    cases hc
    rfl
  · have hscan := scanString_compact h rest
    have htext : compactQuoted s ++ rest
        = Fin.ofNat _ 0x22 :: (s.flatMap compactEscape ++ Fin.ofNat _ 0x22 :: rest) := by
      simp only [compactQuoted, List.append_assoc]
      rfl
    have hlength : (compactQuoted s).length = (s.flatMap compactEscape).length + 1 + 1 := by
      simp only [compactQuoted, List.length_append]
      show 1 + _ + 1 = _
      omega
    have hnone : scanNumber
        (Fin.ofNat _ 0x22 :: (s.flatMap compactEscape ++ Fin.ofNat _ 0x22 :: rest)) = none := rfl
    rw [htext, hlength]
    simp only [scanToken, hnone]
    rw [if_pos (by decide), hscan]
    rfl

theorem lex_bareColon (rest : PyStr) : lex 0 (py ":" ++ rest) = .colon :: lex 0 rest := rfl

theorem lex_bareComma (rest : PyStr) : lex 0 (py "," ++ rest) = .comma :: lex 0 rest := rfl

section Flat

variable [PyRuntime] {d : Dict}

omit [PyRuntime] in
/-- A member of a flat object has a text for its key and a scalar for its value. -/
theorem Dict.Flat.member (hflat : d.Flat) (hfree : Json.surrogateFreeEntries d = true)
    {e : Key × Json} (he : e ∈ d) : (∃ key, e.1 = .str key ∧ encodable key = true) ∧
      e.2.isScalar = true ∧ e.2.surrogateFree = true := by
  obtain ⟨key, hkey⟩ := hflat.textual.keys e he
  obtain ⟨hk, hv⟩ := surrogateFree_of_mem hfree e he
  rw [hkey] at hk
  exact ⟨⟨key, hkey, hk⟩, hflat.scalar e he, hv⟩

theorem lex_compact {v : Json} (hscalar : v.isScalar = true) (hfree : v.surrogateFree = true)
    (rest : PyStr) (hrest : Delimited rest) :
    lex 0 (v.compact ++ rest) = v.tokens ++ lex 0 rest := by
  cases v with
  | str s =>
      rw [show (Json.str s).compact = compactQuoted s from rfl, lex_compactQuoted hfree]
      show _ = Token.str (joined s) :: lex 0 rest
      rw [joined_of_encodable hfree]
  | null => exact lex_write .null rest hrest
  | bool b => exact lex_write (.bool b) rest hrest
  | int i => exact lex_write (.int i) rest hrest
  | float | arr | obj => cases hscalar

/-- The members have the tokens `json.dumps` gives them. -/
theorem lex_compactEntries (rest : PyStr) (hrest : Delimited rest) : ∀ {d : Dict},
    (∀ e ∈ d, (∃ key, e.1 = .str key ∧ encodable key = true) ∧
      e.2.isScalar = true ∧ e.2.surrogateFree = true) →
    lex 0 (Json.compactEntries d ++ rest) = Json.tokensEntries d ++ lex 0 rest
  | [], _ => rfl
  | [(k, v)], h => by
      obtain ⟨⟨key, rfl, hkey⟩, hscalar, hfree⟩ := h (k, v) List.mem_cons_self
      simp only [Json.compactEntries, Json.tokensEntries, Key.text, List.append_assoc,
        List.cons_append]
      rw [lex_compactQuoted hkey, lex_bareColon, lex_compact hscalar hfree rest hrest,
        joined_of_encodable hkey]
  | (k, v) :: e :: es, h => by
      obtain ⟨⟨⟨key, rfl, hkey⟩, hscalar, hfree⟩, htail⟩ := List.forall_mem_cons.1 h
      have hes := lex_compactEntries rest hrest htail
      have hvalue := lex_compact hscalar hfree (py "," ++ (Json.compactEntries (e :: es) ++ rest))
        (delimited_of_val (Or.inl rfl))
      simp only [Json.compactEntries_cons, Json.tokensEntries_cons, Key.text, List.append_assoc,
        List.cons_append]
      rw [lex_compactQuoted hkey, lex_bareColon, hvalue, lex_bareComma, hes,
        joined_of_encodable hkey]

/-- **The compact text spells the object.** -/
theorem spells_compact (hflat : d.Flat) (hfree : Json.surrogateFreeEntries d = true) :
    (Json.obj d).Spells (Json.obj d).compact where
  noMark := by
    show some (Fin.ofNat _ 0x7B) ≠ some (Fin.ofNat _ 0xFEFF)
    decide
  tokens := by
    have hentries := lex_compactEntries (py "\x7d") (delimited_of_val (Or.inr (Or.inr rfl)))
      (fun e he => hflat.member hfree he)
    rw [Json.compact, List.append_assoc, lex_lbrace, hentries]
    rfl

end Flat

/-! ## The characters -/

theorem encodable_floatText [PyRuntime] (x : PyFloat) : encodable (floatText x) = true := by
  refine List.all_eq_true.2 (fun c hc => ?_)
  have hascii := of_decide_eq_true (List.all_eq_true.1 (isAscii_floatText x) c hc)
  simp only [CodePoint.isSurrogate, Bool.not_eq_true', decide_eq_false_iff_not]
  omega

/-- The text of a key has no surrogate unless the key has. -/
theorem Key.encodable_text [PyRuntime] {k : Key} (h : k.surrogateFree = true) :
    encodable k.text = true := by
  have hvisible : ∀ c : CodePoint, 0x20 ≤ c.val → c.val ≤ 0x7E → (!c.isSurrogate) = true := by
    intro c hlow hhigh
    simp only [CodePoint.isSurrogate, Bool.not_eq_true', decide_eq_false_iff_not]
    omega
  cases k with
  | str s => exact h
  | int i => exact all_intRepr hvisible i
  | float x => exact encodable_floatText x
  | bool b => cases b <;> rfl
  | null => rfl

section Characters

variable {P : CodePoint → Bool}
  (hP : ∀ c : CodePoint, 0x20 ≤ c.val → c.isSurrogate = false → P c = true)

include hP

theorem visible_of_printing (c : CodePoint) (hlow : 0x20 ≤ c.val) (hhigh : c.val ≤ 0x7E) :
    P c = true := by
  refine hP c hlow ?_
  simp only [CodePoint.isSurrogate, decide_eq_false_iff_not]
  omega

/-- A word or a mark of punctuation. -/
theorem all_punctuation {s : PyStr}
    (h : s.all (fun c => decide (0x20 ≤ c.val ∧ c.val ≤ 0x7E)) = true) : s.all P = true :=
  all_literal (visible_of_printing hP) h

theorem all_compactEscape {c : CodePoint} (hc : c.isSurrogate = false) :
    (compactEscape c).all P = true := by
  unfold compactEscape
  split_ifs
  case pos => exact all_punctuation hP (s := py "\\\"") (by decide)
  case pos => exact all_punctuation hP (s := py "\\\\") (by decide)
  case pos => exact all_punctuation hP (s := py "\\n") (by decide)
  case pos => exact all_punctuation hP (s := py "\\r") (by decide)
  case pos => exact all_punctuation hP (s := py "\\t") (by decide)
  case pos => exact all_punctuation hP (s := py "\\f") (by decide)
  case pos => exact all_punctuation hP (s := py "\\b") (by decide)
  case pos => exact all_unicodeEscape (visible_of_printing hP) c.val
  case neg =>
    simp only [List.all_cons, List.all_nil, Bool.and_true]
    exact hP c (by omega) hc

theorem all_compactQuoted {s : PyStr} (h : encodable s = true) :
    (compactQuoted s).all P = true := by
  have hbody : (s.flatMap compactEscape).all P = true := by
    induction s with
    | nil => rfl
    | cons c s ih =>
        simp only [encodable, List.all_cons, Bool.and_eq_true, Bool.not_eq_true'] at h
        rw [List.flatMap_cons, List.all_append, all_compactEscape hP h.1, ih h.2]
        rfl
  rw [compactQuoted, List.all_append, List.all_append, hbody, all_punctuation hP (by decide)]
  rfl

variable [PyRuntime]

mutual

/-- **Unicode text is written without control characters, as Unicode text.** -/
theorem all_compact (hfloat : ∀ x, (floatText x).all P = true) :
    ∀ v : Json, v.surrogateFree = true → v.compact.all P = true
  | .null, _ => all_punctuation hP (s := py "null") (by decide)
  | .bool true, _ => all_punctuation hP (s := py "true") (by decide)
  | .bool false, _ => all_punctuation hP (s := py "false") (by decide)
  | .int i, _ => all_intRepr (visible_of_printing hP) i
  | .float .nan, _ => all_punctuation hP (s := py "null") (by decide)
  | .float (.inf _), _ => all_punctuation hP (s := py "null") (by decide)
  | .float (.finite negative mantissa exponent), _ =>
      hfloat (.finite negative mantissa exponent)
  | .str s, h => all_compactQuoted hP h
  | .arr items, h => by
      rw [Json.compact, List.all_append, List.all_append, all_compactItems hfloat items h,
        all_punctuation hP (by decide), all_punctuation hP (by decide)]
      rfl
  | .obj entries, h => by
      rw [Json.compact, List.all_append, List.all_append, all_compactEntries hfloat entries h,
        all_punctuation hP (by decide), all_punctuation hP (by decide)]
      rfl

theorem all_compactItems (hfloat : ∀ x, (floatText x).all P = true) :
    ∀ items : List Json, Json.surrogateFreeItems items = true →
    (Json.compactItems items).all P = true
  | [], _ => rfl
  | [v], h => all_compact hfloat v (Bool.and_eq_true_iff.1 h).1
  | v :: w :: vs, h => by
      obtain ⟨hv, hvs⟩ := Bool.and_eq_true_iff.1 h
      rw [Json.compactItems_cons, List.all_append, List.all_append, all_compact hfloat v hv,
        all_compactItems hfloat (w :: vs) hvs, all_punctuation hP (by decide)]
      rfl

theorem all_compactEntries (hfloat : ∀ x, (floatText x).all P = true) :
    ∀ entries : List (Key × Json), Json.surrogateFreeEntries entries = true →
    (Json.compactEntries entries).all P = true
  | [], _ => rfl
  | [(k, v)], h => by
      obtain ⟨hkv, _⟩ := Bool.and_eq_true_iff.1 h
      obtain ⟨hk, hv⟩ := Bool.and_eq_true_iff.1 hkv
      rw [Json.compactEntries, List.all_append, List.all_append,
        all_compactQuoted hP (Key.encodable_text hk), all_compact hfloat v hv,
        all_punctuation hP (by decide)]
      rfl
  | (k, v) :: e :: es, h => by
      obtain ⟨hkv, hes⟩ := Bool.and_eq_true_iff.1 h
      obtain ⟨hk, hv⟩ := Bool.and_eq_true_iff.1 hkv
      rw [Json.compactEntries_cons, List.all_append, List.all_append, List.all_append,
        List.all_append, all_compactQuoted hP (Key.encodable_text hk), all_compact hfloat v hv,
        all_compactEntries hfloat (e :: es) hes, all_punctuation hP (by decide),
        all_punctuation hP (by decide)]
      rfl

end

end Characters

theorem encodable_compact [PyRuntime] {v : Json} (h : v.surrogateFree = true) :
    encodable v.compact = true :=
  all_compact (P := fun c => !c.isSurrogate) (fun c _ hc => by rw [hc]; rfl) encodable_floatText v h
