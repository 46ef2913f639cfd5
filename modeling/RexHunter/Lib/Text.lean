import Mathlib.Algebra.GroupWithZero.Nat
import Mathlib.Data.List.Basic

set_option autoImplicit false

/-! # Python text

A Python `str` is a sequence of code points, lone surrogates included; it is kept apart from Lean's
`String`, whose characters are Unicode scalar values, because a `str` holding a surrogate exists in
memory but cannot be encoded as UTF-8. -/

/-- A code point, surrogates included. -/
abbrev CodePoint : Type := Fin 0x110000

instance CodePoint.neZero : NeZero 0x110000 := ⟨by decide⟩

/-- Python's `str`. -/
abbrev PyStr : Type := List CodePoint

instance PyStr.lawfulBEq : LawfulBEq PyStr := inferInstance

/-- Python's `bytes`. -/
abbrev PyBytes : Type := List UInt8

/-- The code point of a character. -/
def Char.codePoint (c : Char) : CodePoint :=
  ⟨c.toNat, by
    have h := c.valid
    simp only [UInt32.isValidChar, Nat.isValidChar, UInt32.toNat] at h
    show c.val.toNat < 0x110000
    simp only [UInt32.toNat]
    omega⟩

/-- The Python literal with the characters of `s`. -/
def py (s : String) : PyStr := s.toList.map Char.codePoint

def CodePoint.isSurrogate (c : CodePoint) : Bool := decide (0xD800 ≤ c.val ∧ c.val ≤ 0xDFFF)

/-- UTF-8 encodes the text: no code point of it is a surrogate. -/
def encodable (s : PyStr) : Bool := s.all (fun c => !c.isSurrogate)

@[simp] theorem encodable_nil : encodable [] = true := rfl

@[simp] theorem encodable_append (s t : PyStr) :
    encodable (s ++ t) = (encodable s && encodable t) := by
  simp [encodable, List.all_append]

/-! ## UTF-8 -/

/-- The bytes of one code point. -/
def CodePoint.utf8 (c : CodePoint) : PyBytes :=
  if c.val < 0x80 then [UInt8.ofNat c.val]
  else if c.val < 0x800 then
    [UInt8.ofNat (0xC0 + c.val / 0x40), UInt8.ofNat (0x80 + c.val % 0x40)]
  else if c.val < 0x10000 then
    [UInt8.ofNat (0xE0 + c.val / 0x1000), UInt8.ofNat (0x80 + c.val / 0x40 % 0x40),
      UInt8.ofNat (0x80 + c.val % 0x40)]
  else
    [UInt8.ofNat (0xF0 + c.val / 0x40000), UInt8.ofNat (0x80 + c.val / 0x1000 % 0x40),
      UInt8.ofNat (0x80 + c.val / 0x40 % 0x40), UInt8.ofNat (0x80 + c.val % 0x40)]

/-- `str.encode()`; `none` is `UnicodeEncodeError`. -/
def encode (s : PyStr) : Option PyBytes :=
  if encodable s then some (s.flatMap CodePoint.utf8) else none

/-- The payload of a continuation byte. -/
def continuation (b : UInt8) : Option Nat :=
  if 0x80 ≤ b.toNat ∧ b.toNat ≤ 0xBF then some (b.toNat - 0x80) else none

/-- The code point of a multi-byte sequence, unless the sequence is overlong, out of range, or a
    surrogate that is not let through. -/
def decoded (surrogates : Bool) (least n : Nat) : Option CodePoint :=
  if h : n < 0x110000 then
    if least ≤ n ∧ (surrogates = true ∨ CodePoint.isSurrogate ⟨n, h⟩ = false) then some ⟨n, h⟩
    else none
  else none

/-- `bytes.decode()`; with `surrogates`, under the `surrogatepass` error handler. `none` is
    `UnicodeDecodeError`. -/
def decode (surrogates : Bool) : PyBytes → Option PyStr
  | [] => some []
  | a :: bs =>
      if a.toNat < 0x80 then (decode surrogates bs).map (Fin.ofNat _ a.toNat :: ·)
      else
        match bs with
        | [] => none
        | b :: cs =>
            if 0xC2 ≤ a.toNat ∧ a.toNat ≤ 0xDF then
              match continuation b with
              | some x => ((decoded surrogates 0x80 ((a.toNat - 0xC0) * 0x40 + x)).map List.cons)
                  <*> decode surrogates cs
              | none => none
            else
              match cs with
              | [] => none
              | c :: ds =>
                  if 0xE0 ≤ a.toNat ∧ a.toNat ≤ 0xEF then
                    match continuation b, continuation c with
                    | some x, some y =>
                        ((decoded surrogates 0x800
                          ((a.toNat - 0xE0) * 0x1000 + x * 0x40 + y)).map List.cons)
                            <*> decode surrogates ds
                    | _, _ => none
                  else
                    match ds with
                    | [] => none
                    | d :: es =>
                        if 0xF0 ≤ a.toNat ∧ a.toNat ≤ 0xF4 then
                          match continuation b, continuation c, continuation d with
                          | some x, some y, some z =>
                              ((decoded surrogates 0x10000
                                ((a.toNat - 0xF0) * 0x40000 + x * 0x1000 + y * 0x40 + z)).map
                                  List.cons) <*> decode surrogates es
                          | _, _, _ => none
                        else none
termination_by structural bs => bs

/-- The bytes that may follow the lead byte `a` of a multi-byte sequence. -/
def follows (a b : UInt8) : Bool :=
  if 0xC2 ≤ a.toNat ∧ a.toNat ≤ 0xDF then decide (0x80 ≤ b.toNat ∧ b.toNat ≤ 0xBF)
  else if a.toNat = 0xE0 then decide (0xA0 ≤ b.toNat ∧ b.toNat ≤ 0xBF)
  else if a.toNat = 0xED then decide (0x80 ≤ b.toNat ∧ b.toNat ≤ 0x9F)
  else if 0xE1 ≤ a.toNat ∧ a.toNat ≤ 0xEF then decide (0x80 ≤ b.toNat ∧ b.toNat ≤ 0xBF)
  else if a.toNat = 0xF0 then decide (0x90 ≤ b.toNat ∧ b.toNat ≤ 0xBF)
  else if a.toNat = 0xF4 then decide (0x80 ≤ b.toNat ∧ b.toNat ≤ 0x8F)
  else if 0xF1 ≤ a.toNat ∧ a.toNat ≤ 0xF3 then decide (0x80 ≤ b.toNat ∧ b.toNat ≤ 0xBF)
  else false

/-- U+FFFD. -/
def replacementCharacter : CodePoint := 0xFFFD

/-- `bytes.decode(errors="replace")`: every longest start of a sequence that cannot be completed
    becomes one U+FFFD. -/
def decodeReplace : PyBytes → PyStr
  | [] => []
  | a :: bs =>
      if a.toNat < 0x80 then Fin.ofNat _ a.toNat :: decodeReplace bs
      else
        match bs with
        | [] => [replacementCharacter]
        | b :: cs =>
            if follows a b = false then replacementCharacter :: decodeReplace (b :: cs)
            else if a.toNat ≤ 0xDF then
              Fin.ofNat _ ((a.toNat - 0xC0) * 0x40 + (b.toNat - 0x80)) :: decodeReplace cs
            else
              match cs with
              | [] => [replacementCharacter]
              | c :: ds =>
                  match continuation c with
                  | none => replacementCharacter :: decodeReplace (c :: ds)
                  | some y =>
                      if a.toNat ≤ 0xEF then
                        Fin.ofNat _ ((a.toNat - 0xE0) * 0x1000 + (b.toNat - 0x80) * 0x40 + y) ::
                          decodeReplace ds
                      else
                        match ds with
                        | [] => [replacementCharacter]
                        | d :: es =>
                            match continuation d with
                            | none => replacementCharacter :: decodeReplace (d :: es)
                            | some z =>
                                Fin.ofNat _ ((a.toNat - 0xF0) * 0x40000 +
                                  (b.toNat - 0x80) * 0x1000 + y * 0x40 + z) :: decodeReplace es
termination_by structural bs => bs

/-- The text has ASCII characters only. -/
def isAscii (s : PyStr) : Bool := s.all (fun c => decide (c.val < 0x80))

/-- ASCII text is encodable, one byte a character. -/
theorem encode_of_isAscii {s : PyStr} (h : isAscii s = true) :
    encode s = some (s.map (fun c => UInt8.ofNat c.val)) := by
  have hchar : ∀ c ∈ s, c.val < 0x80 := by
    intro c hc
    exact of_decide_eq_true (List.all_eq_true.1 h c hc)
  have hencodable : encodable s = true := by
    refine List.all_eq_true.2 (fun c hc => ?_)
    have hlt := hchar c hc
    simp only [CodePoint.isSurrogate, Bool.not_eq_true', decide_eq_false_iff_not]
    omega
  unfold encode
  rw [if_pos hencodable, List.flatMap_def]
  congr 1
  induction s with
  | nil => rfl
  | cons c s ih =>
      have htail : isAscii s = true := by
        simp only [isAscii, List.all_cons, Bool.and_eq_true] at h ⊢
        exact h.2
      have hc : c.utf8 = [UInt8.ofNat c.val] := by
        unfold CodePoint.utf8
        rw [if_pos (hchar c List.mem_cons_self)]
      simp only [List.map_cons, List.flatten_cons, hc, List.singleton_append]
      rw [ih htail (fun c hc => hchar c (List.mem_cons_of_mem _ hc)) ?_]
      simp only [encodable, List.all_cons, Bool.and_eq_true] at hencodable ⊢
      exact hencodable.2

/-- Reading the bytes of ASCII text gives the text back. -/
theorem decode_of_isAscii (surrogates : Bool) {s : PyStr} (h : isAscii s = true) :
    decode surrogates (s.map (fun c => UInt8.ofNat c.val)) = some s := by
  induction s with
  | nil => rfl
  | cons c s ih =>
      simp only [isAscii, List.all_cons, Bool.and_eq_true, decide_eq_true_eq] at h
      have hval : (UInt8.ofNat c.val).toNat = c.val := by
        rw [UInt8.toNat_ofNat']
        omega
      have hchar : (Fin.ofNat 0x110000 c.val) = c := by
        apply Fin.ext
        simp only [Fin.val_ofNat]
        exact Nat.mod_eq_of_lt c.isLt
      simp only [List.map_cons]
      unfold decode
      rw [hval, if_pos h.1, ih h.2, hchar]
      rfl

/-! ## Methods of `str` -/

/-- `s.startswith(prefix)`, and what `s.removeprefix(prefix)` leaves then. -/
def afterPrefix : PyStr → PyStr → Option PyStr
  | [], s => some s
  | _ :: _, [] => none
  | p :: ps, c :: s => if p = c then afterPrefix ps s else none

/-- `s.strip()`, with the blanks `isSpace` knows. -/
def strip (isSpace : CodePoint → Bool) (s : PyStr) : PyStr :=
  ((s.dropWhile isSpace).reverse.dropWhile isSpace).reverse
