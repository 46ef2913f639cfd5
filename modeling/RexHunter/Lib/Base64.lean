import RexHunter.Lib.Text

set_option autoImplicit false

/-! # Base64

Bytes written over an alphabet of 64 characters. Three bytes are 24 bits and so four characters of
six; a last group of two bytes is three characters, one of one byte two, the missing bits are zeros,
and `=` pads the group to four. The decoder takes the padding or none, and insists that the bits a
last character has to spare are zero. -/

/-- An alphabet of 64 characters, with the value of each; `=` is none of them. -/
structure Base64.Alphabet where
  char : Nat → CodePoint
  value : CodePoint → Option Nat
  value_char : ∀ n, n < 64 → value (char n) = some n
  pad_ne_char : ∀ n, n < 64 → (char n).val ≠ 0x3D

namespace Base64

/-! ## Bytes and sextets -/

/-- The sextets of the bytes. -/
def sextets : List UInt8 → List Nat
  | [] => []
  | [a] => [a.toNat / 4, a.toNat % 4 * 16]
  | [a, b] => [a.toNat / 4, a.toNat % 4 * 16 + b.toNat / 16, b.toNat % 16 * 4]
  | a :: b :: c :: rest =>
      a.toNat / 4 :: (a.toNat % 4 * 16 + b.toNat / 16) :: (b.toNat % 16 * 4 + c.toNat / 64) ::
        c.toNat % 64 :: sextets rest

/-- The bytes of the sextets. -/
def bytes : List Nat → Option (List UInt8)
  | [] => some []
  | [_] => none
  | [w, x] => if x % 16 = 0 then some [UInt8.ofNat (w * 4 + x / 16)] else none
  | [w, x, y] =>
      if y % 4 = 0 then some [UInt8.ofNat (w * 4 + x / 16), UInt8.ofNat (x % 16 * 16 + y / 4)]
      else none
  | w :: x :: y :: z :: rest =>
      (bytes rest).map (fun b => UInt8.ofNat (w * 4 + x / 16) :: UInt8.ofNat (x % 16 * 16 + y / 4) ::
        UInt8.ofNat (y % 4 * 64 + z) :: b)

theorem ofNat_of_eq {a : UInt8} {n : Nat} (h : n = a.toNat) : UInt8.ofNat n = a := by
  rw [h]
  exact UInt8.ofNat_toNat

theorem sextets_lt (b : List UInt8) : ∀ n ∈ sextets b, n < 64 := by
  induction b using sextets.induct with
  | case1 => exact fun _ h => nomatch h
  | case2 a =>
      have ha := a.toNat_lt
      simp only [sextets, List.forall_mem_cons]
      exact ⟨by omega, by omega, fun _ h => nomatch h⟩
  | case3 a b =>
      have ha := a.toNat_lt
      have hb := b.toNat_lt
      simp only [sextets, List.forall_mem_cons]
      exact ⟨by omega, by omega, by omega, fun _ h => nomatch h⟩
  | case4 a b c rest ih =>
      have ha := a.toNat_lt
      have hb := b.toNat_lt
      have hc := c.toNat_lt
      simp only [sextets, List.forall_mem_cons]
      exact ⟨by omega, by omega, by omega, by omega, ih⟩

/-- The bytes of the sextets of the bytes. -/
theorem bytes_sextets (b : List UInt8) : bytes (sextets b) = some b := by
  induction b using sextets.induct with
  | case1 => rfl
  | case2 a =>
      have ha := a.toNat_lt
      unfold sextets bytes
      rw [if_pos (by omega), ofNat_of_eq (a := a) (by omega)]
  | case3 a b =>
      have ha := a.toNat_lt
      have hb := b.toNat_lt
      unfold sextets bytes
      rw [if_pos (by omega), ofNat_of_eq (a := a) (by omega), ofNat_of_eq (a := b) (by omega)]
  | case4 a b c rest ih =>
      have ha := a.toNat_lt
      have hb := b.toNat_lt
      have hc := c.toNat_lt
      unfold sextets bytes
      rw [ih, Option.map_some, ofNat_of_eq (a := a) (by omega), ofNat_of_eq (a := b) (by omega),
        ofNat_of_eq (a := c) (by omega)]

/-! ## Text -/

/-- The padding of so many sextets. -/
def padding (n : Nat) : Nat := (4 - n % 4) % 4

/-- The text of the bytes. -/
def encode (alphabet : Alphabet) (b : List UInt8) : PyStr :=
  (sextets b).map alphabet.char ++ List.replicate (padding (sextets b).length) 0x3D

/-- The values of the characters. -/
def values (alphabet : Alphabet) : PyStr → Option (List Nat)
  | [] => some []
  | c :: s => do
      let n ← alphabet.value c
      let ns ← values alphabet s
      return n :: ns

def isPad (c : CodePoint) : Bool := decide (c.val = 0x3D)

/-- The bytes of the text; it may be padded with as many `=` as its length calls for, or fewer. -/
def decode (alphabet : Alphabet) (s : PyStr) : Option (List UInt8) := do
  let body := s.takeWhile (fun c => !isPad c)
  let rest := s.dropWhile (fun c => !isPad c)
  if rest.all isPad ∧ rest.length ≤ padding body.length then
    let ns ← values alphabet body
    bytes ns
  else none

theorem values_map (alphabet : Alphabet) {ns : List Nat} (h : ∀ n ∈ ns, n < 64) :
    values alphabet (ns.map alphabet.char) = some ns := by
  induction ns with
  | nil => rfl
  | cons n ns ih =>
      obtain ⟨hn, hns⟩ := List.forall_mem_cons.1 h
      simp [values, alphabet.value_char n hn, ih hns]

/-- **What was encoded is decoded.** -/
theorem decode_encode (alphabet : Alphabet) (b : List UInt8) :
    decode alphabet (encode alphabet b) = some b := by
  have hchars : ∀ c ∈ (sextets b).map alphabet.char, (!isPad c) = true := by
    intro c hc
    obtain ⟨n, hn, rfl⟩ := List.mem_map.1 hc
    simpa [isPad] using alphabet.pad_ne_char n (sextets_lt b n hn)
  have hpads : ∀ k, (List.replicate k (0x3D : CodePoint)).takeWhile (fun c => !isPad c) = [] ∧
      (List.replicate k (0x3D : CodePoint)).dropWhile (fun c => !isPad c)
        = List.replicate k 0x3D := by
    intro k
    cases k with
    | zero => exact ⟨rfl, rfl⟩
    | succ k => exact ⟨rfl, rfl⟩
  have hbody : (encode alphabet b).takeWhile (fun c => !isPad c)
      = (sextets b).map alphabet.char := by
    unfold encode
    rw [List.takeWhile_append_of_pos hchars, (hpads _).1, List.append_nil]
  have hrest : (encode alphabet b).dropWhile (fun c => !isPad c)
      = List.replicate (padding (sextets b).length) 0x3D := by
    unfold encode
    rw [List.dropWhile_append_of_pos hchars, (hpads _).2]
  have hpadded : (List.replicate (padding (sextets b).length) (0x3D : CodePoint)).all isPad = true ∧
      (List.replicate (padding (sextets b).length) (0x3D : CodePoint)).length
        ≤ padding ((sextets b).map alphabet.char).length := by
    refine ⟨List.all_eq_true.2 (fun c hc => ?_), ?_⟩
    · obtain rfl := List.eq_of_mem_replicate hc
      rfl
    · refine Nat.le_of_eq ?_
      rw [List.length_replicate, List.length_map]
  unfold decode
  rw [hbody, hrest]
  simp only [if_pos hpadded, values_map alphabet (sextets_lt b), Option.bind_eq_bind,
    Option.bind_some]
  exact bytes_sextets b

/-! ## The two alphabets of the RFC -/

/-- The letters and digits, and two more characters. -/
def characters (last : String) : PyStr :=
  py ("ABCDEFGHIJKLMNOPQRSTUVWXYZabcdefghijklmnopqrstuvwxyz0123456789" ++ last)

def standard : Alphabet where
  char n := (characters "+/").getD n 0
  value c := (characters "+/").findIdx? (fun d => decide (d = c))
  value_char := by decide +kernel
  pad_ne_char := by decide +kernel

def urlSafe : Alphabet where
  char n := (characters "-_").getD n 0
  value c := (characters "-_").findIdx? (fun d => decide (d = c))
  value_char := by decide +kernel
  pad_ne_char := by decide +kernel

end Base64
