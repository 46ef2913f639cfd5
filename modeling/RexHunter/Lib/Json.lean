import Mathlib.Algebra.Group.Int.Defs
import RexHunter.Lib.Text

set_option autoImplicit false

/-! # JSON data as Python holds it

`json.loads` yields `None`, `bool`, `int`, `float`, `str`, `list` and `dict`; a `dict` built from a
list of pairs may also have the other scalars as keys, and `json.dumps` turns these into text. What
depends on Unicode tables, on the shortest decimal form of a binary float or on the size of the C
stack is a parameter (`PyRuntime`). -/

/-- A Python `float`; a finite one is `± mantissa * 2 ^ exponent`. -/
inductive PyFloat where
  | nan
  | inf (negative : Bool)
  | finite (negative : Bool) (mantissa : Nat) (exponent : Int)
deriving DecidableEq, Repr

/-- A `dict` key that JSON data can yield. -/
inductive Key where
  | str (s : PyStr)
  | int (i : Int)
  | float (x : PyFloat)
  | bool (b : Bool)
  | null
deriving DecidableEq, Repr

/-- A JSON value; the entries of an object are in insertion order. -/
inductive Json where
  | null
  | bool (b : Bool)
  | int (i : Int)
  | float (x : PyFloat)
  | str (s : PyStr)
  | arr (items : List Json)
  | obj (entries : List (Key × Json))

/-- A Python `dict`. -/
abbrev Dict : Type := List (Key × Json)

/-! ## Number literals -/

def isDigit (c : CodePoint) : Bool := decide (0x30 ≤ c.val ∧ c.val ≤ 0x39)

/-- How many digits the text starts with. -/
def digitRun (s : PyStr) : Nat := (s.takeWhile isDigit).length

/-- The length of `-?(?:0|[1-9][0-9]*)` at the start of the text; 0 if there is none. -/
def integerRun (s : PyStr) : Nat :=
  let sign := match s with
    | c :: _ => if c.val = 0x2D then 1 else 0
    | [] => 0
  match s.drop sign with
  | [] => 0
  | c :: rest =>
      if c.val = 0x30 then sign + 1 else if isDigit c then sign + 1 + digitRun rest else 0

/-- The length of `(\.[0-9]+)?` at the start of the text. -/
def fractionRun : PyStr → Nat
  | [] => 0
  | c :: rest => if c.val = 0x2E ∧ 0 < digitRun rest then 1 + digitRun rest else 0

/-- The length of `([eE][-+]?[0-9]+)?` at the start of the text. -/
def exponentRun : PyStr → Nat
  | [] => 0
  | c :: rest =>
      if c.val = 0x65 ∨ c.val = 0x45 then
        let sign := match rest with
          | d :: _ => if d.val = 0x2B ∨ d.val = 0x2D then 1 else 0
          | [] => 0
        let digits := digitRun (rest.drop sign)
        if 0 < digits then 1 + sign + digits else 0
      else 0

/-- The length of the number literal at the start of the text, and whether it is an integer;
    `none` if there is no number. -/
def scanNumber (s : PyStr) : Option (Nat × Bool) :=
  let n := integerRun s
  if n = 0 then none
  else
    let fraction := fractionRun (s.drop n)
    let exponent := exponentRun (s.drop (n + fraction))
    some (n + fraction + exponent, decide (fraction + exponent = 0))

/-- A character that cannot continue a number. -/
def endsNumber (c : CodePoint) : Bool :=
  !isDigit c && decide (c.val ≠ 0x2E ∧ c.val ≠ 0x65 ∧ c.val ≠ 0x45)

/-- What may follow a number. -/
def Delimited (s : PyStr) : Prop := ∀ c ∈ s.head?, endsNumber c = true

/-- What Python's documentation leaves to the platform and to the Unicode tables. -/
class PyRuntime where
  /-- How deeply nested JSON the reader and the writer follow before `RecursionError`. -/
  recursionLimit : Nat
  /-- How many digits `int` converts before `ValueError`. -/
  maxStrDigits : Nat
  isSpace : CodePoint → Bool
  isPrintable : CodePoint → Bool
  /-- The value of a Unicode decimal digit. -/
  decimal : CodePoint → Option Nat
  floatOfText : PyStr → PyFloat
  floatRepr : PyFloat → PyStr
  /-- The UTF-16 and UTF-32 decoders, for bytes that `json.detect_encoding` gives to them. -/
  decodeWide : PyBytes → Option PyStr
  /-- The text of a finite float is a number literal with a fraction or an exponent. -/
  scanNumber_floatRepr : ∀ (negative : Bool) (mantissa : Nat) (exponent : Int) (rest : PyStr),
    Delimited rest → scanNumber (floatRepr (.finite negative mantissa exponent) ++ rest)
      = some ((floatRepr (.finite negative mantissa exponent)).length, false)
  isAscii_floatRepr : ∀ (negative : Bool) (mantissa : Nat) (exponent : Int),
    isAscii (floatRepr (.finite negative mantissa exponent)) = true

/-! ## Dictionaries -/

namespace Key

/-- The number a numeric key is equal to, as `numerator * 2 ^ exponent`. -/
def number : Key → Option (Int × Int)
  | int i => some (i, 0)
  | bool b => some (if b then 1 else 0, 0)
  | float (.finite negative mantissa exponent) =>
      some (if negative then -(mantissa : Int) else mantissa, exponent)
  | _ => none

/-- Python's `==` on keys: numbers are compared by value. -/
def same (a b : Key) : Bool :=
  match a.number, b.number with
  | some (m, e), some (n, f) =>
      decide (m * 2 ^ (e - min e f).toNat = n * 2 ^ (f - min e f).toNat)
  | _, _ => decide (a = b)

end Key

namespace Dict

/-- `d.get(key)`. -/
def get (d : Dict) (key : PyStr) : Option Json :=
  match d.find? (fun e => decide (e.1 = .str key)) with
  | some e => some e.2
  | none => none

/-- `d[key] = value`: an equal key keeps its place and its spelling. -/
def set (d : Dict) (key : Key) (value : Json) : Dict :=
  match d with
  | [] => [(key, value)]
  | e :: es => if e.1.same key then (e.1, value) :: es else e :: set es key value

/-- `d.update(entries)`. -/
def update (d : Dict) (entries : List (Key × Json)) : Dict :=
  entries.foldl (fun d e => d.set e.1 e.2) d

end Dict

/-! ## `json.dumps` -/

/-- How the standard JSON functions fail. -/
inductive JsonError where
  | decodeError
  | recursionError
  | valueError
deriving DecidableEq, Repr

/-- A lower-case hexadecimal digit. -/
def hexDigit (n : Nat) : CodePoint := if n < 10 then Fin.ofNat _ (48 + n) else Fin.ofNat _ (87 + n)

/-- `'{0:04x}'.format(n)`. -/
def hex4 (n : Nat) : PyStr :=
  [hexDigit (n / 0x1000 % 16), hexDigit (n / 0x100 % 16), hexDigit (n / 0x10 % 16),
    hexDigit (n % 16)]

/-- A `\u` escape. -/
def unicodeEscape (n : Nat) : PyStr := py "\\u" ++ hex4 n

/-- `py_encode_basestring_ascii`, one character. -/
def escapeChar (c : CodePoint) : PyStr :=
  if c.val = 0x22 then py "\\\""
  else if c.val = 0x5C then py "\\\\"
  else if c.val = 0x0A then py "\\n"
  else if c.val = 0x0D then py "\\r"
  else if c.val = 0x09 then py "\\t"
  else if c.val = 0x0C then py "\\f"
  else if c.val = 0x08 then py "\\b"
  else if 0x20 ≤ c.val ∧ c.val ≤ 0x7E then [c]
  else if c.val < 0x10000 then unicodeEscape c.val
  else unicodeEscape (0xD800 + (c.val - 0x10000) / 0x400)
    ++ unicodeEscape (0xDC00 + (c.val - 0x10000) % 0x400)

/-- A string literal. -/
def quoted (s : PyStr) : PyStr := py "\"" ++ s.flatMap escapeChar ++ py "\""

/-- The decimal digits of a number. -/
def decimalDigits (n : Nat) : PyStr := (Nat.toDigits 10 n).map Char.codePoint

/-- `int.__repr__`. -/
def intRepr (i : Int) : PyStr := (if i < 0 then py "-" else []) ++ decimalDigits i.natAbs

section Dumps

variable [PyRuntime]

/-- `floatstr`. -/
def floatText : PyFloat → PyStr
  | .nan => py "NaN"
  | .inf negative => if negative then py "-Infinity" else py "Infinity"
  | x => PyRuntime.floatRepr x

/-- The text of a key. -/
def Key.text : Key → PyStr
  | str s => s
  | int i => intRepr i
  | float x => floatText x
  | bool b => if b then py "true" else py "false"
  | null => py "null"

/-- `int.__repr__` refuses a number with too many digits. -/
def intFault (i : Int) : Option JsonError :=
  if PyRuntime.maxStrDigits < (decimalDigits i.natAbs).length then some .valueError else none

def Key.fault : Key → Option JsonError
  | int i => intFault i
  | _ => none

mutual

/-- The error `json.dumps` runs into, depth first, with room for `room` more levels. -/
def Json.fault (room : Nat) : Json → Option JsonError
  | .int i => intFault i
  | .arr items => if room = 0 then some .recursionError else faultItems (room - 1) items
  | .obj entries => if room = 0 then some .recursionError else faultEntries (room - 1) entries
  | _ => none
termination_by structural v => v

def Json.faultItems (room : Nat) : List Json → Option JsonError
  | [] => none
  | v :: vs =>
      match v.fault room with
      | some e => some e
      | none => faultItems room vs
termination_by structural vs => vs

def Json.faultEntries (room : Nat) : List (Key × Json) → Option JsonError
  | [] => none
  | (k, v) :: es =>
      match k.fault with
      | some e => some e
      | none =>
          match v.fault room with
          | some e => some e
          | none => faultEntries room es
termination_by structural es => es

end

mutual

/-- The text `json.dumps` writes. -/
def Json.write : Json → PyStr
  | .null => py "null"
  | .bool b => if b then py "true" else py "false"
  | .int i => intRepr i
  | .float x => floatText x
  | .str s => quoted s
  | .arr items => py "[" ++ writeItems items ++ py "]"
  | .obj entries => py "\x7b" ++ writeEntries entries ++ py "\x7d"
termination_by structural v => v

def Json.writeItems : List Json → PyStr
  | [] => []
  | v :: vs =>
      match vs with
      | [] => v.write
      | _ => v.write ++ py ", " ++ writeItems vs
termination_by structural vs => vs

def Json.writeEntries : List (Key × Json) → PyStr
  | [] => []
  | (k, v) :: es =>
      match es with
      | [] => quoted k.text ++ py ": " ++ v.write
      | _ => quoted k.text ++ py ": " ++ v.write ++ py ", " ++ writeEntries es
termination_by structural es => es

end

/-- `json.dumps`. -/
def Json.dumps (v : Json) : Except JsonError PyStr :=
  match v.fault PyRuntime.recursionLimit with
  | none => .ok v.write
  | some e => .error e

end Dumps

/-! ## Text that is Unicode text -/

def Key.surrogateFree : Key → Bool
  | str s => encodable s
  | _ => true

mutual

/-- No text in the value, keys included, holds a surrogate. -/
def Json.surrogateFree : Json → Bool
  | .str s => encodable s
  | .arr items => surrogateFreeItems items
  | .obj entries => surrogateFreeEntries entries
  | _ => true
termination_by structural v => v

def Json.surrogateFreeItems : List Json → Bool
  | [] => true
  | v :: vs => v.surrogateFree && surrogateFreeItems vs
termination_by structural vs => vs

def Json.surrogateFreeEntries : List (Key × Json) → Bool
  | [] => true
  | (k, v) :: es => k.surrogateFree && v.surrogateFree && surrogateFreeEntries es
termination_by structural es => es

end

/-! ## The size of the ints -/

mutual

/-- Every int in the value is written with at most `n` characters. -/
def Json.intsWithin (n : Nat) : Json → Bool
  | .int i => decide ((intRepr i).length ≤ n)
  | .arr items => intsWithinItems n items
  | .obj entries => intsWithinEntries n entries
  | _ => true
termination_by structural v => v

def Json.intsWithinItems (n : Nat) : List Json → Bool
  | [] => true
  | v :: vs => v.intsWithin n && intsWithinItems n vs
termination_by structural vs => vs

def Json.intsWithinEntries (n : Nat) : List (Key × Json) → Bool
  | [] => true
  | (_, v) :: es => v.intsWithin n && intsWithinEntries n es
termination_by structural es => es

end

theorem Dict.get_surrogateFree {d : Dict} {key : PyStr} {v : Json}
    (h : Json.surrogateFreeEntries d = true) (hget : Dict.get d key = some v) :
    v.surrogateFree = true := by
  induction d with
  | nil => cases hget
  | cons e d ih =>
      simp only [Json.surrogateFreeEntries, Bool.and_eq_true] at h
      by_cases hkey : e.1 = .str key
      · have hv : e.2 = v := by simpa [Dict.get, hkey] using hget
        rw [← hv]
        exact h.1.2
      · refine ih h.2 ?_
        simpa [Dict.get, hkey] using hget

/-! ## Conversions of scalars -/

section Conversions

variable [PyRuntime]

/-- The digits of an integer literal of `int`, with single underscores between them. -/
def intDigits : PyStr → Option (List Nat)
  | [] => none
  | c :: rest =>
      match PyRuntime.decimal c with
      | none => none
      | some d =>
          match rest with
          | [] => some [d]
          | u :: rest' =>
              if u.val = 0x5F then (intDigits rest').map (d :: ·)
              else (intDigits (u :: rest')).map (d :: ·)

/-- `int(text)`; `none` is `ValueError`. -/
def intOfText (s : PyStr) : Option Int :=
  let s := strip PyRuntime.isSpace s
  let sign := match s with
    | c :: _ => if c.val = 0x2B ∨ c.val = 0x2D then 1 else 0
    | [] => 0
  match intDigits (s.drop sign) with
  | none => none
  | some digits =>
      if PyRuntime.maxStrDigits < digits.length then none
      else
        let n : Nat := digits.foldl (fun n d => n * 10 + d) 0
        match s with
        | c :: _ => some (if c.val = 0x2D then -(n : Int) else n)
        | [] => none

/-- `repr` of a `str`. -/
def strRepr (s : PyStr) : PyStr :=
  let quote : CodePoint := if s.any (fun c => c.val = 0x27) && !s.any (fun c => c.val = 0x22)
    then Fin.ofNat _ 0x22 else Fin.ofNat _ 0x27
  let one : CodePoint → PyStr := fun c =>
    if c = quote ∨ c.val = 0x5C then [Fin.ofNat _ 0x5C, c]
    else if c.val = 0x09 then py "\\t"
    else if c.val = 0x0A then py "\\n"
    else if c.val = 0x0D then py "\\r"
    else if PyRuntime.isPrintable c then [c]
    else if c.val < 0x100 then py "\\x" ++ [hexDigit (c.val / 16), hexDigit (c.val % 16)]
    else if c.val < 0x10000 then unicodeEscape c.val
    else py "\\U" ++ hex4 (c.val / 0x10000) ++ hex4 (c.val % 0x10000)
  [quote] ++ s.flatMap one ++ [quote]

/-- `repr` of a `float`. -/
def floatReprText : PyFloat → PyStr
  | .nan => py "nan"
  | .inf negative => if negative then py "-inf" else py "inf"
  | x => PyRuntime.floatRepr x

def boolRepr (b : Bool) : PyStr := if b then py "True" else py "False"

def Key.repr : Key → PyStr
  | str s => strRepr s
  | int i => intRepr i
  | float x => floatReprText x
  | bool b => boolRepr b
  | null => py "None"

mutual

/-- `repr`. -/
def Json.repr : Json → PyStr
  | .null => py "None"
  | .bool b => boolRepr b
  | .int i => intRepr i
  | .float x => floatReprText x
  | .str s => strRepr s
  | .arr items => py "[" ++ reprItems items ++ py "]"
  | .obj entries => py "\x7b" ++ reprEntries entries ++ py "\x7d"
termination_by structural v => v

def Json.reprItems : List Json → PyStr
  | [] => []
  | v :: vs =>
      match vs with
      | [] => v.repr
      | _ => v.repr ++ py ", " ++ reprItems vs
termination_by structural vs => vs

def Json.reprEntries : List (Key × Json) → PyStr
  | [] => []
  | (k, v) :: es =>
      match es with
      | [] => k.repr ++ py ": " ++ v.repr
      | _ => k.repr ++ py ": " ++ v.repr ++ py ", " ++ reprEntries es
termination_by structural es => es

end

/-- `str(value)`. -/
def Json.text : Json → PyStr
  | .str s => s
  | v => v.repr

end Conversions

/-! ## A runtime to compute with -/

/-- A Python that knows the ASCII characters only and never sees a float. -/
@[reducible] def PyRuntime.ascii : PyRuntime where
  recursionLimit := 100
  maxStrDigits := 4300
  isSpace := fun c => decide (c.val = 0x20 ∨ (0x09 ≤ c.val ∧ c.val ≤ 0x0D) ∨
    (0x1C ≤ c.val ∧ c.val ≤ 0x1F))
  isPrintable := fun c => decide (0x20 ≤ c.val ∧ c.val ≤ 0x7E)
  decimal := fun c => if isDigit c then some (c.val - 0x30) else none
  floatOfText := fun _ => .finite false 0 0
  floatRepr := fun _ => py "0.0"
  decodeWide := fun _ => none
  scanNumber_floatRepr := by
    intro _ _ _ rest hrest
    cases rest with
    | nil => decide
    | cons c rest =>
        have hc := hrest c rfl
        simp only [endsNumber, Bool.and_eq_true, Bool.not_eq_true', decide_eq_true_eq] at hc
        have hzero : isDigit (Fin.ofNat _ 0x30) = true := by decide
        have hdigits : digitRun (Fin.ofNat _ 0x30 :: c :: rest) = 1 := by
          unfold digitRun
          rw [List.takeWhile_cons_of_pos hzero, List.takeWhile_cons_of_neg (by simp [hc.1])]
          rfl
        have hfraction : fractionRun (Fin.ofNat _ 0x2E :: Fin.ofNat _ 0x30 :: c :: rest) = 2 := by
          show (if (0x2E : Nat) = 0x2E ∧ 0 < digitRun (Fin.ofNat _ 0x30 :: c :: rest) then
            1 + digitRun (Fin.ofNat _ 0x30 :: c :: rest) else 0) = 2
          rw [hdigits]
          rfl
        have hexponent : exponentRun (c :: rest) = 0 := by
          simp only [exponentRun]
          refine if_neg ?_
          rintro (h | h)
          · exact hc.2.2.1 h
          · exact hc.2.2.2 h
        have hinteger : integerRun (py "0.0" ++ c :: rest) = 1 := rfl
        have hdrop₁ : (py "0.0" ++ c :: rest).drop 1
            = Fin.ofNat _ 0x2E :: Fin.ofNat _ 0x30 :: c :: rest := rfl
        have hdrop₃ : (py "0.0" ++ c :: rest).drop (1 + 2) = c :: rest := rfl
        simp only [scanNumber, hinteger, hdrop₁, hfraction, hdrop₃, hexponent]
        rfl
  isAscii_floatRepr := fun _ _ _ => by decide
