import RexHunter.Lib.Json
import RexHunter.Implementation.Server

set_option autoImplicit false

/-! # The resume cursor of `/events` (`stream` of `server.py`)

The client's text passes a guard (`str.isdigit`), a conversion (`int`) and, in `catch_up`, the
binding of a Python integer to a 64-bit column. The guard and the conversion are two notions of a
digit: `isdigit` accepts a superscript, `int` does not. -/

namespace RexHunter

/-- `str.isdigit` of a character, with what the Unicode tables say of it. -/
class PyDigits [PyRuntime] where
  isdigit : CodePoint → Bool
  isdigit_of_decimal : ∀ {c : CodePoint} {d : Nat}, PyRuntime.decimal c = some d → isdigit c = true
  isdigit_ascii : ∀ {c : CodePoint}, c.val < 0x80 → isdigit c = isDigit c
  isSpace_of_isdigit : ∀ {c : CodePoint}, isdigit c = true → PyRuntime.isSpace c = false
  decimal_ascii : ∀ {c : CodePoint}, isDigit c = true → PyRuntime.decimal c = some (c.val - 0x30)

/-- The Python of `PyRuntime.ascii` with the superscripts of Latin-1. -/
@[reducible] def PyDigits.latin : @PyDigits .ascii :=
  letI := PyRuntime.ascii
  { isdigit := fun c => isDigit c || decide (c.val = 0xB2 ∨ c.val = 0xB3 ∨ c.val = 0xB9)
    isdigit_of_decimal := by
      intro c d h
      simp only [PyRuntime.decimal] at h
      split at h
      · next hc => simp [hc]
      · cases h
    isdigit_ascii := by
      intro c hc
      have hlatin : ¬ (c.val = 0xB2 ∨ c.val = 0xB3 ∨ c.val = 0xB9) := by omega
      simp [hlatin]
    isSpace_of_isdigit := by
      intro c hc
      simp only [isDigit, Bool.or_eq_true, decide_eq_true_eq] at hc
      simp only [PyRuntime.isSpace, decide_eq_false_iff_not]
      omega
    decimal_ascii := by
      intro c hc
      simp [PyRuntime.decimal, hc] }

/-- What can stop the request: `int(raw)`, or the binding of `last_seen`. -/
inductive ResumeFault where
  | valueError
  | overflowError
deriving DecidableEq, Repr

section

variable [PyRuntime] [PyDigits]

/-- `raw.isdigit()`. -/
def isdigit (raw : PyStr) : Bool := !raw.isEmpty && raw.all PyDigits.isdigit

/-- The `Last-Event-ID` header, or the query parameter `since` if there is none. -/
def resumeText (lastEventId since : PyStr) : PyStr := if lastEventId = [] then since else lastEventId

/-- `int(raw) if raw.isdigit() else 0`. -/
def lastSeenOf (raw : PyStr) : Except ResumeFault Int :=
  if isdigit raw then
    match intOfText raw with
    | some n => .ok n
    | none => .error .valueError
  else .ok 0

/-- SQLite's integers have 64 bits. -/
def sqliteBound : Nat := 2 ^ 63

/-- A Python integer as a parameter of a statement. -/
def bindInteger (n : Int) : Except ResumeFault Int :=
  if n.natAbs < sqliteBound ∨ n = -(sqliteBound : Int) then .ok n else .error .overflowError

/-- The rows a request replays: the cursor of `stream`, then `catch_up`. -/
def replay (lastEventId since : PyStr) (log : List FeedRow) : Except ResumeFault (List Envelope) := do
  let lastSeen ← lastSeenOf (resumeText lastEventId since)
  let bound ← bindInteger lastSeen
  return catchUp log bound.toNat

end

end RexHunter
