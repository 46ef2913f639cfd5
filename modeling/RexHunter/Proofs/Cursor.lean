import RexHunter.Implementation.Resume

set_option autoImplicit false

/-! # What a client's cursor replays

On texts that pass the guard `int` is the value of the decimal digits, if all characters have one
(`intOfText_of_isdigit`). The replay is the intended one exactly for the texts the guard refuses and
for short enough decimal numbers below 2^63, written in ASCII or equal to zero (`Accepted`). -/

namespace RexHunter

/-- The number that decimal digits denote. -/
def numeral (digits : List Nat) : Nat := digits.foldl (fun n d => n * 10 + d) 0

/-- The number a text is the ASCII decimal form of. -/
def asciiNumber (s : PyStr) : Option Nat :=
  if s ≠ [] ∧ s.all isDigit = true then some (numeral (s.map (fun c => c.val - 0x30))) else none

/-- The rows with a greater id, in order of id. -/
def rowsAfter (n : Nat) (log : List FeedRow) : List Envelope :=
  (Table.orderBy FeedRow.id (log.filter (fun r => n < r.id))).map FeedRow.envelope

/-- All rows, in order of id. -/
def allRows (log : List FeedRow) : List Envelope :=
  (Table.orderBy FeedRow.id log).map FeedRow.envelope

theorem catchUp_zero {log : List FeedRow} (h : ∀ r ∈ log, 0 < r.id) :
    catchUp log 0 = allRows log := by
  unfold catchUp allRows
  rw [List.filter_eq_self.2 (fun r hr => by simpa using h r hr)]

/-- Only from the beginning does every log replay all its rows. -/
theorem catchUp_eq_allRows_iff {n : Nat} :
    (∀ log : List FeedRow, (∀ r ∈ log, 0 < r.id) → catchUp log n = allRows log) ↔ n = 0 := by
  constructor
  · intro h
    have hone := h [⟨1, []⟩] (by simp)
    by_contra hn
    have hskipped : catchUp [⟨1, []⟩] n = [] := by
      simp [catchUp, Table.orderBy, show ¬ n < 1 by omega]
    rw [hskipped] at hone
    simp [allRows, Table.orderBy] at hone
  · rintro rfl log hlog
    exact catchUp_zero hlog

section

variable [PyRuntime] [PyDigits]

/-! ## The conversion -/

theorem intDigits_of_isdigit {s : PyStr} (hne : s ≠ []) (h : ∀ c ∈ s, PyDigits.isdigit c = true) :
    intDigits s = s.mapM PyRuntime.decimal := by
  induction s with
  | nil => exact absurd rfl hne
  | cons c s ih =>
      cases s with
      | nil =>
          cases hc : PyRuntime.decimal c <;> simp [intDigits, hc]
      | cons u s =>
          have hu : u.val ≠ 0x5F := by
            intro hval
            have hdigit := h u (by simp)
            rw [PyDigits.isdigit_ascii (by omega)] at hdigit
            simp only [isDigit, decide_eq_true_eq] at hdigit
            omega
          have hrest := ih (by simp) (fun c hc => h c (List.mem_cons_of_mem _ hc))
          cases hc : PyRuntime.decimal c with
          | none => simp [intDigits, hc]
          | some d =>
              rw [intDigits, hc, List.mapM_cons, hc]
              simp only [if_neg hu, hrest]
              cases (u :: s).mapM PyRuntime.decimal <;> rfl

theorem strip_of_isdigit {s : PyStr} (h : ∀ c ∈ s, PyDigits.isdigit c = true) :
    strip PyRuntime.isSpace s = s := by
  have hdrop : ∀ l : PyStr, (∀ c ∈ l, PyDigits.isdigit c = true) →
      l.dropWhile PyRuntime.isSpace = l := by
    intro l hl
    cases l with
    | nil => rfl
    | cons c l =>
        rw [List.dropWhile_cons_of_neg]
        rw [PyDigits.isSpace_of_isdigit (hl c (by simp))]
        simp
  unfold strip
  rw [hdrop s h, hdrop s.reverse (by simpa using h), List.reverse_reverse]

/-- **`int` on a text that passes the guard.** -/
theorem intOfText_of_isdigit {s : PyStr} (hs : isdigit s = true) :
    intOfText s = (s.mapM PyRuntime.decimal).bind (fun digits =>
      if PyRuntime.maxStrDigits < digits.length then none else some (numeral digits : Int)) := by
  simp only [isdigit, Bool.and_eq_true, Bool.not_eq_true', List.isEmpty_eq_false_iff,
    List.all_eq_true] at hs
  obtain ⟨hne, hdigit⟩ := hs
  unfold intOfText
  rw [strip_of_isdigit hdigit]
  cases s with
  | nil => exact absurd rfl hne
  | cons c s =>
      have hsign : ¬ (c.val = 0x2B ∨ c.val = 0x2D) := by
        intro hval
        have hc := hdigit c (by simp)
        rw [PyDigits.isdigit_ascii (by omega)] at hc
        simp only [isDigit, decide_eq_true_eq] at hc
        omega
      have hminus : c.val ≠ 0x2D := fun hval => hsign (Or.inr hval)
      simp only [if_neg hsign, List.drop_zero, intDigits_of_isdigit hne hdigit, if_neg hminus]
      cases (c :: s).mapM PyRuntime.decimal <;> rfl

/-! ## The replay -/

/-- On every log the request replays the rows after the number its text is the ASCII decimal form
    of, and all rows if there is none. -/
def Resumes (lastEventId since : PyStr) : Prop :=
  ∀ log : List FeedRow, (∀ r ∈ log, 0 < r.id) → replay lastEventId since log =
    .ok (match asciiNumber (resumeText lastEventId since) with
      | some n => rowsAfter n log
      | none => allRows log)

/-- The text is not digits, or decimal digits of a number that SQLite can hold and, unless it is
    zero, in ASCII. -/
def Accepted (raw : PyStr) : Prop :=
  isdigit raw = false ∨
  ∃ digits, raw.mapM PyRuntime.decimal = some digits ∧ digits.length ≤ PyRuntime.maxStrDigits ∧
    numeral digits < sqliteBound ∧ (raw.all isDigit = true ∨ numeral digits = 0)

theorem isdigit_of_ascii {s : PyStr} (hne : s ≠ []) (h : s.all isDigit = true) :
    isdigit s = true := by
  simp only [List.all_eq_true] at h
  simp only [isdigit, Bool.and_eq_true, Bool.not_eq_true', List.isEmpty_eq_false_iff,
    List.all_eq_true]
  exact ⟨hne, fun c hc => PyDigits.isdigit_of_decimal (PyDigits.decimal_ascii (h c hc))⟩

theorem mapM_decimal_ascii {s : PyStr} (h : s.all isDigit = true) :
    s.mapM PyRuntime.decimal = some (s.map (fun c => c.val - 0x30)) := by
  induction s with
  | nil => rfl
  | cons c s ih =>
      rw [List.all_cons, Bool.and_eq_true] at h
      rw [List.mapM_cons, PyDigits.decimal_ascii h.1, ih h.2]
      rfl

/-- What the guard refuses is no number. -/
theorem asciiNumber_of_not_isdigit {s : PyStr} (h : isdigit s = false) : asciiNumber s = none := by
  unfold asciiNumber
  rw [if_neg]
  rintro ⟨hne, hascii⟩
  rw [isdigit_of_ascii hne hascii] at h
  cases h

theorem asciiNumber_of_digits {s : PyStr} {digits : List Nat} (hs : isdigit s = true)
    (hdigits : s.mapM PyRuntime.decimal = some digits) :
    asciiNumber s = if s.all isDigit = true then some (numeral digits) else none := by
  have hne : s ≠ [] := by
    rintro rfl
    simp [isdigit] at hs
  unfold asciiNumber
  by_cases hascii : s.all isDigit = true
  · rw [mapM_decimal_ascii hascii, Option.some.injEq] at hdigits
    rw [if_pos ⟨hne, hascii⟩, if_pos hascii, hdigits]
  · rw [if_neg hascii, if_neg (fun h => hascii h.2)]

omit [PyRuntime] [PyDigits] in
theorem bindInteger_natCast (n : Nat) :
    bindInteger n = if n < sqliteBound then .ok (n : Int) else .error .overflowError := by
  unfold bindInteger
  by_cases hn : n < sqliteBound
  · rw [if_pos hn, if_pos (Or.inl (by simpa using hn))]
  · have hpos : 0 < sqliteBound := by decide
    rw [if_neg hn, if_neg (by omega)]

/-- What is replayed for a text the guard refuses. -/
theorem replay_of_not_isdigit {lastEventId since : PyStr}
    (h : isdigit (resumeText lastEventId since) = false) (log : List FeedRow) :
    replay lastEventId since log = .ok (catchUp log 0) := by
  unfold replay lastSeenOf
  rw [h]
  rfl

/-- The cursor of a text of digits. -/
theorem lastSeenOf_of_isdigit {raw : PyStr} (h : isdigit raw = true) : lastSeenOf raw =
    match raw.mapM PyRuntime.decimal with
    | none => .error .valueError
    | some digits =>
        if PyRuntime.maxStrDigits < digits.length then .error .valueError
        else .ok (numeral digits : Int) := by
  unfold lastSeenOf
  rw [if_pos h, intOfText_of_isdigit h]
  cases raw.mapM PyRuntime.decimal with
  | none => rfl
  | some digits =>
      rw [Option.bind_some]
      by_cases hlong : PyRuntime.maxStrDigits < digits.length
      · simp only [if_pos hlong]
      · simp only [if_neg hlong]

/-- What is replayed for a text of digits. -/
theorem replay_of_isdigit {lastEventId since : PyStr}
    (h : isdigit (resumeText lastEventId since) = true) (log : List FeedRow) :
    replay lastEventId since log =
      match (resumeText lastEventId since).mapM PyRuntime.decimal with
      | none => .error .valueError
      | some digits =>
          if PyRuntime.maxStrDigits < digits.length then .error .valueError
          else if numeral digits < sqliteBound then .ok (catchUp log (numeral digits))
          else .error .overflowError := by
  unfold replay
  rw [lastSeenOf_of_isdigit h]
  cases (resumeText lastEventId since).mapM PyRuntime.decimal with
  | none => rfl
  | some digits =>
      by_cases hlong : PyRuntime.maxStrDigits < digits.length
      · simp only [if_pos hlong]
        rfl
      · simp only [if_neg hlong, bind, Except.bind, bindInteger_natCast]
        by_cases hbound : numeral digits < sqliteBound
        · simp only [if_pos hbound]
          rfl
        · simp only [if_neg hbound]

/-- **The cursor accepts a text exactly under these conditions.** -/
theorem resumes_iff (lastEventId since : PyStr) :
    Resumes lastEventId since ↔ Accepted (resumeText lastEventId since) := by
  unfold Resumes Accepted
  cases hguard : isdigit (resumeText lastEventId since) with
  | false =>
      refine iff_of_true (fun log hlog => ?_) (Or.inl rfl)
      rw [replay_of_not_isdigit hguard, asciiNumber_of_not_isdigit hguard, catchUp_zero hlog]
  | true =>
      simp only [replay_of_isdigit hguard, Bool.true_eq_false, false_or]
      cases hdigits : (resumeText lastEventId since).mapM PyRuntime.decimal with
      | none =>
          refine iff_of_false (fun h => ?_) (by simp)
          cases h [] (by simp)
      | some digits =>
          simp only [Option.some.injEq, exists_eq_left', asciiNumber_of_digits hguard hdigits]
          by_cases hlong : PyRuntime.maxStrDigits < digits.length
          · refine iff_of_false (fun h => ?_) (fun h => by omega)
            have hnil := h [] (by simp)
            rw [if_pos hlong] at hnil
            cases hnil
          by_cases hbound : numeral digits < sqliteBound
          · simp only [if_neg hlong, if_pos hbound, Except.ok.injEq]
            by_cases hascii : (resumeText lastEventId since).all isDigit = true
            · simp only [if_pos hascii]
              exact iff_of_true (fun _ _ => rfl) ⟨Nat.le_of_not_lt hlong, hbound, Or.inl hascii⟩
            · simp only [if_neg hascii, catchUp_eq_allRows_iff]
              constructor
              · exact fun hzero => ⟨Nat.le_of_not_lt hlong, hbound, Or.inr hzero⟩
              · exact fun h => h.2.2.resolve_left hascii
          · refine iff_of_false (fun h => ?_) (fun h => hbound h.2.1)
            have hnil := h [] (by simp)
            rw [if_neg hlong, if_neg hbound] at hnil
            cases hnil

end

/-- A superscript in the header passes the guard and stops the request. -/
theorem superscript_stops : ¬ @Resumes .ascii .latin [0xB2] [] := by
  intro h
  have hnil := h [] (by simp)
  rw [show @replay .ascii .latin [0xB2] [] [] = .error .valueError by decide] at hnil
  cases hnil

end RexHunter
