import RexHunter.Lib.Timeline

set_option autoImplicit false

/-! # Instants and their texts (`_utcnow` of `db.py`)

`datetime.now(UTC)` has the fields of the proleptic Gregorian calendar, each in its range, and
`isoformat` writes them. What an instant stands for is the time elapsed since the calendar's epoch,
counted through months and years of different lengths. -/

namespace RexHunter

def isLeap (year : Nat) : Bool := year % 4 = 0 && (year % 100 ≠ 0 || year % 400 = 0)

/-- The length of a month; there is no month 0. -/
def daysInMonth (year : Nat) : Nat → Nat
  | 0 => 0
  | 2 => if isLeap year then 29 else 28
  | 4 | 6 | 9 | 11 => 30
  | _ => 31

/-- The days of a year before the first of a month. -/
def daysBeforeMonth (year : Nat) : Nat → Nat
  | 0 => 0
  | month + 1 => daysBeforeMonth year month + daysInMonth year month

def daysInYear (year : Nat) : Nat := daysBeforeMonth year 13

/-- The days before the first of January of a year, from year 0 on. -/
def daysBeforeYear : Nat → Nat
  | 0 => 0
  | year + 1 => daysBeforeYear year + daysInYear year

/-- A `datetime` in UTC. -/
structure Instant where
  year : Nat
  month : Nat
  day : Nat
  hour : Nat
  minute : Nat
  second : Nat
  microsecond : Nat
  yearRange : 1 ≤ year ∧ year ≤ 9999
  monthRange : 1 ≤ month ∧ month ≤ 12
  dayRange : 1 ≤ day ∧ day ≤ daysInMonth year month
  hourRange : hour < 24
  minuteRange : minute < 60
  secondRange : second < 60
  microsecondRange : microsecond < 1000000

namespace Instant

/-- The day, counted from the epoch. -/
def ordinal (a : Instant) : Nat :=
  daysBeforeYear a.year + (daysBeforeMonth a.year a.month + (a.day - 1))

/-- The microseconds since the epoch. -/
def elapsed (a : Instant) : Nat :=
  (((a.ordinal * 24 + a.hour) * 60 + a.minute) * 60 + a.second) * 1000000 + a.microsecond

/-- The fraction of a second, left out when it is zero, and the offset of UTC. -/
def fraction (microsecond : Nat) : PyStr :=
  (if microsecond = 0 then [] else py "." ++ Timeline.padded 6 microsecond) ++ py "+00:00"

/-- `isoformat()`. -/
def isoformat (a : Instant) : PyStr :=
  Timeline.padded 4 a.year ++ (py "-" ++ (Timeline.padded 2 a.month ++ (py "-" ++
    (Timeline.padded 2 a.day ++ (py "T" ++ (Timeline.padded 2 a.hour ++ (py ":" ++
      (Timeline.padded 2 a.minute ++ (py ":" ++ (Timeline.padded 2 a.second ++
        fraction a.microsecond))))))))))

example : (Instant.mk 2024 2 29 9 5 0 40 (by decide) (by decide) (by decide) (by decide) (by decide)
    (by decide) (by decide)).isoformat = py "2024-02-29T09:05:00.000040+00:00" := by decide

end Instant

end RexHunter
