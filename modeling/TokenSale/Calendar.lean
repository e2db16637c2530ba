/-!
The proleptic Gregorian calendar of years 1 to 9999: dates, days counted from 1970-01-01, and ISO
weeks.
-/

namespace TokenSale

/-- A calendar date; fields may be out of range until checked. -/
structure Date where
  year : Nat
  month : Nat
  day : Nat
deriving DecidableEq, Repr, Inhabited

inductive CalendarFlaw where
  | year (n : Nat)
  | month
  | day
  | hour
  | minute
  | second
  | offset (micros : Int)
deriving DecidableEq, Repr

namespace Date

def isLeap (y : Nat) : Bool := y % 4 == 0 && (y % 100 != 0 || y % 400 == 0)

def daysInMonth (y m : Nat) : Nat :=
  match m with
  | 1 | 3 | 5 | 7 | 8 | 10 | 12 => 31
  | 4 | 6 | 9 | 11 => 30
  | 2 => if isLeap y then 29 else 28
  | _ => 0

def daysBeforeMonth (y : Nat) : Nat → Nat
  | 0 => 0
  | m + 1 => daysBeforeMonth y m + daysInMonth y m

/-- The days before 1 January of a year, counted from 0001-01-01. -/
def daysBeforeYear (y : Nat) : Nat := (y - 1) * 365 + (y - 1) / 4 - (y - 1) / 100 + (y - 1) / 400

def flaw? (d : Date) : Option CalendarFlaw :=
  if d.year < 1 ∨ 9999 < d.year then some (.year d.year)
  else if d.month < 1 ∨ 12 < d.month then some .month
  else if d.day < 1 ∨ daysInMonth d.year d.month < d.day then some .day
  else none

def Valid (d : Date) : Prop :=
  1 ≤ d.year ∧ d.year ≤ 9999 ∧ 1 ≤ d.month ∧ d.month ≤ 12 ∧
    1 ≤ d.day ∧ d.day ≤ daysInMonth d.year d.month

instance (d : Date) : Decidable d.Valid := by unfold Valid; infer_instance

theorem flaw?_eq_none {d : Date} : d.flaw? = none ↔ d.Valid := by
  simp only [flaw?, Valid]
  split
  · simp; omega
  split
  · simp; omega
  split
  · simp; omega
  · simp; omega

/-- Days since 0001-01-01, which is day 1. -/
def ordinal (d : Date) : Nat := daysBeforeYear d.year + daysBeforeMonth d.year d.month + d.day

def epochOrdinal : Nat := 719163

def dayNumber (d : Date) : Int := (d.ordinal : Int) - epochOrdinal

def ofDayOfYear (y : Nat) : Nat → Nat → Nat → Nat × Nat
  | 0, m, n => (m, n + 1)
  | fuel + 1, m, n =>
    if n < daysInMonth y m then (m, n + 1) else ofDayOfYear y fuel (m + 1) (n - daysInMonth y m)

/-- The date of an ordinal, found from the cycles of 400, 100, 4 and 1 years. -/
def ofOrdinal (n : Nat) : Date :=
  let n := n - 1
  let n400 := n / 146097
  let r := n % 146097
  let n100 := r / 36524
  let r := r % 36524
  let n4 := r / 1461
  let r := r % 1461
  let n1 := r / 365
  let r := r % 365
  let year := n400 * 400 + n100 * 100 + n4 * 4 + n1 + 1
  if n1 = 4 ∨ n100 = 4 then ⟨year - 1, 12, 31⟩
  else
    let (month, day) := ofDayOfYear year 11 1 r
    ⟨year, month, day⟩

def weekday (d : Date) : Nat := (d.ordinal + 6) % 7

/-- The ordinal of the Monday that starts the first ISO week of a year, as the ordinal of the day
before plus one; year 1 starts on a Monday. -/
def firstMonday (y : Nat) : Nat :=
  let first : Date := ⟨y, 1, 1⟩
  let start := first.ordinal - first.weekday
  if 3 < first.weekday then start + 7 else start

/-- ISO years of 53 weeks start on a Thursday, or on a Wednesday and are leap. -/
def hasLongWeekYear (y : Nat) : Bool :=
  let w := (Date.mk y 1 1).weekday
  w == 3 || (w == 2 && isLeap y)

def ofWeek? (y week day : Nat) : Option Date :=
  if y < 1 ∨ week < 1 ∨ 53 < week ∨ (week = 53 ∧ !hasLongWeekYear y) ∨ day < 1 ∨ 7 < day then none
  else some (ofOrdinal (firstMonday y + (week - 1) * 7 + (day - 1)))

end Date

end TokenSale
