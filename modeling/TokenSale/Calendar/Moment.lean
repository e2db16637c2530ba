import TokenSale.Calendar
import TokenSale.Binary64

/-!
Moments: a date, a time of day and perhaps an offset from UTC. A moment without an offset is taken
in UTC.
-/

namespace TokenSale

structure TimeOfDay where
  hour : Nat
  minute : Nat
  second : Nat
  micro : Nat
deriving DecidableEq, Repr, Inhabited

namespace TimeOfDay

def flaw? (t : TimeOfDay) : Option CalendarFlaw :=
  if 23 < t.hour then some .hour
  else if 59 < t.minute then some .minute
  else if 59 < t.second then some .second
  else none

def micros (t : TimeOfDay) : Nat := ((t.hour * 60 + t.minute) * 60 + t.second) * 1000000 + t.micro

end TimeOfDay

/-- A date and time of day; the offset from UTC is in microseconds. -/
structure Moment where
  date : Date
  time : TimeOfDay
  offset : Option Int
deriving DecidableEq, Repr, Inhabited

namespace Moment

def dayMicros : Int := 86400000000

/-- The first field out of range; offsets lie strictly within a day. -/
def flaw? (m : Moment) : Option CalendarFlaw :=
  match m.date.flaw? <|> m.time.flaw? with
  | some f => some f
  | none =>
    match m.offset with
    | some o => if o ≤ -dayMicros ∨ dayMicros ≤ o then some (.offset o) else none
    | none => none

def epochMicros (m : Moment) : Int :=
  m.date.dayNumber * dayMicros + m.time.micros - m.offset.getD 0

/-- Whole seconds since 1970-01-01T00:00:00Z: the exact seconds are rounded to binary64, then
truncated toward zero. -/
def seconds (m : Moment) : Int :=
  let micros := m.epochMicros
  ((Binary64.ofRatio (decide (micros < 0)) micros.natAbs 1000000).truncate?).getD 0

end Moment

end TokenSale
