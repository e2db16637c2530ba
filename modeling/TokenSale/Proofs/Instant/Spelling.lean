import TokenSale.Datum.Display
import TokenSale.Proofs.Calendar

/-!
Spellings of a second: a numeral, the time of day in UTC with or without a final `Z`, and the time
of day at an offset from UTC.
-/

namespace TokenSale

open TokenSale.Text

structure Civil where
  date : Date
  hour : Nat
  minute : Nat
  second : Nat
deriving DecidableEq, Repr

namespace Civil

/-- This is shown at the second `n`, counted from 1970-01-01T00:00:00. -/
structure Shows (c : Civil) (n : Int) : Prop where
  date : Date.Falls (n / 86400) c.date
  time : (((c.hour * 60 + c.minute) * 60 + c.second : Nat) : Int) = n % 86400
  minute_lt : c.minute < 60
  second_lt : c.second < 60

def clock (c : Civil) : String :=
  padded 2 c.hour ++ ":" ++ padded 2 c.minute ++ ":" ++ padded 2 c.second

def text (c : Civil) : String := c.date.iso ++ "T" ++ c.clock

end Civil

/-- A whole number of minutes within a day, east of UTC or west of it. -/
structure Offset where
  west : Bool
  minutes : Nat
  minutes_lt : minutes < 1440
deriving DecidableEq, Repr

namespace Offset

def seconds (o : Offset) : Int := if o.west then -(60 * o.minutes : Int) else 60 * o.minutes

def text (o : Offset) : String :=
  (if o.west then "-" else "+") ++ padded 2 (o.minutes / 60) ++ ":" ++ padded 2 (o.minutes % 60)

end Offset

/-- The ways to write the second `n`, counted from 1970-01-01T00:00:00Z. -/
inductive Spells (n : Int) : String → Prop
  | numeral : Spells n (Numeral.text n)
  | plain {c : Civil} (h : c.Shows n) (hd : c.date.Valid) : Spells n c.text
  | zulu {c : Civil} (h : c.Shows n) (hd : c.date.Valid) : Spells n (c.text ++ "Z")
  | offset {c : Civil} (o : Offset) (h : c.Shows (n + o.seconds)) (hd : c.date.Valid) :
      Spells n (c.text ++ o.text)

def firstSecond : Int := -62135596800

def lastSecond : Int := 253402300799

namespace Civil

variable {c : Civil} {n : Int}

theorem Shows.hour_lt (h : c.Shows n) : c.hour < 24 := by
  have := h.time
  omega

theorem exists_shows_iff :
    (∃ c : Civil, c.Shows n ∧ c.date.Valid) ↔ firstSecond ≤ n ∧ n ≤ lastSecond := by
  have hdays : firstSecond ≤ n ∧ n ≤ lastSecond ↔
      Date.firstDay ≤ n / 86400 ∧ n / 86400 ≤ Date.lastDay := by
    simp only [firstSecond, lastSecond, Date.firstDay, Date.lastDay]
    omega
  rw [hdays, ← Date.exists_falls_iff]
  constructor
  · rintro ⟨c, h, hd⟩
    exact ⟨c.date, h.date, hd⟩
  · rintro ⟨d, h, hd⟩
    obtain ⟨t, ht⟩ := Int.eq_ofNat_of_zero_le (Int.emod_nonneg n (show (86400 : Int) ≠ 0 by decide))
    exact ⟨⟨d, t / 3600, t / 60 % 60, t % 60⟩,
      ⟨h, by dsimp only; omega, by dsimp only; omega, by dsimp only; omega⟩, hd⟩

end Civil

end TokenSale
