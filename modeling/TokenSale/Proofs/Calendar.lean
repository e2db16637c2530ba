import Mathlib.Tactic.IntervalCases
import TokenSale.Calendar

/-!
The calendar, counted day by day. The number of a date is found by counting from 1970-01-01 over
months and years of the right lengths, and the days of the years 1 to 9999 are an interval.
-/

namespace TokenSale.Date

def next (d : Date) : Date :=
  if d.day < daysInMonth d.year d.month then ⟨d.year, d.month, d.day + 1⟩
  else if d.month < 12 then ⟨d.year, d.month + 1, 1⟩
  else ⟨d.year + 1, 1, 1⟩

/-- The date that is so many days after 1970-01-01, or before it if their number is negative. -/
inductive Falls : Int → Date → Prop
  | epoch : Falls 0 ⟨1970, 1, 1⟩
  | next {k : Int} {d : Date} (h : Falls k d) : Falls (k + 1) d.next
  | back {k : Int} {d : Date} (hd : d.Valid) (h : Falls (k + 1) d.next) : Falls k d

/-- A date of any year from 1 on. -/
structure Proper (d : Date) : Prop where
  year_pos : 1 ≤ d.year
  month_pos : 1 ≤ d.month
  month_le : d.month ≤ 12
  day_pos : 1 ≤ d.day
  day_le : d.day ≤ daysInMonth d.year d.month

variable {d : Date} {k : Int}

theorem Valid.proper (h : d.Valid) : d.Proper :=
  ⟨h.1, h.2.2.1, h.2.2.2.1, h.2.2.2.2.1, h.2.2.2.2.2⟩

theorem Proper.valid (h : d.Proper) (hyear : d.year ≤ 9999) : d.Valid :=
  ⟨h.year_pos, hyear, h.month_pos, h.month_le, h.day_pos, h.day_le⟩

/-! Lengths of months and years. -/

theorem daysInMonth_pos (y : Nat) {m : Nat} (hpos : 1 ≤ m) (hle : m ≤ 12) :
    1 ≤ daysInMonth y m := by
  have hfebruary : 1 ≤ daysInMonth y 2 := by
    simp only [daysInMonth]
    split <;> decide
  interval_cases m <;> first | exact hfebruary | simp [daysInMonth]

theorem daysInMonth_le (y m : Nat) : daysInMonth y m ≤ 31 := by
  unfold daysInMonth
  split <;> grind

def daysInYear (y : Nat) : Nat := if isLeap y then 366 else 365

theorem daysBeforeMonth_year (y : Nat) : daysBeforeMonth y 13 = daysInYear y := by
  simp only [daysBeforeMonth, daysInMonth, daysInYear]
  split <;> rfl

/-- A year adds a day to those before it for each rule of leap years that it meets. -/
theorem daysBeforeYear_succ {y : Nat} (h : 1 ≤ y) :
    daysBeforeYear (y + 1) = daysBeforeYear y + daysInYear y := by
  obtain ⟨n, rfl⟩ : ∃ n, y = n + 1 := ⟨y - 1, by omega⟩
  have h4 : (n + 1) / 4 = n / 4 + if 4 ∣ n + 1 then 1 else 0 := Nat.succ_div
  have h100 : (n + 1) / 100 = n / 100 + if 100 ∣ n + 1 then 1 else 0 := Nat.succ_div
  have h400 : (n + 1) / 400 = n / 400 + if 400 ∣ n + 1 then 1 else 0 := Nat.succ_div
  have hle : n / 100 ≤ n := Nat.div_le_self n 100
  simp only [daysBeforeYear, daysInYear, isLeap, Nat.add_sub_cancel, Bool.and_eq_true,
    Bool.or_eq_true, beq_iff_eq, bne_iff_ne, ← Nat.dvd_iff_mod_eq_zero, h4, h100, h400]
  generalize n / 4 = a, n / 100 = b, n / 400 = c at *
  split_ifs <;> omega

/-! Counting. -/

theorem Proper.next (h : d.Proper) : d.next.Proper := by
  obtain ⟨hyear, hmonth, hle, hday, hdayle⟩ := h
  unfold Date.next
  split
  · exact ⟨hyear, hmonth, hle, Nat.le_add_left 1 d.day, by assumption⟩
  split
  · have hmonth' : 1 ≤ d.month + 1 := Nat.le_add_left 1 d.month
    have hle' : d.month + 1 ≤ 12 := by assumption
    exact ⟨hyear, hmonth', hle', Nat.le_refl 1, daysInMonth_pos d.year hmonth' hle'⟩
  · have hle' : 1 ≤ 12 := by decide
    exact ⟨Nat.le_add_left 1 d.year, Nat.le_refl 1, hle', Nat.le_refl 1,
      daysInMonth_pos _ (Nat.le_refl 1) hle'⟩

theorem Proper.dayNumber_next (h : d.Proper) : d.next.dayNumber = d.dayNumber + 1 := by
  have hday := h.day_le
  have hmonth := h.month_le
  suffices hordinal : d.next.ordinal = d.ordinal + 1 by
    simp only [dayNumber, hordinal]
    omega
  unfold Date.next
  split
  · rfl
  split
  · simp only [ordinal, daysBeforeMonth]
    omega
  · rename_i hshort _
    have hlast : d.month = 12 := by omega
    have hyear : daysBeforeMonth d.year 12 + daysInMonth d.year 12 = daysInYear d.year :=
      daysBeforeMonth_year d.year
    have hnone : daysBeforeMonth (d.year + 1) 1 = 0 := rfl
    rw [hlast] at hday hshort
    simp only [ordinal, daysBeforeYear_succ h.year_pos, hnone, hlast]
    omega

theorem Falls.dayNumber_eq (h : Falls k d) : d.Proper ∧ d.dayNumber = k := by
  induction h with
  | epoch => exact ⟨⟨by decide, by decide, by decide, by decide, by decide⟩, by decide⟩
  | next _ ih => exact ⟨ih.1.next, by rw [ih.1.dayNumber_next, ih.2]⟩
  | @back k d hd _ ih =>
    have hnext := hd.proper.dayNumber_next
    exact ⟨hd.proper, by omega⟩

/-! The days of the years 1 to 9999. -/

def firstDay : Int := -719162

def lastDay : Int := 2932896

theorem daysBeforeYear_mono {y z : Nat} (hy : 1 ≤ y) (h : y ≤ z) :
    daysBeforeYear y ≤ daysBeforeYear z := by
  induction h with
  | refl => exact Nat.le_refl _
  | step h ih =>
    rw [daysBeforeYear_succ (Nat.le_trans hy h)]
    omega

theorem daysBeforeYear_end : daysBeforeYear 10000 = 3652059 := rfl

theorem daysBeforeMonth_add_le (y : Nat) {m : Nat} (h : m ≤ 12) :
    daysBeforeMonth y m + daysInMonth y m ≤ daysInYear y := by
  have hmono : ∀ n, daysBeforeMonth y n ≤ daysBeforeMonth y (n + 1) := fun n => Nat.le_add_right ..
  rw [← daysBeforeMonth_year]
  exact monotone_nat_of_le_succ hmono (show m + 1 ≤ 13 by omega)

theorem Proper.valid_iff (h : d.Proper) :
    d.Valid ↔ firstDay ≤ d.dayNumber ∧ d.dayNumber ≤ lastDay := by
  have hyear := daysBeforeYear_succ h.year_pos
  have hmonth := daysBeforeMonth_add_le d.year h.month_le
  have hday := h.day_pos
  have hdayle := h.day_le
  have hend := daysBeforeYear_end
  simp only [firstDay, lastDay, dayNumber, ordinal, epochOrdinal]
  constructor
  · intro hvalid
    have hle : d.year + 1 ≤ 10000 := Nat.succ_le_succ hvalid.2.1
    have := daysBeforeYear_mono (Nat.le_add_left 1 d.year) hle
    omega
  · rintro ⟨-, hlast⟩
    refine h.valid (Nat.le_of_not_lt fun hlate => ?_)
    have := daysBeforeYear_mono (y := 10000) (by decide) hlate
    omega

theorem exists_falls_natCast (n : Nat) : ∃ d, Falls n d := by
  induction n with
  | zero => exact ⟨_, .epoch⟩
  | succ n ih =>
    obtain ⟨d, h⟩ := ih
    exact ⟨d.next, h.next⟩

theorem exists_next_eq (h : d.Valid) (hne : d ≠ ⟨1, 1, 1⟩) :
    ∃ e : Date, e.Valid ∧ e.next = d := by
  obtain ⟨y, m, n⟩ := d
  obtain ⟨hyear, hlast, hmonth, hle, hday, hdayle⟩ := h
  dsimp only at *
  obtain ⟨n, rfl⟩ : ∃ k, n = k + 1 := ⟨n - 1, by omega⟩
  obtain ⟨m, rfl⟩ : ∃ k, m = k + 1 := ⟨m - 1, by omega⟩
  obtain ⟨y, rfl⟩ : ∃ k, y = k + 1 := ⟨y - 1, by omega⟩
  by_cases hn : n = 0
  · subst hn
    by_cases hm : m = 0
    · subst hm
      have hy : y ≠ 0 := fun hy => hne (by rw [hy])
      refine ⟨⟨y, 12, 31⟩, ?_, rfl⟩
      simp only [Valid, daysInMonth]
      omega
    · have hpos := daysInMonth_pos (y + 1) (m := m) (by omega) (by omega)
      refine ⟨⟨y + 1, m, daysInMonth (y + 1) m⟩, ?_, ?_⟩
      · simp only [Valid]
        omega
      · simp only [next]
        rw [if_neg (Nat.lt_irrefl _), if_pos (by omega)]
  · refine ⟨⟨y + 1, m + 1, n⟩, ?_, ?_⟩
    · simp only [Valid]
      omega
    · simp only [next]
      rw [if_pos (by omega)]

theorem exists_falls_neg (n : Nat) (hn : firstDay ≤ -n) : ∃ d, Falls (-n) d ∧ d.Valid := by
  induction n with
  | zero => exact ⟨_, .epoch, by decide⟩
  | succ n ih =>
    obtain ⟨d, hfalls, hd⟩ := ih (by omega)
    have hnumber := hfalls.dayNumber_eq.2
    have hne : d ≠ ⟨1, 1, 1⟩ := by
      rintro rfl
      have hfirst : (Date.mk 1 1 1).dayNumber = firstDay := by decide
      omega
    obtain ⟨e, he, rfl⟩ := exists_next_eq hd hne
    refine ⟨e, .back he ?_, he⟩
    rwa [show -((n + 1 : Nat) : Int) + 1 = -n by omega]

theorem exists_falls_iff : (∃ d, Falls k d ∧ d.Valid) ↔ firstDay ≤ k ∧ k ≤ lastDay := by
  constructor
  · rintro ⟨d, hfalls, hd⟩
    obtain ⟨hproper, rfl⟩ := hfalls.dayNumber_eq
    exact hproper.valid_iff.mp hd
  · rintro ⟨hfirst, hlast⟩
    obtain ⟨n, rfl | rfl⟩ := Int.eq_nat_or_neg k
    · obtain ⟨d, hfalls⟩ := exists_falls_natCast n
      obtain ⟨hproper, hnumber⟩ := hfalls.dayNumber_eq
      exact ⟨d, hfalls, hproper.valid_iff.mpr (by omega)⟩
    · exact exists_falls_neg n hfirst

end TokenSale.Date
