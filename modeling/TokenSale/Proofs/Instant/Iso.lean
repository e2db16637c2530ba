import Mathlib.Data.List.Basic
import TokenSale.Calendar.Iso
import TokenSale.Proofs.Instant.Spelling
import TokenSale.Proofs.Numeral
import TokenSale.Proofs.Rounding

/-!
Reading the extended form of ISO 8601. Fields of a fixed number of digits are read back one after
the other, so a date and a time of day are, with the offset behind them if there is one.
-/

namespace TokenSale

open TokenSale.Text

/-! Fields of a fixed number of digits. -/

section Padded

variable {width n : Nat}

theorem toList_padded (width n : Nat) :
    (padded width n).toList =
      List.replicate (width - (Nat.toDigits 10 n).length) '0' ++ Nat.toDigits 10 n :=
  String.toList_ofList

theorem isDigit_of_mem_padded (width n : Nat) :
    ∀ c ∈ (padded width n).toList, c.isDigit = true := by
  intro c hc
  rw [toList_padded, List.mem_append] at hc
  rcases hc with hc | hc
  · rw [List.eq_of_mem_replicate hc]
    rfl
  · exact isDigit_of_mem_toDigits n c hc

theorem length_padded (hpos : 0 < width) (hlt : n < 10 ^ width) :
    (padded width n).toList.length = width := by
  have hle := (Nat.length_toDigits_le_iff (b := 10) (by decide) hpos).mpr hlt
  rw [toList_padded, List.length_append, List.length_replicate]
  omega

theorem ofDigitChars_padded (width n : Nat) :
    Nat.ofDigitChars 10 (padded width n).toList 0 = n := by
  rw [toList_padded, Nat.ofDigitChars_append, Nat.ofDigitChars_replicate_zero, Nat.mul_zero,
    Nat.ofDigitChars_ten_toDigits]

theorem padded_ne_nil (width n : Nat) : (padded width n).toList ≠ [] := by
  rw [toList_padded]
  exact List.append_ne_nil_of_right_ne_nil _ Nat.toDigits_ne_nil

theorem padded_eq_cons (width n : Nat) :
    ∃ c cs, (padded width n).toList = c :: cs ∧ c.isDigit = true := by
  obtain ⟨c, cs, h⟩ := List.exists_cons_of_ne_nil (padded_ne_nil width n)
  have hdigit := isDigit_of_mem_padded width n
  rw [h] at hdigit
  exact ⟨c, cs, h, hdigit c List.mem_cons_self⟩

end Padded

namespace Moment

theorem mapM_asciiDigit? {cs : List Char} (h : ∀ c ∈ cs, c.isDigit = true) :
    cs.mapM asciiDigit? = some (cs.map fun c => c.toNat - '0'.toNat) := by
  induction cs with
  | nil => rfl
  | cons c cs ih =>
    have hc := asciiDigit?_of_isDigit (h c List.mem_cons_self)
    simp [List.mapM_cons, hc, ih fun d hd => h d (List.mem_cons_of_mem c hd)]

theorem fixedDigits?_padded {width n : Nat} (hpos : 0 < width) (hlt : n < 10 ^ width)
    (rest : List Char) :
    fixedDigits? width ((padded width n).toList ++ rest) = some (n, rest) := by
  have hlength := length_padded hpos hlt
  have hvalue : ((padded width n).toList.map fun c => c.toNat - '0'.toNat).foldl
      (fun v d => 10 * v + d) 0 = n := by
    rw [List.foldl_map]
    exact ofDigitChars_padded width n
  simp only [fixedDigits?, List.take_left' hlength, List.drop_left' hlength, hlength,
    Nat.lt_irrefl, ↓reduceIte, mapM_asciiDigit? (isDigit_of_mem_padded width n), hvalue, bind,
    pure, Option.bind_some]

/-! Dates. -/

theorem toList_iso (d : Date) :
    d.iso.toList = (padded 4 d.year).toList ++
      '-' :: ((padded 2 d.month).toList ++ '-' :: (padded 2 d.day).toList) := by
  simp [Date.iso]

theorem fields_lt {d : Date} (hd : d.Valid) :
    d.year < 10 ^ 4 ∧ d.month < 10 ^ 2 ∧ d.day < 10 ^ 2 := by
  obtain ⟨-, hyear, -, hmonth, -, hday⟩ := hd
  have := Date.daysInMonth_le d.year d.month
  omega

theorem length_iso {d : Date} (hd : d.Valid) : d.iso.toList.length = 10 := by
  obtain ⟨hyear, hmonth, hday⟩ := fields_lt hd
  simp [toList_iso, length_padded (by decide) hyear, length_padded (by decide) hmonth,
    length_padded (by decide) hday]

theorem readDate?_iso {d : Date} (hd : d.Valid) : readDate? d.iso.toList = some d := by
  obtain ⟨hyear, hmonth, hday⟩ := fields_lt hd
  have hlast := fixedDigits?_padded (by decide) hday []
  rw [List.append_nil] at hlast
  rw [readDate?, toList_iso, fixedDigits?_padded (by decide) hyear]
  simp only [bind, Option.bind_some, List.head?_cons, beq_self_eq_true, ↓reduceIte,
    List.drop_one, List.tail_cons]
  split
  · rename_i heq
    obtain ⟨c, cs, hcs, hc⟩ := padded_eq_cons 2 d.month
    rw [hcs, List.cons_append] at heq
    exact absurd (List.cons.inj heq).1 (ne_of_isDigit hc (by decide))
  · simp [fixedDigits?_padded (by decide) hmonth, hyphen?, hlast]

theorem dateLength_iso {d : Date} (hd : d.Valid) (s : List Char) :
    dateLength (d.iso.toList ++ s) = 10 := by
  obtain ⟨hyear, hmonth, -⟩ := fields_lt hd
  have hlength : (d.iso.toList ++ s).length ≠ 7 := by
    rw [List.length_append, length_iso hd]
    omega
  obtain ⟨c, cs, hcs, hc⟩ := padded_eq_cons 2 d.month
  have hweek : c ≠ 'W' := ne_of_isDigit hc (by decide)
  have hfour := length_padded (by decide) hyear
  have hyphen : (d.iso.toList ++ s)[4]? = some '-' := by
    rw [toList_iso, List.append_assoc, List.getElem?_append_right (by omega), hfour]
    rfl
  have hmonth : (d.iso.toList ++ s)[5]? = some c := by
    rw [toList_iso, List.append_assoc, List.getElem?_append_right (by omega), hfour, hcs]
    rfl
  simp only [dateLength, hlength, hyphen, hmonth, Option.some.injEq, hweek, false_and, ↓reduceIte]

/-! Times of day. -/

theorem readFields?_field {colons : Option Bool} (hcolons : colons.getD true = true) (n : Nat)
    {v : Nat} (hv : v < 10 ^ 2) {more : List Char} (hmore : more ≠ []) :
    readFields? colons (n + 1) ((padded 2 v).toList ++ ':' :: more) =
      (readFields? (some true) n more).map fun r => (v :: r.1, r.2) := by
  obtain ⟨c, cs, rfl⟩ := List.exists_cons_of_ne_nil hmore
  rw [readFields?, fixedDigits?_padded (by decide) hv]
  simp only [bind, Option.bind_some, hcolons, beq_self_eq_true, Bool.and_self, ↓reduceIte]
  cases readFields? (some true) n (c :: cs) <;> rfl

theorem readFields?_last (colons : Option Bool) (n : Nat) {v : Nat} (hv : v < 10 ^ 2) :
    readFields? colons (n + 1) (padded 2 v).toList = some ([v], 0, true) := by
  have hlast := fixedDigits?_padded (by decide) hv []
  rw [List.append_nil] at hlast
  rw [readFields?, hlast]
  rfl

variable {c : Civil} {n : Int}

theorem toList_clock (c : Civil) :
    c.clock.toList = (padded 2 c.hour).toList ++
      ':' :: ((padded 2 c.minute).toList ++ ':' :: (padded 2 c.second).toList) := by
  simp [Civil.clock]

theorem readTime?_clock (h : c.Shows n) :
    readTime? c.clock.toList = some (⟨c.hour, c.minute, c.second, 0⟩, true) := by
  have hhour := h.hour_lt
  have hminute := h.minute_lt
  have hsecond := h.second_lt
  have hlast := padded_ne_nil 2 c.second
  rw [readTime?, toList_clock, readFields?_field rfl 2 (by omega) (by simp),
    readFields?_field rfl 1 (by omega) hlast, readFields?_last _ 0 (by omega)]
  rfl

theorem toList_offset (o : Offset) :
    o.text.toList = (if o.west then '-' else '+') ::
      ((padded 2 (o.minutes / 60)).toList ++ ':' :: (padded 2 (o.minutes % 60)).toList) := by
  cases h : o.west <;> simp [Offset.text, h]

theorem readOffset?_text (o : Offset) : readOffset? o.text.toList = some (o.seconds * 1000000) := by
  have hlt := o.minutes_lt
  have htime : readTime? ((padded 2 (o.minutes / 60)).toList ++
      ':' :: (padded 2 (o.minutes % 60)).toList) =
      some (⟨o.minutes / 60, o.minutes % 60, 0, 0⟩, true) := by
    rw [readTime?, readFields?_field rfl 2 (by omega) (padded_ne_nil _ _),
      readFields?_last _ 1 (by omega)]
    rfl
  have hmicros : TimeOfDay.micros ⟨o.minutes / 60, o.minutes % 60, 0, 0⟩ =
      o.minutes * 60000000 := by
    simp only [TimeOfDay.micros]
    omega
  have hzulu : (if o.west then '-' else '+') ≠ 'Z' := by split <;> decide
  rw [toList_offset, readOffset?.eq_2 _ _ fun h => hzulu h, htime]
  simp only [bind, Option.bind_some, hmicros, Bool.not_true, Bool.false_eq_true, ↓reduceIte,
    pure, Option.some.injEq, Offset.seconds]
  cases o.west <;> simp <;> omega

theorem offset_bounds (o : Offset) :
    -dayMicros < o.seconds * 1000000 ∧ o.seconds * 1000000 < dayMicros := by
  have := o.minutes_lt
  simp only [dayMicros, Offset.seconds]
  split <;> omega

theorem startsOffset_of_isDigit {d : Char} (h : d.isDigit = true) : startsOffset d = false := by
  simp only [startsOffset, Bool.or_eq_false_iff, beq_eq_false_iff_ne]
  exact ⟨⟨ne_of_isDigit h (by decide), ne_of_isDigit h (by decide)⟩, ne_of_isDigit h (by decide)⟩

theorem startsOffset_clock (c : Civil) : ∀ d ∈ c.clock.toList, startsOffset d = false := by
  have hdigit : ∀ n, ∀ d ∈ (padded 2 n).toList, startsOffset d = false := fun n d hd =>
    startsOffset_of_isDigit (isDigit_of_mem_padded 2 n d hd)
  have hcolon : startsOffset ':' = false := by decide
  simp only [toList_clock, List.forall_mem_append, List.forall_mem_cons]
  exact ⟨hdigit _, hcolon, hdigit _, hcolon, hdigit _⟩

theorem takeWhile_clock (c : Civil) {tail : List Char}
    (htail : ∀ d ∈ tail.head?, startsOffset d = true) :
    (c.clock.toList ++ tail).takeWhile (fun d => !startsOffset d) = c.clock.toList := by
  rw [List.takeWhile_append_of_pos fun d hd => by rw [startsOffset_clock c d hd, Bool.not_false]]
  cases tail with
  | nil => rw [List.takeWhile_nil, List.append_nil]
  | cons d tail =>
    rw [List.takeWhile_cons_of_neg (by simp [htail d rfl]), List.append_nil]

theorem readTail?_clock (h : c.Shows n) :
    readTail? (c.clock.toList ++ []) = some (⟨c.hour, c.minute, c.second, 0⟩, none) := by
  rw [readTail?, takeWhile_clock c (by simp), readTime?_clock h, List.drop_left]
  rfl

theorem readTail?_offset (h : c.Shows n) (o : Offset) :
    readTail? (c.clock.toList ++ o.text.toList) =
      some (⟨c.hour, c.minute, c.second, 0⟩, some (o.seconds * 1000000)) := by
  have hsign : startsOffset (if o.west then '-' else '+') = true := by split <;> decide
  have hread := readOffset?_text o
  rw [toList_offset] at hread ⊢
  rw [readTail?, takeWhile_clock c (by simpa using hsign), readTime?_clock h, List.drop_left]
  simp only [bind, Option.bind_some, hread]
  rfl

theorem readIso?_text (h : c.Shows n) (hd : c.date.Valid) {tail : List Char} {offset : Option Int}
    (htail : readTail? (c.clock.toList ++ tail) =
      some (⟨c.hour, c.minute, c.second, 0⟩, offset))
    (hoffset : ∀ o ∈ offset, -dayMicros < o ∧ o < dayMicros) :
    readIso? (c.text.toList ++ tail) =
      some ⟨c.date, ⟨c.hour, c.minute, c.second, 0⟩, offset⟩ := by
  have htext : c.text.toList ++ tail = c.date.iso.toList ++ 'T' :: (c.clock.toList ++ tail) := by
    simp [Civil.text]
  have hlength := length_iso hd
  have hlong : ¬ (c.date.iso.toList ++ 'T' :: (c.clock.toList ++ tail)).length < 7 := by
    rw [List.length_append]
    omega
  have hflaw : flaw? ⟨c.date, ⟨c.hour, c.minute, c.second, 0⟩, offset⟩ = none := by
    have hhour := h.hour_lt
    have hminute := h.minute_lt
    have hsecond := h.second_lt
    have htime : TimeOfDay.flaw? ⟨c.hour, c.minute, c.second, 0⟩ = none := by
      simp only [TimeOfDay.flaw?]
      rw [if_neg (by omega), if_neg (by omega), if_neg (by omega)]
    simp only [flaw?, Date.flaw?_eq_none.mpr hd, htime]
    cases offset with
    | none => rfl
    | some o =>
      have := hoffset o rfl
      simp only [Option.orElse_eq_orElse, Option.orElse_none]
      rw [if_neg (by omega)]
  rw [htext, readIso?, if_neg hlong]
  simp only [dateLength_iso hd, List.take_left' hlength, List.drop_left' hlength, readDate?_iso hd,
    bind, Option.bind_some, htail, hflaw, Option.isSome_none, Bool.false_eq_true, ↓reduceIte]
  rfl

theorem seconds_eq {m : Moment} (h : m.epochMicros = n * 1000000) (hlow : firstSecond ≤ n)
    (hhigh : n ≤ lastSecond) : m.seconds = n := by
  have hnegative : decide (n * 1000000 < 0) = decide (n < 0) := by
    simp only [decide_eq_decide]
    omega
  have hsize : (n * 1000000).natAbs = n.natAbs * 1000000 := by omega
  have hlt : n.natAbs < Binary64.mantissaBound := by
    simp only [firstSecond, lastSecond] at hlow hhigh
    simp only [Binary64.mantissaBound]
    omega
  rw [seconds, h, hnegative, hsize, Binary64.truncate_ofRatio_whole _ hlt (by decide),
    Option.getD_some]
  by_cases hn : n < 0
  · rw [if_pos (decide_eq_true hn)]
    omega
  · rw [if_neg (by simpa using hn)]
    omega

end Moment

end TokenSale
