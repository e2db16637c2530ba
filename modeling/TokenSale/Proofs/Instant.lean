import TokenSale.Datum.Access
import TokenSale.Proofs.Instant.Iso

/-!
Instants as data. Each second of the years 1 to 9999 is read from all its spellings, whatever blanks
stand around them.
-/

namespace TokenSale

open TokenSale.Text

namespace Datum

open Moment

variable {c : Civil} {n : Int}

theorem visible_padded (width n : Nat) : Visible (padded width n).toList :=
  visible_of_isDigit (isDigit_of_mem_padded width n)

theorem visible_text (c : Civil) : Visible c.text.toList := by
  simp [Civil.text, toList_iso, toList_clock, visible_padded]

theorem visible_offset (o : Offset) : Visible o.text.toList := by
  cases h : o.west <;> simp [toList_offset, visible_padded, h]

theorem dropWhile_hyphen {d : Char} (hd : d.isDigit = true) (ds : List Char) :
    (d :: ds).dropWhile (· == '-') = d :: ds :=
  List.dropWhile_cons_of_neg fun h => ne_of_isDigit hd (by decide) (eq_of_beq h)

/-- A date is no number, since its fields are separated. -/
theorem isDigitText_civil (c : Civil) (tail : List Char) :
    isDigitText (c.text.toList ++ tail) = false := by
  obtain ⟨d, ds, hds, hd⟩ := padded_eq_cons 4 c.date.year
  have htext : c.text.toList ++ tail = d :: (ds ++ '-' :: ((padded 2 c.date.month).toList ++
      '-' :: ((padded 2 c.date.day).toList ++ 'T' :: (c.clock.toList ++ tail)))) := by
    simp [Civil.text, toList_iso, hds]
  have hseparator : isDigit '-' = false := by decide
  simp [isDigitText, htext, dropWhile_hyphen hd, hseparator]

theorem isDigitText_numeral (n : Int) : isDigitText (Numeral.text n).toList = true := by
  have hdigits := isDigit_of_mem_toDigits n.natAbs
  have hall : ∀ d ∈ Nat.toDigits 10 n.natAbs, isDigit d = true := fun d hd =>
    isDigit_of_isDigit (hdigits d hd)
  have hdrop : (Nat.toDigits 10 n.natAbs).dropWhile (· == '-') = Nat.toDigits 10 n.natAbs := by
    have hne : Nat.toDigits 10 n.natAbs ≠ [] := Nat.toDigits_ne_nil
    obtain ⟨d, ds, hds⟩ := List.exists_cons_of_ne_nil hne
    rw [hds] at hdigits ⊢
    exact dropWhile_hyphen (hdigits d List.mem_cons_self) ds
  rcases Numeral.toList_text_cases n with ⟨heq, -⟩ | ⟨heq, -⟩
  · rw [isDigitText, heq, List.dropWhile_cons_of_pos (by decide), hdrop]
    simpa using hall
  · rw [isDigitText, heq, hdrop]
    simpa using hall

theorem expandZulu_padded (s : List Char) (width n : Nat) :
    expandZulu (s ++ (padded width n).toList) = s ++ (padded width n).toList := by
  refine if_neg fun h => ?_
  rw [List.getLast?_append_of_ne_nil _ (padded_ne_nil width n)] at h
  exact absurd (isDigit_of_mem_padded width n 'Z' (List.mem_of_getLast? h)) (by decide)

theorem epochMicros_eq (h : c.Shows n) (offset : Option Int) :
    epochMicros ⟨c.date, ⟨c.hour, c.minute, c.second, 0⟩, offset⟩ =
      n * 1000000 - offset.getD 0 := by
  have hday := h.date.dayNumber_eq.2
  have htime := h.time
  simp only [epochMicros, hday, dayMicros, TimeOfDay.micros]
  omega

theorem expandZulu_plain (c : Civil) : expandZulu (c.text.toList ++ []) = c.text.toList ++ [] := by
  have htext : c.text.toList ++ [] = (c.date.iso.toList ++ 'T' :: ((padded 2 c.hour).toList ++
      ':' :: ((padded 2 c.minute).toList ++ [':']))) ++ (padded 2 c.second).toList := by
    simp [Civil.text, toList_clock]
  rw [htext]
  exact expandZulu_padded _ 2 c.second

theorem expandZulu_offset (c : Civil) (o : Offset) :
    expandZulu (c.text.toList ++ o.text.toList) = c.text.toList ++ o.text.toList := by
  have htext : c.text.toList ++ o.text.toList = (c.text.toList ++ (if o.west then '-' else '+') ::
      ((padded 2 (o.minutes / 60)).toList ++ [':'])) ++ (padded 2 (o.minutes % 60)).toList := by
    simp [toList_offset]
  rw [htext]
  exact expandZulu_padded _ 2 _

theorem textToInstant_civil {k : Int} (h : c.Shows k) (hd : c.date.Valid) (tail : String)
    {zone : List Char} {offset : Option Int}
    (hvisible : Visible tail.toList)
    (hzone : expandZulu (c.text.toList ++ tail.toList) = c.text.toList ++ zone)
    (hread : readTail? (c.clock.toList ++ zone) =
      some (⟨c.hour, c.minute, c.second, 0⟩, offset))
    (hoffset : ∀ o ∈ offset, -dayMicros < o ∧ o < dayMicros)
    (hn : k * 1000000 - offset.getD 0 = n * 1000000) (hlow : firstSecond ≤ n)
    (hhigh : n ≤ lastSecond) {l r : String} (hl : ∀ c ∈ l.toList, isBlank c = true)
    (hr : ∀ c ∈ r.toList, isBlank c = true) :
    (text (l ++ (c.text ++ tail) ++ r)).toInstant = .ok n := by
  have hmoment := (epochMicros_eq h offset).trans hn
  have htrim : trim (l ++ (c.text ++ tail) ++ r).toList = c.text.toList ++ tail.toList := by
    simp only [String.toList_append]
    exact (visible_append.mpr ⟨visible_text c, hvisible⟩).trim_append hl hr
  rw [toInstant, textToInstant, htrim, isDigitText_civil, if_neg Bool.false_ne_true, hzone,
    readIso?_text h hd hread hoffset]
  simp only [seconds_eq hmoment hlow hhigh]

theorem textToInstant_numeral (hlow : firstSecond ≤ n) (hhigh : n ≤ lastSecond) {l r : String}
    (hl : ∀ c ∈ l.toList, isBlank c = true) (hr : ∀ c ∈ r.toList, isBlank c = true) :
    (text (l ++ Numeral.text n ++ r)).toInstant = .ok n := by
  have htrim : trim (l ++ Numeral.text n ++ r).toList = (Numeral.text n).toList := by
    simp only [String.toList_append]
    exact (Numeral.visible_text n).trim_append hl hr
  have hlength : (Nat.toDigits 10 n.natAbs).length ≤ Numeral.maxDigits := by
    have hlt : n.natAbs < 10 ^ 12 := by
      simp only [firstSecond, lastSecond] at hlow hhigh
      omega
    exact Nat.le_trans ((Nat.length_toDigits_le_iff (by decide) (by decide)).mpr hlt) (by decide)
  rw [toInstant, textToInstant, htrim, if_pos (isDigitText_numeral n), String.ofList_toList,
    numeralToInt, Numeral.read_text hlength]
  rfl

def utc : Offset := ⟨false, 0, by decide⟩

theorem expandZulu_mark (c : Civil) :
    expandZulu (c.text.toList ++ "Z".toList) = c.text.toList ++ utc.text.toList := by
  have hutc : utc.text = "+00:00" := by decide
  simp [expandZulu, hutc]

/-- Exactly the seconds of the years 1 to 9999 can be shown. Each of them is read from the integer,
and from all its spellings between any blanks. -/
theorem toInstant_of_spells :
    (∀ n, (∃ c : Civil, c.Shows n ∧ c.date.Valid) ↔ firstSecond ≤ n ∧ n ≤ lastSecond) ∧
    ∀ n, firstSecond ≤ n → n ≤ lastSecond →
      (int n).toInstant = .ok n ∧
      ∀ s, Spells n s → ∀ l r : String,
        (∀ c ∈ l.toList, isBlank c = true) → (∀ c ∈ r.toList, isBlank c = true) →
        (text (l ++ s ++ r)).toInstant = .ok n := by
  refine ⟨fun n => Civil.exists_shows_iff, fun n hlow hhigh => ⟨rfl, fun s hs l r hl hr => ?_⟩⟩
  have hzulu : utc.seconds = 0 := rfl
  cases hs with
  | numeral => exact textToInstant_numeral hlow hhigh hl hr
  | @plain c h hd =>
    have hread := textToInstant_civil h hd "" visible_nil (expandZulu_plain c)
      (readTail?_clock h) (by simp) (by simp) hlow hhigh hl hr
    rwa [String.append_empty] at hread
  | @zulu c h hd =>
    exact textToInstant_civil h hd "Z" (by simp) (expandZulu_mark c) (readTail?_offset h utc)
      (fun o ho => Option.mem_some.mp ho ▸ offset_bounds utc) (by simp [hzulu]) hlow hhigh hl hr
  | @offset c o h hd =>
    exact textToInstant_civil h hd o.text (visible_offset o) (expandZulu_offset c o)
      (readTail?_offset h o) (fun _ ho => Option.mem_some.mp ho ▸ offset_bounds o)
      (by rw [Option.getD_some]; omega) hlow hhigh hl hr

/-- The last second of 1969, which is already in 1970 further east. -/
theorem toInstant_of_spells_new_year :
    (text "-1").toInstant = .ok (-1) ∧ (text " 1969-12-31T23:59:59Z").toInstant = .ok (-1) ∧
      (text "\t1970-01-01T05:29:59+05:30\n").toInstant = .ok (-1) := by
  have hutc : Civil.Shows ⟨⟨1969, 12, 31⟩, 23, 59, 59⟩ (-1) :=
    ⟨.back (by decide) .epoch, by decide, by decide, by decide⟩
  have hlocal : Civil.Shows ⟨⟨1970, 1, 1⟩, 5, 29, 59⟩ (-1 + 19800) :=
    ⟨.epoch, by decide, by decide, by decide⟩
  have hnumeral : "" ++ Numeral.text (-1) ++ "" = "-1" := by decide
  have hmarked : " " ++ (Civil.text ⟨⟨1969, 12, 31⟩, 23, 59, 59⟩ ++ "Z") ++ "" =
      " 1969-12-31T23:59:59Z" := by decide
  have heast : "\t" ++ (Civil.text ⟨⟨1970, 1, 1⟩, 5, 29, 59⟩ ++
      Offset.text ⟨false, 330, by decide⟩) ++ "\n" = "\t1970-01-01T05:29:59+05:30\n" := by decide
  have hnone : ∀ c ∈ "".toList, isBlank c = true := by simp
  have hspace : ∀ c ∈ " ".toList, isBlank c = true := by
    simpa using (by decide : isBlank ' ' = true)
  have htab : ∀ c ∈ "\t".toList, isBlank c = true := by
    simpa using (by decide : isBlank '\t' = true)
  have hnewline : ∀ c ∈ "\n".toList, isBlank c = true := by
    simpa using (by decide : isBlank '\n' = true)
  have hread := (toInstant_of_spells.2 (-1) (by decide) (by decide)).2
  rw [← hnumeral, ← hmarked, ← heast]
  exact ⟨hread _ .numeral "" "" hnone hnone,
    hread _ (.zulu hutc (by decide)) " " "" hspace hnone,
    hread _ (.offset ⟨false, 330, by decide⟩ hlocal (by decide)) "\t" "\n" htab hnewline⟩

end Datum

end TokenSale
