import Mathlib.Data.List.TakeDrop
import Mathlib.Tactic.IntervalCases
import TokenSale.Datum.Json.Printer
import TokenSale.Datum.Json.Reader
import TokenSale.Proofs.Numeral

/-!
Strings and integers in JSON text. Each is read back from what is written for it, whatever follows a
string, and with a delimiter after a number.
-/

namespace TokenSale.Datum.Json

open TokenSale.Text

/-! Hexadecimal escapes. -/

theorem hexDigit?_digitChar {d : Nat} (h : d < 16) : hexDigit? (Nat.digitChar d) = some d := by
  interval_cases d <;> rfl

/-- The last digit comes off the end, also in front of nothing but padding. -/
theorem hex_succ (width n : Nat) :
    Quoted.hex (width + 2) n = Quoted.hex (width + 1) (n / 16) ++ [Nat.digitChar (n % 16)] := by
  by_cases h : n < 16
  · have hdiv : n / 16 = 0 := Nat.div_eq_of_lt h
    simp [Quoted.hex, Nat.toDigits_of_lt_base h, hdiv, Nat.toDigits_zero, Nat.mod_eq_of_lt h,
      List.replicate_succ']
  · have hdigits : Nat.toDigits 16 n = Nat.toDigits 16 (n / 16) ++ [Nat.digitChar (n % 16)] := by
      rw [Nat.toDigits_eq_if (by omega), if_neg h]
    simp [Quoted.hex, hdigits]

theorem hex_four {n : Nat} (h : n < 0x10000) :
    Quoted.hex 4 n = [Nat.digitChar (n / 0x1000), Nat.digitChar (n / 0x100 % 0x10),
      Nat.digitChar (n / 0x10 % 0x10), Nat.digitChar (n % 0x10)] := by
  have hone : Quoted.hex 1 (n / 0x1000) = [Nat.digitChar (n / 0x1000)] := by
    simp [Quoted.hex, Nat.toDigits_of_lt_base (show n / 0x1000 < 16 by omega)]
  simp [hex_succ, Nat.div_div_eq_div_mul, hone]

theorem unit?_hex {n : Nat} (h : n < 0x10000) (rest : List Char) :
    unit? (Quoted.hex 4 n ++ rest) = some (n, rest) := by
  have h3 := hexDigit?_digitChar (d := n / 0x1000) (by omega)
  have h2 := hexDigit?_digitChar (d := n / 0x100 % 0x10) (by omega)
  have h1 := hexDigit?_digitChar (d := n / 0x10 % 0x10) (by omega)
  have h0 := hexDigit?_digitChar (d := n % 0x10) (by omega)
  simp only [hex_four h, List.cons_append, List.nil_append, unit?, h3, h2, h1, h0, bind, pure,
    Option.bind_some]
  congr 2
  omega

theorem not_surrogate (c : Char) :
    c.toNat < 0xd800 ∨ 0xe000 ≤ c.toNat ∧ c.toNat < 0x110000 := by
  have := c.valid
  simp only [UInt32.isValidChar, Nat.isValidChar] at this
  change c.toNat < _ ∨ _ < c.toNat ∧ c.toNat < _ at this
  omega

theorem unicodeEscape?_unit {c : Char} (h : c.toNat < 0x10000) (rest : List Char) :
    unicodeEscape? (Quoted.hex 4 c.toNat ++ rest) = some (c, rest) := by
  have hvalid := not_surrogate c
  have hhigh : isHigh c.toNat = false := by simp only [isHigh, decide_eq_false_iff_not]; omega
  have hlow : isLow c.toNat = false := by simp only [isLow, decide_eq_false_iff_not]; omega
  simp [unicodeEscape?, unit?_hex h, hhigh, hlow]

theorem unicodeEscape?_pair {m n : Nat} (hm : isHigh m = true) (hn : isLow n = true)
    (rest : List Char) :
    unicodeEscape? (Quoted.hex 4 m ++ (unitEscape n ++ rest)) =
      some (Char.ofNat (0x10000 + (m - 0xd800) * 0x400 + (n - 0xdc00)), rest) := by
  have hmlt : m < 0x10000 := by simp only [isHigh, decide_eq_true_eq] at hm; omega
  have hnlt : n < 0x10000 := by simp only [isLow, decide_eq_true_eq] at hn; omega
  have hlow : lowUnit? (unitEscape n ++ rest) = some (n, rest) := by
    simp [unitEscape, lowUnit?, unit?_hex hnlt, hn]
  simp [unicodeEscape?, unit?_hex hmlt, hm, hlow]

/-! Strings. -/

theorem stringBody?_plain (fuel : Nat) (acc : List Char) {c : Char} (hmark : c ≠ '"')
    (hslash : c ≠ '\\') (hle : ' ' ≤ c) (rest : List Char) :
    stringBody? (fuel + 1) acc (c :: rest) = stringBody? fuel (c :: acc) rest := by
  have hplain : ¬ (c < ' ' ∨ c = '\\') := by
    rintro (hlt | heq)
    · exact absurd hle (Char.not_le.mpr hlt)
    · exact hslash heq
  rw [stringBody?]
  · simp only [hplain, ↓reduceIte]
  all_goals simp [hmark, hslash]

theorem stringBody?_letter (fuel : Nat) (acc : List Char) {letter c : Char}
    (h : letterEscape? letter = some c) (rest : List Char) :
    stringBody? (fuel + 1) acc ('\\' :: letter :: rest) = stringBody? fuel (c :: acc) rest := by
  have hu : letter ≠ 'u' := by
    rintro rfl
    cases h
  rw [stringBody?]
  · rw [h]
    rfl
  all_goals simp [hu]

theorem unitEscape_append (n : Nat) (rest : List Char) :
    unitEscape n ++ rest = '\\' :: 'u' :: (Quoted.hex 4 n ++ rest) := rfl

theorem stringBody?_unicode (fuel : Nat) (acc : List Char) {s rest : List Char} {c : Char}
    (h : unicodeEscape? s = some (c, rest)) :
    stringBody? (fuel + 1) acc ('\\' :: 'u' :: s) = stringBody? fuel (c :: acc) rest := by
  simp [stringBody?, h]

theorem escape_cases (c : Char) :
    (∃ letter, escape c = ['\\', letter] ∧ ' ' ≤ letter ∧ letter ≤ '~' ∧
      letterEscape? letter = some c) ∨
    (escape c = [c] ∧ c ≠ '"' ∧ c ≠ '\\' ∧ ' ' ≤ c ∧ c ≤ '~') ∨
    (escape c = unitEscape c.toNat ∧ c.toNat < 0x10000) ∨
    ∃ m n, escape c = unitEscape m ++ unitEscape n ∧ isHigh m = true ∧ isLow n = true ∧
      0x10000 + (m - 0xd800) * 0x400 + (n - 0xdc00) = c.toNat := by
  unfold escape
  split
  case h_8 hmark hslash _ _ _ _ _ =>
    split
    · rename_i hascii
      exact .inr (.inl ⟨rfl, hmark, hslash, hascii⟩)
    split
    · rename_i hunit
      exact .inr (.inr (.inl ⟨rfl, hunit⟩))
    · have hvalid := not_surrogate c
      refine .inr (.inr (.inr ⟨_, _, rfl, ?_⟩))
      simp only [isHigh, isLow, decide_eq_true_eq]
      omega
  all_goals exact .inl ⟨_, rfl, by decide, by decide, rfl⟩

theorem stringBody?_escape (fuel : Nat) (acc : List Char) (c : Char) (rest : List Char) :
    stringBody? (fuel + 1) acc (escape c ++ rest) = stringBody? fuel (c :: acc) rest := by
  rcases escape_cases c with ⟨letter, hesc, -, -, hletter⟩ | ⟨hesc, hmark, hslash, hle, -⟩ |
    ⟨hesc, hunit⟩ | ⟨m, n, hesc, hhigh, hlow, hpair⟩
  · rw [hesc]
    exact stringBody?_letter fuel acc hletter rest
  · rw [hesc]
    exact stringBody?_plain fuel acc hmark hslash hle rest
  · rw [hesc, unitEscape_append]
    exact stringBody?_unicode fuel acc (unicodeEscape?_unit hunit rest)
  · have hread := unicodeEscape?_pair hhigh hlow rest
    rw [hpair, Char.ofNat_toNat] at hread
    rw [hesc, List.append_assoc, unitEscape_append]
    exact stringBody?_unicode fuel acc hread

theorem stringBody?_flatMap {fuel : Nat} {cs : List Char} (h : cs.length < fuel)
    (acc rest : List Char) :
    stringBody? fuel acc (cs.flatMap escape ++ '"' :: rest) =
      some (String.ofList (acc.reverse ++ cs), rest) := by
  induction cs generalizing fuel acc with
  | nil =>
    obtain ⟨fuel, rfl⟩ := Nat.exists_eq_succ_of_ne_zero (Nat.ne_of_gt h)
    simp [stringBody?]
  | cons c cs ih =>
    obtain ⟨fuel, rfl⟩ := Nat.exists_eq_succ_of_ne_zero (Nat.ne_of_gt (Nat.zero_lt_of_lt h))
    rw [List.flatMap_cons, List.append_assoc, stringBody?_escape, ih (Nat.lt_of_succ_lt_succ h),
      List.reverse_cons, List.append_assoc, List.singleton_append]

theorem escape_length_pos (c : Char) : 0 < (escape c).length := by
  rcases escape_cases c with ⟨_, hesc, -⟩ | ⟨hesc, -⟩ | ⟨hesc, -⟩ | ⟨_, _, hesc, -⟩ <;>
    simp [hesc, unitEscape]

theorem length_le_flatMap_escape (cs : List Char) : cs.length ≤ (cs.flatMap escape).length := by
  induction cs with
  | nil => simp
  | cons c cs ih =>
    have := escape_length_pos c
    simp only [List.flatMap_cons, List.length_append, List.length_cons]
    omega

theorem stringBody?_string (s : String) (rest : List Char) :
    stringBody? ((s.toList.flatMap escape ++ '"' :: rest).length + 1) []
      (s.toList.flatMap escape ++ '"' :: rest) = some (s, rest) := by
  have hlen := length_le_flatMap_escape s.toList
  rw [stringBody?_flatMap (by rw [List.length_append]; omega)]
  simp

theorem toList_string (s : String) :
    (string s).toList = '"' :: (s.toList.flatMap escape ++ ['"']) := by
  simp [string]

/-! Integers. -/

/-- What may follow a value: nothing, a comma or the end of its line. -/
def Delimited (rest : List Char) : Prop := ∀ c ∈ rest.head?, c = ',' ∨ c = '\n'

theorem delimited_nil : Delimited [] := by simp [Delimited]

theorem delimited_comma (rest : List Char) : Delimited (',' :: rest) := by simp [Delimited]

theorem delimited_newline (rest : List Char) : Delimited ('\n' :: rest) := by simp [Delimited]

theorem Delimited.cases {rest : List Char} (h : Delimited rest) :
    rest = [] ∨ (∃ cs, rest = ',' :: cs) ∨ ∃ cs, rest = '\n' :: cs := by
  cases rest with
  | nil => exact .inl rfl
  | cons c cs =>
    rcases h c rfl with rfl | rfl
    · exact .inr (.inl ⟨cs, rfl⟩)
    · exact .inr (.inr ⟨cs, rfl⟩)

theorem digitsOf_toDigits (n : Nat) {rest : List Char} (h : Delimited rest) :
    digitsOf (Nat.toDigits 10 n ++ rest) = (Nat.toDigits 10 n, rest) := by
  have hdigits : ∀ c ∈ Nat.toDigits 10 n, (asciiDigit? c).isSome = true := fun c hc => by
    rw [asciiDigit?_of_isDigit (isDigit_of_mem_toDigits n c hc), Option.isSome_some]
  rw [digitsOf, List.span_eq_takeWhile_dropWhile, List.takeWhile_append_of_pos hdigits,
    List.dropWhile_append_of_pos hdigits]
  rcases h.cases with rfl | ⟨cs, rfl⟩ | ⟨cs, rfl⟩ <;> simp [asciiDigit?]

theorem toDigits_head (n : Nat) :
    ∃ d cs, d < 10 ∧ Nat.toDigits 10 n = Nat.digitChar d :: cs ∧ (d = 0 → n = 0) := by
  induction n using Nat.strongRecOn with
  | _ n ih =>
    by_cases h : n < 10
    · exact ⟨n, [], h, Nat.toDigits_of_lt_base h, id⟩
    · obtain ⟨d, cs, hd, hcs, hzero⟩ := ih (n / 10) (by omega)
      refine ⟨d, cs ++ [Nat.digitChar (n % 10)], hd, ?_, fun h0 => ?_⟩
      · rw [Nat.toDigits_eq_if (by decide), if_neg h, hcs, List.cons_append]
      · have := hzero h0
        omega

theorem wholePart?_toDigits (n : Nat) {rest : List Char} (h : Delimited rest) :
    wholePart? (Nat.toDigits 10 n ++ rest) = some (Nat.toDigits 10 n, rest) := by
  obtain ⟨d, cs, hd, hcs, hzero⟩ := toDigits_head n
  by_cases h0 : d = 0
  · rw [hzero h0, Nat.toDigits_zero]
    rfl
  · have hne : Nat.digitChar d ≠ '0' := by interval_cases d <;> simp_all
    have hempty : (Nat.toDigits 10 n).isEmpty = false := by simp [hcs]
    rw [wholePart?.eq_2]
    · simp only [digitsOf_toDigits n h, hempty, Bool.false_eq_true, ↓reduceIte]
    · intro tail htail
      rw [hcs, List.cons_append] at htail
      exact hne (List.cons.inj htail).1

theorem unsigned?_toDigits (negative : Bool) (n : Nat) {rest : List Char} (h : Delimited rest) :
    unsigned? negative (Nat.toDigits 10 n ++ rest) =
      some (.int (if negative then -(n : Int) else n), rest) := by
  have hfraction : fraction? rest = none := by
    rcases h.cases with rfl | ⟨cs, rfl⟩ | ⟨cs, rfl⟩ <;> rfl
  have hexponent : exponent? rest = none := by
    rcases h.cases with rfl | ⟨cs, rfl⟩ | ⟨cs, rfl⟩ <;> rfl
  simp [unsigned?, wholePart?_toDigits n h, hfraction, hexponent, natOf,
    Nat.ofDigitChars_ten_toDigits]

end TokenSale.Datum.Json
