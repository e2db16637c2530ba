import TokenSale.Text.Numeral

/-!
Decimal digits and numerals. An integer is read back from its numeral, unless that is too long.
-/

namespace TokenSale.Text

variable {c : Char}

/-! ASCII digits. -/

theorem isDigit_of_mem_toDigits (n : Nat) : ∀ c ∈ Nat.toDigits 10 n, c.isDigit = true :=
  fun _ hc => Nat.isDigit_of_mem_toDigits (by decide) (by decide) hc

theorem ascii_of_isDigit (h : c.isDigit = true) : 0x30 ≤ c.toNat ∧ c.toNat ≤ 0x39 := by
  simp only [Char.isDigit, Bool.and_eq_true, decide_eq_true_eq] at h
  exact h

theorem ne_of_isDigit {d : Char} (hc : c.isDigit = true) (hd : d.isDigit = false) : c ≠ d := by
  rintro rfl
  exact Bool.false_ne_true (hd.symm.trans hc)

theorem asciiDigit?_of_isDigit (h : c.isDigit = true) :
    asciiDigit? c = some (c.toNat - '0'.toNat) :=
  if_pos (ascii_of_isDigit h)

theorem isDigit_of_isDigit (h : c.isDigit = true) : isDigit c = true := by
  have hascii := ascii_of_isDigit h
  have hfound : (decimalValue? c).isSome = true := by
    rw [decimalValue?, Option.isSome_map, List.find?_isSome]
    exact ⟨0x30, by decide, by simp only [decide_eq_true_eq]; omega⟩
  rw [isDigit, hfound, Bool.true_or]

/-! Visible ASCII. -/

def Visible (s : List Char) : Prop := ∀ c ∈ s, 0x20 < c.toNat ∧ c.toNat < 0x7f

variable {cs : List Char}

@[simp] theorem visible_nil : Visible [] := by simp [Visible]

@[simp] theorem visible_cons :
    Visible (c :: cs) ↔ (0x20 < c.toNat ∧ c.toNat < 0x7f) ∧ Visible cs := by
  simp [Visible]

@[simp] theorem visible_append {ds : List Char} : Visible (cs ++ ds) ↔ Visible cs ∧ Visible ds :=
  List.forall_mem_append

theorem visible_of_isDigit (h : ∀ c ∈ cs, c.isDigit = true) : Visible cs := fun c hc => by
  have := ascii_of_isDigit (h c hc)
  omega

theorem isBlank_eq_false (hlow : 0x20 < c.toNat) (hhigh : c.toNat < 0x7f) : isBlank c = false := by
  refine Bool.eq_false_iff.mpr fun h => ?_
  obtain ⟨r, hr, hle⟩ := RangeTable.has_eq_true.mp h
  have houtside : ∀ r ∈ blankTable, r.2 ≤ 0x20 ∨ 0x7f ≤ r.1 := by decide
  have := houtside r hr
  omega

theorem Visible.trimBy_append {p : Char → Bool} (h : Visible cs)
    (hp : ∀ c : Char, 0x20 < c.toNat → c.toNat < 0x7f → p c = false) {l r : List Char}
    (hl : ∀ c ∈ l, p c = true) (hr : ∀ c ∈ r, p c = true) : trimBy p (l ++ cs ++ r) = cs :=
  Text.trimBy_append hl (fun c hc => hp c (h c (List.mem_of_mem_head? hc)).1
      (h c (List.mem_of_mem_head? hc)).2)
    (fun c hc => hp c (h c (List.mem_of_getLast? hc)).1 (h c (List.mem_of_getLast? hc)).2) hr

theorem Visible.trim_append (h : Visible cs) {l r : List Char} (hl : ∀ c ∈ l, isBlank c = true)
    (hr : ∀ c ∈ r, isBlank c = true) : trim (l ++ cs ++ r) = cs :=
  h.trimBy_append (fun _ => isBlank_eq_false) hl hr

namespace Numeral

theorem isMargin_eq_false (h : 0x20 < c.toNat) : isMargin c = false := by
  have hspace : c ≠ ' ' := by
    rintro rfl
    exact absurd h (by decide)
  simp only [isMargin, Bool.or_eq_false_iff, beq_eq_false_iff_ne, decide_eq_false_iff_not]
  exact ⟨hspace, by omega⟩

theorem digits?_of_isDigit (hne : cs ≠ []) (h : ∀ c ∈ cs, c.isDigit = true) :
    digits? cs = some (cs.map fun c => c.toNat - '0'.toNat) := by
  induction cs with
  | nil => exact absurd rfl hne
  | cons c cs ih =>
    have hc := asciiDigit?_of_isDigit (h c List.mem_cons_self)
    have hcs : ∀ d ∈ cs, d.isDigit = true := fun d hd => h d (List.mem_cons_of_mem c hd)
    cases cs with
    | nil => simp [digits?, hc]
    | cons d cs =>
      have hd : d ≠ '_' := ne_of_isDigit (hcs d List.mem_cons_self) (by decide)
      simp [digits?, hc, hd, ih (List.cons_ne_nil d cs) hcs]

theorem sign_of_isDigit (h : ∀ c ∈ cs, c.isDigit = true) : sign cs = (false, cs) := by
  unfold sign
  split
  · exact absurd (h '-' List.mem_cons_self) (by decide)
  · exact absurd (h '+' List.mem_cons_self) (by decide)
  · rfl

theorem ofDigits_map (cs : List Char) :
    ofDigits (cs.map fun c => c.toNat - '0'.toNat) = Nat.ofDigitChars 10 cs 0 := by
  rw [ofDigits, List.foldl_map]
  rfl

theorem trimBy_map_plain (h : Visible cs) : trimBy isMargin (cs.map plain) = cs := by
  have hplain : cs.map plain = cs :=
    (List.map_congr_left fun c hc => if_pos (h c hc).2).trans cs.map_id
  simpa [hplain] using
    h.trimBy_append (l := []) (r := []) (fun c hlow _ => isMargin_eq_false hlow) (by simp) (by simp)

theorem readChars_of_sign {s : List Char} {negative : Bool} {n : Nat} (hvisible : Visible s)
    (hsign : sign s = (negative, Nat.toDigits 10 n))
    (hlength : (Nat.toDigits 10 n).length ≤ maxDigits) :
    readChars s = .ok (if negative then -(n : Int) else n) := by
  have hvalue : ofDigits ((Nat.toDigits 10 n).map fun c => c.toNat - '0'.toNat) = n := by
    rw [ofDigits_map, Nat.ofDigitChars_ten_toDigits]
  simp only [readChars, trimBy_map_plain hvisible, hsign,
    digits?_of_isDigit Nat.toDigits_ne_nil (isDigit_of_mem_toDigits n), List.length_map,
    Nat.not_lt.mpr hlength, ↓reduceIte, hvalue]

theorem toList_text_cases (n : Int) :
    (text n).toList = '-' :: Nat.toDigits 10 n.natAbs ∧ n < 0 ∨
      (text n).toList = Nat.toDigits 10 n.natAbs ∧ 0 ≤ n := by
  unfold text
  split
  · exact .inl ⟨String.toList_ofList, by assumption⟩
  · exact .inr ⟨String.toList_ofList, Int.not_lt.mp (by assumption)⟩

theorem visible_text (n : Int) : Visible (text n).toList := by
  have hdigits := visible_of_isDigit (isDigit_of_mem_toDigits n.natAbs)
  rcases toList_text_cases n with ⟨heq, -⟩ | ⟨heq, -⟩
  · rw [heq, visible_cons]
    exact ⟨by decide, hdigits⟩
  · rwa [heq]

theorem read_text {n : Int} (h : (Nat.toDigits 10 n.natAbs).length ≤ maxDigits) :
    read (text n) = .ok n := by
  have hvisible := visible_text n
  rcases toList_text_cases n with ⟨heq, hn⟩ | ⟨heq, hn⟩
  · rw [heq] at hvisible
    rw [read, heq, readChars_of_sign hvisible rfl h, if_pos rfl]
    congr 1
    omega
  · rw [heq] at hvisible
    rw [read, heq, readChars_of_sign hvisible (sign_of_isDigit (isDigit_of_mem_toDigits _)) h,
      if_neg Bool.false_ne_true]
    congr 1
    omega

end Numeral

end TokenSale.Text
