import Mathlib.Algebra.Group.Nat.Defs
import TokenSale.Binary64

/-!
Whole numbers as binary64. A ratio that is a whole number below 2 ^ 53 is not rounded.
-/

namespace TokenSale.Binary64

variable {k den : Nat}

theorem inUnits_whole (k n : Nat) (hden : 0 < den) :
    ∃ d, 0 < d ∧ inUnits (k * den) den (-n : Int) = (k * 2 ^ n * d, d) := by
  unfold inUnits
  split
  · have hzero : n = 0 := by omega
    subst hzero
    exact ⟨den, hden, by simp⟩
  · exact ⟨den, hden, by simp [Nat.mul_right_comm]⟩

theorem roundQuotient_mul (q : Nat) {d : Nat} (hd : 0 < d) : roundQuotient (q * d) d = q := by
  simp [roundQuotient, Nat.mul_div_cancel q hd, hd]

theorem log2_mul_cases (hk : 0 < k) (hden : 0 < den) :
    (k * den).log2 = k.log2 + den.log2 ∨ (k * den).log2 = k.log2 + den.log2 + 1 := by
  have hne : k * den ≠ 0 := Nat.mul_ne_zero (by omega) (by omega)
  have hlow : 2 ^ (k.log2 + den.log2) ≤ k * den := by
    rw [Nat.pow_add]
    exact Nat.mul_le_mul (Nat.log2_self_le (by omega)) (Nat.log2_self_le (by omega))
  have hhigh : k * den < 2 ^ (k.log2 + den.log2 + 2) := by
    calc k * den < 2 ^ (k.log2 + 1) * 2 ^ (den.log2 + 1) :=
          Nat.mul_lt_mul'' Nat.lt_log2_self Nat.lt_log2_self
      _ = 2 ^ (k.log2 + den.log2 + 2) := by rw [← Nat.pow_add]; congr 1; omega
  have := (Nat.le_log2 hne).mpr hlow
  have := (Nat.log2_lt hne).mpr hhigh
  omega

theorem shift_bounds (hk : 0 < k) (hlt : k < mantissaBound) :
    k.log2 ≤ 52 ∧ k * 2 ^ (52 - k.log2) < mantissaBound ∧
      mantissaBound ≤ k * 2 ^ (53 - k.log2) := by
  have hle : k.log2 ≤ 52 := Nat.lt_succ_iff.mp ((Nat.log2_lt (by omega)).mpr hlt)
  refine ⟨hle, ?_, ?_⟩
  · calc k * 2 ^ (52 - k.log2) < 2 ^ (k.log2 + 1) * 2 ^ (52 - k.log2) :=
          Nat.mul_lt_mul_of_pos_right Nat.lt_log2_self (Nat.two_pow_pos _)
      _ = mantissaBound := by
        rw [← Nat.pow_add, show k.log2 + 1 + (52 - k.log2) = 53 by omega]
        rfl
  · calc mantissaBound = 2 ^ k.log2 * 2 ^ (53 - k.log2) := by
          rw [← Nat.pow_add, show k.log2 + (53 - k.log2) = 53 by omega]
          rfl
      _ ≤ k * 2 ^ (53 - k.log2) := Nat.mul_le_mul_right _ (Nat.log2_self_le (by omega))

/-- The guess is this exponent or one less, and the quotient tells them apart. -/
theorem unitExponent_whole (hk : 0 < k) (hlt : k < mantissaBound) (hden : 0 < den) :
    unitExponent (k * den) den = -((52 - k.log2 : Nat) : Int) := by
  obtain ⟨hle, hbelow, habove⟩ := shift_bounds hk hlt
  have hguess : ((k * den).log2 : Int) - den.log2 - 53 = -((52 - k.log2 : Nat) : Int) ∨
      ((k * den).log2 : Int) - den.log2 - 53 = -((53 - k.log2 : Nat) : Int) := by
    rcases log2_mul_cases hk hden with h | h <;> omega
  rcases hguess with h | h
  · obtain ⟨d, hd, hunits⟩ := inUnits_whole k (52 - k.log2) hden
    simp only [unitExponent, h, hunits, Nat.mul_div_cancel _ hd, hbelow, ↓reduceIte, leastExponent]
    omega
  · obtain ⟨d, hd, hunits⟩ := inUnits_whole k (53 - k.log2) hden
    simp only [unitExponent, h, hunits, Nat.mul_div_cancel _ hd, Nat.not_lt.mpr habove, ↓reduceIte,
      leastExponent]
    omega

theorem wholePart_units (k n : Nat) : wholePart (k * 2 ^ n) (-n : Int) = k := by
  unfold wholePart
  split
  · have hzero : n = 0 := by omega
    subst hzero
    simp
  · simp [Nat.mul_div_cancel _ (Nat.two_pow_pos n)]

theorem wholePart_zero (e : Int) : wholePart 0 e = 0 := by
  unfold wholePart
  split
  · exact Nat.zero_mul _
  · exact Nat.zero_div _

theorem truncate_ofRatio_whole (negative : Bool) (hlt : k < mantissaBound) (hden : 0 < den) :
    (ofRatio negative (k * den) den).truncate? = some (if negative then -(k : Int) else k) := by
  rcases Nat.eq_zero_or_pos k with rfl | hk
  · simp [ofRatio, zero, truncate?, wholePart_zero]
  · obtain ⟨-, hbelow, -⟩ := shift_bounds hk hlt
    obtain ⟨d, hd, hunits⟩ := inUnits_whole k (52 - k.log2) hden
    have hne : k * den ≠ 0 := Nat.mul_ne_zero (by omega) (by omega)
    have hexponent : ¬ greatestExponent < -((52 - k.log2 : Nat) : Int) := by
      rw [greatestExponent]
      omega
    simp only [ofRatio, hne, unitExponent_whole hk hlt hden, hunits, roundQuotient_mul _ hd,
      ofMantissa, Nat.ne_of_lt hbelow, hexponent, ↓reduceIte, truncate?, wholePart_units]

end TokenSale.Binary64
