import TokenSale.Proofs.Weighing

/-!
Conversions there and back. An amount that is converted to other units is rounded down, and so is what
comes back. The loss of both is exactly what the first one dropped, in the old units and rounded up;
so nothing is ever gained, and in finer units at most one unit is lost. What a deposit buys is never
worth more than the deposit.
-/

namespace TokenSale

namespace Amount

variable {x y num den k : Int}

/-! Quotients rounded up. -/

/-- `x / den` rounded up. -/
def ceilDiv (x den : Int) : Int := -(-x / den)

theorem ceilDiv_le_iff (hden : 0 < den) : ceilDiv x den ≤ k ↔ x ≤ k * den := by
  have hfloor : -k ≤ -x / den ↔ -k * den ≤ -x := Int.le_ediv_iff_mul_le hden
  rw [Int.neg_mul] at hfloor
  unfold ceilDiv
  omega

theorem ceilDiv_mono (hden : 0 < den) (hle : x ≤ y) : ceilDiv x den ≤ ceilDiv y den := by
  rw [ceilDiv_le_iff hden]
  exact Int.le_trans hle ((ceilDiv_le_iff hden).mp (Int.le_refl _))

theorem sub_ediv (x r : Int) (hnum : 0 < num) : (x * num - r) / num = x - ceilDiv r num := by
  rw [Int.sub_eq_add_neg, Int.add_comm, Int.add_mul_ediv_right _ _ (Int.ne_of_gt hnum), ceilDiv]
  omega

/-! Amounts. -/

theorem scale_overflowsUnless (hx : InRange x) (hnum : InRange num) (hden : InRange den)
    (hpos : 0 < den) : OverflowsUnless (x * num / den ≤ maxU128) (scale x num den) := by
  refine .intro (mulDiv_overflows (Int.ne_of_gt hpos)) (fun q hq => ?_) fun hle => ?_
  · obtain ⟨-, rfl, hle⟩ := (mulDiv_eq_ok_of_inRange hnum hden hpos).mp hq
    exact hle
  · exact ⟨_, (mulDiv_eq_ok_of_inRange hnum hden hpos).mpr ⟨hx, rfl, hle⟩⟩

/-- An amount `x`, what it is worth in other units, and what that is worth when it is converted
back. -/
structure Reverts (x num den y back : Int) : Prop where
  fits : y * den ≤ x * num
  largest : ∀ z, z * den ≤ x * num → z ≤ y
  unscale_eq : unscale y num den = .ok back
  back_eq : back = x - ceilDiv (x * num % den) num
  back_le : back ≤ x
  le_back : x - ceilDiv (den - 1) num ≤ back
  near : den ≤ num → x - 1 ≤ back

/-- The remainder of the first conversion is what the way back has too little of. -/
theorem back_value (x den : Int) (hnum : 0 < num) :
    x * num / den * den / num = x - ceilDiv (x * num % den) num := by
  have hrest : x * num / den * den = x * num - x * num % den := by
    have := Int.ediv_mul_add_emod (x * num) den
    omega
  rw [hrest, sub_ediv x _ hnum]

/-- The loss is largest when the first conversion drops all but a unit. -/
theorem loss_le (x : Int) (hnum : 0 < num) (hden : 0 < den) :
    ceilDiv (x * num % den) num ≤ ceilDiv (den - 1) num := by
  have hlt : x * num % den < den := Int.emod_lt_of_pos _ hden
  exact ceilDiv_mono hnum (by omega)

theorem exists_reverts (hnum : InRange num) (hden : InRange den) (hnumPos : 0 < num)
    (hdenPos : 0 < den) (h : scale x num den = .ok y) : ∃ back, Reverts x num den y back := by
  obtain ⟨hx, rfl, hmax⟩ := (mulDiv_eq_ok_of_inRange hnum hden hdenPos).mp h
  have hback : x * num / den * den / num ≤ x := ediv_back_le hnumPos hdenPos (Int.le_refl _)
  have hvalue := back_value x den hnumPos
  have hloss := loss_le x hnumPos hdenPos
  refine ⟨x * num / den * den / num, ?_⟩
  exact {
    fits := Int.ediv_mul_le _ (Int.ne_of_gt hdenPos)
    largest := fun z hz => (Int.le_ediv_iff_mul_le hdenPos).mpr hz
    unscale_eq := (mulDiv_eq_ok_of_inRange hden hnum hnumPos).mpr
      ⟨⟨mulDiv_nonneg h, hmax⟩, rfl, Int.le_trans hback hx.2⟩
    back_eq := hvalue
    back_le := hback
    le_back := by omega
    near := fun hle => by
      have hone : ceilDiv (den - 1) num ≤ 1 := (ceilDiv_le_iff hnumPos).mpr (by omega)
      omega }

end Amount

open Amount

theorem Price.Sound.deposit_of_bought {p : Price} {s : Schedule} {t amount weight assets : Int}
    (hp : p.Sound) (hs : s.Sound) (hweight : s.weigh amount t = .ok weight)
    (hassets : p.assets weight = .ok assets) :
    ∃ worth back, p.worth assets = .ok worth ∧ s.unweigh worth t = .ok back ∧ back ≤ amount := by
  obtain ⟨worth, back, hrefund⟩ :=
    Position.exists_refund hp hs hweight hassets (mulDiv_nonneg hassets) (Int.le_refl assets)
  exact ⟨worth, back, hrefund.worth_eq, hrefund.unweigh_eq, hrefund.refund_le⟩

/-- A conversion between units comes out exactly if its result is an amount. It is then as much as
the amount is worth, and converted back it falls short of the amount by the remainder in the old
units, rounded up. So what a deposit buys, with a bonus and at a price with any sale tokens, can
always be turned back and is never worth more than the deposit. -/
theorem conversion_loss :
    (∀ x num den, InRange x → InRange num → InRange den → 0 < num → 0 < den →
      OverflowsUnless (x * num / den ≤ maxU128) (scale x num den) ∧
      ∀ y, scale x num den = .ok y → ∃ back, Reverts x num den y back) ∧
    ∀ (s : Schedule) (p : Price) (t amount weight assets : Int), s.Sound → p.saleUnit ≠ 0 →
      s.weigh amount t = .ok weight → p.assets weight = .ok assets →
      ∃ worth back, p.worth assets = .ok worth ∧ s.unweigh worth t = .ok back ∧
        back ≤ amount := by
  refine ⟨fun x num den hx hnum hden hnumPos hdenPos => ⟨?_, fun y hy => ?_⟩, ?_⟩
  · exact scale_overflowsUnless hx hnum hden hdenPos
  · exact exists_reverts hnum hden hnumPos hdenPos hy
  · intro s p t amount weight assets hs hsale hweight hassets
    exact (Price.sound_of_assets hassets hsale).deposit_of_bought hs hweight hassets

/-- Into coarser units and back with the largest loss there is, and a deposit of which each step
drops something. -/
theorem conversion_loss_coarse :
    (scale 100 3 7 = .ok 42 ∧ Reverts 100 3 7 42 98 ∧ 98 = 100 - ceilDiv (7 - 1) 3) ∧
      Schedule.weigh [⟨1000, 2000, 2500⟩] 103 1500 = .ok 128 ∧
      Price.assets ⟨7, 3⟩ 128 = .ok 54 ∧
      ∃ worth back, Price.worth ⟨7, 3⟩ 54 = .ok worth ∧
        Schedule.unweigh [⟨1000, 2000, 2500⟩] worth 1500 = .ok back ∧ back ≤ 103 := by
  obtain ⟨hscale, hpipeline⟩ := conversion_loss
  have hcoarse : scale 100 3 7 = .ok 42 := rfl
  obtain ⟨back, hback⟩ := (hscale 100 3 7 (by decide) (by decide) (by decide) (by decide)
    (by decide)).2 42 hcoarse
  obtain rfl : back = 98 := hback.back_eq
  have hs : Schedule.Sound [⟨1000, 2000, 2500⟩] := by
    intro d hd
    obtain rfl := List.mem_singleton.mp hd
    exact ⟨by decide, by decide⟩
  have hweight : Schedule.weigh [⟨1000, 2000, 2500⟩] 103 1500 = .ok 128 := rfl
  have hassets : Price.assets ⟨7, 3⟩ 128 = .ok 54 := rfl
  exact ⟨⟨hcoarse, hback, rfl⟩, hweight, hassets,
    hpipeline _ _ _ _ _ _ hs (by decide) hweight hassets⟩

end TokenSale
