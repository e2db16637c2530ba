import Mathlib.Tactic.Ring
import TokenSale.Proofs.Weighing

/-!
Fair fills. A deposit at a fixed price that crosses the cap is filled in part: four conversions,
each rounded down, lead from the deposit to its sale tokens and from the tokens beyond the cap back
to a refund. Each rounding may favour either side, but never by much: some of the deposit is always kept,
what is kept buys no less than what is credited, and it is worth less than one sale token and three
units of weight more than that.
-/

namespace TokenSale

open Amount

/-! Smaller amounts convert, and to no more. -/

theorem Schedule.Sound.weigh_of_le {s : Schedule} {t amount part w : Int} (hs : s.Sound)
    (h : s.weigh amount t = .ok w) (hnonneg : 0 ≤ part) (hle : part ≤ amount) :
    s.weigh part t = .ok (part * s.rateAt t / bpsUnit) ∧ part * s.rateAt t / bpsUnit ≤ w := by
  obtain ⟨hamount, rfl, hmax⟩ := hs.weigh_eq_ok.mp h
  have hmono : part * s.rateAt t / bpsUnit ≤ amount * s.rateAt t / bpsUnit :=
    mul_ediv_mono (Int.le_of_lt (hs.rateAt_pos t)) (by decide) hle
  exact ⟨hs.weigh_eq_ok.mpr ⟨hamount.of_le hnonneg hle, rfl, Int.le_trans hmono hmax⟩, hmono⟩

theorem Price.assets_of_le {p : Price} {weight part a : Int} (h : p.assets weight = .ok a)
    (hnonneg : 0 ≤ part) (hle : part ≤ weight) :
    p.assets part = .ok (part * p.saleUnit / p.depositUnit) := by
  obtain ⟨hweight, hsale, hdeposit, hne, rfl, hmax⟩ := mulDiv_eq_ok.mp h
  have hpos : 0 < p.depositUnit := Int.lt_iff_le_and_ne.mpr ⟨hdeposit.1, Ne.symm hne⟩
  have hmono := mul_ediv_mono hsale.1 hpos hle
  exact mulDiv_eq_ok.mpr
    ⟨hweight.of_le hnonneg hle, hsale, hdeposit, hne, rfl, Int.le_trans hmono hmax⟩

namespace Position

variable {p : Price} {s : Schedule} {cap sold amount t : Int}

/-! Some of a deposit is always kept. -/

theorem Refund.nonneg {excess remain refund : Int} (h : Refund p s t amount excess remain refund) :
    0 ≤ refund :=
  Schedule.unweigh_nonneg h.unweigh_eq

theorem Refund.lt {weight assets excess remain refund : Int} (hp : p.Sound) (hs : s.Sound)
    (hweight : s.weigh amount t = .ok weight) (hassets : p.assets weight = .ok assets)
    (h : Refund p s t amount excess remain refund) (hlt : excess < assets) : refund < amount := by
  have hrate := hs.rateAt_pos t
  have hunit : 0 < p.depositUnit * bpsUnit := Int.mul_pos hp.depositUnit_pos (by decide)
  have hvalue : refund * (p.saleUnit * s.rateAt t) < amount * (p.saleUnit * s.rateAt t) := by
    calc refund * (p.saleUnit * s.rateAt t)
        = refund * p.saleUnit * s.rateAt t := (Int.mul_assoc ..).symm
      _ ≤ excess * p.depositUnit * bpsUnit := h.value hp hs
      _ = excess * (p.depositUnit * bpsUnit) := Int.mul_assoc ..
      _ < assets * (p.depositUnit * bpsUnit) := Int.mul_lt_mul_of_pos_right hlt hunit
      _ = assets * p.depositUnit * bpsUnit := (Int.mul_assoc ..).symm
      _ ≤ amount * p.saleUnit * s.rateAt t := assets_value hp hs hweight hassets
      _ = amount * (p.saleUnit * s.rateAt t) := Int.mul_assoc ..
  exact Int.lt_of_mul_lt_mul_right hvalue
    (Int.le_of_lt (Int.mul_pos hp.saleUnit_pos hrate))

/-! What is kept buys what is credited. -/

theorem sub_excess_le_bought {weight excess : Int} (hp : p.Sound) :
    weight * p.saleUnit / p.depositUnit - excess ≤
      (weight - excess * p.depositUnit / p.saleUnit) * p.saleUnit / p.depositUnit := by
  rw [Int.le_ediv_iff_mul_le hp.depositUnit_pos, Int.sub_mul, Int.sub_mul]
  have hbought : weight * p.saleUnit / p.depositUnit * p.depositUnit ≤ weight * p.saleUnit :=
    Int.ediv_mul_le _ (Int.ne_of_gt hp.depositUnit_pos)
  have hworth : excess * p.depositUnit / p.saleUnit * p.saleUnit ≤ excess * p.depositUnit :=
    Int.ediv_mul_le _ (Int.ne_of_gt hp.saleUnit_pos)
  omega

theorem sub_remain_le_weighed {remain : Int} (hs : s.Sound) :
    amount * s.rateAt t / bpsUnit - remain ≤
      (amount - remain * bpsUnit / s.rateAt t) * s.rateAt t / bpsUnit := by
  rw [Int.le_ediv_iff_mul_le (by decide), Int.sub_mul, Int.sub_mul]
  have hweighed : amount * s.rateAt t / bpsUnit * bpsUnit ≤ amount * s.rateAt t :=
    Int.ediv_mul_le _ (by decide)
  have hback : remain * bpsUnit / s.rateAt t * s.rateAt t ≤ remain * bpsUnit :=
    Int.ediv_mul_le _ (Int.ne_of_gt (hs.rateAt_pos t))
  omega

theorem Refund.exists_bought {weight assets excess remain refund : Int} (hp : p.Sound)
    (hs : s.Sound) (hweight : s.weigh amount t = .ok weight)
    (hassets : p.assets weight = .ok assets) (h : Refund p s t amount excess remain refund)
    (hlt : excess < assets) :
    ∃ kept bought, s.weigh (amount - refund) t = .ok kept ∧ p.assets kept = .ok bought ∧
      assets - excess ≤ bought := by
  have hnonneg := h.nonneg
  have hrefund : refund < amount := h.lt hp hs hweight hassets hlt
  have hpart : 0 ≤ amount - refund := by omega
  obtain ⟨hkept, hle⟩ := hs.weigh_of_le hweight hpart (by omega)
  refine ⟨_, _, hkept, Price.assets_of_le hassets (Schedule.weigh_nonneg hkept) hle, ?_⟩
  obtain ⟨-, hweighed, -⟩ := hs.weigh_eq_ok.mp hweight
  obtain ⟨-, htokens, -⟩ := hp.assets_eq_ok.mp hassets
  have hleft : weight - remain ≤ (amount - refund) * s.rateAt t / bpsUnit := by
    rw [hweighed, h.refund_eq]
    exact sub_remain_le_weighed hs
  calc assets - excess = weight * p.saleUnit / p.depositUnit - excess := by rw [htokens]
    _ ≤ (weight - remain) * p.saleUnit / p.depositUnit := by
        rw [h.remain_eq]
        exact sub_excess_le_bought hp
    _ ≤ (amount - refund) * s.rateAt t / bpsUnit * p.saleUnit / p.depositUnit :=
        mul_ediv_mono (Int.le_of_lt hp.saleUnit_pos) hp.depositUnit_pos hleft

/-! What is kept is worth little more than what is credited. -/

/-- The value of what is paid, if each way of rounding costs at most one unit of its kind. -/
theorem overcharge_lt {paid credited : Int} (kept : Int) (hp : p.Sound) (hs : s.Sound)
    (hkept : paid * s.rateAt t < (kept + 1) * bpsUnit + s.rateAt t)
    (hcredited : kept * p.saleUnit < (credited + 1) * p.depositUnit + p.saleUnit) :
    paid * s.rateAt t * p.saleUnit <
      (credited + 1) * bpsUnit * p.depositUnit + 3 * s.rateAt t * p.saleUnit := by
  have hsale := hp.saleUnit_pos
  have hunits : bpsUnit * p.saleUnit ≤ s.rateAt t * p.saleUnit :=
    Int.mul_le_mul_of_nonneg_right (hs.le_rateAt t) (Int.le_of_lt hsale)
  have hvalue : kept * p.saleUnit * bpsUnit <
      ((credited + 1) * p.depositUnit + p.saleUnit) * bpsUnit :=
    Int.mul_lt_mul_of_pos_right hcredited (by decide)
  calc paid * s.rateAt t * p.saleUnit
      < ((kept + 1) * bpsUnit + s.rateAt t) * p.saleUnit := Int.mul_lt_mul_of_pos_right hkept hsale
    _ = kept * p.saleUnit * bpsUnit + bpsUnit * p.saleUnit + s.rateAt t * p.saleUnit := by ring
    _ < ((credited + 1) * p.depositUnit + p.saleUnit) * bpsUnit + bpsUnit * p.saleUnit +
          s.rateAt t * p.saleUnit := by omega
    _ = (credited + 1) * bpsUnit * p.depositUnit + 2 * (bpsUnit * p.saleUnit) +
          s.rateAt t * p.saleUnit := by ring
    _ ≤ (credited + 1) * bpsUnit * p.depositUnit + 3 * (s.rateAt t * p.saleUnit) := by omega
    _ = (credited + 1) * bpsUnit * p.depositUnit + 3 * s.rateAt t * p.saleUnit := by ring

theorem Refund.overcharge_lt {weight assets excess remain refund : Int} (hp : p.Sound)
    (hs : s.Sound) (hweight : s.weigh amount t = .ok weight)
    (hassets : p.assets weight = .ok assets) (h : Refund p s t amount excess remain refund) :
    (amount - refund) * s.rateAt t * p.saleUnit <
      (assets - excess + 1) * bpsUnit * p.depositUnit + 3 * s.rateAt t * p.saleUnit := by
  obtain ⟨-, hweighed, -⟩ := hs.weigh_eq_ok.mp hweight
  obtain ⟨-, hbought, -⟩ := hp.assets_eq_ok.mp hassets
  have hpaid : amount * s.rateAt t < (weight + 1) * bpsUnit :=
    hweighed ▸ lt_succ_ediv_mul (by decide)
  have hback : remain * bpsUnit < (refund + 1) * s.rateAt t :=
    h.refund_eq ▸ lt_succ_ediv_mul (hs.rateAt_pos t)
  have htokens : weight * p.saleUnit < (assets + 1) * p.depositUnit :=
    hbought ▸ lt_succ_ediv_mul hp.depositUnit_pos
  have hexcess : excess * p.depositUnit < (remain + 1) * p.saleUnit :=
    h.remain_eq ▸ lt_succ_ediv_mul hp.saleUnit_pos
  refine Position.overcharge_lt (weight - remain) hp hs ?_ ?_
  · simp only [Int.sub_mul, Int.add_mul] at hpaid hback ⊢
    omega
  · simp only [Int.sub_mul, Int.add_mul] at htokens hexcess ⊢
    omega

structure Fill.Fair (f : Fill) (p : Price) (s : Schedule) (cap sold amount t : Int) : Prop where
  refund_nonneg : 0 ≤ f.refund
  refund_lt : f.refund < amount
  accepted_pos : 0 < f.accepted
  accepted_add_refund : f.accepted + f.refund = amount
  credited : ∃ weight assets, s.weigh amount t = .ok weight ∧ p.assets weight = .ok assets ∧
    f.weightAdded = min assets (cap - sold) ∧
    ∃ kept bought, s.weigh f.accepted t = .ok kept ∧ p.assets kept = .ok bought ∧
      f.weightAdded ≤ bought ∧ (sold + assets ≤ cap → f.weightAdded = bought)
  charged : f.accepted * s.rateAt t * p.saleUnit <
    (f.weightAdded + 1) * bpsUnit * p.depositUnit + 3 * s.rateAt t * p.saleUnit

theorem fair_of_whole {weight assets : Int} (hp : p.Sound) (hs : s.Sound) (hpos : 0 < amount)
    (hweight : s.weigh amount t = .ok weight) (hassets : p.assets weight = .ok assets)
    (hfits : sold + assets ≤ cap) :
    (⟨amount, assets, 0⟩ : Fill).Fair p s cap sold amount t where
  refund_nonneg := Int.le_refl 0
  refund_lt := hpos
  accepted_pos := hpos
  accepted_add_refund := Int.add_zero amount
  credited := by
    refine ⟨weight, assets, hweight, hassets, ?_, weight, assets, hweight, hassets, Int.le_refl _,
      fun _ => rfl⟩
    show assets = min assets (cap - sold)
    omega
  charged := by
    have hrate := hs.rateAt_pos t
    have hsale := hp.saleUnit_pos
    obtain ⟨-, hweighed, -⟩ := hs.weigh_eq_ok.mp hweight
    obtain ⟨-, hbought, -⟩ := hp.assets_eq_ok.mp hassets
    have hkept : amount * s.rateAt t < (weight + 1) * bpsUnit :=
      hweighed ▸ lt_succ_ediv_mul (by decide)
    have hcredited : weight * p.saleUnit < (assets + 1) * p.depositUnit :=
      hbought ▸ lt_succ_ediv_mul hp.depositUnit_pos
    have hcharged : amount * s.rateAt t * p.saleUnit <
        (assets + 1) * bpsUnit * p.depositUnit + 3 * s.rateAt t * p.saleUnit :=
      overcharge_lt weight hp hs (by omega) (by omega)
    exact hcharged

theorem fair_of_part {weight assets remain refund : Int} (hp : p.Sound) (hs : s.Sound)
    (hroom : sold < cap) (hweight : s.weigh amount t = .ok weight)
    (hassets : p.assets weight = .ok assets) (hcross : cap < sold + assets)
    (hrefund : Refund p s t amount (sold + assets - cap) remain refund) :
    (⟨amount - refund, cap - sold, refund⟩ : Fill).Fair p s cap sold amount t where
  refund_nonneg := hrefund.nonneg
  refund_lt := hrefund.lt hp hs hweight hassets (by omega)
  accepted_pos := Int.sub_pos_of_lt (hrefund.lt hp hs hweight hassets (by omega))
  accepted_add_refund := Int.sub_add_cancel amount refund
  credited := by
    obtain ⟨kept, bought, hkept, hbought, hle⟩ :=
      hrefund.exists_bought hp hs hweight hassets (by omega)
    refine ⟨weight, assets, hweight, hassets, ?_, kept, bought, hkept, hbought, ?_,
      fun hfits => ?_⟩
    · show cap - sold = min assets (cap - sold)
      omega
    · show cap - sold ≤ bought
      omega
    · omega
  charged := by
    have hleft : assets - (sold + assets - cap) = cap - sold := by omega
    exact hleft ▸ hrefund.overcharge_lt hp hs hweight hassets

def Purchase.fill (r : Purchase) : Fill := ⟨r.accepted, r.weightAdded, r.refund⟩

/-- Every deposit at a fixed price that comes before the cap is reached is filled fairly, whatever
the units of the price and the bonus at its time. -/
theorem deposit_fair {q : Position} {totalDeposited : Int} {r : Purchase} (hp : p.Sound)
    (hs : s.Sound) (hroom : sold < cap)
    (h : deposit (.fixedPrice p) s cap q totalDeposited sold amount t = .ok r) :
    r.fill.Fair p s cap sold amount t := by
  simp only [deposit, fill, bind_eq_ok, demand_eq_ok, pure_eq_ok] at h
  obtain ⟨-, hpos, f, hf, -, -, rfl⟩ := h
  cases fills_of_fillFixed hp hs hf with
  | soldOut hfull => exact absurd hfull (Int.not_le.mpr hroom)
  | whole _ hweight hassets hfits => exact fair_of_whole hp hs hpos hweight hassets hfits
  | part _ hweight hassets hcross hrefund =>
    exact fair_of_part hp hs hroom hweight hassets hcross hrefund

/-- A deposit that crosses the cap, at uneven units and with a bonus: no rounding comes out even. -/
theorem deposit_fair_uneven :
    Price.Sound ⟨3, 7⟩ ∧ Schedule.Sound [⟨1000, 2000, 2500⟩] ∧ (875 : Int) < 1000 ∧
      deposit (.fixedPrice ⟨3, 7⟩) [⟨1000, 2000, 2500⟩] 1000 zero 0 875 100 1500 =
        .ok ⟨⟨44, 125, 0⟩, 44, 1000, 44, 125, 56⟩ ∧
      Fill.Fair ⟨44, 125, 56⟩ ⟨3, 7⟩ [⟨1000, 2000, 2500⟩] 1000 875 100 1500 := by
  have hp : Price.Sound ⟨3, 7⟩ := ⟨by decide, by decide, by decide, by decide⟩
  have hs : Schedule.Sound [⟨1000, 2000, 2500⟩] := by
    intro d hd
    obtain rfl := List.mem_singleton.mp hd
    exact ⟨by decide, by decide⟩
  have hroom : (875 : Int) < 1000 := by decide
  have h : deposit (.fixedPrice ⟨3, 7⟩) [⟨1000, 2000, 2500⟩] 1000 zero 0 875 100 1500 =
      .ok ⟨⟨44, 125, 0⟩, 44, 1000, 44, 125, 56⟩ := rfl
  exact ⟨hp, hs, hroom, h, deposit_fair hp hs hroom h⟩

end Position

end TokenSale
