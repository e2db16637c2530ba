import TokenSale.Proofs.Refusal
import TokenSale.Proofs.Terms

/-!
What deposits weigh, as numbers. With sound terms each conversion is a product and a quotient
rounded down, which only fails if the amount or the result is no amount. Turning back what was
turned into other units gives no more than there was before, so the refund of a deposit that crosses
the cap always comes out, and never above the deposit.
-/

namespace TokenSale

namespace Amount

theorem inRange_one : InRange 1 := by decide

theorem inRange_bpsUnit : InRange bpsUnit := by decide

theorem InRange.of_le {x y : Int} (h : InRange y) (hx : 0 ≤ x) (hle : x ≤ y) : InRange x :=
  ⟨hx, Int.le_trans hle h.2⟩

theorem mul_ediv_mono {x y num den : Int} (hnum : 0 ≤ num) (hden : 0 < den) (hle : x ≤ y) :
    x * num / den ≤ y * num / den :=
  Int.ediv_le_ediv hden (Int.mul_le_mul_of_nonneg_right hle hnum)

theorem lt_succ_ediv_mul {x den : Int} (hden : 0 < den) : x < (x / den + 1) * den :=
  Int.lt_ediv_add_one_mul_self x hden

theorem ediv_back_le {x num den q : Int} (hnum : 0 < num) (hden : 0 < den)
    (h : q ≤ x * num / den) : q * den / num ≤ x := by
  apply Int.ediv_le_of_le_mul hnum
  calc q * den ≤ x * num / den * den := Int.mul_le_mul_of_nonneg_right h (Int.le_of_lt hden)
    _ ≤ x * num := Int.ediv_mul_le _ (Int.ne_of_gt hden)

theorem mulDiv_eq_ok_of_inRange {x num den q : Int} (hnum : InRange num) (hden : InRange den)
    (hpos : 0 < den) :
    mulDiv x num den = .ok q ↔ InRange x ∧ q = x * num / den ∧ q ≤ maxU128 := by
  rw [mulDiv_eq_ok]
  constructor
  · rintro ⟨hx, -, -, -, hq, hle⟩
    exact ⟨hx, hq, hle⟩
  · rintro ⟨hx, hq, hle⟩
    exact ⟨hx, hnum, hden, Int.ne_of_gt hpos, hq, hle⟩

theorem mulDiv_part {x num den : Int} (hx : InRange x) (hden : InRange den) (hpos : 0 < den)
    (hnum : 0 ≤ num) (hle : num ≤ den) : mulDiv x num den = .ok (x * num / den) := by
  refine (mulDiv_eq_ok_of_inRange (hden.of_le hnum hle) hden hpos).mpr ⟨hx, rfl, ?_⟩
  exact Int.le_trans (Int.ediv_le_of_le_mul hpos (Int.mul_le_mul_of_nonneg_left hle hx.1)) hx.2

theorem mulDiv_of_le {x num den : Int} (hnum : InRange num) (hden : InRange den) (hpos : 0 < den)
    (hx : 0 ≤ x) (hle : x ≤ den) : mulDiv x num den = .ok (x * num / den) := by
  refine (mulDiv_eq_ok_of_inRange hnum hden hpos).mpr ⟨hden.of_le hx hle, rfl, ?_⟩
  rw [Int.mul_comm]
  exact Int.le_trans (Int.ediv_le_of_le_mul hpos (Int.mul_le_mul_of_nonneg_left hle hnum.1)) hnum.2

theorem share_part {x bps : Int} (hx : InRange x) (hbps : 0 ≤ bps ∧ bps ≤ bpsUnit) :
    share x bps = .ok (x * bps / bpsUnit) :=
  share_eq_ok.mpr ⟨hbps, mulDiv_part hx inRange_bpsUnit (by decide) hbps.1 hbps.2⟩

end Amount

open Amount

/-! Rates. -/

namespace Schedule

/-- What a unit of a deposit weighs at `t`, in basis points. -/
def rateAt (s : Schedule) (t : Int) : Int :=
  bpsUnit + ((s.active? t).map Discount.percentage).getD 0

/-- The largest percentage of a discount, or zero if there is none. -/
def largest : Schedule → Int
  | [] => 0
  | d :: s => max d.percentage (largest s)

theorem largest_nonneg (s : Schedule) : 0 ≤ s.largest := by
  induction s with
  | nil => exact Int.le_refl 0
  | cons d s ih => exact Int.le_trans ih (Int.le_max_right _ _)

theorem percentage_le_largest {s : Schedule} {d : Discount} (h : d ∈ s) :
    d.percentage ≤ s.largest := by
  induction s with
  | nil => simp at h
  | cons e s ih =>
    rcases List.mem_cons.mp h with rfl | h
    · exact Int.le_max_left _ _
    · exact Int.le_trans (ih h) (Int.le_max_right _ _)

variable {s : Schedule} {t : Int}

theorem rateAt_of_none (h : s.active? t = none) : s.rateAt t = bpsUnit := by
  simp [rateAt, h]

theorem rateAt_of_some {d : Discount} (h : s.active? t = some d) :
    s.rateAt t = bpsUnit + d.percentage := by
  simp [rateAt, h]

theorem rateAt_le_largest (s : Schedule) (t : Int) : s.rateAt t ≤ bpsUnit + s.largest := by
  cases hactive : s.active? t with
  | none =>
    have := s.largest_nonneg
    rw [rateAt_of_none hactive]
    omega
  | some d =>
    have := percentage_le_largest (List.mem_of_find?_eq_some hactive)
    rw [rateAt_of_some hactive]
    omega

theorem Sound.le_rateAt (hs : s.Sound) (t : Int) : bpsUnit ≤ s.rateAt t := by
  cases hactive : s.active? t with
  | none => exact Int.le_of_eq (rateAt_of_none hactive).symm
  | some d =>
    have := (hs d (List.mem_of_find?_eq_some hactive)).percentage_pos
    rw [rateAt_of_some hactive]
    omega

theorem Sound.rateAt_pos (hs : s.Sound) (t : Int) : 0 < s.rateAt t :=
  Int.lt_of_lt_of_le (by decide) (hs.le_rateAt t)

theorem Sound.rateAt_inRange (hs : s.Sound) (t : Int) : InRange (s.rateAt t) := by
  refine ⟨Int.le_of_lt (hs.rateAt_pos t), ?_⟩
  cases hactive : s.active? t with
  | none =>
    rw [rateAt_of_none hactive]
    decide
  | some d =>
    have hle : d.percentage ≤ 10000 := (hs d (List.mem_of_find?_eq_some hactive)).percentage_le
    rw [rateAt_of_some hactive]
    simp only [bpsUnit, maxU128]
    omega

theorem Sound.weigh_eq_ok (hs : s.Sound) {amount w : Int} :
    s.weigh amount t = .ok w ↔
      InRange amount ∧ w = amount * s.rateAt t / bpsUnit ∧ w ≤ maxU128 := by
  have hrange := hs.rateAt_inRange t
  cases hactive : s.active? t with
  | none =>
    simp only [weigh, hactive, scale, rateAt_of_none hactive,
      mulDiv_eq_ok_of_inRange inRange_one inRange_one Int.one_pos, Int.mul_one, Int.ediv_one]
    rw [Int.mul_ediv_cancel _ (by decide : bpsUnit ≠ 0)]
  | some d =>
    rw [rateAt_of_some hactive] at hrange ⊢
    simp only [weigh, hactive, scale]
    exact mulDiv_eq_ok_of_inRange hrange inRange_bpsUnit (by decide)

theorem Sound.unweigh_of_inRange (hs : s.Sound) {weight : Int} (h : InRange weight) :
    s.unweigh weight t = .ok (weight * bpsUnit / s.rateAt t) := by
  have hrange := hs.rateAt_inRange t
  have hpos := hs.rateAt_pos t
  have hle := hs.le_rateAt t
  cases hactive : s.active? t with
  | none =>
    simp only [unweigh, hactive, scale, rateAt_of_none hactive]
    rw [Int.mul_ediv_cancel _ (by decide : bpsUnit ≠ 0),
      mulDiv_part h inRange_one Int.one_pos (by decide) (Int.le_refl 1), Int.mul_one, Int.ediv_one]
  | some d =>
    rw [rateAt_of_some hactive] at hrange hpos hle ⊢
    simp only [unweigh, hactive, unscale]
    exact mulDiv_part h hrange hpos (by decide) hle

theorem weigh_overflows (s : Schedule) (amount t : Int) :
    FailsOnly Fault.IsOverflow (s.weigh amount t) := by
  unfold weigh
  split <;> exact mulDiv_overflows (by decide)

theorem Sound.weigh_zero (hs : s.Sound) : s.weigh 0 t = .ok 0 :=
  hs.weigh_eq_ok.mpr ⟨by decide, by simp, by decide⟩

theorem Sound.le_weigh (hs : s.Sound) {amount w : Int} (h : s.weigh amount t = .ok w) :
    amount ≤ w := by
  obtain ⟨hamount, rfl, -⟩ := hs.weigh_eq_ok.mp h
  rw [Int.le_ediv_iff_mul_le (by decide)]
  exact Int.mul_le_mul_of_nonneg_left (hs.le_rateAt t) hamount.1

theorem Sound.weigh_mul_le (hs : s.Sound) {amount w : Int} (h : s.weigh amount t = .ok w) :
    w * bpsUnit ≤ amount * (bpsUnit + s.largest) := by
  obtain ⟨hamount, rfl, -⟩ := hs.weigh_eq_ok.mp h
  calc amount * s.rateAt t / bpsUnit * bpsUnit
      ≤ amount * s.rateAt t := Int.ediv_mul_le _ (by decide)
    _ ≤ amount * (bpsUnit + s.largest) :=
        Int.mul_le_mul_of_nonneg_left (s.rateAt_le_largest t) hamount.1

end Schedule

/-! Prices. -/

namespace Price

variable {p : Price}

/-- A price that something was computed with is sound, if it gives any sale tokens at all. -/
theorem sound_of_assets {weight a : Int} (h : p.assets weight = .ok a) (hne : p.saleUnit ≠ 0) :
    p.Sound := by
  obtain ⟨-, hsale, hdeposit, hdepositNe, -, -⟩ := mulDiv_eq_ok.mp h
  exact ⟨Int.lt_iff_le_and_ne.mpr ⟨hdeposit.1, Ne.symm hdepositNe⟩, hdeposit.2,
    Int.lt_iff_le_and_ne.mpr ⟨hsale.1, Ne.symm hne⟩, hsale.2⟩

theorem Sound.depositUnit_inRange (hp : p.Sound) : InRange p.depositUnit :=
  ⟨Int.le_of_lt hp.depositUnit_pos, hp.depositUnit_le⟩

theorem Sound.saleUnit_inRange (hp : p.Sound) : InRange p.saleUnit :=
  ⟨Int.le_of_lt hp.saleUnit_pos, hp.saleUnit_le⟩

theorem Sound.assets_eq_ok (hp : p.Sound) {weight a : Int} :
    p.assets weight = .ok a ↔
      InRange weight ∧ a = weight * p.saleUnit / p.depositUnit ∧ a ≤ maxU128 :=
  mulDiv_eq_ok_of_inRange hp.saleUnit_inRange hp.depositUnit_inRange hp.depositUnit_pos

theorem Sound.assets_overflows (hp : p.Sound) (weight : Int) :
    FailsOnly Fault.IsOverflow (p.assets weight) :=
  mulDiv_overflows (Int.ne_of_gt hp.depositUnit_pos)

theorem Sound.worth_of_le (hp : p.Sound) {weight assets excess : Int}
    (hassets : p.assets weight = .ok assets) (hnonneg : 0 ≤ excess) (hle : excess ≤ assets) :
    p.worth excess = .ok (excess * p.depositUnit / p.saleUnit) ∧
      excess * p.depositUnit / p.saleUnit ≤ weight := by
  obtain ⟨hweight, rfl, hmax⟩ := hp.assets_eq_ok.mp hassets
  have hback := ediv_back_le hp.saleUnit_pos hp.depositUnit_pos hle
  refine ⟨?_, hback⟩
  refine (mulDiv_eq_ok_of_inRange hp.depositUnit_inRange hp.saleUnit_inRange hp.saleUnit_pos).mpr ?_
  exact ⟨⟨hnonneg, Int.le_trans hle hmax⟩, rfl, Int.le_trans hback hweight.2⟩

end Price

/-! Deposits that cross the cap. -/

namespace Position

variable {p : Price} {s : Schedule} {cap sold amount t : Int}

/-- The refund of a deposit that crosses the cap, by way of what the excess is worth. -/
structure Refund (p : Price) (s : Schedule) (t amount excess remain refund : Int) : Prop where
  worth_eq : p.worth excess = .ok remain
  unweigh_eq : s.unweigh remain t = .ok refund
  remain_eq : remain = excess * p.depositUnit / p.saleUnit
  refund_eq : refund = remain * bpsUnit / s.rateAt t
  refund_le : refund ≤ amount

theorem exists_refund {weight assets excess : Int} (hp : p.Sound) (hs : s.Sound)
    (hweight : s.weigh amount t = .ok weight) (hassets : p.assets weight = .ok assets)
    (hnonneg : 0 ≤ excess) (hle : excess ≤ assets) :
    ∃ remain refund, Refund p s t amount excess remain refund := by
  obtain ⟨hworth, hremain⟩ := hp.worth_of_le hassets hnonneg hle
  have hrange := (hp.assets_eq_ok.mp hassets).1
  have hpart : 0 ≤ excess * p.depositUnit / p.saleUnit :=
    Int.ediv_nonneg (Int.mul_nonneg hnonneg (Int.le_of_lt hp.depositUnit_pos))
      (Int.le_of_lt hp.saleUnit_pos)
  obtain ⟨-, hvalue, -⟩ := hs.weigh_eq_ok.mp hweight
  exact ⟨_, _, hworth, hs.unweigh_of_inRange (hrange.of_le hpart hremain), rfl, rfl,
    ediv_back_le (hs.rateAt_pos t) (by decide) (hvalue ▸ hremain)⟩

theorem assets_value {weight assets : Int} (hp : p.Sound) (hs : s.Sound)
    (hweight : s.weigh amount t = .ok weight) (hassets : p.assets weight = .ok assets) :
    assets * p.depositUnit * bpsUnit ≤ amount * p.saleUnit * s.rateAt t := by
  obtain ⟨-, hw, -⟩ := hs.weigh_eq_ok.mp hweight
  obtain ⟨-, ha, -⟩ := hp.assets_eq_ok.mp hassets
  have hbought : assets * p.depositUnit ≤ weight * p.saleUnit :=
    ha ▸ Int.ediv_mul_le _ (Int.ne_of_gt hp.depositUnit_pos)
  have hweighed : weight * bpsUnit ≤ amount * s.rateAt t :=
    hw ▸ Int.ediv_mul_le _ (by decide)
  calc assets * p.depositUnit * bpsUnit
      ≤ weight * p.saleUnit * bpsUnit := Int.mul_le_mul_of_nonneg_right hbought (by decide)
    _ = weight * bpsUnit * p.saleUnit := Int.mul_right_comm ..
    _ ≤ amount * s.rateAt t * p.saleUnit :=
        Int.mul_le_mul_of_nonneg_right hweighed (Int.le_of_lt hp.saleUnit_pos)
    _ = amount * p.saleUnit * s.rateAt t := Int.mul_right_comm ..

theorem Refund.value {excess remain refund : Int} (hp : p.Sound) (hs : s.Sound)
    (h : Refund p s t amount excess remain refund) :
    refund * p.saleUnit * s.rateAt t ≤ excess * p.depositUnit * bpsUnit := by
  have hremain : remain * p.saleUnit ≤ excess * p.depositUnit :=
    h.remain_eq ▸ Int.ediv_mul_le _ (Int.ne_of_gt hp.saleUnit_pos)
  have hrefund : refund * s.rateAt t ≤ remain * bpsUnit :=
    h.refund_eq ▸ Int.ediv_mul_le _ (Int.ne_of_gt (hs.rateAt_pos t))
  calc refund * p.saleUnit * s.rateAt t
      = refund * s.rateAt t * p.saleUnit := Int.mul_right_comm ..
    _ ≤ remain * bpsUnit * p.saleUnit :=
        Int.mul_le_mul_of_nonneg_right hrefund (Int.le_of_lt hp.saleUnit_pos)
    _ = remain * p.saleUnit * bpsUnit := Int.mul_right_comm ..
    _ ≤ excess * p.depositUnit * bpsUnit := Int.mul_le_mul_of_nonneg_right hremain (by decide)

inductive Fills (p : Price) (s : Schedule) (cap sold amount t : Int) : Fill → Prop where
  | soldOut (hfull : cap ≤ sold) : Fills p s cap sold amount t ⟨0, 0, amount⟩
  | whole {weight assets : Int} (hroom : sold < cap) (hweight : s.weigh amount t = .ok weight)
      (hassets : p.assets weight = .ok assets) (hfits : sold + assets ≤ cap) :
      Fills p s cap sold amount t ⟨amount, assets, 0⟩
  | part {weight assets remain refund : Int} (hroom : sold < cap)
      (hweight : s.weigh amount t = .ok weight) (hassets : p.assets weight = .ok assets)
      (hcross : cap < sold + assets)
      (hrefund : Refund p s t amount (sold + assets - cap) remain refund) :
      Fills p s cap sold amount t ⟨amount - refund, cap - sold, refund⟩

theorem fills_of_fillFixed (hp : p.Sound) (hs : s.Sound) {f : Fill}
    (h : fillFixed p s cap sold amount t = .ok f) : Fills p s cap sold amount t f := by
  unfold fillFixed at h
  split at h
  · rename_i hfull
    cases h
    exact .soldOut hfull
  · rename_i hroom
    simp only [bind_eq_ok] at h
    obtain ⟨weight, hweight, assets, hassets, h⟩ := h
    split at h
    · rename_i hfits
      cases h
      exact .whole (Int.not_le.mp hroom) hweight hassets hfits
    · rename_i hcross
      obtain ⟨remain, refund, hrefund⟩ :
          ∃ remain refund, Refund p s t amount (sold + assets - cap) remain refund :=
        exists_refund hp hs hweight hassets (by omega) (by omega)
      simp only [hrefund.worth_eq, bind_eq_ok, demand_eq_ok, pure_eq_ok] at h
      obtain ⟨_, hremain, _, hback, -, -, rfl⟩ := h
      cases hremain
      cases hrefund.unweigh_eq.symm.trans hback
      exact .part (Int.not_le.mp hroom) hweight hassets (Int.not_le.mp hcross) hrefund

theorem Fills.fillFixed_eq {f : Fill} (h : Fills p s cap sold amount t f) :
    fillFixed p s cap sold amount t = .ok f := by
  cases h with
  | soldOut hfull => simp [fillFixed, hfull, pure, Except.pure]
  | whole hroom hweight hassets hfits =>
    simp [fillFixed, Int.not_le.mpr hroom, hweight, hassets, hfits, bind, Except.bind, pure,
      Except.pure]
  | part hroom hweight hassets hcross hrefund =>
    simp [fillFixed, Int.not_le.mpr hroom, hweight, hassets, Int.not_le.mpr hcross,
      hrefund.worth_eq, hrefund.unweigh_eq, hrefund.refund_le, demand, bind, Except.bind, pure,
      Except.pure]

theorem Fills.adds {f : Fill} (h : Fills p s cap sold amount t f) (hamount : 0 ≤ amount) :
    f.refund ≤ amount ∧ f.accepted + f.refund = amount := by
  cases h with
  | soldOut hfull => exact ⟨Int.le_refl _, Int.zero_add _⟩
  | whole hroom hweight hassets hfits => exact ⟨hamount, Int.add_zero _⟩
  | part hroom hweight hassets hcross hrefund =>
    exact ⟨hrefund.refund_le, Int.sub_add_cancel _ _⟩

end Position

end TokenSale
