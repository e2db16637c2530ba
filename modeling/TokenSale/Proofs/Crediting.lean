import TokenSale.Proofs.Filling
import TokenSale.Proofs.Position

/-!
What a deposit is credited. At a fixed price that is what it buys, or the room below the cap if
there is less of it; what it buys is rounded down twice, so two parts of a deposit buy no more than
the whole, and less by a bounded amount.
-/

namespace TokenSale

open Amount

theorem Amount.add_ediv_le {x y d : Int} (hd : 0 < d) : (x + y) / d ≤ x / d + y / d + 1 := by
  rw [Int.add_ediv_of_pos hd]
  split <;> omega

variable {p : Price} {s : Schedule} {t : Int}

theorem Schedule.Sound.weigh_split {a b w : Int} (hs : s.Sound) (ha : 0 ≤ a) (hb : 0 ≤ b)
    (h : s.weigh (a + b) t = .ok w) :
    ∃ x y, s.weigh a t = .ok x ∧ s.weigh b t = .ok y ∧ x + y ≤ w ∧ w ≤ x + y + 1 := by
  obtain ⟨hx, -⟩ := hs.weigh_of_le h ha (by omega)
  obtain ⟨hy, -⟩ := hs.weigh_of_le h hb (by omega)
  obtain ⟨-, rfl, -⟩ := hs.weigh_eq_ok.mp h
  refine ⟨_, _, hx, hy, ?_, ?_⟩
  · rw [Int.add_mul]
    exact Int.ediv_add_ediv_le_add_ediv (by decide)
  · rw [Int.add_mul]
    exact add_ediv_le (by decide)

/-- The parts of a weight, of which one unit may be lost, buy no more than the weight, and less by
at most what that unit buys and two roundings. -/
theorem Price.assets_split {x y w k : Int} (hx : 0 ≤ x) (hy : 0 ≤ y) (hle : x + y ≤ w)
    (hlt : w ≤ x + y + 1) (h : p.assets w = .ok k) :
    ∃ i j, p.assets x = .ok i ∧ p.assets y = .ok j ∧ i + j ≤ k ∧
      k ≤ i + j + (p.saleUnit / p.depositUnit + 2) := by
  refine ⟨_, _, assets_of_le h hx (by omega), assets_of_le h hy (by omega), ?_, ?_⟩
  all_goals
    obtain ⟨-, hsale, hdeposit, hne, rfl, -⟩ := mulDiv_eq_ok.mp h
    have hpos : 0 < p.depositUnit := Int.lt_iff_le_and_ne.mpr ⟨hdeposit.1, Ne.symm hne⟩
  · calc x * p.saleUnit / p.depositUnit + y * p.saleUnit / p.depositUnit
        ≤ (x * p.saleUnit + y * p.saleUnit) / p.depositUnit := Int.ediv_add_ediv_le_add_ediv hpos
      _ = (x + y) * p.saleUnit / p.depositUnit := by rw [Int.add_mul]
      _ ≤ w * p.saleUnit / p.depositUnit := mul_ediv_mono hsale.1 hpos hle
  · have hparts : (x * p.saleUnit + y * p.saleUnit) / p.depositUnit ≤
        x * p.saleUnit / p.depositUnit + y * p.saleUnit / p.depositUnit + 1 := add_ediv_le hpos
    calc w * p.saleUnit / p.depositUnit
        ≤ (x + y + 1) * p.saleUnit / p.depositUnit := mul_ediv_mono hsale.1 hpos hlt
      _ = (x * p.saleUnit + y * p.saleUnit + p.saleUnit) / p.depositUnit := by
          rw [Int.add_mul, Int.add_mul, Int.one_mul]
      _ ≤ (x * p.saleUnit + y * p.saleUnit) / p.depositUnit + p.saleUnit / p.depositUnit + 1 :=
          add_ediv_le hpos
      _ ≤ x * p.saleUnit / p.depositUnit + y * p.saleUnit / p.depositUnit +
            (p.saleUnit / p.depositUnit + 2) := by omega

namespace Position

variable {cap sold amount totalDeposited : Int} {q : Position}

/-! Deposits at a fixed price. -/

theorem exists_assets_of_deposit {r : Purchase} (hroom : sold < cap)
    (h : deposit (.fixedPrice p) s cap q totalDeposited sold amount t = .ok r) :
    ∃ weight assets, s.weigh amount t = .ok weight ∧ p.assets weight = .ok assets := by
  simp only [deposit, fill, fillFixed, Int.not_le.mpr hroom, if_false, bind_eq_ok] at h
  obtain ⟨-, -, f, ⟨weight, hweight, assets, hassets, -⟩, -⟩ := h
  exact ⟨weight, assets, hweight, hassets⟩

theorem exists_fills (cap sold : Int) {weight assets : Int} (hs : s.Sound)
    (hweight : s.weigh amount t = .ok weight) (hassets : p.assets weight = .ok assets) :
    ∃ f, Fills p s cap sold amount t f ∧ f.weightAdded = min assets (monus cap sold) := by
  have hnonneg : 0 ≤ assets := mulDiv_nonneg hassets
  by_cases hfull : cap ≤ sold
  · refine ⟨_, .soldOut hfull, ?_⟩
    show 0 = min assets (monus cap sold)
    rw [monus, if_neg (Int.not_lt.mpr hfull)]
    omega
  have hroom : sold < cap := Int.not_le.mp hfull
  rw [monus_of_le (Int.le_of_lt hroom)]
  by_cases hfits : sold + assets ≤ cap
  · refine ⟨_, .whole hroom hweight hassets hfits, ?_⟩
    show assets = min assets (cap - sold)
    omega
  · have hsale : p.saleUnit ≠ 0 := by
      rintro hzero
      obtain ⟨-, -, -, -, hbought, -⟩ := mulDiv_eq_ok.mp hassets
      rw [hzero, Int.mul_zero, Int.zero_ediv] at hbought
      omega
    have hp : p.Sound := Price.sound_of_assets hassets hsale
    obtain ⟨remain, refund, hrefund⟩ :
        ∃ remain refund, Refund p s t amount (sold + assets - cap) remain refund :=
      exists_refund hp hs hweight hassets (by omega) (by omega)
    refine ⟨_, .part hroom hweight hassets (Int.not_le.mp hfits) hrefund, ?_⟩
    show cap - sold = min assets (cap - sold)
    omega

theorem Fills.deposit_eq {f : Fill} (h : Fills p s cap sold amount t f) (hpos : 0 < amount)
    (q : Position) (totalDeposited : Int) :
    deposit (.fixedPrice p) s cap q totalDeposited sold amount t =
      .ok ⟨⟨q.amount + f.accepted, q.weight + f.weightAdded, q.claimed⟩,
        totalDeposited + f.accepted, sold + f.weightAdded, f.accepted, f.weightAdded, f.refund⟩ := by
  have hadds := h.adds (Int.le_of_lt hpos)
  simp only [deposit, fill, h.fillFixed_eq, demand, if_pos hpos, if_pos hadds, bind, Except.bind,
    pure, Except.pure]

theorem deposit_soldOut (hfull : cap ≤ sold) (hpos : 0 < amount) (q : Position)
    (totalDeposited : Int) :
    deposit (.fixedPrice p) s cap q totalDeposited sold amount t =
      .ok ⟨q, totalDeposited, sold, 0, 0, amount⟩ := by
  have hsoldOut : Fills p s cap sold amount t ⟨0, 0, amount⟩ := .soldOut hfull
  simp [hsoldOut.deposit_eq hpos]

theorem exists_deposit (cap : Int) (q : Position) (totalDeposited sold : Int) {weight assets : Int}
    (hs : s.Sound) (hpos : 0 < amount) (hweight : s.weigh amount t = .ok weight)
    (hassets : p.assets weight = .ok assets) :
    ∃ r, deposit (.fixedPrice p) s cap q totalDeposited sold amount t = .ok r ∧
      r.weightAdded = min assets (monus cap sold) := by
  obtain ⟨f, hfills, hadded⟩ := exists_fills cap sold hs hweight hassets
  exact ⟨_, hfills.deposit_eq hpos q totalDeposited, hadded⟩

end Position

/-! Deposits in two parts. -/

/-- What two deposits may be credited less than one of the same amount: a unit of weight under price
discovery, and at a fixed price what such a unit buys and two more roundings. -/
def Mechanic.splitLoss : Mechanic → Int
  | .fixedPrice p => p.saleUnit / p.depositUnit + 2
  | .priceDiscovery => 1

namespace Position

variable {cap sold totalDeposited a b : Int} {q : Position} {whole : Purchase}

/-- What two deposits, one after the other, are credited beside one deposit of the same amount. -/
structure Purchase.Split (m : Mechanic) (first second whole : Purchase) : Prop where
  first_le : first.weightAdded ≤ whole.weightAdded
  sum_le : first.weightAdded + second.weightAdded ≤ whole.weightAdded
  le_sum : whole.weightAdded ≤ first.weightAdded + second.weightAdded + m.splitLoss

theorem deposit_fixed_split (hs : s.Sound) (hsale : 0 ≤ p.saleUnit) (hdeposit : 0 ≤ p.depositUnit)
    (ha : 0 < a) (hb : 0 < b)
    (h : deposit (.fixedPrice p) s cap q totalDeposited sold (a + b) t = .ok whole) :
    ∃ first second, deposit (.fixedPrice p) s cap q totalDeposited sold a t = .ok first ∧
      deposit (.fixedPrice p) s cap first.position first.totalDeposited first.totalSold b t =
        .ok second ∧
      Purchase.Split (.fixedPrice p) first second whole := by
  have hsum : 0 < a + b := Int.add_pos ha hb
  have hunit : 0 ≤ p.saleUnit / p.depositUnit := Int.ediv_nonneg hsale hdeposit
  by_cases hfull : cap ≤ sold
  · refine ⟨_, _, deposit_soldOut hfull ha _ _, deposit_soldOut hfull hb _ _, ?_⟩
    cases (deposit_soldOut hfull hsum _ _).symm.trans h
    exact ⟨Int.le_refl 0, Int.le_refl 0, by simp only [Mechanic.splitLoss]; omega⟩
  · have hroom : sold < cap := Int.not_le.mp hfull
    obtain ⟨w, k, hw, hk⟩ := exists_assets_of_deposit hroom h
    obtain ⟨x, y, hx, hy, hle, hlt⟩ := hs.weigh_split (Int.le_of_lt ha) (Int.le_of_lt hb) hw
    obtain ⟨i, j, hi, hj, hgain, hloss⟩ := Price.assets_split (Schedule.weigh_nonneg hx)
      (Schedule.weigh_nonneg hy) hle hlt hk
    have hjNonneg : 0 ≤ j := mulDiv_nonneg hj
    obtain ⟨first, hfirst, hcredit⟩ := exists_deposit cap q totalDeposited sold hs ha hx hi
    obtain ⟨second, hsecond, hcredit'⟩ := exists_deposit cap first.position first.totalDeposited
      first.totalSold hs hb hy hj
    obtain ⟨_, hwhole, hcreditWhole⟩ := exists_deposit cap q totalDeposited sold hs hsum hw hk
    cases hwhole.symm.trans h
    have hsold : first.totalSold = sold + first.weightAdded := (deposit_law hfirst).totalSold_eq
    rw [monus_of_le (Int.le_of_lt hroom)] at hcredit hcreditWhole
    rw [monus_of_le (by omega), hsold] at hcredit'
    refine ⟨first, second, hfirst, hsecond, ?_, ?_, ?_⟩
    · omega
    · omega
    · simp only [Mechanic.splitLoss]
      omega

theorem deposit_discovery_split (hs : s.Sound) (ha : 0 < a) (hb : 0 < b)
    (h : deposit .priceDiscovery s cap q totalDeposited sold (a + b) t = .ok whole) :
    ∃ first second, deposit .priceDiscovery s cap q totalDeposited sold a t = .ok first ∧
      deposit .priceDiscovery s cap first.position first.totalDeposited first.totalSold b t =
        .ok second ∧
      Purchase.Split .priceDiscovery first second whole := by
  obtain ⟨-, w, hw, rfl⟩ := deposit_discovery_eq_ok.mp h
  obtain ⟨x, y, hx, hy, hle, hlt⟩ := hs.weigh_split (Int.le_of_lt ha) (Int.le_of_lt hb) hw
  have hyNonneg := Schedule.weigh_nonneg hy
  refine ⟨_, _, deposit_discovery_eq_ok.mpr ⟨ha, x, hx, rfl⟩,
    deposit_discovery_eq_ok.mpr ⟨hb, y, hy, rfl⟩, ?_, hle, hlt⟩
  show x ≤ w
  omega

/-- A larger deposit is credited no less, and to make it in two parts never pays: the parts are
credited no more than the whole, and hardly less. -/
theorem deposit_split {m : Mechanic} (hs : s.validate = .ok ())
    (hm : ∀ p, m = .fixedPrice p → 0 ≤ p.saleUnit ∧ 0 ≤ p.depositUnit) (ha : 0 < a) (hb : 0 < b)
    (h : deposit m s cap q totalDeposited sold (a + b) t = .ok whole) :
    ∃ first second, deposit m s cap q totalDeposited sold a t = .ok first ∧
      deposit m s cap first.position first.totalDeposited first.totalSold b t = .ok second ∧
      Purchase.Split m first second whole := by
  have hsound := Schedule.sound_of_validate hs
  cases m with
  | fixedPrice p =>
    obtain ⟨hsale, hdeposit⟩ := hm p rfl
    exact deposit_fixed_split hsound hsale hdeposit ha hb h
  | priceDiscovery => exact deposit_discovery_split hsound ha hb h

/-- A deposit that just crosses the cap, where its two halves together stay below it. -/
theorem deposit_split_below_cap :
    Schedule.validate [⟨1000, 2000, 2500⟩] = .ok () ∧
      deposit (.fixedPrice ⟨3, 7⟩) [⟨1000, 2000, 2500⟩] 815 zero 0 800 (3 + 3) 1500 =
        .ok ⟨⟨6, 15, 0⟩, 6, 815, 6, 15, 0⟩ ∧
      ∃ first second,
        deposit (.fixedPrice ⟨3, 7⟩) [⟨1000, 2000, 2500⟩] 815 zero 0 800 3 1500 = .ok first ∧
        deposit (.fixedPrice ⟨3, 7⟩) [⟨1000, 2000, 2500⟩] 815 first.position first.totalDeposited
          first.totalSold 3 1500 = .ok second ∧
        Purchase.Split (.fixedPrice ⟨3, 7⟩) first second ⟨⟨6, 15, 0⟩, 6, 815, 6, 15, 0⟩ := by
  have hs : Schedule.validate [⟨1000, 2000, 2500⟩] = .ok () := rfl
  have hm : ∀ p, Mechanic.fixedPrice ⟨3, 7⟩ = .fixedPrice p →
      0 ≤ p.saleUnit ∧ 0 ≤ p.depositUnit := by
    intro p hp
    cases hp
    decide
  have h : deposit (.fixedPrice ⟨3, 7⟩) [⟨1000, 2000, 2500⟩] 815 zero 0 800 (3 + 3) 1500 =
      .ok ⟨⟨6, 15, 0⟩, 6, 815, 6, 15, 0⟩ := rfl
  exact ⟨hs, h, deposit_split hs hm (by decide) (by decide) h⟩

end Position

end TokenSale
