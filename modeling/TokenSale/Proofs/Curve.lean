import TokenSale.Proofs.Releasable

/-!
Release curves. The release of an allocation never falls, neither with time, across the cliff and the
end, nor with the allocation, whose instant share and growing rest are rounded down each. It starts
with the instant share, ends with the whole, and is computed at all times if its period is an amount.
Growth that starts at the cliff is steeper but never ahead.
-/

namespace TokenSale

open Amount

namespace Vesting

variable {v : Vesting} {a b start t r q : Int}

theorem Sound.growthPeriod_le (hv : v.Sound) : v.growthPeriod ≤ v.period := by
  have hcliff := hv.cliff_nonneg
  unfold growthPeriod
  split <;> omega

theorem instantAmount_mono {i j : Int} (hi : v.instantAmount a = .ok i)
    (hj : v.instantAmount b = .ok j) (hle : a ≤ b) : i ≤ j ∧ a - i ≤ b - j := by
  unfold instantAmount at hi hj
  cases hshare : v.instantShare with
  | none =>
    simp only [hshare] at hi hj
    cases hi
    cases hj
    omega
  | some bps =>
    simp only [hshare] at hi hj
    obtain ⟨⟨hnonneg, hbps⟩, hi⟩ := share_eq_ok.mp hi
    obtain ⟨-, -, -, -, rfl, -⟩ := mulDiv_eq_ok.mp hi
    obtain ⟨-, -, -, -, rfl, -⟩ := mulDiv_eq_ok.mp (share_eq_ok.mp hj).2
    have hpart : (b - a) * bps ≤ (b - a) * bpsUnit :=
      Int.mul_le_mul_of_nonneg_left hbps (Int.sub_nonneg_of_le hle)
    have hgain : b * bps / bpsUnit ≤ a * bps / bpsUnit + (b - a) := by
      calc b * bps / bpsUnit
          ≤ (a * bps + (b - a) * bpsUnit) / bpsUnit := by
            apply Int.ediv_le_ediv (by decide)
            rw [Int.sub_mul] at hpart
            omega
        _ = a * bps / bpsUnit + (b - a) := Int.add_mul_ediv_right _ _ (by decide)
    exact ⟨mul_ediv_mono hnonneg (by decide) hle, by omega⟩

theorem Sound.released_mono_allocation (hv : v.Sound) (hle : a ≤ b)
    (hr : v.released a start t = .ok r) (hq : v.released b start t = .ok q) : r ≤ q := by
  obtain ⟨i, hi, -⟩ := bind_eq_ok.mp hr
  obtain ⟨j, hj, -⟩ := bind_eq_ok.mp hq
  obtain ⟨hinstant, hrest⟩ := instantAmount_mono hi hj hle
  rcases released_cases hi hr with ⟨hearly, rfl⟩ | ⟨hcliff, hend, rfl⟩ |
    ⟨hcliff, hbefore, grown, rfl, hgrown⟩
  · rcases released_cases hj hq with ⟨-, rfl⟩ | ⟨hlate, -⟩ | ⟨hlate, -⟩ <;> omega
  · rcases released_cases hj hq with ⟨hearly, -⟩ | ⟨-, -, rfl⟩ | ⟨-, hearly, -⟩ <;> omega
  · rcases released_cases hj hq with ⟨hearly, -⟩ | ⟨-, hlate, -⟩ | ⟨-, -, grown', rfl, hgrown'⟩
    · omega
    · omega
    · obtain ⟨-, hnum, -, -, rfl, -⟩ := mulDiv_eq_ok.mp hgrown
      obtain ⟨-, -, -, -, rfl, -⟩ := mulDiv_eq_ok.mp hgrown'
      exact Int.add_le_add hinstant (mul_ediv_mono hnum.1 hv.growthPeriod_pos hrest)

theorem instantAmount_le_released {i : Int} (ha : 0 ≤ a) (hi : v.instantAmount a = .ok i)
    (hr : v.released a start t = .ok r) : i ≤ r := by
  rcases released_cases hi hr with ⟨-, rfl⟩ | ⟨-, -, rfl⟩ | ⟨-, -, grown, rfl, hgrown⟩
  · exact Int.le_refl _
  · exact instantAmount_le ha hi
  · exact Int.le_add_of_nonneg_right (mulDiv_nonneg hgrown)

theorem Sound.released_of_end (hv : v.Sound) (ha : InRange a) (hend : start + v.period ≤ t) :
    v.released a start t = .ok a := by
  obtain ⟨r, hr⟩ := (hv.released_overflowsUnless ha start t).returns fun _ hearly =>
    absurd hend (Int.not_le.mpr hearly)
  rw [hr, released_at_end hv.cliff_lt hend hr]

theorem growth_from_cliff_le {rest elapsed cliff period : Int} (hrest : 0 ≤ rest)
    (hcliff : 0 ≤ cliff) (hlt : cliff < period) (hend : elapsed ≤ period) :
    rest * (elapsed - cliff) / (period - cliff) ≤ rest * elapsed / period := by
  have hpart : 0 < period - cliff := by omega
  have hwhole : rest * (elapsed - cliff) / (period - cliff) ≤ rest :=
    Int.ediv_le_of_le_mul hpart (Int.mul_le_mul_of_nonneg_left (by omega) hrest)
  rw [Int.le_ediv_iff_mul_le (Int.lt_of_le_of_lt hcliff hlt)]
  calc rest * (elapsed - cliff) / (period - cliff) * period
      = rest * (elapsed - cliff) / (period - cliff) * (period - cliff) +
          rest * (elapsed - cliff) / (period - cliff) * cliff := by
        rw [← Int.mul_add, Int.sub_add_cancel]
    _ ≤ rest * (elapsed - cliff) + rest * cliff :=
        Int.add_le_add (Int.ediv_mul_le _ (Int.ne_of_gt hpart))
          (Int.mul_le_mul_of_nonneg_right hwhole hcliff)
    _ = rest * elapsed := by rw [← Int.mul_add, Int.sub_add_cancel]

def inScheme (v : Vesting) (s : Scheme) : Vesting := { v with scheme := s }

theorem Sound.inScheme (hv : v.Sound) (s : Scheme) : (v.inScheme s).Sound :=
  ⟨hv.cliff_nonneg, hv.cliff_lt, hv.share_le⟩

theorem Sound.released_afterCliff_le (hv : v.Sound) (ha : InRange a)
    (h : (v.inScheme .immediate).released a start t = .ok r) :
    ∃ q, (v.inScheme .afterCliff).released a start t = .ok q ∧ q ≤ r := by
  have hcliff := hv.cliff_nonneg
  have hmeasured := ((hv.inScheme .immediate).released_overflowsUnless ha start t).holds h
  obtain ⟨q, hq⟩ := ((hv.inScheme .afterCliff).released_overflowsUnless ha start t).returns
    fun hlate hearly =>
      Int.le_trans (hv.inScheme .afterCliff).growthPeriod_le (hmeasured hlate hearly)
  refine ⟨q, hq, ?_⟩
  obtain ⟨i, hi, -⟩ := bind_eq_ok.mp h
  have hi' : (v.inScheme .afterCliff).instantAmount a = .ok i := hi
  rcases released_cases hi h with ⟨hearly, rfl⟩ | ⟨-, -, rfl⟩ |
    ⟨hlate, hbefore, grown, rfl, hgrown⟩
  · rcases released_cases hi' hq with ⟨-, rfl⟩ | ⟨hlate, -⟩ | ⟨hlate, -⟩
    · exact Int.le_refl _
    · exact absurd hearly (Int.not_lt.mpr hlate)
    · exact absurd hearly (Int.not_lt.mpr hlate)
  · exact released_le ha.1 hq
  · rcases released_cases hi' hq with ⟨hearly, -⟩ | ⟨-, hend, -⟩ | ⟨-, -, grown', rfl, hgrown'⟩
    · exact absurd hearly (Int.not_lt.mpr hlate)
    · exact absurd hbefore (Int.not_lt.mpr hend)
    · -- both have grown from the same instant share
      obtain ⟨hrest, -, -, -, rfl, -⟩ := mulDiv_eq_ok.mp hgrown
      obtain ⟨-, -, -, -, rfl, -⟩ := mulDiv_eq_ok.mp hgrown'
      have hend : t - start ≤ v.period := Int.sub_left_le_of_le_add (Int.le_of_lt hbefore)
      apply Int.add_le_add_left
      show (a - i) * (t - (start + v.cliff)) / (v.period - v.cliff) ≤
        (a - i) * (t - start) / v.period
      rw [← Int.sub_sub]
      exact growth_from_cliff_le hrest.1 hcliff hv.cliff_lt hend

end Vesting

/-- The law of releases that start at `start`, without or with a vesting. -/
structure ReleaseCurve (v? : Option Vesting) (start : Int) : Prop where
  returns : (∀ v, v? = some v → v.period ≤ maxU128) →
    ∀ a t, InRange a → ∃ r, released a v? start t = .ok r
  bounds : ∀ a t r, InRange a → released a v? start t = .ok r → 0 ≤ r ∧ r ≤ a
  mono_time : ∀ a s t r q, InRange a → s ≤ t → released a v? start s = .ok r →
    released a v? start t = .ok q → r ≤ q
  mono_allocation : ∀ a b t r q, InRange a → InRange b → a ≤ b → released a v? start t = .ok r →
    released b v? start t = .ok q → r ≤ q
  instant_le : ∀ a t r, InRange a → released a v? start t = .ok r → ∀ v, v? = some v →
    ∃ i, v.instantAmount a = .ok i ∧ i ≤ r
  complete : ∀ a t, InRange a → (∀ v, v? = some v → start + v.period ≤ t) →
    released a v? start t = .ok a
  afterCliff_le : ∀ a t r v, InRange a → v? = some v →
    (v.inScheme .immediate).released a start t = .ok r →
    ∃ q, (v.inScheme .afterCliff).released a start t = .ok q ∧ q ≤ r

theorem releaseCurve_none (start : Int) : ReleaseCurve none start where
  returns _ a _ _ := ⟨a, rfl⟩
  bounds _ _ _ ha hr := ⟨released_nonneg ha.1 hr, released_le ha.1 hr⟩
  mono_time _ _ _ _ _ ha hle hr hq := released_mono ha.1 hle hr hq
  mono_allocation := by
    rintro a b t r q - - hle ⟨⟩ ⟨⟩
    exact hle
  instant_le := nofun
  complete _ _ _ _ := rfl
  afterCliff_le := nofun

theorem Vesting.Sound.releaseCurve {v : Vesting} (hv : v.Sound) (start : Int) :
    ReleaseCurve (some v) start where
  returns hperiod a t ha := by
    apply (hv.released_overflowsUnless ha start t).returns
    intro _ _
    exact Int.le_trans hv.growthPeriod_le (hperiod v rfl)
  bounds _ _ _ ha hr := ⟨released_nonneg ha.1 hr, released_le ha.1 hr⟩
  mono_time _ _ _ _ _ ha hle hr hq := released_mono ha.1 hle hr hq
  mono_allocation _ _ _ _ _ _ _ hle hr hq := hv.released_mono_allocation hle hr hq
  instant_le := by
    rintro a t r ha hr v ⟨⟩
    obtain ⟨i, hi⟩ := hv.instantAmount_returns ha
    exact ⟨i, hi, instantAmount_le_released ha.1 hi hr⟩
  complete _ _ ha hend := hv.released_of_end ha (hend v rfl)
  afterCliff_le := by
    rintro a t r v ha ⟨⟩ hr
    exact hv.released_afterCliff_le ha hr

/-- Releases follow the law without a vesting and with every vesting that is accepted. -/
theorem released_curve {v? : Option Vesting} (hv : ∀ v, v? = some v → v.validate = .ok ())
    (start : Int) : ReleaseCurve v? start := by
  cases v? with
  | none => exact releaseCurve_none start
  | some v => exact (Vesting.sound_of_validate (hv v rfl)).releaseCurve start

/-- An eighth at once, and the rest from a cliff on: one unit before the end of the period one
unit of the allocation is missing. -/
theorem released_curve_eighth :
    Vesting.validate ⟨10, 100, some 1250, .afterCliff⟩ = .ok () ∧
      released 83 (some ⟨10, 100, some 1250, .afterCliff⟩) 1000 1099 = .ok 82 ∧
      ReleaseCurve (some ⟨10, 100, some 1250, .afterCliff⟩) 1000 := by
  have hv : Vesting.validate ⟨10, 100, some 1250, .afterCliff⟩ = .ok () := rfl
  refine ⟨hv, rfl, released_curve ?_ 1000⟩
  rintro v ⟨⟩
  exact hv

end TokenSale
