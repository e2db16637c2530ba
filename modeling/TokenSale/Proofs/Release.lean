import TokenSale.Proofs.Ledger.Balance

/-!
Releases never exceed what is owed: a vesting releases at most the allocation, and all of it at the
end of its period. What is owed to all participants together stays within the sale amount, since
shares of it are rounded down.
-/

namespace TokenSale

theorem Vesting.instantAmount_le {v : Vesting} {allocation instant : Int}
    (hnonneg : 0 ≤ allocation) (h : v.instantAmount allocation = .ok instant) :
    instant ≤ allocation := by
  unfold instantAmount at h
  split at h
  · cases h
    exact hnonneg
  · obtain ⟨hshare, hmul⟩ := Amount.share_eq_ok.mp h
    exact Amount.mulDiv_le hmul hshare.2

theorem Vesting.elapsed_le {v : Vesting} {start t : Int} (h : ¬ start + v.period ≤ t) :
    t - v.growthStart start ≤ v.growthPeriod := by
  unfold growthStart growthPeriod
  split <;> omega

theorem Vesting.released_cases {v : Vesting} {allocation start t r instant : Int}
    (hinstant : v.instantAmount allocation = .ok instant)
    (h : v.released allocation start t = .ok r) :
    t < start + v.cliff ∧ r = instant ∨
      start + v.cliff ≤ t ∧ start + v.period ≤ t ∧ r = allocation ∨
      start + v.cliff ≤ t ∧ t < start + v.period ∧ ∃ grown, r = instant + grown ∧
        Amount.mulDiv (allocation - instant) (t - v.growthStart start) v.growthPeriod =
          .ok grown := by
  simp only [released, hinstant, bind_eq_ok] at h
  obtain ⟨_, hsame, h⟩ := h
  cases hsame
  split at h
  · rename_i hbefore
    cases h
    exact .inl ⟨hbefore, rfl⟩
  · rename_i hcliff
    split at h
    · rename_i hend
      cases h
      exact .inr (.inl ⟨Int.not_lt.mp hcliff, hend, rfl⟩)
    · rename_i hend
      simp only [bind_eq_ok, pure_eq_ok] at h
      obtain ⟨-, -, grown, hgrown, rfl⟩ := h
      exact .inr (.inr ⟨Int.not_lt.mp hcliff, Int.not_le.mp hend, grown, rfl, hgrown⟩)

theorem Vesting.released_le {v : Vesting} {allocation start t r : Int} (hnonneg : 0 ≤ allocation)
    (h : v.released allocation start t = .ok r) : r ≤ allocation := by
  obtain ⟨instant, hinstant, -⟩ := bind_eq_ok.mp h
  have hle := instantAmount_le hnonneg hinstant
  rcases released_cases hinstant h with ⟨-, rfl⟩ | ⟨-, -, rfl⟩ | ⟨-, hbefore, grown, rfl, hgrown⟩
  · exact hle
  · exact Int.le_refl _
  · have := Amount.mulDiv_le hgrown (elapsed_le (Int.not_le.mpr hbefore))
    omega

theorem released_le {v? : Option Vesting} {allocation start t r : Int} (hnonneg : 0 ≤ allocation)
    (h : released allocation v? start t = .ok r) : r ≤ allocation := by
  cases v? with
  | none =>
    cases h
    exact Int.le_refl _
  | some v => exact Vesting.released_le hnonneg h

theorem Vesting.released_at_end {v : Vesting} {allocation start t r : Int}
    (hcliff : v.cliff < v.period) (hend : start + v.period ≤ t)
    (h : v.released allocation start t = .ok r) : r = allocation := by
  obtain ⟨instant, hinstant, -⟩ := bind_eq_ok.mp h
  rcases released_cases hinstant h with ⟨hearly, -⟩ | ⟨-, -, rfl⟩ | ⟨-, hbefore, -⟩
  · omega
  · rfl
  · omega

theorem Vesting.instantAmount_nonneg {v : Vesting} {allocation instant : Int}
    (h : v.instantAmount allocation = .ok instant) : 0 ≤ instant := by
  unfold instantAmount at h
  split at h
  · cases h
    exact Int.le_refl 0
  · exact Amount.mulDiv_nonneg (Amount.share_eq_ok.mp h).2

theorem Vesting.released_mono {v : Vesting} {allocation start s t r q : Int}
    (hnonneg : 0 ≤ allocation) (hle : s ≤ t) (hr : v.released allocation start s = .ok r)
    (hq : v.released allocation start t = .ok q) : r ≤ q := by
  have hwhole := released_le hnonneg hr
  obtain ⟨instant, hinstant, -⟩ := bind_eq_ok.mp hr
  have hpart := instantAmount_le hnonneg hinstant
  rcases released_cases hinstant hq with ⟨hearly, rfl⟩ | ⟨-, -, rfl⟩ |
    ⟨hcliff, hbefore, grown, rfl, hgrown⟩
  · -- before the cliff at the later time, so also at the earlier one
    rcases released_cases hinstant hr with ⟨-, rfl⟩ | ⟨hlate, -⟩ | ⟨hlate, -⟩
    · exact Int.le_refl _
    · omega
    · omega
  · exact hwhole
  · have hgained := Amount.mulDiv_nonneg hgrown
    rcases released_cases hinstant hr with ⟨-, rfl⟩ | ⟨-, hend, rfl⟩ | ⟨-, -, grown', rfl, hgrown'⟩
    · omega
    · omega
    · have := Amount.mulDiv_mono hgrown' hgrown (by omega)
      omega

theorem released_mono {v? : Option Vesting} {allocation start s t r q : Int}
    (hnonneg : 0 ≤ allocation) (hle : s ≤ t) (hr : released allocation v? start s = .ok r)
    (hq : released allocation v? start t = .ok q) : r ≤ q := by
  cases v? with
  | none =>
    cases hr
    cases hq
    exact Int.le_refl _
  | some v => exact Vesting.released_mono hnonneg hle hr hq

theorem released_nonneg {v? : Option Vesting} {allocation start t r : Int}
    (hnonneg : 0 ≤ allocation) (h : released allocation v? start t = .ok r) : 0 ≤ r := by
  cases v? with
  | none =>
    cases h
    exact hnonneg
  | some v =>
    obtain ⟨instant, hinstant, -⟩ := bind_eq_ok.mp h
    have hpart := Vesting.instantAmount_nonneg hinstant
    rcases Vesting.released_cases hinstant h with ⟨-, rfl⟩ | ⟨-, -, rfl⟩ |
      ⟨-, -, grown, rfl, hgrown⟩
    · exact hpart
    · exact hnonneg
    · exact Int.add_nonneg hpart (Amount.mulDiv_nonneg hgrown)

theorem add_claimable_le {released claimed bound : Int} (hreleased : released ≤ bound)
    (hclaimed : claimed ≤ bound) : claimed + claimable released claimed ≤ bound := by
  unfold claimable Amount.monus
  split <;> omega

theorem add_claimable_eq {released claimed : Int} (h : claimed ≤ released) :
    claimed + claimable released claimed = released := by
  rw [claimable, Amount.monus_of_le h]
  omega

theorem claimable_fills {released claimed : Int} : released ≤ claimed + claimable released claimed := by
  unfold claimable Amount.monus
  split <;> omega

def Sale.entitlement (s : Sale) (p : Position) (totalSold : Int) : Int :=
  match s.mechanic with
  | .fixedPrice _ => p.weight
  | .priceDiscovery => p.weight * s.saleAmount / totalSold

theorem Sale.allocation_eq {s : Sale} {p : Position} {totalSold a : Int}
    (h : s.allocation p totalSold = .ok a) : a = s.entitlement p totalSold := by
  unfold allocation Position.allocation at h
  unfold entitlement
  cases hmechanic : s.mechanic with
  | fixedPrice price =>
    rw [hmechanic] at h
    exact (Except.ok.inj h).symm
  | priceDiscovery =>
    simp only [hmechanic] at h
    split at h
    · rename_i hzero
      cases h
      rcases hzero with hzero | hzero <;> simp [hzero]
    · obtain ⟨-, -, -, -, ha, -⟩ := Amount.mulDiv_eq_ok.mp h
      exact ha

theorem Sale.entitlement_nonneg {s : Sale} {p : Position} {totalSold : Int}
    (hsale : 0 ≤ s.saleAmount) (hp : p.Nonneg) (hsold : 0 ≤ totalSold) :
    0 ≤ s.entitlement p totalSold := by
  unfold entitlement
  split
  · exact hp.weight_nonneg
  · exact Int.ediv_nonneg (Int.mul_nonneg hp.weight_nonneg hsale) hsold

theorem Sale.releasedTo_le {s : Sale} {p : Position} {totalSold t r : Int}
    (hsale : 0 ≤ s.saleAmount) (hp : p.Nonneg) (hsold : 0 ≤ totalSold)
    (h : s.releasedTo p totalSold t = .ok r) : r ≤ s.entitlement p totalSold := by
  simp only [releasedTo, bind_eq_ok] at h
  obtain ⟨a, ha, hr⟩ := h
  have hallocation := allocation_eq ha
  have hnonneg := entitlement_nonneg hsale hp hsold
  rw [← hallocation] at hnonneg ⊢
  exact released_le hnonneg hr

theorem Sale.releasedTo_congr {s : Sale} {p p' : Position} (h : p'.weight = p.weight)
    (totalSold t : Int) : s.releasedTo p' totalSold t = s.releasedTo p totalSold t := by
  simp only [releasedTo, allocation, h]

theorem Sale.releasedTo_nonneg {s : Sale} {p : Position} {totalSold t r : Int}
    (hsale : 0 ≤ s.saleAmount) (hp : p.Nonneg) (hsold : 0 ≤ totalSold)
    (h : s.releasedTo p totalSold t = .ok r) : 0 ≤ r := by
  simp only [releasedTo, bind_eq_ok] at h
  obtain ⟨a, ha, hr⟩ := h
  have hnonneg := entitlement_nonneg hsale hp hsold
  rw [← allocation_eq ha] at hnonneg
  exact released_nonneg hnonneg hr

theorem Sale.releasedTo_mono {s : Sale} {p : Position} {totalSold t t' r r' : Int}
    (hsale : 0 ≤ s.saleAmount) (hp : p.Nonneg) (hsold : 0 ≤ totalSold) (hle : t ≤ t')
    (h : s.releasedTo p totalSold t = .ok r) (h' : s.releasedTo p totalSold t' = .ok r') :
    r ≤ r' := by
  simp only [releasedTo, bind_eq_ok] at h h'
  obtain ⟨a, ha, hr⟩ := h
  obtain ⟨a', ha', hr'⟩ := h'
  have hsame : a' = a := (allocation_eq ha').trans (allocation_eq ha).symm
  have hnonneg := entitlement_nonneg hsale hp hsold
  rw [← allocation_eq ha] at hnonneg
  rw [hsame] at hr'
  exact released_mono hnonneg hle hr hr'

theorem Book.total_share_le {f : α → Int} {b : Book α} {amount : Int}
    (hf : b.Forall fun v => 0 ≤ f v) (hamount : 0 ≤ amount) :
    b.total (fun v => f v * amount / b.total f) ≤ amount := by
  have hnonneg := Book.total_nonneg hf
  by_cases hzero : b.total f = 0
  · have hnone : b.total (fun v => f v * amount / b.total f) = 0 :=
      Book.total_eq_zero fun k v _ => by
        show f v * amount / b.total f = 0
        rw [hzero, Int.ediv_zero]
    omega
  · have hpos : 0 < b.total f := by omega
    refine Int.le_of_mul_le_mul_right ?_ hpos
    calc b.total (fun v => f v * amount / b.total f) * b.total f
        = b.total (fun v => f v * amount / b.total f * b.total f) :=
          (sumOf_mul_right _ _ _).symm
      _ ≤ b.total (fun v => f v * amount) :=
          Book.total_le_total fun k v hv => Int.ediv_mul_le _ (by omega)
      _ = b.total f * amount := sumOf_mul_right _ _ _
      _ = amount * b.total f := Int.mul_comm _ _

theorem Ledger.Balanced.entitlements_le {l : Ledger} (h : l.Balanced)
    (hsale : 0 ≤ l.sale.saleAmount) :
    l.positions.total (fun p => l.sale.entitlement p l.totalSold) ≤ l.sale.saleAmount := by
  cases hmechanic : l.sale.mechanic with
  | fixedPrice price =>
    have hcapped := h.capped (by rw [hmechanic]; rfl)
    simp only [Sale.entitlement, hmechanic]
    rw [h.totalSold_eq] at hcapped
    exact hcapped
  | priceDiscovery =>
    simp only [Sale.entitlement, hmechanic]
    rw [h.totalSold_eq]
    exact Book.total_share_le (fun k v hv => (h.position_nonneg k v hv).weight_nonneg) hsale

end TokenSale
