import TokenSale.Proofs.Release
import TokenSale.Proofs.Weighing

/-!
Which releases can be computed. With sound terms a release only fails by an overflow, and there are
two of these: a weight is divided by a total that is no amount, or a release grows over a period
that is none. Everything else that a release is made of is a part of an amount.
-/

namespace TokenSale

open Amount

namespace Vesting

variable {v : Vesting} {allocation start t : Int}

/-- While a release grows at `t`, the period over which it grows is an amount. -/
def Measurable (v : Vesting) (start t : Int) : Prop :=
  start + v.cliff ≤ t → t < start + v.period → v.growthPeriod ≤ maxU128

theorem Sound.growthPeriod_pos (hv : v.Sound) : 0 < v.growthPeriod := by
  have hnonneg := hv.cliff_nonneg
  have hlt := hv.cliff_lt
  unfold growthPeriod
  split <;> omega

theorem Sound.elapsed_nonneg (hv : v.Sound) (hcliff : start + v.cliff ≤ t) :
    0 ≤ t - v.growthStart start := by
  have hnonneg := hv.cliff_nonneg
  unfold growthStart
  split <;> omega

theorem Sound.instantAmount_returns (hv : v.Sound) (ha : InRange allocation) :
    ∃ instant, v.instantAmount allocation = .ok instant := by
  unfold instantAmount
  split
  · exact ⟨0, rfl⟩
  · rename_i bps hbps
    exact ⟨_, share_part ha (hv.share_le bps hbps)⟩

theorem Sound.growth_overflowsUnless (hv : v.Sound) {rest : Int} (hrest : InRange rest)
    (hcliff : start + v.cliff ≤ t) (hend : ¬start + v.period ≤ t) :
    OverflowsUnless (v.growthPeriod ≤ maxU128)
      (mulDiv rest (t - v.growthStart start) v.growthPeriod) := by
  have hpos := hv.growthPeriod_pos
  refine .intro (mulDiv_overflows (Int.ne_of_gt hpos)) (fun q hq => ?_) fun hle => ?_
  · exact (mulDiv_eq_ok.mp hq).2.2.1.2
  · exact ⟨_, mulDiv_part hrest ⟨Int.le_of_lt hpos, hle⟩ hpos (hv.elapsed_nonneg hcliff)
      (elapsed_le hend)⟩

theorem Sound.released_overflowsUnless (hv : v.Sound) (ha : InRange allocation) (start t : Int) :
    OverflowsUnless (v.Measurable start t) (v.released allocation start t) := by
  obtain ⟨instant, hinstant⟩ := hv.instantAmount_returns ha
  have hpart := instantAmount_le ha.1 hinstant
  have hleast := instantAmount_nonneg hinstant
  unfold released
  refine .bind_ok hinstant ?_
  split
  · rename_i hbefore
    exact .of_ok rfl fun hcliff => absurd hbefore (Int.not_lt.mpr hcliff)
  · rename_i hcliff
    split
    · rename_i hafter
      exact .of_ok rfl fun _ hend => absurd hafter (Int.not_le.mpr hend)
    · rename_i hend
      have hgrowth := hv.growth_overflowsUnless (ha.of_le (Int.sub_nonneg_of_le hpart) (by omega))
        (Int.not_lt.mp hcliff) hend
      refine .bind_demand hpart ?_
      refine (hgrowth.map _).congr ?_
      exact ⟨fun hle _ _ => hle, fun h => h (Int.not_lt.mp hcliff) (Int.not_le.mp hend)⟩

end Vesting

theorem released_overflowsUnless {v? : Option Vesting} (hv : ∀ v, v? = some v → v.Sound)
    {allocation : Int} (ha : InRange allocation) (start t : Int) :
    OverflowsUnless (∀ v, v? = some v → v.Measurable start t) (released allocation v? start t) := by
  cases v? with
  | none => exact .of_ok rfl nofun
  | some v =>
    refine ((hv v rfl).released_overflowsUnless ha start t).congr ?_
    exact ⟨fun h w hw => Option.some.inj hw ▸ h, fun h => h v rfl⟩

namespace Ledger

structure Consistent (l : Ledger) : Prop where
  sound : l.sale.Sound
  bounded : l.sale.Bounded
  balanced : l.Balanced

namespace Consistent

variable {l : Ledger} {who : String} {p : Position} {h : Stakeholder}

def Shares (l : Ledger) (p : Position) : Prop :=
  l.sale.mechanic = .priceDiscovery → p.weight ≠ 0 → l.totalSold ≤ maxU128

theorem allocation_overflowsUnless (hl : l.Consistent) (hp : l.positions.get? who = some p) :
    OverflowsUnless (Shares l p) (l.sale.allocation p l.totalSold) := by
  have hweight := (hl.balanced.position_nonneg who p hp).weight_nonneg
  have hle := hl.balanced.tallied.weight_le hp
  have hsale : InRange l.sale.saleAmount :=
    ⟨Int.le_of_lt hl.sound.saleAmount_pos, hl.bounded.saleAmount_le⟩
  unfold Sale.allocation Position.allocation
  cases hmechanic : l.sale.mechanic with
  | fixedPrice price => exact .of_ok rfl fun h => nomatch hmechanic.symm.trans h
  | priceDiscovery =>
    simp only
    split
    · rename_i hzero
      refine .of_ok rfl fun _ hne => ?_
      rw [hzero.resolve_left hne]
      decide
    · rename_i hnonzero
      obtain ⟨hne, hsold⟩ := not_or.mp hnonzero
      have hpos : 0 < l.totalSold := by omega
      refine .intro (mulDiv_overflows hsold) (fun q hq _ _ => ?_) fun hshares => ?_
      · exact (mulDiv_eq_ok.mp hq).2.2.1.2
      · have hrange : InRange l.totalSold := ⟨Int.le_of_lt hpos, hshares hmechanic hne⟩
        exact ⟨_, mulDiv_of_le hsale hrange hpos hweight hle⟩

theorem allocation_inRange (hl : l.Consistent) (hp : l.positions.get? who = some p) {a : Int}
    (h : l.sale.allocation p l.totalSold = .ok a) : InRange a := by
  unfold Sale.allocation Position.allocation at h
  cases hmechanic : l.sale.mechanic with
  | fixedPrice price =>
    rw [hmechanic] at h
    cases h
    have hcapped := hl.balanced.capped (by rw [hmechanic]; rfl)
    have hle := hl.balanced.tallied.weight_le hp
    have hsale := hl.bounded.saleAmount_le
    exact ⟨(hl.balanced.position_nonneg who p hp).weight_nonneg, by omega⟩
  | priceDiscovery =>
    simp only [hmechanic] at h
    split at h
    · cases h
      decide
    · exact ⟨mulDiv_nonneg h, (mulDiv_eq_ok.mp h).2.2.2.2.2⟩

theorem releasedTo_overflowsUnless (hl : l.Consistent) (hp : l.positions.get? who = some p)
    (t : Int) :
    OverflowsUnless
      (Shares l p ∧ ∀ v, l.sale.vesting = some v → v.Measurable l.sale.vestingStart t)
      (l.sale.releasedTo p l.totalSold t) :=
  (hl.allocation_overflowsUnless hp).bind fun _ ha =>
    released_overflowsUnless hl.bounded.vesting_sound (hl.allocation_inRange hp ha) _ t

theorem releasedAt_overflowsUnless (hl : l.Consistent) (hvested : l.sale.vested? who = some h)
    (start t : Int) :
    OverflowsUnless (∀ v, h.vesting = some v → v.Measurable start t) (h.releasedAt start t) :=
  released_overflowsUnless (hl.bounded.vested_sound hvested)
    (hl.bounded.vested_inRange hl.sound hvested) start t

end Consistent

end Ledger

theorem History.run_consistent {draft : Sale.Draft} {settings : Settings} {outbox : Outbox}
    {clock : Int} {d : Desk} (h : Desk.start draft settings outbox clock = .ok d)
    (turns : List Turn) : (run d turns).ledger.Consistent :=
  ⟨run_sale_sound h turns, run_bounded h turns, (run_balanced h turns).2⟩

end TokenSale
