import TokenSale.Proofs.Desk.History
import TokenSale.Proofs.Schedule

/-!
The numbers in the terms of a sale. Those of an accepted sale stay within the bounds that its
computations rely on: units and percentages are positive and bounded, instant shares are shares, and
no amount of sale tokens that is owed leaves the range. Only the periods of a vesting have no bound.
-/

namespace TokenSale

structure Price.Sound (p : Price) : Prop where
  depositUnit_pos : 0 < p.depositUnit
  depositUnit_le : p.depositUnit ≤ Amount.maxU128
  saleUnit_pos : 0 < p.saleUnit
  saleUnit_le : p.saleUnit ≤ Amount.maxU128

structure Discount.Sound (d : Discount) : Prop where
  percentage_pos : 0 < d.percentage
  percentage_le : d.percentage ≤ maxPercentage

def Schedule.Sound (s : Schedule) : Prop := ∀ d ∈ s, d.Sound

structure Vesting.Sound (v : Vesting) : Prop where
  cliff_nonneg : 0 ≤ v.cliff
  cliff_lt : v.cliff < v.period
  share_le : ∀ bps, v.instantShare = some bps → 0 ≤ bps ∧ bps ≤ Amount.bpsUnit

structure Sale.Bounded (s : Sale) : Prop where
  saleAmount_le : s.saleAmount ≤ Amount.maxU128
  totalSaleAmount_le : s.totalSaleAmount ≤ Amount.maxU128
  price_sound : ∀ p, s.mechanic = .fixedPrice p → p.Sound
  discounts_sound : s.discounts.Sound
  vesting_sound : ∀ v, s.vesting = some v → v.Sound
  stakeholder_sound : ∀ p, s.plan = some p → ∀ h ∈ p.stakeholders, ∀ v, h.vesting = some v → v.Sound

/-! The parts of a draft. -/

theorem Mechanic.checkUnit_bounds {name : String} {v : Datum} {n : Int}
    (h : checkUnit name v = .ok n) : 0 < n ∧ n ≤ Amount.maxU128 := by
  unfold checkUnit at h
  split at h
  · split at h
    · rename_i hbounds
      cases h
      exact hbounds
    · cases h
  · cases h

theorem Mechanic.price_sound_of_check {d : Mechanic.Draft} {p : Price}
    (h : d.check = .ok (.fixedPrice p)) : p.Sound := by
  cases d with
  | priceDiscovery => cases h
  | fixedPrice depositUnit saleUnit =>
    simp only [Mechanic.Draft.check, bind_eq_ok, pure_eq_ok] at h
    obtain ⟨deposit, hdeposit, sale, hsale, hprice⟩ := h
    cases hprice
    obtain ⟨hdpos, hdle⟩ := checkUnit_bounds hdeposit
    obtain ⟨hspos, hsle⟩ := checkUnit_bounds hsale
    exact ⟨hdpos, hdle, hspos, hsle⟩

theorem Discount.sound_of_check {d : Discount.Draft} {r : Discount} (h : d.check = .ok r) :
    r.Sound := by
  simp only [Discount.Draft.check, bind_eq_ok, pure_eq_ok] at h
  obtain ⟨n, hn, -, -, rfl⟩ := h
  unfold checkPercentage at hn
  split at hn
  · split at hn
    · rename_i hbounds
      cases hn
      exact ⟨hbounds.1, hbounds.2⟩
    · cases hn
  · cases hn

theorem Schedule.sound_of_check {ds : List Discount.Draft} {s : Schedule}
    (h : check ds = .ok s) : s.Sound := by
  simp only [check, bind_eq_ok, pure_eq_ok] at h
  obtain ⟨r, hr, -, -, rfl⟩ := h
  intro d hd
  obtain ⟨draft, -, hdraft⟩ := (exists_of_mapM hr).2 d hd
  exact Discount.sound_of_check hdraft

theorem Schedule.sound_of_validate {s : Schedule} (h : s.validate = .ok ()) : s.Sound := by
  intro d hd
  have hproper := (validate_eq_ok.mp h).1 d hd
  exact ⟨hproper.percentage_pos, hproper.percentage_le⟩

theorem Vesting.sound_of_validate {v : Vesting} (h : v.validate = .ok ()) : v.Sound := by
  simp only [validate, bind_eq_ok, demand_eq_ok] at h
  obtain ⟨-, hcliff, -, hperiod, hshare⟩ := h
  refine ⟨hcliff, hperiod, fun bps hbps => ?_⟩
  simp only [hbps, demand_eq_ok] at hshare
  exact hshare

theorem Plan.validateStakeholders_vesting {seen : List String} {h : Stakeholder}
    {hs : List Stakeholder} (hok : validateStakeholders seen (h :: hs) = .ok ()) :
    ∀ v, h.vesting = some v → v.validate = .ok () := by
  intro v hv
  simp only [validateStakeholders, hv, bind_eq_ok] at hok
  obtain ⟨-, -, -, -, _, hvalid, -⟩ := hok
  exact hvalid

theorem Plan.validateStakeholders_vestings {seen : List String} {hs : List Stakeholder}
    (hok : validateStakeholders seen hs = .ok ()) :
    ∀ h ∈ hs, ∀ v, h.vesting = some v → v.Sound := by
  induction hs generalizing seen with
  | nil => simp
  | cons h hs ih =>
    obtain ⟨-, -, -, hrest⟩ := validateStakeholders_cons hok
    intro k hk v hv
    rcases List.mem_cons.mp hk with rfl | hk
    · exact Vesting.sound_of_validate (validateStakeholders_vesting hok v hv)
    · exact ih hrest k hk v hv

theorem Plan.vestings_sound_of_validate {p : Plan} (h : p.validate = .ok ()) :
    ∀ h ∈ p.stakeholders, ∀ v, h.vesting = some v → v.Sound := by
  simp only [validate, bind_eq_ok] at h
  obtain ⟨-, -, -, -, _, hstakeholders, -⟩ := h
  exact validateStakeholders_vestings hstakeholders

namespace Sale

theorem bounded_of_check {d : Draft} {s : Sale} (h : d.check = .ok s) : s.Bounded := by
  simp only [Draft.check, bind_eq_ok, demand_eq_ok, pure_eq_ok] at h
  obtain ⟨-, -, startTime, -, endTime, -, softCap, -, saleAmount, hsale, totalSaleAmount, htotal,
    minDeposit, -, -, -, -, -, tge, -, mechanic, hmechanic, discounts, hdiscounts, _, hvesting, _,
    hplan, -, -, rfl⟩ := h
  refine ⟨(Draft.checkField_inRange hsale).2, (Draft.checkField_inRange htotal).2, ?_,
    Schedule.sound_of_check hdiscounts, ?_, ?_⟩
  · intro p hp
    have hp : mechanic = .fixedPrice p := hp
    exact Mechanic.price_sound_of_check (hp ▸ hmechanic)
  · intro v hv
    have hv : d.vesting = some v := hv
    simp only [hv, Draft.checkPart] at hvesting
    exact Vesting.sound_of_validate hvesting
  · intro p hp
    have hp : d.plan = some p := hp
    simp only [hp, Draft.checkPart] at hplan
    exact Plan.vestings_sound_of_validate hplan

variable {s : Sale} {account : String} {h : Stakeholder}

theorem mem_of_vested? (hvested : s.vested? account = some h) :
    ∃ p, s.plan = some p ∧ h ∈ p.stakeholders := by
  obtain ⟨p, hp, hfind⟩ := Option.bind_eq_some_iff.mp hvested
  exact ⟨p, hp, List.mem_of_find?_eq_some hfind⟩

theorem Bounded.vested_sound (hs : s.Bounded) (hvested : s.vested? account = some h) :
    ∀ v, h.vesting = some v → v.Sound := by
  obtain ⟨p, hp, hmem⟩ := mem_of_vested? hvested
  exact hs.stakeholder_sound p hp h hmem

theorem Bounded.vested_inRange (hs : s.Bounded) (hsound : s.Sound)
    (hvested : s.vested? account = some h) : Amount.InRange h.allocation := by
  obtain ⟨p, hp, hmem⟩ := mem_of_vested? hvested
  have hplan := hsound.plan_sound p hp
  have hnonneg := hplan.allocation_nonneg
  have hpart : h.allocation ≤ sumOf Stakeholder.allocation p.stakeholders := le_sumOf hnonneg hmem
  have hsolver := hplan.solverAllocation_nonneg
  have hsale := hsound.saleAmount_pos
  have htotal := hsound.total_eq
  have hle := hs.totalSaleAmount_le
  simp only [reserved, hp, Option.map_some, Option.getD_some, Plan.reserved] at htotal
  exact ⟨hnonneg h hmem, by omega⟩

end Sale

theorem Desk.start_bounded {draft : Sale.Draft} {settings : Settings} {outbox : Outbox}
    {clock : Int} {d : Desk} (h : Desk.start draft settings outbox clock = .ok d) :
    d.ledger.sale.Bounded := by
  simp only [Desk.start, Ledger.start, bind_eq_ok, pure_eq_ok] at h
  obtain ⟨-, -, l, ⟨s, hs, rfl⟩, rfl⟩ := h
  exact Sale.bounded_of_check hs

theorem History.run_bounded {draft : Sale.Draft} {settings : Settings} {outbox : Outbox}
    {clock : Int} {d : Desk} (h : Desk.start draft settings outbox clock = .ok d)
    (turns : List Turn) : (run d turns).ledger.sale.Bounded := by
  rw [run_sale_eq h]
  exact Desk.start_bounded h

end TokenSale
