import TokenSale.Sale.Entitlement

/-!
What the check of a sale establishes. A sale that is not refused has sound terms: amounts in range, a
window that opens before it closes, a plan whose recipients are distinct and whose allocations are
not negative, and a total that covers the sale amount and all that is reserved.
-/

namespace TokenSale

structure Split.Sound (s : Split) : Prop where
  solverShare_nonneg : 0 ≤ s.solverShare
  feeShare_nonneg : 0 ≤ s.feeShare
  shares_le : s.solverShare + s.feeShare ≤ Amount.bpsUnit

theorem Split.sound_of_validate {s : Split} (h : s.validate = .ok ()) : s.Sound := by
  simp only [Split.validate, bind_eq_ok, demand_eq_ok] at h
  obtain ⟨-, ⟨hsolver, -⟩, -, ⟨hfee, -⟩, hsum⟩ := h
  exact ⟨hsolver, hfee, hsum⟩

namespace Plan

def accounts (p : Plan) : List String := p.solver :: p.stakeholders.map Stakeholder.account

structure Sound (p : Plan) : Prop where
  solverAllocation_nonneg : 0 ≤ p.solverAllocation
  allocation_nonneg : ∀ h ∈ p.stakeholders, 0 ≤ h.allocation
  cliff_lt : ∀ h ∈ p.stakeholders, ∀ v, h.vesting = some v → v.cliff < v.period
  accounts_nodup : p.accounts.Nodup
  split_sound : ∀ s, p.deposits = some s → s.Sound

theorem validateStakeholders_cons {seen : List String} {h : Stakeholder} {hs : List Stakeholder}
    (hok : validateStakeholders seen (h :: hs) = .ok ()) :
    0 ≤ h.allocation ∧ (∀ v, h.vesting = some v → v.cliff < v.period) ∧ h.account ∉ seen ∧
      validateStakeholders (h.account :: seen) hs = .ok () := by
  simp only [validateStakeholders, bind_eq_ok, demand_eq_ok] at hok
  obtain ⟨-, hnonneg, -, hfresh, hok⟩ := hok
  cases hvesting : h.vesting with
  | none =>
    simp only [hvesting] at hok
    exact ⟨hnonneg, fun v hv => by simp at hv, hfresh, hok⟩
  | some v =>
    simp only [hvesting, Vesting.validate, bind_eq_ok, demand_eq_ok] at hok
    obtain ⟨_, ⟨-, -, -, hcliff, -⟩, hok⟩ := hok
    exact ⟨hnonneg, fun w hw => Option.some.inj hw ▸ hcliff, hfresh, hok⟩

theorem validateStakeholders_sound {seen : List String} {hs : List Stakeholder}
    (hok : validateStakeholders seen hs = .ok ()) :
    ∀ h ∈ hs, 0 ≤ h.allocation ∧ ∀ v, h.vesting = some v → v.cliff < v.period := by
  induction hs generalizing seen with
  | nil => simp
  | cons h hs ih =>
    obtain ⟨hnonneg, hcliff, -, hrest⟩ := validateStakeholders_cons hok
    intro k hk
    rcases List.mem_cons.mp hk with rfl | hk
    · exact ⟨hnonneg, hcliff⟩
    · exact ih hrest k hk

/-- The accounts seen before count too, so the induction carries the list of them along. -/
theorem validateStakeholders_nodup {seen : List String} {hs : List Stakeholder}
    (hseen : seen.Nodup) (hok : validateStakeholders seen hs = .ok ()) :
    (hs.map Stakeholder.account).Nodup ∧ ∀ a ∈ hs.map Stakeholder.account, a ∉ seen := by
  induction hs generalizing seen with
  | nil => simp
  | cons h hs ih =>
    obtain ⟨-, -, hfresh, hrest⟩ := validateStakeholders_cons hok
    obtain ⟨hnodup, hdisjoint⟩ := ih (List.nodup_cons.mpr ⟨hfresh, hseen⟩) hrest
    refine ⟨List.nodup_cons.mpr ⟨fun hmem => ?_, hnodup⟩, fun a ha => ?_⟩
    · exact hdisjoint _ hmem List.mem_cons_self
    · rcases List.mem_cons.mp ha with rfl | ha
      · exact hfresh
      · exact fun hmem => hdisjoint a ha (List.mem_cons_of_mem _ hmem)

theorem sound_of_validate {p : Plan} (h : p.validate = .ok ()) : p.Sound := by
  simp only [Plan.validate, bind_eq_ok, demand_eq_ok] at h
  obtain ⟨-, -, -, hsolver, _, hstakeholders, hsplit⟩ := h
  obtain ⟨hnodup, hdisjoint⟩ :=
    validateStakeholders_nodup (List.nodup_cons.mpr ⟨by simp, List.nodup_nil⟩) hstakeholders
  have hsound := validateStakeholders_sound hstakeholders
  refine ⟨hsolver, fun h hh => (hsound h hh).1, fun h hh => (hsound h hh).2, ?_, fun s hs => ?_⟩
  · exact List.nodup_cons.mpr ⟨fun hmem => hdisjoint _ hmem (by simp), hnodup⟩
  · simp only [hs] at hsplit
    exact Split.sound_of_validate hsplit

end Plan

namespace Sale

structure Sound (s : Sale) : Prop where
  saleAmount_pos : 0 < s.saleAmount
  window : s.startTime < s.endTime
  tge_late : ∀ t, s.tge = some t → s.endTime < t
  plan_sound : ∀ p, s.plan = some p → p.Sound
  total_eq : s.totalSaleAmount = s.saleAmount + reserved s.plan

theorem Draft.checkField_inRange {name : String} {v : Datum} {n : Int}
    (h : checkField name v = .ok n) : Amount.InRange n := by
  unfold checkField at h
  split at h
  · split at h
    · rename_i hrange
      cases h
      exact hrange
    · cases h
  · cases h

theorem Draft.checkTge_late {saleEnd : Int} {tge : Option Datum} {r : Option Int}
    (h : checkTge saleEnd tge = .ok r) : ∀ t, r = some t → saleEnd < t := by
  intro t ht
  unfold checkTge at h
  split at h
  · cases h
    cases ht
  · split at h
    · rename_i hlate
      cases h
      cases ht
      exact hlate
    · cases h
  · cases h

theorem sound_of_check {d : Draft} {s : Sale} (h : d.check = .ok s) : s.Sound := by
  simp only [Draft.check, bind_eq_ok, demand_eq_ok, pure_eq_ok] at h
  obtain ⟨-, -, startTime, -, endTime, -, softCap, -, saleAmount, hsale, totalSaleAmount, -,
    minDeposit, -, -, hwindow, -, hempty, tge, htge, mechanic, -, discounts, -, _, -, _, hplan, -,
    htotal, rfl⟩ := h
  have hrange := Draft.checkField_inRange hsale
  refine ⟨?_, hwindow, Draft.checkTge_late htge, fun p hp => ?_, htotal⟩
  · show 0 < saleAmount
    have := hrange.1
    omega
  · have hp : d.plan = some p := hp
    simp only [hp, Draft.checkPart] at hplan
    exact Plan.sound_of_validate hplan

theorem cliff_lt_of_check {d : Draft} {s : Sale} (h : d.check = .ok s) :
    ∀ v, s.vesting = some v → v.cliff < v.period := by
  simp only [Draft.check, bind_eq_ok, demand_eq_ok, pure_eq_ok] at h
  obtain ⟨-, -, startTime, -, endTime, -, softCap, -, saleAmount, -, totalSaleAmount, -,
    minDeposit, -, -, -, -, -, tge, -, mechanic, -, discounts, -, _, hvesting, _, -, -, -, rfl⟩ := h
  intro v hv
  have hv : d.vesting = some v := hv
  simp only [hv, Draft.checkPart, Vesting.validate, bind_eq_ok, demand_eq_ok] at hvesting
  obtain ⟨-, -, -, hcliff, -⟩ := hvesting
  exact hcliff

end Sale

end TokenSale
