import TokenSale.Proofs.Releasable

/-!
What operations can fail with. On a ledger whose books agree no operation and no view finds an
invariant broken or divides by zero. A deposit at a fixed price can still overflow, and then the
deposit, its weight or the sale tokens it buys are no amount; the refund always comes out.
-/

namespace TokenSale

open Amount

/-! Deposits and withdrawals of positions. -/

def Schedule.weightAt (s : Schedule) (amount t : Int) : Int := amount * s.rateAt t / bpsUnit

def Price.buys (p : Price) (weight : Int) : Int := weight * p.saleUnit / p.depositUnit

namespace Position

variable {m : Mechanic} {p : Price} {s : Schedule} {cap sold amount t : Int}

def TooLarge (p : Price) (s : Schedule) (amount t : Int) : Prop :=
  maxU128 < amount ∨ maxU128 < s.weightAt amount t ∨ maxU128 < p.buys (s.weightAt amount t)

theorem weigh_fails (hs : s.Sound) (hamount : 0 ≤ amount) :
    FailsOnly (fun f => f.IsOverflow ∧ TooLarge p s amount t) (s.weigh amount t) := by
  intro f hf
  refine ⟨s.weigh_overflows amount t f hf, ?_⟩
  by_cases hlarge : maxU128 < amount
  · exact .inl hlarge
  · refine .inr (.inl (Int.not_le.mp fun hle => ?_))
    rw [hs.weigh_eq_ok.mpr ⟨⟨hamount, Int.not_lt.mp hlarge⟩, rfl, hle⟩] at hf
    cases hf

theorem assets_fails (hp : p.Sound) (hs : s.Sound) {weight : Int}
    (hweight : s.weigh amount t = .ok weight) :
    FailsOnly (fun f => f.IsOverflow ∧ TooLarge p s amount t) (p.assets weight) := by
  intro f hf
  refine ⟨hp.assets_overflows weight f hf, .inr (.inr (Int.not_le.mp fun hle => ?_))⟩
  have hnonneg := Schedule.weigh_nonneg hweight
  obtain ⟨-, rfl, hmax⟩ := hs.weigh_eq_ok.mp hweight
  rw [hp.assets_eq_ok.mpr ⟨⟨hnonneg, hmax⟩, rfl, hle⟩] at hf
  cases hf

theorem fillFixed_fails (hp : p.Sound) (hs : s.Sound) (hamount : 0 ≤ amount) :
    FailsOnly (fun f => f.IsOverflow ∧ TooLarge p s amount t)
      (fillFixed p s cap sold amount t) := by
  unfold fillFixed
  split
  · exact .ok _
  · refine .bind (weigh_fails hs hamount) fun weight hweight => ?_
    refine .bind (assets_fails hp hs hweight) fun assets hassets => ?_
    split
    · exact .pure _
    · rename_i hcross
      obtain ⟨remain, refund, hrefund⟩ :
          ∃ remain refund, Refund p s t amount (sold + assets - cap) remain refund :=
        exists_refund hp hs hweight hassets (by omega) (by omega)
      refine .bind (.of_returns ⟨_, hrefund.worth_eq⟩) fun r hr => ?_
      cases hrefund.worth_eq.symm.trans hr
      refine .bind (.of_returns ⟨_, hrefund.unweigh_eq⟩) fun r hr => ?_
      cases hrefund.unweigh_eq.symm.trans hr
      exact .bind (.demand fun hover => absurd hrefund.refund_le hover) fun _ _ => .pure _

theorem fill_overflows (hm : ∀ p, m = .fixedPrice p → p.Sound) (hs : s.Sound)
    (hamount : 0 ≤ amount) : FailsOnly Fault.IsOverflow (fill m s cap sold amount t) := by
  cases m with
  | fixedPrice p => exact (fillFixed_fails (hm p rfl) hs hamount).mono fun _ h => h.1
  | priceDiscovery => exact .bind (s.weigh_overflows amount t) fun _ _ => .pure _

theorem fill_adds (hm : ∀ p, m = .fixedPrice p → p.Sound) (hs : s.Sound) (hamount : 0 ≤ amount)
    {f : Fill} (h : fill m s cap sold amount t = .ok f) :
    f.refund ≤ amount ∧ f.accepted + f.refund = amount := by
  cases m with
  | fixedPrice p => exact (fills_of_fillFixed (hm p rfl) hs h).adds hamount
  | priceDiscovery =>
    simp only [fill, bind_eq_ok, pure_eq_ok] at h
    obtain ⟨weight, -, rfl⟩ := h
    exact ⟨hamount, Int.add_zero _⟩

theorem deposit_fails (hm : ∀ p, m = .fixedPrice p → p.Sound) (hs : s.Sound) {q : Position}
    {totalDeposited totalSold : Int} :
    FailsOnly (fun f => ¬0 < amount ∧ f = .depositNotPositive amount ∨
        0 < amount ∧ fill m s cap totalSold amount t = .error f)
      (deposit m s cap q totalDeposited totalSold amount t) := by
  unfold deposit
  refine .bind (.demand fun hnot => .inl ⟨hnot, rfl⟩) fun _ hpos => ?_
  have hpos := demand_eq_ok.mp hpos
  refine .bind (fun f hf => .inr ⟨hpos, hf⟩) fun f hf => ?_
  exact .bind (.demand fun hnot => absurd (fill_adds hm hs (Int.le_of_lt hpos) hf) hnot)
    fun _ _ => .pure _

theorem withdraw_defectFree {q : Position} {totalDeposited totalSold : Int} :
    DefectFree (withdraw m s q totalDeposited totalSold amount t) := by
  unfold withdraw
  refine .bind (.demand fun _ => nofun) fun _ _ => ?_
  cases m with
  | fixedPrice p => exact .bind (.demand fun _ => nofun) fun _ _ => .pure _
  | priceDiscovery =>
    refine .bind (.demand fun _ => nofun) fun _ _ => ?_
    exact .bind (s.weigh_overflows _ t).defectFree fun _ _ => .pure _

end Position

namespace Ledger

variable {l : Ledger}

/-! Operations. -/

theorem fund_fails (l : Ledger) (depositor : String) (amount : Int) (token : Option String) :
    FailsOnly (fun f => ¬f.IsDefect ∧ ¬f.IsOverflow) (l.fund depositor amount token) :=
  .bind (.demand fun _ => Fault.not_defect_not_overflow rfl) fun _ _ =>
    .bind (.demand fun _ => Fault.not_defect_not_overflow rfl) fun _ _ => .pure _

theorem deposit_fails (hl : l.Consistent) (depositor : String) (amount : Int)
    (participant : String) (now : Int) (token : Option String) :
    FailsOnly (fun f => ¬f.IsDefect ∧ ¬f.IsOverflow ∨ 0 < amount ∧
        Position.fill l.sale.mechanic l.sale.discounts l.sale.saleAmount l.totalSold amount now =
          .error f)
      (l.deposit depositor amount participant now token) := by
  have htoken : FailsOnly (fun f => ¬f.IsDefect ∧ ¬f.IsOverflow) (l.requireDepositToken token) := by
    cases token with
    | none => exact .ok _
    | some t => exact .demand fun _ => Fault.not_defect_not_overflow rfl
  unfold deposit
  refine .bind (.demand fun _ => .inl (Fault.not_defect_not_overflow rfl)) fun _ _ => ?_
  split
  · exact (l.fund_fails depositor amount token).mono fun _ h => .inl h
  · refine .bind (.demand fun _ => .inl (Fault.not_defect_not_overflow rfl)) fun _ _ => ?_
    refine .bind (htoken.mono fun _ h => .inl h) fun _ _ => ?_
    refine .bind (.demand fun _ => .inl (Fault.not_defect_not_overflow rfl)) fun _ _ => ?_
    refine .bind ?_ fun _ _ => .pure _
    refine (Position.deposit_fails hl.bounded.price_sound hl.bounded.discounts_sound).mono ?_
    rintro f (⟨-, rfl⟩ | hfill)
    · exact .inl (Fault.not_defect_not_overflow rfl)
    · exact .inr hfill

theorem deposit_defectFree (hl : l.Consistent) (depositor : String) (amount : Int)
    (participant : String) (now : Int) (token : Option String) :
    DefectFree (l.deposit depositor amount participant now token) := by
  refine (deposit_fails hl depositor amount participant now token).mono fun f hf => ?_
  rcases hf with ⟨hnot, -⟩ | ⟨hpos, hfill⟩
  · exact hnot
  · exact (Position.fill_overflows hl.bounded.price_sound hl.bounded.discounts_sound
      (Int.le_of_lt hpos) f hfill).not_defect

theorem requirePosition_defectFree (l : Ledger) (who : String) :
    DefectFree (l.requirePosition who) := by
  unfold requirePosition
  split
  · exact .ok _
  · exact .error nofun

theorem requireVested_defectFree (l : Ledger) (who : String) :
    DefectFree (l.requireVested who) := by
  unfold requireVested
  split
  · exact .ok _
  · exact .error nofun

theorem withdraw_defectFree (l : Ledger) (participant : String) (amount now : Int) :
    DefectFree (l.withdraw participant amount now) :=
  .bind (.demand fun _ => nofun) fun _ _ =>
    .bind (l.requirePosition_defectFree participant) fun _ _ =>
      .bind Position.withdraw_defectFree fun _ _ => .pure _

theorem claim_defectFree (hl : l.Consistent) (participant : String) (now : Int) :
    DefectFree (l.claim participant now) :=
  .bind (.demand fun _ => nofun) fun _ _ =>
    .bind (l.requirePosition_defectFree participant) fun _ hp =>
      .bind (hl.releasedTo_overflowsUnless (requirePosition_eq_ok.mp hp) now).failsOnly.defectFree
        fun _ _ => .pure _

theorem claimIndividual_defectFree (hl : l.Consistent) (stakeholder : String) (now : Int) :
    DefectFree (l.claimIndividual stakeholder now) :=
  .bind (.demand fun _ => nofun) fun _ _ =>
    .bind (l.requireVested_defectFree stakeholder) fun _ hh =>
      .bind (hl.releasedAt_overflowsUnless (requireVested_eq_ok.mp hh) _ now).failsOnly.defectFree
        fun _ _ => .pure _

theorem nextBatch_defectFree (l : Ledger) (limit : Option Int) :
    DefectFree (l.nextBatch limit) := by
  unfold nextBatch Plan.nextBatch
  split
  · exact .ok _
  · split
    · exact .ok _
    · exact .bind (.demand fun _ => nofun) fun _ _ => .pure _

theorem distributeNext_defectFree (l : Ledger) (now : Int) (limit : Option Int) :
    DefectFree (l.distributeNext now limit) :=
  .bind (.demand fun _ => nofun) fun _ _ =>
    .bind (l.nextBatch_defectFree limit) fun _ _ =>
      .bind (.demand fun _ => nofun) fun _ _ => .pure _

theorem distributeDeposits_defectFree (l : Ledger) (now : Int) :
    DefectFree (l.distributeDeposits now) := by
  refine .bind (.demand fun _ => nofun) fun _ _ => ?_
  split
  · rename_i plan split _ _
    refine .bind (.demand fun _ => nofun) fun _ _ => .bind ?_ fun _ _ => .pure _
    exact .bind (share_overflows _ _).defectFree fun _ _ =>
      .bind (share_overflows _ _).defectFree fun _ _ => .pure _
  · exact .error nofun

theorem adminWithdraw_defectFree (l : Ledger) (token recipient : String) (amount now : Int) :
    DefectFree (l.adminWithdraw token recipient amount now) := by
  have htoken : DefectFree (adminToken token) := by
    unfold adminToken
    split
    · exact .ok _
    · split
      · exact .ok _
      · exact .error nofun
  exact .bind (.demand fun _ => nofun) fun _ _ => .bind htoken fun _ _ =>
    .bind (.demand fun _ => nofun) fun _ _ => .pure _

theorem perform_defectFree (hl : l.Consistent) (op : Operation) : DefectFree (l.perform op) := by
  cases op with
  | deposit depositor amount participant now token =>
    exact deposit_defectFree hl depositor amount participant now token
  | withdraw participant amount now => exact l.withdraw_defectFree participant amount now
  | claim participant now => exact claim_defectFree hl participant now
  | claimIndividual stakeholder now => exact claimIndividual_defectFree hl stakeholder now
  | distributeNext now limit => exact l.distributeNext_defectFree now limit
  | distributeDeposits now => exact l.distributeDeposits_defectFree now
  | lock now => exact .bind (.demand fun _ => nofun) fun _ _ => .pure _
  | unlock => exact .bind (.demand fun _ => nofun) fun _ _ => .pure _
  | adminWithdraw token recipient amount now =>
    exact l.adminWithdraw_defectFree token recipient amount now

/-! Views. -/

theorem allocation_defectFree (hl : l.Consistent) (who : String) :
    DefectFree (l.allocation who) := by
  unfold allocation
  split
  · exact .ok _
  · rename_i p hp
    exact (hl.allocation_overflowsUnless hp).failsOnly.defectFree

theorem releasedTo_defectFree (hl : l.Consistent) {who : String} {p : Position}
    (hp : l.positions.get? who = some p) (now : Int) :
    DefectFree (l.sale.releasedTo p l.totalSold now) :=
  (hl.releasedTo_overflowsUnless hp now).failsOnly.defectFree

structure Dependable (l : Ledger) : Prop where
  perform : ∀ op, DefectFree (l.perform op)
  allocation : ∀ who, DefectFree (l.allocation who)
  availableForClaim : ∀ who now, DefectFree (l.availableForClaim who now)
  remainingVesting : ∀ who now, DefectFree (l.remainingVesting who now)
  individualRemainingVesting : ∀ who now, DefectFree (l.individualRemainingVesting who now)
  availableForIndividualClaim : ∀ who now, DefectFree (l.availableForIndividualClaim who now)
  checkTotals : DefectFree l.checkTotals

theorem Consistent.dependable (hl : l.Consistent) : l.Dependable where
  perform := perform_defectFree hl
  allocation := allocation_defectFree hl
  availableForClaim := by
    intro who now
    unfold Ledger.availableForClaim
    split
    · exact .ok _
    · rename_i p hp
      split
      · exact .bind (releasedTo_defectFree hl hp now) fun _ _ => .pure _
      · exact .ok _
  remainingVesting := by
    intro who now
    unfold Ledger.remainingVesting
    split
    · exact .ok _
    · rename_i p hp
      exact .bind (releasedTo_defectFree hl hp now) fun _ _ =>
        .bind (allocation_defectFree hl who) fun _ _ => .pure _
  individualRemainingVesting := by
    intro who now
    unfold Ledger.individualRemainingVesting
    split
    · exact .ok _
    · rename_i h hh
      exact .bind (hl.releasedAt_overflowsUnless hh _ now).failsOnly.defectFree fun _ _ => .pure _
  availableForIndividualClaim := by
    intro who now
    unfold Ledger.availableForIndividualClaim
    split
    · exact .ok _
    · rename_i h hh
      exact .bind (hl.releasedAt_overflowsUnless hh _ now).failsOnly.defectFree fun _ _ => .pure _
  checkTotals := .of_returns ⟨(), hl.balanced.checkTotals_ok⟩

end Ledger

end TokenSale
