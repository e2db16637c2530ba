import TokenSale.Proofs.Desk.Order
import TokenSale.Proofs.Releasable

/-!
Payouts of a sale that succeeded, and when they can be computed. Deposits are amounts one by one,
but nobody bounds their sums, nor the periods of a vesting. A claim under price discovery overflows
exactly if the total of the weights is no amount, the forwarding of the deposits exactly if their
total is none, and a release in its growth exactly if its period is none; else all are paid.
-/

namespace TokenSale

open Amount

theorem Amount.share_overflowsUnless {x bps : Int} (hx : 0 ≤ x) (hbps : 0 ≤ bps ∧ bps ≤ bpsUnit) :
    OverflowsUnless (x ≤ maxU128) (share x bps) := by
  refine .intro (share_overflows x bps) (fun q hq => ?_) fun hle => ?_
  · exact (mulDiv_eq_ok.mp (share_eq_ok.mp hq).2).1.2
  · exact ⟨_, share_part ⟨hx, hle⟩ hbps⟩

theorem Split.Sound.parts_overflowsUnless {s : Split} (hs : s.Sound) {total : Int}
    (htotal : 0 ≤ total) : OverflowsUnless (total ≤ maxU128) (parts (some s) total) := by
  have hsolver := hs.solverShare_nonneg
  have hfee := hs.feeShare_nonneg
  have hsum := hs.shares_le
  refine OverflowsUnless.congr (.bind (share_overflowsUnless htotal ⟨hsolver, by omega⟩)
    fun _ _ => (share_overflowsUnless htotal ⟨hfee, by omega⟩).map _) ?_
  exact and_self_iff

namespace Ledger

variable {l : Ledger} {now : Int} {who : String}

theorem requireStatus_of_success (h : l.status now = .success) (action : Action) :
    l.requireStatus action now [.success] = .ok () :=
  requireStatus_eq_ok.mpr (List.mem_singleton.mpr h)

namespace Consistent

theorem claim_overflowsUnless (hl : l.Consistent) (hstatus : l.status now = .success)
    {p : Position} (hp : l.positions.get? who = some p) :
    OverflowsUnless
      (Shares l p ∧ ∀ v, l.sale.vesting = some v → v.Measurable l.sale.vestingStart now)
      (l.perform (.claim who now)) := by
  refine .bind_ok (requireStatus_of_success hstatus .claim) ?_
  refine .bind_ok (requirePosition_eq_ok.mpr hp) ?_
  exact (hl.releasedTo_overflowsUnless hp now).map _

theorem claimIndividual_overflowsUnless (hl : l.Consistent) (hstatus : l.status now = .success)
    {h : Stakeholder} (hvested : l.sale.vested? who = some h) :
    OverflowsUnless (∀ v, h.vesting = some v → v.Measurable l.sale.endTime now)
      (l.perform (.claimIndividual who now)) := by
  refine .bind_ok (requireStatus_of_success hstatus .claimIndividual) ?_
  refine .bind_ok (requireVested_eq_ok.mpr hvested) ?_
  exact (hl.releasedAt_overflowsUnless hvested _ now).map _

theorem distributeDeposits_overflowsUnless (hl : l.Consistent) (hstatus : l.status now = .success)
    {split : Split} (hsplit : l.sale.split = some split) (hdue : l.dueLegs ≠ []) :
    OverflowsUnless (l.totalDeposited ≤ maxU128) (l.perform (.distributeDeposits now)) := by
  obtain ⟨plan, hplan, hdeposits⟩ := Option.bind_eq_some_iff.mp hsplit
  have hsound := (hl.sound.plan_sound plan hplan).split_sound split hdeposits
  refine .bind_ok (requireStatus_of_success hstatus .distributeDeposits) ?_
  simp only [hplan, hsplit]
  refine .bind_demand hdue ?_
  exact (hsound.parts_overflowsUnless hl.balanced.totalDeposited_nonneg).map _

end Consistent

theorem distributeDeposits_of_nothing (hstatus : l.status now = .success)
    (hnothing : l.sale.split = none ∨ l.dueLegs = []) :
    l.perform (.distributeDeposits now) = .error .depositsDistributed := by
  refine bind_eq_error.mpr (.inr ⟨(), requireStatus_of_success hstatus .distributeDeposits, ?_⟩)
  split
  · rename_i plan split hplan hsplit
    rcases hnothing with hnone | hnil
    · rw [hnone] at hsplit
      cases hsplit
    · exact bind_eq_error.mpr (.inl (demand_eq_error.mpr ⟨not_not_intro hnil, rfl⟩))
  · rfl

end Ledger

namespace History

/-- Along every history, once a sale has succeeded: a claim of a participant returns if the total of
the weights is an amount, where it is divided by that, and the release does not grow over a period
that is none; a claim of a stakeholder returns under the latter condition; and the deposits are
forwarded if their total is an amount, unless there is nothing to forward. All overflow
otherwise. -/
theorem run_payable_iff {draft : Sale.Draft} {settings : Settings} {outbox : Outbox} {clock : Int}
    {d : Desk} (h : Desk.start draft settings outbox clock = .ok d) (turns : List Turn) {now : Int}
    (hstatus : (run d turns).ledger.status now = .success) :
    (∀ who p, (run d turns).ledger.positions.get? who = some p →
      OverflowsUnless
        ((d.ledger.sale.mechanic = .priceDiscovery → p.weight ≠ 0 →
            (run d turns).ledger.totalSold ≤ maxU128) ∧
          ∀ v, d.ledger.sale.vesting = some v → v.Measurable d.ledger.sale.vestingStart now)
        ((run d turns).ledger.perform (.claim who now))) ∧
    (∀ who holder, d.ledger.sale.vested? who = some holder →
      OverflowsUnless (∀ v, holder.vesting = some v → v.Measurable d.ledger.sale.endTime now)
        ((run d turns).ledger.perform (.claimIndividual who now))) ∧
    (∀ split, d.ledger.sale.split = some split → (run d turns).ledger.dueLegs ≠ [] →
      OverflowsUnless ((run d turns).ledger.totalDeposited ≤ maxU128)
        ((run d turns).ledger.perform (.distributeDeposits now))) ∧
    (d.ledger.sale.split = none ∨ (run d turns).ledger.dueLegs = [] →
      ∃ f, (run d turns).ledger.perform (.distributeDeposits now) = .error f ∧
        f.kind = .nothingToDistribute) := by
  have hl := run_consistent h turns
  rw [← run_sale_eq h turns]
  refine ⟨fun who p hp => hl.claim_overflowsUnless hstatus hp, fun who holder hvested =>
    hl.claimIndividual_overflowsUnless hstatus hvested, fun split hsplit hdue =>
    hl.distributeDeposits_overflowsUnless hstatus hsplit hdue, fun hnothing => ?_⟩
  exact ⟨_, Ledger.distributeDeposits_of_nothing hstatus hnothing, rfl⟩

/-- Two deposits of the sample, each of the largest amount. -/
def hugeTurns : List Turn :=
  [⟨.deposit "tok" 1100 "tok" 0 none, 0⟩, ⟨.deposit "alice" maxU128 "alice" 10 none, 0⟩,
    ⟨.deposit "bob" maxU128 "bob" 20 none, 0⟩]

/-- After them nobody can claim, and the deposits cannot be forwarded. -/
theorem run_payable_iff_huge :
    Desk.start sampleSale.draft {} (.kept []) 0 = .ok sampleDesk ∧
      (run sampleDesk hugeTurns).ledger.status 100 = .success ∧
      (∃ f, (run sampleDesk hugeTurns).ledger.perform (.claim "alice" 100) = .error f ∧
        f.IsOverflow) ∧
      (∃ t, (run sampleDesk hugeTurns).ledger.perform (.claimIndividual "vic" 150) = .ok t) ∧
      ∃ f, (run sampleDesk hugeTurns).ledger.perform (.distributeDeposits 100) = .error f ∧
        f.IsOverflow := by
  have hstart : Desk.start sampleSale.draft {} (.kept []) 0 = .ok sampleDesk := rfl
  have hstatus : (run sampleDesk hugeTurns).ledger.status 100 = .success := by decide +kernel
  have hstatus' : (run sampleDesk hugeTurns).ledger.status 150 = .success := by decide +kernel
  have halice : (run sampleDesk hugeTurns).ledger.positions.get? "alice" =
      some ⟨maxU128, maxU128, 0⟩ := by decide +kernel
  have hlarge : ¬(run sampleDesk hugeTurns).ledger.totalSold ≤ maxU128 := by decide +kernel
  have hraised : ¬(run sampleDesk hugeTurns).ledger.totalDeposited ≤ maxU128 := by decide +kernel
  have hdue : (run sampleDesk hugeTurns).ledger.dueLegs ≠ [] := by decide +kernel
  obtain ⟨hclaim, -, hforward, -⟩ := run_payable_iff hstart hugeTurns hstatus
  obtain ⟨-, hindividual, -⟩ := run_payable_iff hstart hugeTurns hstatus'
  refine ⟨hstart, hstatus, (hclaim "alice" _ halice).overflows fun hC => ?_, ?_, ?_⟩
  · exact hlarge (hC.1 rfl (by decide))
  · refine (hindividual "vic" ⟨"vic", 20, some ⟨10, 100, none, .immediate⟩⟩ rfl).returns ?_
    rintro v hv - -
    cases hv
    decide
  · exact (hforward ⟨9000, "fees", 500⟩ rfl hdue).overflows hraised

/-- Not every claim of a sale that succeeded is paid. -/
theorem claims_not_payable :
    ¬ ∀ (draft : Sale.Draft) (settings : Settings) (outbox : Outbox) (clock : Int) (d : Desk),
      Desk.start draft settings outbox clock = .ok d →
      ∀ (turns : List Turn) (who : String) (p : Position) (now : Int),
        InOrder (turns.map Turn.op ++ [.claim who now]) →
        (run d turns).ledger.status now = .success →
        (run d turns).ledger.positions.get? who = some p →
        ∃ t, (run d turns).ledger.perform (.claim who now) = .ok t := by
  intro hall
  have hstatus : (run sampleDesk hugeTurns).ledger.status 100 = .success := by decide +kernel
  have halice : (run sampleDesk hugeTurns).ledger.positions.get? "alice" =
      some ⟨maxU128, maxU128, 0⟩ := by decide +kernel
  have hfails : ((run sampleDesk hugeTurns).ledger.perform (.claim "alice" 100)).isOk = false := by
    decide +kernel
  obtain ⟨t, ht⟩ := hall sampleSale.draft {} (.kept []) 0 sampleDesk rfl hugeTurns "alice" _ 100
    (by decide) hstatus halice
  rw [ht] at hfails
  cases hfails

end History

end TokenSale
