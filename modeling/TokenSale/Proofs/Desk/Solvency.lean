import TokenSale.Proofs.Desk.Reserve

/-!
Solvency in sale tokens. In the order of time, what participants claim stays within the sale amount,
and what recipients of batches and stakeholders are paid stays within what is reserved for them. The
reserve is paid out exactly once no batch is due and every stakeholder has claimed at the end.
-/

namespace TokenSale

namespace Ledger

variable {l l' : Ledger} {e : Entry}

theorem Step.isSale_cases {op : Operation} {t : Transition} (h : Step l op t) :
    ∀ x ∈ t.transfers, x.token = .sale → x.reason = .claim ∨ x.reason = .distribution ∨
      x.reason = .individualVesting ∨ x.reason = .adminWithdraw := by
  intro x hx htoken
  cases h with
  | fund hfunded hamount => simp [advance] at hx
  | lock hstatus => simp [advance] at hx
  | unlock hfunded hlocked => simp [advance] at hx
  | deposit hfunded hstatus hmin hpurchase =>
    rw [eq_of_mem_advance hx] at htoken
    cases htoken
  | withdraw hopen hposition hwithdrawal =>
    rw [eq_of_mem_advance hx] at htoken
    cases htoken
  | adminWithdraw hpos hname hstatus =>
    rw [eq_of_mem_advance hx]
    exact .inr (.inr (.inr rfl))
  | disburse hstatus h =>
    cases h with
    | claim hposition hreleased =>
      rw [eq_of_mem_advance hx]
      exact .inl rfl
    | claimIndividual hvested hreleased =>
      rw [eq_of_mem_advance hx]
      exact .inr (.inr (.inl rfl))
    | distribute hplan hbatch hne =>
      obtain ⟨r, -, rfl⟩ := List.mem_map.mp (mem_advance hx)
      exact .inr (.inl rfl)
    | distributeDeposits hplan hsplit hparts hlegs hne =>
      obtain ⟨leg, -, rfl⟩ := List.mem_map.mp (mem_advance hx)
      cases leg <;> cases htoken

theorem Writes.isSale_cases (h : Writes l e l') :
    ∀ x ∈ e.sent, x.token = .sale → x.reason = .claim ∨ x.reason = .distribution ∨
      x.reason = .individualVesting ∨ x.reason = .adminWithdraw := by
  cases h with
  | idle hprepared => simp
  | step hprepared hstep => exact hstep.isSale_cases

end Ledger

/-- Sale tokens that went out, other than by order of the administration. -/
def Transfer.isSaleOut (x : Transfer) : Bool := x.token == .sale && x.reason != .adminWithdraw

theorem amountOf_isSaleOut {xs : List Transfer}
    (h : ∀ x ∈ xs, x.token = .sale → x.reason = .claim ∨ x.reason = .distribution ∨
      x.reason = .individualVesting ∨ x.reason = .adminWithdraw) :
    amountOf Transfer.isSaleOut xs = amountOf (Transfer.isSaleFor .claim) xs +
      amountOf (Transfer.isSaleFor .distribution) xs +
      amountOf (Transfer.isSaleFor .individualVesting) xs := by
  induction xs with
  | nil => rfl
  | cons x xs ih =>
    have hrest := ih fun y hy => h y (List.mem_cons_of_mem x hy)
    have hone : (if x.isSaleOut then x.amount else 0) =
        (if x.isSaleFor .claim then x.amount else 0) +
        (if x.isSaleFor .distribution then x.amount else 0) +
        (if x.isSaleFor .individualVesting then x.amount else 0) := by
      cases htoken : x.token with
      | deposit => simp [Transfer.isSaleOut, Transfer.isSaleFor, htoken]
      | sale =>
        rcases h x List.mem_cons_self htoken with heq | heq | heq | heq <;>
          simp [Transfer.isSaleOut, Transfer.isSaleFor, htoken, heq]
    simp only [amountOf_cons]
    omega

namespace History

variable {draft : Sale.Draft} {settings : Settings} {outbox : Outbox} {clock : Int} {d : Desk}

theorem run_issued_isSaleOut (h : Desk.start draft settings outbox clock = .ok d)
    (turns : List Turn) :
    issued (run d turns).entries Transfer.isSaleOut =
      issued (run d turns).entries (Transfer.isSaleFor .claim) +
      issued (run d turns).entries (Transfer.isSaleFor .distribution) +
      issued (run d turns).entries (Transfer.isSaleFor .individualVesting) := by
  refine (run_induct (P := fun _ es => issued es Transfer.isSaleOut =
    issued es (Transfer.isSaleFor .claim) + issued es (Transfer.isSaleFor .distribution) +
      issued es (Transfer.isSaleFor .individualVesting)) h (fun _ _ => rfl) ?_ turns).1
  intro l es e l' _ hold hwrites
  have hnew := amountOf_isSaleOut hwrites.isSale_cases
  simp only [issued_append]
  omega

/-- Along every history in the order of time, participants claim no more than the sale amount,
batches and stakeholders are paid no more than the reserve, and so no more than all tokens of the
sale go out. The reserve is paid out exactly once no batch is due and all stakeholders with a
vesting of their own have claimed at its end. -/
theorem run_solvent (h : Desk.start draft settings outbox clock = .ok d) {turns : List Turn}
    (hordered : InOrder (turns.map Turn.op)) :
    issued (run d turns).entries (Transfer.isSaleFor .claim) ≤ d.ledger.sale.saleAmount ∧
    issued (run d turns).entries (Transfer.isSaleFor .distribution) +
      issued (run d turns).entries (Transfer.isSaleFor .individualVesting) ≤
        Sale.reserved d.ledger.sale.plan ∧
    issued (run d turns).entries Transfer.isSaleOut ≤ d.ledger.sale.totalSaleAmount ∧
    ((∃ e ∈ (run d turns).entries, e.foundNothingDue = true) →
      (∀ h ∈ d.ledger.sale.vestedHolders, ∃ e ∈ (run d turns).entries,
        e.claimedAtEnd d.ledger.sale h = true) →
      issued (run d turns).entries (Transfer.isSaleFor .distribution) +
        issued (run d turns).entries (Transfer.isSaleFor .individualVesting) =
          Sale.reserved d.ledger.sale.plan) := by
  have hsale := run_sale_eq h turns
  obtain ⟨hfinal, hbalanced, hclaims, hbatches, hvested, hsettled⟩ := run_induct_ordered
    (P := fun l es => l.ClaimsPaid es ∧ l.BatchesPaid es ∧ l.VestedPaid es ∧ l.Settled es) h
    (fun s hs => ⟨Ledger.claimsPaid_empty hs, Ledger.batchesPaid_empty s,
      Ledger.vestedPaid_empty hs, Ledger.settled_empty s⟩)
    (fun l es e l' ⟨hclaims, hbatches, hvested, hsettled⟩ hmove =>
      ⟨hmove.claimsPaid hclaims, hmove.batchesPaid hbatches, hmove.vestedPaid hvested,
        hmove.settled hsettled⟩) hordered
  have hclaimed := hclaims.issued_le hfinal hbalanced
  have hbatched := hbatches.issued_le hfinal
  have hindividual := hvested.issued_le
  have hreserve := Sale.reserved_eq (run d turns).ledger.sale
  have htotal := hfinal.total_eq
  have hout := run_issued_isSaleOut h turns
  rw [← hsale]
  refine ⟨hclaimed, by omega, by omega, fun hfound hall => ?_⟩
  rw [hbatches.issued_of_drained hfinal (hsettled.drained hfound),
    hvested.issued_of_exhausted fun holder hholder =>
      hsettled.exhausted holder hholder (hall holder hholder)]
  exact hreserve.symm

theorem run_solvent_sample :
    Desk.start sampleSale.draft {} (.kept []) 0 = .ok sampleDesk ∧
      InOrder (sampleTurns.map Turn.op) ∧
      (∃ e ∈ (run sampleDesk sampleTurns).entries, e.foundNothingDue = true) ∧
      (∀ h ∈ sampleDesk.ledger.sale.vestedHolders, ∃ e ∈ (run sampleDesk sampleTurns).entries,
        e.claimedAtEnd sampleDesk.ledger.sale h = true) ∧
      issued (run sampleDesk sampleTurns).entries Transfer.isSaleOut ≤ 1100 ∧
      issued (run sampleDesk sampleTurns).entries (Transfer.isSaleFor .distribution) +
        issued (run sampleDesk sampleTurns).entries (Transfer.isSaleFor .individualVesting) =
          100 := by
  have hstart : Desk.start sampleSale.draft {} (.kept []) 0 = .ok sampleDesk := rfl
  have hordered : InOrder (sampleTurns.map Turn.op) := by decide
  have hfound : ∃ e ∈ (run sampleDesk sampleTurns).entries, e.foundNothingDue = true := by
    decide +kernel
  have hclaimed : ∀ h ∈ sampleDesk.ledger.sale.vestedHolders,
      ∃ e ∈ (run sampleDesk sampleTurns).entries,
        e.claimedAtEnd sampleDesk.ledger.sale h = true := by
    decide +kernel
  obtain ⟨-, -, htotal, hreserve⟩ := run_solvent hstart hordered
  exact ⟨hstart, hordered, hfound, hclaimed, htotal, hreserve hfound hclaimed⟩

end History

end TokenSale
