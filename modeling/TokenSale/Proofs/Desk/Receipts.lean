import TokenSale.Proofs.Desk.Reserve

/-!
What went out and what the ledger has recorded of it, whatever an issuer refuses and whenever. The
log of batches lists the recipients in the order in which they were paid, each once and its whole
allocation; no leg goes out twice; and what participants and stakeholders have claimed is what was
sent to them.
-/

namespace TokenSale

def Transfer.isForTo (reason : Reason) (who : String) (x : Transfer) : Bool :=
  x.reason == reason && x.recipient == who

theorem Transfer.reason_of_isForTo {reason : Reason} {who : String} (x : Transfer)
    (h : isForTo reason who x = true) : x.reason = reason :=
  eq_of_beq (Bool.and_eq_true_iff.mp h).1

theorem filter_isFor_eq_nil {reason : Reason} {xs : List Transfer}
    (h : ∀ x ∈ xs, x.reason ≠ reason) : xs.filter (Transfer.isFor reason) = [] := by
  rw [List.filter_eq_nil_iff]
  intro x hx
  simpa [Transfer.isFor] using h x hx

namespace Ledger

variable {l l' : Ledger} {op : Operation} {t : Transition} {sent xs : List Transfer}

/-! Batches. -/

structure BatchesLogged (l : Ledger) (sent : List Transfer) : Prop where
  recipients_eq : (sent.filter (Transfer.isFor .distribution)).map Transfer.recipient = l.paid
  recipients_nodup : l.paid.Nodup
  allocation : ∀ x ∈ sent, x.reason = .distribution →
    x.token = .sale ∧ (x.recipient, x.amount) ∈ l.sale.payouts

theorem BatchesLogged.of_eq (h : l.BatchesLogged sent)
    (hreasons : ∀ x ∈ xs, x.reason ≠ .distribution) (hsale : l'.sale = l.sale)
    (hpaid : l'.paid = l.paid) : l'.BatchesLogged (sent ++ xs) where
  recipients_eq := by
    rw [List.filter_append, filter_isFor_eq_nil hreasons, List.append_nil, hpaid]
    exact h.recipients_eq
  recipients_nodup := hpaid ▸ h.recipients_nodup
  allocation := by
    intro x hx hreason
    rw [hsale]
    rcases List.mem_append.mp hx with hold | hnew
    · exact h.allocation x hold hreason
    · exact absurd hreason (hreasons x hnew)

theorem filter_isFor_batch (batch : List Payout) :
    (batch.map payoutTransfer).filter (Transfer.isFor .distribution) = batch.map payoutTransfer := by
  rw [List.filter_eq_self]
  intro x hx
  obtain ⟨r, -, rfl⟩ := List.mem_map.mp hx
  rfl

theorem BatchesLogged.batchPayout {plan : Plan} {batch : List Payout} (h : l.BatchesLogged sent)
    (hsale : l.sale.Sound) (hplan : l.sale.plan = some plan) (hbatch : plan.IsBatch l.paid batch) :
    (l.batchPayout batch).ledger.BatchesLogged (sent ++ (l.batchPayout batch).transfers) := by
  have hsound := hsale.plan_sound plan hplan
  have hlog : (l.batchPayout batch).ledger.paid = l.paid ++ batch.map Prod.fst :=
    payBatch_paid hsound hbatch
  have hnames : (batch.map payoutTransfer).map Transfer.recipient = batch.map Prod.fst := by
    rw [List.map_map]
    rfl
  rw [batchPayout_transfers hbatch]
  refine ⟨?_, ?_, ?_⟩
  · rw [List.filter_append, filter_isFor_batch, List.map_append, hnames, h.recipients_eq, hlog]
  · rw [hlog, List.nodup_append]
    refine ⟨h.recipients_nodup, hbatch.nodup hsound, ?_⟩
    rintro a hold b hnew rfl
    exact hbatch.fresh a hnew hold
  · intro x hx hreason
    rcases List.mem_append.mp hx with hold | hnew
    · exact h.allocation x hold hreason
    · obtain ⟨r, hr, rfl⟩ := List.mem_map.mp hnew
      show _ ∧ r ∈ l.sale.payouts
      rw [Sale.payouts_of_plan hplan]
      exact ⟨rfl, hbatch.sublist.subset hr⟩

theorem Step.batchesLogged (hstep : Step l op t) (hsale : l.sale.Sound)
    (h : l.BatchesLogged sent) : t.ledger.BatchesLogged (sent ++ t.transfers) := by
  have hframe : op.pays .distribution = false → t.ledger.BatchesLogged (sent ++ t.transfers) :=
    fun hop => h.of_eq (hstep.reason_ne rfl hop) hstep.sale_eq (hstep.paid_eq hop)
  cases hstep with
  | disburse hstatus hpays =>
    cases hpays with
    | distribute hplan hbatch hne => exact h.batchPayout hsale hplan hbatch
    | _ => exact hframe rfl
  | _ => exact hframe rfl

theorem BatchesLogged.mem_sent (h : l.BatchesLogged sent) (hsale : l.sale.Sound) {r : Payout}
    (hr : r ∈ l.sale.payouts) (hpaid : r.1 ∈ l.paid) : payoutTransfer r ∈ sent := by
  rw [← h.recipients_eq] at hpaid
  obtain ⟨x, hx, hrecipient⟩ := List.mem_map.mp hpaid
  obtain ⟨hsent, hreason⟩ := List.mem_filter.mp hx
  simp only [Transfer.isFor, beq_iff_eq] at hreason
  obtain ⟨htoken, hallocated⟩ := h.allocation x hsent hreason
  have hsame : (x.recipient, x.amount) = r :=
    List.inj_on_of_nodup_map hsale.payouts_nodup hallocated hr hrecipient
  have heq : payoutTransfer r = x := by
    rw [← hsame, payoutTransfer, ← htoken, ← hreason]
  rw [heq]
  exact hsent

/-! Legs. -/

/-- A leg goes out when it enters the log, and once. -/
def LegsLogged (l : Ledger) (sent : List Transfer) : Prop :=
  ∀ leg : Leg, sent.countP (Transfer.isFor (.leg leg)) ≤ if leg.name ∈ l.legsPaid then 1 else 0

theorem LegsLogged.of_eq (h : l.LegsLogged sent)
    (hreasons : ∀ leg, ∀ x ∈ xs, x.reason ≠ .leg leg) (hlegs : l'.legsPaid = l.legsPaid) :
    l'.LegsLogged (sent ++ xs) := by
  intro leg
  rw [List.countP_append, List.countP_eq_length_filter (l := xs), filter_isFor_eq_nil (hreasons leg),
    List.length_nil, Nat.add_zero, hlegs]
  exact h leg

theorem LegsLogged.count_le_one (h : l.LegsLogged sent) (leg : Leg) :
    sent.countP (Transfer.isFor (.leg leg)) ≤ 1 := by
  have hcount := h leg
  split at hcount <;> omega

theorem LegsLogged.name_mem (h : l.LegsLogged sent) (leg : Leg) :
    ∀ x ∈ sent, x.reason = .leg leg → leg.name ∈ l.legsPaid := by
  intro x hx hreason
  have hcount := h leg
  have hpos : 0 < sent.countP (Transfer.isFor (.leg leg)) :=
    List.countP_pos_iff.mpr ⟨x, hx, by simp [Transfer.isFor, hreason]⟩
  by_contra hnot
  rw [if_neg hnot] at hcount
  omega

section Legs

variable {plan : Plan} {split : Split} {parts : Int × Int} {legs : List Leg}

theorem isFor_legTransfer (leg leg' : Leg) :
    Transfer.isFor (.leg leg) (legTransfer plan split parts leg') = (leg' == leg) := by
  cases leg <;> cases leg' <;> rfl

theorem countP_legPayout_le (leg : Leg) :
    (l.legPayout plan split parts legs).transfers.countP (Transfer.isFor (.leg leg)) ≤
      legs.count leg := by
  calc (l.legPayout plan split parts legs).transfers.countP (Transfer.isFor (.leg leg))
      ≤ (legs.map (legTransfer plan split parts)).countP (Transfer.isFor (.leg leg)) :=
        List.filter_sublist.countP_le
    _ = legs.count leg := by
        rw [List.countP_map, List.count]
        congr 1
        funext leg'
        exact isFor_legTransfer leg leg'

theorem LegsLogged.legPayout (h : l.LegsLogged sent) (hlegs : legs <+: l.dueLegs) :
    (l.legPayout plan split parts legs).ledger.LegsLogged
      (sent ++ (l.legPayout plan split parts legs).transfers) := by
  intro leg
  show _ ≤ if leg.name ∈ l.legsPaid ++ legs.map Leg.name then 1 else 0
  have hold := h leg
  have hnew : (l.legPayout plan split parts legs).transfers.countP (Transfer.isFor (.leg leg)) ≤
      legs.count leg := countP_legPayout_le leg
  rw [List.countP_append]
  by_cases hleg : leg ∈ legs
  · have hdistinct : legs.Nodup :=
      ((List.IsPrefix.sublist hlegs).trans List.filter_sublist).nodup (by decide : Leg.all.Nodup)
    have hname : leg.name ∈ legs.map Leg.name := List.mem_map_of_mem hleg
    have hfresh : leg.name ∉ l.legsPaid := dueLegs_fresh _ ((hlegs.map Leg.name).subset hname)
    rw [if_neg hfresh] at hold
    rw [if_pos (List.mem_append_right _ hname)]
    have honce := List.nodup_iff_count_le_one.mp hdistinct leg
    omega
  · have hnone : legs.count leg = 0 := List.count_eq_zero.mpr hleg
    have hname : leg.name ∉ legs.map Leg.name := by
      intro hmem
      obtain ⟨leg', hleg', heq⟩ := List.mem_map.mp hmem
      exact hleg (Leg.name_injective heq ▸ hleg')
    simp only [List.mem_append, hname, or_false]
    omega

end Legs

theorem Step.legsLogged (hstep : Step l op t) (h : l.LegsLogged sent) :
    t.ledger.LegsLogged (sent ++ t.transfers) := by
  have hframe : (∀ leg, op.pays (.leg leg) = false) → t.ledger.LegsLogged (sent ++ t.transfers) :=
    fun hop => h.of_eq (fun leg => hstep.reason_ne rfl (hop leg)) (hstep.legsPaid_eq hop)
  cases hstep with
  | disburse hstatus hpays =>
    cases hpays with
    | distributeDeposits hplan hsplit hparts hlegs hne => exact h.legPayout hlegs
    | _ => exact hframe fun _ => rfl
  | _ => exact hframe fun _ => rfl

/-! Claims. -/

def ClaimsLogged (l : Ledger) (sent : List Transfer) : Prop :=
  ∀ who, amountOf (Transfer.isForTo .claim who) sent = (l.held who).claimed

theorem Step.claimsLogged (hstep : Step l op t) (h : l.ClaimsLogged sent) :
    t.ledger.ClaimsLogged (sent ++ t.transfers) := by
  intro who
  rw [amountOf_append, h who]
  have hframe : op.pays .claim = false → (l.held who).claimed +
      amountOf (Transfer.isForTo .claim who) t.transfers = (t.ledger.held who).claimed :=
    fun hop => by
      rw [amountOf_eq_zero_of_reason_ne Transfer.reason_of_isForTo (hstep.reason_ne rfl hop),
        Int.add_zero, hstep.claimed_eq hop]
  cases hstep with
  | disburse hstatus hpays =>
    cases hpays with
    | @claim participant p r hposition hreleased =>
      rw [amountOf_claimPayout _ _ _ (claimable_nonneg r p.claimed)]
      show _ = ((l.payClaim participant p (claimable r p.claimed)).held who).claimed
      rw [(held_payClaim hposition).2.2]
      simp [Transfer.isForTo]
    | _ => exact hframe rfl
  | _ => exact hframe rfl

def VestingLogged (l : Ledger) (sent : List Transfer) : Prop :=
  ∀ who, amountOf (Transfer.isForTo .individualVesting who) sent = l.individualClaimed who

theorem Step.vestingLogged (hstep : Step l op t) (h : l.VestingLogged sent) :
    t.ledger.VestingLogged (sent ++ t.transfers) := by
  intro who
  rw [amountOf_append, h who]
  have hframe : op.pays .individualVesting = false → l.individualClaimed who +
      amountOf (Transfer.isForTo .individualVesting who) t.transfers =
        t.ledger.individualClaimed who :=
    fun hop => by
      rw [amountOf_eq_zero_of_reason_ne Transfer.reason_of_isForTo (hstep.reason_ne rfl hop),
        Int.add_zero, individualClaimed, individualClaimed, hstep.individualClaims_eq hop]
  cases hstep with
  | disburse hstatus hpays =>
    cases hpays with
    | @claimIndividual stakeholder holder r hvested hreleased =>
      rw [amountOf_individualPayout _ _ (claimable_nonneg r (l.individualClaimed stakeholder))]
      show _ = (l.payIndividual stakeholder _).individualClaimed who
      rw [payIndividual_claimed]
      simp [Transfer.isForTo]
    | _ => exact hframe rfl
  | _ => exact hframe rfl

/-! All records together. -/

structure Receipts (l : Ledger) (sent : List Transfer) : Prop where
  batches : l.BatchesLogged sent
  legs : l.LegsLogged sent
  claims : l.ClaimsLogged sent
  vesting : l.VestingLogged sent

theorem receipts_empty (s : Sale) : Receipts { sale := s } [] where
  batches := ⟨rfl, List.nodup_nil, by simp⟩
  legs := fun _ => Nat.zero_le _
  claims := fun _ => rfl
  vesting := fun _ => rfl

theorem Receipts.step (h : l.Receipts sent) (hsale : l.sale.Sound) (hstep : Step l op t) :
    t.ledger.Receipts (sent ++ t.transfers) where
  batches := hstep.batchesLogged hsale h.batches
  legs := hstep.legsLogged h.legs
  claims := hstep.claimsLogged h.claims
  vesting := hstep.vestingLogged h.vesting

theorem Receipts.writes {e : Entry} (h : l.Receipts sent) (hsale : l.sale.Sound)
    (hwrites : Writes l e l') : l'.Receipts (sent ++ e.sent) := by
  cases hwrites with
  | idle hprepared =>
    rw [List.append_nil]
    exact h
  | step hprepared hstep => exact h.step hsale hstep

end Ledger

namespace History

variable {draft : Sale.Draft} {settings : Settings} {outbox : Outbox} {clock : Int} {d : Desk}

theorem run_agree (h : Desk.start draft settings outbox clock = .ok d) (turns : List Turn) :
    (run d turns).ledger.Receipts (run d turns).sent := by
  refine (run_induct (P := fun l es => l.Receipts (es.flatMap Entry.sent)) h
    (fun s _ => Ledger.receipts_empty s) ?_ turns).1
  intro l es e l' hsale hreceipts hwrites
  rw [List.flatMap_append, List.flatMap_singleton]
  exact hreceipts.writes hsale hwrites

/-- Along every history, the log lists the recipients of batches in the order in which they were
paid, each once and its allocation; a leg went out at most once, and is in its log if it did; what
was sent on claims is what was claimed, for everyone; and when no batch is due any more, all
recipients with an allocation were paid. -/
theorem run_receipts (h : Desk.start draft settings outbox clock = .ok d) (turns : List Turn) :
    ((run d turns).sent.filter (Transfer.isFor .distribution)).map Transfer.recipient =
      (run d turns).ledger.paid ∧
    (run d turns).ledger.paid.Nodup ∧
    (∀ x ∈ (run d turns).sent, x.reason = .distribution →
      x.token = .sale ∧ (x.recipient, x.amount) ∈ d.ledger.sale.payouts) ∧
    (∀ leg, (run d turns).sent.countP (Transfer.isFor (.leg leg)) ≤ 1) ∧
    (∀ leg, ∀ x ∈ (run d turns).sent, x.reason = .leg leg →
      leg.name ∈ (run d turns).ledger.legsPaid) ∧
    (∀ who, amountOf (Transfer.isForTo .claim who) (run d turns).sent =
      ((run d turns).ledger.held who).claimed) ∧
    (∀ who, amountOf (Transfer.isForTo .individualVesting who) (run d turns).sent =
      (run d turns).ledger.individualClaimed who) ∧
    (∀ now limit,
      (run d turns).ledger.perform (.distributeNext now limit) = .error .nothingToDistribute →
        ∀ r ∈ d.ledger.sale.payouts, 0 < r.2 → payoutTransfer r ∈ (run d turns).sent) := by
  have hsale := run_sale_sound h turns
  obtain ⟨hbatches, hlegs, hclaims, hvesting⟩ := run_agree h turns
  rw [← run_sale_eq h turns]
  refine ⟨hbatches.recipients_eq, hbatches.recipients_nodup, hbatches.allocation,
    hlegs.count_le_one, hlegs.name_mem, hclaims, hvesting, ?_⟩
  intro now limit hnothing r hr hpos
  exact hbatches.mem_sent hsale hr (Ledger.drained_of_error hnothing r hr hpos)

theorem run_receipts_sample :
    Desk.start sampleSale.draft {} (.kept []) 0 = .ok sampleDesk ∧
      (run sampleDesk sampleTurns).ledger.perform (.distributeNext 200 none) =
        .error .nothingToDistribute ∧
      payoutTransfer ("solver", 50) ∈ (run sampleDesk sampleTurns).sent ∧
      (run sampleDesk sampleTurns).ledger.paid.Nodup ∧
      amountOf (Transfer.isForTo .claim "alice") (run sampleDesk sampleTurns).sent =
        ((run sampleDesk sampleTurns).ledger.held "alice").claimed := by
  have hstart : Desk.start sampleSale.draft {} (.kept []) 0 = .ok sampleDesk := rfl
  have hnothing : (run sampleDesk sampleTurns).ledger.perform (.distributeNext 200 none) =
      .error .nothingToDistribute := by
    have hstatus : (run sampleDesk sampleTurns).ledger.status 200 = .success := by decide +kernel
    have hdrained : ∀ r ∈ sampleSale.payouts, 0 < r.2 →
        r.1 ∈ (run sampleDesk sampleTurns).ledger.paid := by
      decide +kernel
    refine Ledger.distributeNext_of_drained hstatus ?_
    unfold Ledger.Drained
    rw [run_sale_eq hstart]
    exact hdrained
  obtain ⟨-, hnodup, -, -, -, hclaims, -, hpaid⟩ := run_receipts hstart sampleTurns
  exact ⟨hstart, hnothing, hpaid 200 none hnothing _ List.mem_cons_self (by decide), hnodup,
    hclaims "alice"⟩

end History

end TokenSale
