import TokenSale.Proofs.Ledger.Balance

/-!
The two phases of a sale. A step either pays something out, which takes a sale that succeeded, or is
quiet: it leaves all records of payouts as they are.

Success is final. At later times a ledger that succeeded admits payouts, which leave the totals and
the weights as they are, and withdrawals by the administration, which leave the whole ledger as it
is; deposits, other withdrawals, locks and unlocks are over.
-/

namespace TokenSale

def Reason.isPayout : Reason → Bool
  | claim | individualVesting | distribution | leg _ => true
  | refund | withdraw | adminWithdraw => false

def Operation.pays : Operation → Reason → Bool
  | claim .., .claim => true
  | claimIndividual .., .individualVesting => true
  | distributeNext .., .distribution => true
  | distributeDeposits .., .leg _ => true
  | _, _ => false

namespace Ledger

variable {l : Ledger} {op : Operation} {t : Transition}

theorem status_eq_success {now : Int} :
    l.status now = .success ↔ l.funded = true ∧ l.locked = false ∧ l.sale.startTime ≤ now ∧
      l.sale.endTime ≤ now ∧ l.sale.softCap ≤ l.totalDeposited ∧
      l.sale.tge.any (fun tge => decide (now < tge)) = false := by
  unfold status
  constructor
  · intro h
    repeat' split at h
    all_goals try cases h
    simp_all
  · rintro ⟨hfunded, hlocked, hstart, hend, hcap, htge⟩
    rw [if_neg (by simp [hfunded]), if_neg (by simp [hlocked]), if_neg (by omega),
      if_neg (by omega), if_neg (by omega), if_neg (by simp [htge])]

theorem status_success_later {s now : Int} (h : l.status s = .success) (hle : s ≤ now) :
    l.status now = .success := by
  obtain ⟨hfunded, hlocked, hstart, hend, hcap, htge⟩ := status_eq_success.mp h
  refine status_eq_success.mpr ⟨hfunded, hlocked, by omega, by omega, hcap, ?_⟩
  cases hevent : l.sale.tge with
  | none => rfl
  | some tge =>
    simp only [hevent, Option.any_some, decide_eq_false_iff_not] at htge ⊢
    omega

structure Untouched (l : Ledger) : Prop where
  claimed_eq : ∀ who, (l.held who).claimed = 0
  individualClaimed_eq : ∀ who, l.individualClaimed who = 0
  paid_eq : l.paid = []
  legsPaid_eq : l.legsPaid = []

theorem empty_untouched (s : Sale) : Untouched { sale := s } :=
  ⟨fun _ => rfl, fun _ => rfl, rfl, rfl⟩

/-- A step that leaves the records of payouts as they are. -/
structure Quiet (l : Ledger) (op : Operation) (t : Transition) : Prop where
  operation : ∀ reason, op.pays reason = false
  claimed_eq : ∀ who, (t.ledger.held who).claimed = (l.held who).claimed
  individualClaims_eq : t.ledger.individualClaims = l.individualClaims
  paid_eq : t.ledger.paid = l.paid
  legsPaid_eq : t.ledger.legsPaid = l.legsPaid
  reasons : ∀ x ∈ t.transfers, x.reason.isPayout = false

theorem Quiet.reason_ne (h : l.Quiet op t) (reason : Reason) (hreason : reason.isPayout = true) :
    ∀ x ∈ t.transfers, x.reason ≠ reason := by
  intro x hx heq
  have := h.reasons x hx
  rw [heq, hreason] at this
  cases this

theorem Step.quiet_or_disburses (h : Step l op t) :
    l.Quiet op t ∨ ∃ now, l.status now = .success ∧ l.Disburses now op t := by
  cases h with
  | fund hfunded hamount => exact .inl ⟨fun _ => rfl, fun _ => rfl, rfl, rfl, rfl, by simp [advance]⟩
  | deposit hfunded hstatus hmin hpurchase =>
    have hlaw := Position.deposit_law hpurchase
    rw [take_eq]
    refine .inl ⟨fun _ => rfl, fun who => (held_take hlaw).1, rfl, rfl, rfl, fun x hx => ?_⟩
    rw [eq_of_mem_advance hx]
    rfl
  | withdraw hopen hposition hwithdrawal =>
    have hlaw := Position.withdraw_law hwithdrawal
    refine .inl ⟨fun _ => rfl, fun who => (held_release hposition hlaw).1, rfl, rfl, rfl, fun x hx => ?_⟩
    rw [eq_of_mem_advance hx]
    rfl
  | disburse hstatus h => exact .inr ⟨_, hstatus, h⟩
  | lock hstatus => exact .inl ⟨fun _ => rfl, fun _ => rfl, rfl, rfl, rfl, by simp [advance]⟩
  | unlock hfunded hlocked => exact .inl ⟨fun _ => rfl, fun _ => rfl, rfl, rfl, rfl, by simp [advance]⟩
  | adminWithdraw hpos htoken hstatus =>
    refine .inl ⟨fun _ => rfl, fun _ => rfl, rfl, rfl, rfl, fun x hx => ?_⟩
    rw [eq_of_mem_advance hx]
    rfl

theorem Untouched.quiet (h : l.Untouched) (hq : l.Quiet op t) : t.ledger.Untouched where
  claimed_eq := fun who => by rw [hq.claimed_eq, h.claimed_eq]
  individualClaimed_eq := fun who => by
    unfold individualClaimed
    rw [hq.individualClaims_eq]
    exact h.individualClaimed_eq who
  paid_eq := by rw [hq.paid_eq, h.paid_eq]
  legsPaid_eq := by rw [hq.legsPaid_eq, h.legsPaid_eq]

theorem canWithdraw_of_success {now : Int} (h : l.status now = .success) :
    l.canWithdraw now = false := by
  simp [canWithdraw, h]

/-- At all later times a ledger that succeeded pays out, or stays as it is while the administration
withdraws. -/
theorem Step.of_success (h : Step l op t) {s : Int} (hs : l.status s = .success)
    (hle : ∀ now, op.now? = some now → s ≤ now) :
    (∃ now, l.status now = .success ∧ l.Disburses now op t) ∨
      (∃ name recipient amount now, op = .adminWithdraw name recipient amount now) ∧
        l.Quiet op t ∧ t.ledger = { l with revision := l.revision + 1 } := by
  have hlater : ∀ now, op.now? = some now → l.status now = .success := fun now hnow =>
    status_success_later hs (hle now hnow)
  obtain ⟨hfunded, hlocked, -⟩ := status_eq_success.mp hs
  have hphase := h.quiet_or_disburses
  cases h with
  | fund hunfunded hamount => simp [hfunded] at hunfunded
  | deposit _ hstatus hmin hpurchase => simp [hlater _ rfl] at hstatus
  | withdraw hopen hposition hwithdrawal =>
    simp [canWithdraw_of_success (hlater _ rfl)] at hopen
  | disburse hstatus h => exact .inl ⟨_, hstatus, h⟩
  | lock hstatus => simp [hlater _ rfl] at hstatus
  | unlock _ hlock => simp [hlocked] at hlock
  | adminWithdraw hpos htoken hstatus =>
    rcases hphase with hquiet | ⟨_, -, hpays⟩
    · exact .inr ⟨⟨_, _, _, _, rfl⟩, hquiet, rfl⟩
    · cases hpays

structure Keeps (l l' : Ledger) : Prop where
  sale_eq : l'.sale = l.sale
  funded_eq : l'.funded = l.funded
  locked_eq : l'.locked = l.locked
  totalDeposited_eq : l'.totalDeposited = l.totalDeposited
  totalSold_eq : l'.totalSold = l.totalSold

theorem Disburses.keeps {now : Int} (h : l.Disburses now op t) : l.Keeps t.ledger := by
  cases h with
  | claim hposition hreleased =>
    rw [claimPayout, payClaim_eq]
    exact ⟨rfl, rfl, rfl, rfl, rfl⟩
  | claimIndividual hvested hreleased =>
    rw [individualPayout, payIndividual_eq]
    exact ⟨rfl, rfl, rfl, rfl, rfl⟩
  | distribute hplan hbatch hne => exact ⟨rfl, rfl, rfl, rfl, rfl⟩
  | distributeDeposits hplan hsplit hparts hlegs hne => exact ⟨rfl, rfl, rfl, rfl, rfl⟩

theorem Disburses.reason_ne {now : Int} (h : l.Disburses now op t) (reason : Reason)
    (hreason : op.pays reason = false) : ∀ x ∈ t.transfers, x.reason ≠ reason := by
  intro x hx heq
  subst heq
  cases h with
  | claim hposition hreleased =>
    rw [eq_of_mem_advance hx] at hreason
    cases hreason
  | claimIndividual hvested hreleased =>
    rw [eq_of_mem_advance hx] at hreason
    cases hreason
  | distribute hplan hbatch hne =>
    obtain ⟨r, -, rfl⟩ := List.mem_map.mp (mem_advance hx)
    cases hreason
  | distributeDeposits hplan hsplit hparts hlegs hne =>
    obtain ⟨leg, -, rfl⟩ := List.mem_map.mp (mem_advance hx)
    cases leg <;> cases hreason

/-! A payout writes only the record of its own kind. -/

theorem Disburses.positions_eq {now : Int} (h : l.Disburses now op t)
    (hop : op.pays .claim = false) : t.ledger.positions = l.positions := by
  cases h with
  | claim hposition hreleased => cases hop
  | claimIndividual hvested hreleased =>
    rw [individualPayout, payIndividual_eq]
    rfl
  | distribute hplan hbatch hne => rfl
  | distributeDeposits hplan hsplit hparts hlegs hne => rfl

theorem Disburses.individualClaims_eq {now : Int} (h : l.Disburses now op t)
    (hop : op.pays .individualVesting = false) :
    t.ledger.individualClaims = l.individualClaims := by
  cases h with
  | claim hposition hreleased =>
    rw [claimPayout, payClaim_eq]
    rfl
  | claimIndividual hvested hreleased => cases hop
  | distribute hplan hbatch hne => rfl
  | distributeDeposits hplan hsplit hparts hlegs hne => rfl

theorem Disburses.paid_eq {now : Int} (h : l.Disburses now op t)
    (hop : op.pays .distribution = false) : t.ledger.paid = l.paid := by
  cases h with
  | claim hposition hreleased =>
    rw [claimPayout, payClaim_eq]
    rfl
  | claimIndividual hvested hreleased =>
    rw [individualPayout, payIndividual_eq]
    rfl
  | distribute hplan hbatch hne => cases hop
  | distributeDeposits hplan hsplit hparts hlegs hne => rfl

theorem Disburses.legsPaid_eq {now : Int} (h : l.Disburses now op t)
    (hop : ∀ leg, op.pays (.leg leg) = false) : t.ledger.legsPaid = l.legsPaid := by
  cases h with
  | claim hposition hreleased =>
    rw [claimPayout, payClaim_eq]
    rfl
  | claimIndividual hvested hreleased =>
    rw [individualPayout, payIndividual_eq]
    rfl
  | distribute hplan hbatch hne => rfl
  | distributeDeposits hplan hsplit hparts hlegs hne => cases hop .solver

/-! So a step writes a record of payouts only if its operation pays for the reason of the record. -/

theorem Step.reason_ne {reason : Reason} (h : Step l op t) (hpayout : reason.isPayout = true)
    (hop : op.pays reason = false) : ∀ x ∈ t.transfers, x.reason ≠ reason := by
  rcases h.quiet_or_disburses with hquiet | ⟨now, -, hpays⟩
  · exact hquiet.reason_ne reason hpayout
  · exact hpays.reason_ne reason hop

theorem Step.claimed_eq (h : Step l op t) (hop : op.pays .claim = false) (who : String) :
    (t.ledger.held who).claimed = (l.held who).claimed := by
  rcases h.quiet_or_disburses with hquiet | ⟨now, -, hpays⟩
  · exact hquiet.claimed_eq who
  · simp only [held, hpays.positions_eq hop]

theorem Step.individualClaims_eq (h : Step l op t) (hop : op.pays .individualVesting = false) :
    t.ledger.individualClaims = l.individualClaims := by
  rcases h.quiet_or_disburses with hquiet | ⟨now, -, hpays⟩
  · exact hquiet.individualClaims_eq
  · exact hpays.individualClaims_eq hop

theorem Step.paid_eq (h : Step l op t) (hop : op.pays .distribution = false) :
    t.ledger.paid = l.paid := by
  rcases h.quiet_or_disburses with hquiet | ⟨now, -, hpays⟩
  · exact hquiet.paid_eq
  · exact hpays.paid_eq hop

theorem Step.legsPaid_eq (h : Step l op t) (hop : ∀ leg, op.pays (.leg leg) = false) :
    t.ledger.legsPaid = l.legsPaid := by
  rcases h.quiet_or_disburses with hquiet | ⟨now, -, hpays⟩
  · exact hquiet.legsPaid_eq
  · exact hpays.legsPaid_eq hop

theorem Keeps.status_eq {l' : Ledger} (h : l.Keeps l') (now : Int) :
    l'.status now = l.status now := by
  simp only [status, h.sale_eq, h.funded_eq, h.locked_eq, h.totalDeposited_eq]

end Ledger

end TokenSale
