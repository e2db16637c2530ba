import TokenSale.Proofs.Counters
import TokenSale.Proofs.Desk.Deposits
import TokenSale.Proofs.Desk.Payouts
import TokenSale.Proofs.Ledger.Books

/-!
What there is to count. A transition counts for what its change and its transfers say; a step moves
the ledger and what went out by exactly that, and metrics that observe the transition add exactly
that, each kind of step by its own way of recording.
-/

namespace TokenSale

def Transition.count (t : Transition) : Count → Int
  | .deposited => t.change.totalDeposited + amountOf (Transfer.isFor .withdraw) t.transfers
  | .refunded => amountOf (Transfer.isFor .refund) t.transfers
  | .withdrawn => amountOf (Transfer.isFor .withdraw) t.transfers
  | .claimed => amountOf (Transfer.isFor .claim) t.transfers
  | .individuallyClaimed => amountOf (Transfer.isFor .individualVesting) t.transfers
  | .distributed => t.change.recipientsAdded.length
  | .transitions => 1

namespace Ledger

/-- What there is to count, by a ledger and the transfers that went out. All that was accepted of
deposits is held or was paid back. -/
def count (l : Ledger) (sent : List Transfer) : Count → Int
  | .deposited => l.totalDeposited + amountOf (Transfer.isFor .withdraw) sent
  | .refunded => amountOf (Transfer.isFor .refund) sent
  | .withdrawn => amountOf (Transfer.isFor .withdraw) sent
  | .claimed => l.positions.total Position.claimed
  | .individuallyClaimed => l.individualClaims.total id
  | .distributed => l.paid.length
  | .transitions => l.revision

variable {l : Ledger} {op : Operation} {t : Transition}

/-! What a step counts for. -/

theorem Step.total_claimed_of_not_pays (hstep : Step l op t) (h : l.Tallied)
    (hop : op.pays .claim = false) :
    t.ledger.positions.total Position.claimed = l.positions.total Position.claimed := by
  cases hstep.posts h with
  | keeps hpositions hparticipants hdeposited hsold hdepositors => rw [hpositions]
  | @writes who q hwho _ hnonneg hpositions hparticipants hdeposited hsold hcapped hdepositors =>
    have hclaimed := hstep.claimed_eq hop who
    rw [held, hpositions, held_insert_self] at hclaimed
    rw [hpositions, total_put rfl, hclaimed]
    exact Int.add_sub_cancel ..

theorem Step.total_claimed (hstep : Step l op t) (h : l.Tallied) :
    t.ledger.positions.total Position.claimed =
      l.positions.total Position.claimed + amountOf (Transfer.isFor .claim) t.transfers := by
  have hframe : op.pays .claim = false → t.ledger.positions.total Position.claimed =
      l.positions.total Position.claimed + amountOf (Transfer.isFor .claim) t.transfers :=
    fun hop => by
      rw [hstep.total_claimed_of_not_pays h hop,
        amountOf_eq_zero_of_reason_ne Transfer.reason_of_isFor (hstep.reason_ne rfl hop),
        Int.add_zero]
  cases hstep with
  | disburse hstatus hpays =>
    cases hpays with
    | claim hposition hreleased =>
      rw [amountOf_claimPayout _ _ _ (claimable_nonneg _ _)]
      exact payClaim_total hposition
    | _ => exact hframe rfl
  | _ => exact hframe rfl

theorem payIndividual_total (l : Ledger) (who : String) (amount : Int) :
    (l.payIndividual who amount).individualClaims.total id =
      l.individualClaims.total id + amount := by
  unfold payIndividual
  split
  · rename_i hzero
    rw [hzero, Int.add_zero]
  · show (l.individualClaims.insert who _).total id = _
    rw [Book.total_insert, individualClaimed]
    cases l.individualClaims.get? who <;>
      simp only [Option.map_none, Option.map_some, Option.getD_none, Option.getD_some, id] <;> omega

theorem Step.total_individual (hstep : Step l op t) :
    t.ledger.individualClaims.total id =
      l.individualClaims.total id + amountOf (Transfer.isFor .individualVesting) t.transfers := by
  have hframe : op.pays .individualVesting = false → t.ledger.individualClaims.total id =
      l.individualClaims.total id + amountOf (Transfer.isFor .individualVesting) t.transfers :=
    fun hop => by
      rw [hstep.individualClaims_eq hop,
        amountOf_eq_zero_of_reason_ne Transfer.reason_of_isFor (hstep.reason_ne rfl hop),
        Int.add_zero]
  cases hstep with
  | disburse hstatus hpays =>
    cases hpays with
    | claimIndividual hvested hreleased =>
      rw [amountOf_individualPayout _ _ (claimable_nonneg _ _)]
      exact payIndividual_total ..
    | _ => exact hframe rfl
  | _ => exact hframe rfl

theorem Step.paid_length (hstep : Step l op t) (hsale : l.sale.Sound) :
    t.ledger.paid.length = l.paid.length + t.change.recipientsAdded.length := by
  have hframe : op.pays .distribution = false →
      t.ledger.paid.length = l.paid.length + t.change.recipientsAdded.length :=
    fun hop => by
      have hnone : t.change.recipientsAdded = [] := by
        rw [hstep.change_eq]
        show t.ledger.paid.filter (fun a => !l.paid.contains a) = []
        rw [hstep.paid_eq hop]
        simp
      rw [hstep.paid_eq hop, hnone, List.length_nil, Nat.add_zero]
  cases hstep with
  | disburse hstatus hpays =>
    cases hpays with
    | distribute hplan hbatch hne =>
      have hsound := hsale.plan_sound _ hplan
      rw [batchPayout_change hsound hbatch]
      show (l.payBatch _).paid.length = _
      rw [payBatch_paid hsound hbatch, List.length_append]
    | _ => exact hframe rfl
  | _ => exact hframe rfl

/-- A step moves what there is to count by what its transition counts for. -/
theorem Step.count_eq (hstep : Step l op t) (hsale : l.sale.Sound) (h : l.Balanced)
    (sent : List Transfer) (k : Count) :
    t.ledger.count (sent ++ t.transfers) k = l.count sent k + t.count k := by
  have hchange : t.change.totalDeposited = t.ledger.totalDeposited - l.totalDeposited := by
    rw [hstep.change_eq]
    rfl
  have hclaimed := hstep.total_claimed h.tallied
  have hindividual := hstep.total_individual
  have hpaid := hstep.paid_length hsale
  have hrevision := hstep.revision_eq
  cases k <;> simp only [count, Transition.count, amountOf_append] <;> omega

/-! What observing a transition adds. -/

theorem count_advance {new : Ledger} (hpaid : new.paid = l.paid) (action : Action)
    (who : Option String) {xs : List Transfer} (outcome : Outcome)
    (hnonneg : ∀ x ∈ xs, 0 ≤ x.amount) (k : Count) :
    (l.advance action new who xs outcome).count k =
      match k with
      | .deposited => new.totalDeposited - l.totalDeposited +
          amountOf (Transfer.isFor .withdraw) xs
      | .refunded => amountOf (Transfer.isFor .refund) xs
      | .withdrawn => amountOf (Transfer.isFor .withdraw) xs
      | .claimed => amountOf (Transfer.isFor .claim) xs
      | .individuallyClaimed => amountOf (Transfer.isFor .individualVesting) xs
      | .distributed => 0
      | .transitions => 1 := by
  cases k with
  | distributed =>
    show ((new.paid.filter fun a => !l.paid.contains a).length : Int) = 0
    simp [hpaid]
  | transitions => rfl
  | deposited =>
    show new.totalDeposited - l.totalDeposited +
      amountOf _ (l.advance action new who xs outcome).transfers = _
    rw [amountOf_advance _ _ _ _ _ _ hnonneg]
  | _ => exact amountOf_advance _ _ _ _ _ _ hnonneg

end Ledger

namespace Transition

def CountsFor (t : Transition) (k : Count) (n : Int) : Prop :=
  ∀ k', t.count k' = (if k' = .transitions then 1 else 0) + if k' = k then n else 0

/-- The transition counts for nothing negative, and metrics that observe it add what it counts for,
as long as they can. -/
structure Counted (t : Transition) : Prop where
  count_nonneg : ∀ k, 0 ≤ t.count k
  observe : ∀ m : Metrics, Countable (fun k => m.count k + t.count k) →
    ∀ k, (m.observe t).1.count k = m.count k + t.count k

variable {t : Transition} {k : Count} {n : Int}

theorem CountsFor.counted (h : t.CountsFor k n) (hk : k ≠ .transitions) (hnonneg : 0 ≤ n)
    (record : Metrics → Metrics)
    (hobserve : ∀ m : Metrics, (m.observe t).1 = record (m.recordTransition t.action.name))
    (hrecord : ∀ m : Metrics, m.count k + n < Binary64.mantissaBound → m.Adds (record m) k n) :
    t.Counted where
  count_nonneg := by
    intro k'
    rw [h k']
    split <;> split <;> omega
  observe := by
    intro m hcountable k'
    have hone := Metrics.recordTransition_adds t.action.name (hcountable .transitions)
    have hroom : (m.recordTransition t.action.name).count k + n < Binary64.mantissaBound := by
      simpa [hone k, h k, hk] using hcountable k
    rw [hobserve m, hrecord _ hroom k', hone k', h k']
    omega

end Transition

namespace Ledger

variable {l : Ledger} {op : Operation} {t : Transition}

theorem counted_advance {new : Ledger} {action : Action} {who : Option String}
    {xs : List Transfer} {outcome : Outcome} (ht : t = l.advance action new who xs outcome)
    (hpaid : new.paid = l.paid) (hdeposited : new.totalDeposited = l.totalDeposited)
    (hnonneg : ∀ x ∈ xs, 0 ≤ x.amount)
    (hreasons : ∀ x ∈ xs, x.reason ≠ .withdraw ∧ x.reason ≠ .refund ∧ x.reason ≠ .claim ∧
      x.reason ≠ .individualVesting)
    (hobserve : ∀ m : Metrics, (m.observe t).1 = m.recordTransition t.action.name) : t.Counted := by
  have hcounts : t.CountsFor .deposited 0 := by
    have hnone : ∀ reason : Reason, (∀ x ∈ xs, x.reason ≠ reason) →
        amountOf (Transfer.isFor reason) xs = 0 :=
      fun _ => amountOf_eq_zero_of_reason_ne Transfer.reason_of_isFor
    have hwithdraw := hnone _ fun x hx => (hreasons x hx).1
    have hrefund := hnone _ fun x hx => (hreasons x hx).2.1
    have hclaim := hnone _ fun x hx => (hreasons x hx).2.2.1
    have hvesting := hnone _ fun x hx => (hreasons x hx).2.2.2
    intro k
    rw [ht, count_advance hpaid _ _ _ hnonneg]
    cases k <;> simp [hwithdraw, hrefund, hclaim, hvesting, hdeposited]
  exact hcounts.counted (by decide) (Int.le_refl 0) id hobserve fun m _ k => by simp

theorem count_deposit {depositor participant : String} {cap amount : Int} {mechanic : Mechanic}
    {p : Position.Purchase}
    (hlaw : p.Law mechanic cap (l.held participant) l.totalDeposited l.totalSold amount)
    (k : Count) :
    (l.advance .deposit (l.take depositor participant p) (some participant)
        [⟨.deposit, depositor, p.refund, .refund⟩]
        (.deposit p.accepted p.refund p.weightAdded)).count k =
      (if k = .transitions then 1 else 0) + (if k = .deposited then p.accepted else 0) +
        if k = .refunded then p.refund else 0 := by
  have hpaid : (l.take depositor participant p).paid = l.paid := by rw [take_eq]
  have hraised : (l.take depositor participant p).totalDeposited - l.totalDeposited =
      p.accepted := by
    rw [take_totalDeposited hlaw]
    omega
  rw [count_advance hpaid _ _ _ (by simpa using hlaw.refund_nonneg)]
  cases k <;> simp [hraised, Transfer.isFor]

theorem counted_deposit {depositor participant : String} {cap amount : Int} {mechanic : Mechanic}
    {p : Position.Purchase}
    (hlaw : p.Law mechanic cap (l.held participant) l.totalDeposited l.totalSold amount)
    (ht : t = l.advance .deposit (l.take depositor participant p) (some participant)
      [⟨.deposit, depositor, p.refund, .refund⟩]
      (.deposit p.accepted p.refund p.weightAdded)) : t.Counted := by
  have haccepted := hlaw.accepted_nonneg
  have hrefund := hlaw.refund_nonneg
  have hcounts : ∀ k, t.count k = (if k = .transitions then 1 else 0) +
      (if k = .deposited then p.accepted else 0) + if k = .refunded then p.refund else 0 :=
    ht ▸ count_deposit hlaw
  have hobserve : ∀ m : Metrics, (m.observe t).1 =
      ((m.recordTransition t.action.name).recordDeposit p.accepted p.refund).1 :=
    fun m => ht ▸ rfl
  constructor
  · intro k
    rw [hcounts k]
    split <;> split <;> split <;> omega
  · intro m hcountable k
    have hone := Metrics.recordTransition_adds t.action.name (hcountable .transitions)
    have hdeposited : (m.recordTransition t.action.name).count .deposited + p.accepted <
        Binary64.mantissaBound := by
      simpa [hone .deposited, hcounts] using hcountable .deposited
    have hrefunded : (m.recordTransition t.action.name).count .refunded + p.refund <
        Binary64.mantissaBound := by
      simpa [hone .refunded, hcounts] using hcountable .refunded
    obtain ⟨m', haccepts, hrefunds⟩ :=
      Metrics.recordDeposit_adds haccepted hrefund hdeposited hrefunded
    rw [hobserve m, hrefunds k, haccepts k, hone k, hcounts k]
    omega

theorem counted_withdraw {participant : String} {amount : Int} {p : Position}
    {w : Position.Withdrawal} (h : l.Tallied) (hposition : l.positions.get? participant = some p)
    (hlaw : w.Law p l.totalDeposited l.totalSold amount)
    (ht : t = l.advance .withdraw (l.release participant w) (some participant)
      [⟨.deposit, participant, w.withdrawn, .withdraw⟩] .plain) : t.Counted := by
  have hwithdrawn : 0 < w.withdrawn := hlaw.withdrawn_eq ▸ hlaw.amount_pos
  have hcounts : t.CountsFor .withdrawn w.withdrawn := by
    have hpaid : (l.release participant w).paid = l.paid := rfl
    have hraised : (l.release participant w).totalDeposited - l.totalDeposited =
        -w.withdrawn := by
      have := h.release_totalDeposited hposition hlaw
      have := hlaw.withdrawn_eq
      omega
    have hnet : (l.release participant w).totalDeposited - l.totalDeposited + w.withdrawn = 0 := by
      omega
    intro k
    rw [ht, count_advance hpaid _ _ _ (by simpa using Int.le_of_lt hwithdrawn)]
    cases k <;> simp [hnet, Transfer.isFor]
  have hsum : sumOf Transfer.amount t.transfers = w.withdrawn := by
    rw [ht]
    simp [advance, hwithdrawn]
  refine hcounts.counted (by decide) (Int.le_of_lt hwithdrawn)
    (fun m => (m.recordWithdraw w.withdrawn).1) (fun m => ?_)
    fun m => Metrics.recordWithdraw_adds (Int.le_of_lt hwithdrawn)
  rw [← hsum, ht]
  rfl

theorem counted_claim {a : Action} {new : Ledger} {who : Option String} {x : Transfer}
    (hpaid : new.paid = l.paid) (hdeposited : new.totalDeposited = l.totalDeposited)
    (hnonneg : 0 ≤ x.amount) (ht : t = l.advance a new who [x] (.claim x.amount))
    (hkind : a = .claim ∧ x.reason = .claim ∨
      a = .claimIndividual ∧ x.reason = .individualVesting) : t.Counted := by
  have hcounts : t.CountsFor (Metrics.claimCount a) x.amount := by
    intro k
    rw [ht, count_advance hpaid _ _ _ (by simpa using hnonneg)]
    rcases hkind with ⟨rfl, hx⟩ | ⟨rfl, hx⟩ <;>
      cases k <;> simp [hdeposited, Transfer.isFor, hx, Metrics.claimCount]
  refine hcounts.counted ?_ hnonneg (fun m => (m.recordClaim x.amount (Metrics.claimKind a)).1) ?_
    fun m => Metrics.recordClaim_adds a hnonneg
  · rcases hkind with ⟨rfl, -⟩ | ⟨rfl, -⟩ <;> decide
  · intro m
    rw [ht]
    rcases hkind with ⟨rfl, -⟩ | ⟨rfl, -⟩ <;> rfl

theorem counted_batchPayout {plan : Plan} {batch : List Payout} (hplan : plan.Sound)
    (hbatch : plan.IsBatch l.paid batch) : (l.batchPayout batch).Counted := by
  have hzero : ∀ reason : Reason, reason ≠ .distribution →
      amountOf (Transfer.isFor reason) (l.batchPayout batch).transfers = 0 := by
    refine fun reason hne =>
      amountOf_eq_zero_of_reason_ne Transfer.reason_of_isFor fun x hx heq => hne ?_
    obtain ⟨r, -, rfl⟩ := List.mem_map.mp (mem_advance hx)
    exact heq.symm
  have hchange := batchPayout_change hplan hbatch
  have hcounts : (l.batchPayout batch).CountsFor .distributed batch.length := by
    intro k
    cases k <;> simp [Transition.count, hzero, hchange]
  refine hcounts.counted (by decide) (Int.natCast_nonneg _)
    (fun m => (m.recordDistribution batch.length).1) (fun m => ?_)
    fun m => Metrics.recordDistribution_adds batch.length
  have hrecipients : (l.batchPayout batch).change.recipientsAdded.length = batch.length := by
    rw [hchange, List.length_map]
  rw [← hrecipients]
  rfl

theorem Step.counted (hstep : Step l op t) (hsale : l.sale.Sound) (h : l.Tallied) :
    t.Counted := by
  cases hstep with
  | fund hfunded hamount => exact counted_advance rfl rfl rfl (by simp) (by simp) fun _ => rfl
  | deposit hfunded hstatus hmin hpurchase =>
    exact counted_deposit (Position.deposit_law hpurchase) rfl
  | withdraw hopen hposition hwithdrawal =>
    exact counted_withdraw h hposition (Position.withdraw_law hwithdrawal) rfl
  | disburse hstatus hpays =>
    have hdeposited := hpays.keeps.totalDeposited_eq
    cases hpays with
    | @claim participant p r hposition hreleased =>
      have hpaid : (l.payClaim participant p (claimable r p.claimed)).paid = l.paid := by
        rw [payClaim_eq]
      exact counted_claim hpaid hdeposited (claimable_nonneg _ _) rfl (.inl ⟨rfl, rfl⟩)
    | @claimIndividual stakeholder h r hvested hreleased =>
      have hpaid : (l.payIndividual stakeholder
          (claimable r (l.individualClaimed stakeholder))).paid = l.paid := by
        rw [payIndividual_eq]
      exact counted_claim hpaid hdeposited (claimable_nonneg _ _) rfl (.inr ⟨rfl, rfl⟩)
    | distribute hplan hbatch hne => exact counted_batchPayout (hsale.plan_sound _ hplan) hbatch
    | distributeDeposits hplan hsplit hparts hlegs hne =>
      refine counted_advance rfl rfl rfl ?_ ?_ fun _ => rfl
      · intro x hx
        obtain ⟨leg, -, rfl⟩ := List.mem_map.mp hx
        exact legTransfer_nonneg hparts leg
      · intro x hx
        obtain ⟨leg, -, rfl⟩ := List.mem_map.mp hx
        cases leg <;> simp [legTransfer]
  | lock hstatus => exact counted_advance rfl rfl rfl (by simp) (by simp) fun _ => rfl
  | unlock hfunded hlocked => exact counted_advance rfl rfl rfl (by simp) (by simp) fun _ => rfl
  | adminWithdraw hpos htoken hstatus =>
    exact counted_advance rfl rfl rfl (by simpa using Int.le_of_lt hpos) (by simp) fun _ => rfl

end Ledger

end TokenSale
