import Mathlib.Data.List.Nodup
import TokenSale.Proofs.Desk.Issued
import TokenSale.Proofs.Release

/-!
Payouts of sale tokens, in the order of time: what went out by claims, by batches and to stakeholders
is what the ledger has recorded of it, and nobody is paid more than is owed.
-/

namespace TokenSale

namespace Ledger

variable {l l' : Ledger} {op : Operation} {t : Transition} {e : Entry} {es : List Entry}

theorem amountOf_claimPayout (q : Transfer → Bool) (who : String) (p : Position) {amount : Int}
    (h : 0 ≤ amount) : amountOf q (l.claimPayout who p amount).transfers =
      if q ⟨.sale, who, amount, .claim⟩ then amount else 0 :=
  amountOf_advance_one q l _ _ _ _ _ h

theorem amountOf_individualPayout (q : Transfer → Bool) (who : String) {amount : Int}
    (h : 0 ≤ amount) : amountOf q (l.individualPayout who amount).transfers =
      if q ⟨.sale, who, amount, .individualVesting⟩ then amount else 0 :=
  amountOf_advance_one q l _ _ _ _ _ h

/-! Claims of participants. -/

structure ClaimsPaid (l : Ledger) (es : List Entry) : Prop where
  issued_eq : issued es (Transfer.isSaleFor .claim) = l.positions.total Position.claimed
  claimed_le : l.positions.Forall fun p => p.claimed ≤ l.sale.entitlement p l.totalSold

theorem ClaimsPaid.of_eq (h : l.ClaimsPaid es) (hreasons : ∀ x ∈ e.sent, x.reason ≠ .claim)
    (hpositions : l'.positions = l.positions) (hsale : l'.sale = l.sale)
    (hsold : l'.totalSold = l.totalSold) : l'.ClaimsPaid (es ++ [e]) where
  issued_eq := by
    rw [issued_append, amountOf_eq_zero_of_reason_ne Transfer.reason_of_isSaleFor hreasons,
      Int.add_zero, hpositions, h.issued_eq]
  claimed_le := by
    rw [hpositions, hsale, hsold]
    exact h.claimed_le

theorem ClaimsPaid.advance (h : l.ClaimsPaid es) (old : Ledger) (action : Action)
    (who : Option String) (transfers : List Transfer) (outcome : Outcome) :
    (old.advance action l who transfers outcome).ledger.ClaimsPaid es :=
  ⟨h.issued_eq, h.claimed_le⟩

theorem Untouched.claimed_zero (h : l.Untouched) {who : String} {p : Position}
    (hp : l.positions.get? who = some p) : p.claimed = 0 := by
  rw [← held_of_get? hp]
  exact h.claimed_eq who

theorem Untouched.claimsPaid (h : l.Untouched) (hbalanced : l.Balanced)
    (hsale : 0 ≤ l.sale.saleAmount) (hissued : issued es (Transfer.isSaleFor .claim) = 0) :
    l.ClaimsPaid es where
  issued_eq := by
    rw [hissued]
    exact (Book.total_eq_zero fun who p hp => h.claimed_zero hp).symm
  claimed_le := by
    intro who p hp
    rw [h.claimed_zero hp]
    exact Sale.entitlement_nonneg hsale (hbalanced.position_nonneg who p hp)
      hbalanced.totalSold_nonneg

theorem payClaim_total {who : String} {p : Position} {amount : Int}
    (hp : l.positions.get? who = some p) :
    (l.payClaim who p amount).positions.total Position.claimed =
      l.positions.total Position.claimed + amount := by
  unfold payClaim
  split
  · rename_i hzero
    rw [hzero, Int.add_zero]
  · show (l.positions.insert who _).total Position.claimed = _
    rw [total_put rfl, hp]
    show _ + (p.claimed + amount) - p.claimed = _
    omega

theorem ClaimsPaid.payClaim (h : l.ClaimsPaid es) (hsale : 0 ≤ l.sale.saleAmount)
    (hbalanced : l.Balanced) {who : String} {p : Position} {r now : Int}
    (hp : l.positions.get? who = some p) (hr : l.sale.releasedTo p l.totalSold now = .ok r)
    (hsent : amountOf (Transfer.isSaleFor .claim) e.sent = claimable r p.claimed) :
    (l.payClaim who p (claimable r p.claimed)).ClaimsPaid (es ++ [e]) where
  issued_eq := by rw [issued_append, hsent, payClaim_total hp, h.issued_eq]
  claimed_le := by
    intro who' p' hp'
    rw [payClaim_eq]
    show p'.claimed ≤ l.sale.entitlement p' l.totalSold
    unfold Ledger.payClaim at hp'
    split at hp'
    · exact h.claimed_le who' p' hp'
    · have hreleased := Sale.releasedTo_le hsale (hbalanced.position_nonneg who p hp)
        hbalanced.totalSold_nonneg hr
      refine h.claimed_le.insert who ?_ who' p' hp'
      exact add_claimable_le hreleased (h.claimed_le who p hp)

theorem Move.claimsPaid (h : Move l e l') (hclaims : l.ClaimsPaid es) :
    l'.ClaimsPaid (es ++ [e]) := by
  obtain ⟨hsound, hkept, hbalanced, hbalanced', -, hkind⟩ := h
  have hsale := Int.le_of_lt hsound.saleAmount_pos
  cases hkind with
  | idle => exact hclaims.of_eq (by simp) rfl rfl rfl
  | @quiet op prepared t hquiet hphase =>
    have hnone := hquiet.reason_ne .claim rfl
    rcases hphase with huntouched | hsame
    · refine (huntouched.quiet hquiet).claimsPaid hbalanced' (hkept ▸ hsale) ?_
      rw [issued_append, amountOf_eq_zero_of_reason_ne Transfer.reason_of_isSaleFor hnone,
        Int.add_zero, hclaims.issued_eq]
      exact Book.total_eq_zero fun who p hp => huntouched.claimed_zero hp
    · exact hclaims.of_eq hnone (by rw [hsame]) hkept (by rw [hsame])
  | @pays op prepared t now hpays =>
    have hkeeps := hpays.keeps
    have hreasons := hpays.reason_ne .claim
    have hpositions := hpays.positions_eq
    cases hpays with
    | claim hposition hreleased =>
      refine (hclaims.payClaim hsale hbalanced hposition hreleased ?_).advance ..
      rw [amountOf_claimPayout _ _ _ (claimable_nonneg _ _)]
      rfl
    | _ => exact hclaims.of_eq (hreasons rfl) (hpositions rfl) hkept hkeeps.totalSold_eq

/-! Batches. -/

def BatchesPaid (l : Ledger) (es : List Entry) : Prop :=
  issued es (Transfer.isSaleFor .distribution) = paidOut l.sale.payouts l.paid

theorem BatchesPaid.of_eq (h : l.BatchesPaid es)
    (hreasons : ∀ x ∈ e.sent, x.reason ≠ .distribution) (hsale : l'.sale = l.sale)
    (hpaid : l'.paid = l.paid) : l'.BatchesPaid (es ++ [e]) := by
  unfold BatchesPaid
  rw [issued_append, amountOf_eq_zero_of_reason_ne Transfer.reason_of_isSaleFor hreasons,
    Int.add_zero, hsale, hpaid]
  exact h

theorem amountOf_batch (batch : List Payout) :
    amountOf (Transfer.isSaleFor .distribution) (batch.map payoutTransfer) =
      sumOf Prod.snd batch := by
  induction batch with
  | nil => rfl
  | cons r batch ih =>
    rw [List.map_cons, amountOf_cons, ih]
    rfl

theorem BatchesPaid.batchPayout (h : l.BatchesPaid es) (hsale : l.sale.Sound) {plan : Plan}
    {batch : List Payout} (hplan : l.sale.plan = some plan) (hbatch : plan.IsBatch l.paid batch)
    (hsent : e.sent = (l.batchPayout batch).transfers) :
    (l.batchPayout batch).ledger.BatchesPaid (es ++ [e]) := by
  have hsound := hsale.plan_sound plan hplan
  have hamount : amountOf (Transfer.isSaleFor .distribution) e.sent = sumOf Prod.snd batch := by
    rw [hsent, Ledger.batchPayout, amountOf_advance, amountOf_batch]
    intro x hx
    obtain ⟨r, hr, rfl⟩ := List.mem_map.mp hx
    exact Int.le_of_lt (hbatch.due r hr).1
  have hlog : (l.batchPayout batch).ledger.paid = l.paid ++ batch.map Prod.fst :=
    hbatch.recordPaid_eq hsound
  have hold : issued es (Transfer.isSaleFor .distribution) = paidOut l.sale.payouts l.paid := h
  show _ = paidOut l.sale.payouts (l.batchPayout batch).ledger.paid
  rw [issued_append, hamount, hold, hlog, Sale.payouts_of_plan hplan]
  refine (paidOut_batch hbatch.sublist hsound.payouts_nodup (fun r hr => (hbatch.due r hr).2) ?_).symm
  intro r _
  exact List.mem_append

theorem Move.batchesPaid (h : Move l e l') (hbatches : l.BatchesPaid es) :
    l'.BatchesPaid (es ++ [e]) := by
  obtain ⟨hsale, hkept, -, -, -, hkind⟩ := h
  cases hkind with
  | idle => exact hbatches.of_eq (by simp) rfl rfl
  | quiet hquiet hphase => exact hbatches.of_eq (hquiet.reason_ne _ rfl) hkept hquiet.paid_eq
  | pays hpays =>
    have hreasons := hpays.reason_ne .distribution
    have hpaid := hpays.paid_eq
    cases hpays with
    | distribute hplan hbatch hne => exact hbatches.batchPayout hsale hplan hbatch rfl
    | _ => exact hbatches.of_eq (hreasons rfl) hkept (hpaid rfl)

/-! Stakeholders with a vesting of their own. -/

structure VestedPaid (l : Ledger) (es : List Entry) : Prop where
  issued_eq : issued es (Transfer.isSaleFor .individualVesting) =
    sumOf (fun h => l.individualClaimed h.account) l.sale.vestedHolders
  claimed_le : ∀ h ∈ l.sale.vestedHolders, l.individualClaimed h.account ≤ h.allocation

theorem VestedPaid.of_eq (h : l.VestedPaid es)
    (hreasons : ∀ x ∈ e.sent, x.reason ≠ .individualVesting) (hsale : l'.sale = l.sale)
    (hclaims : l'.individualClaims = l.individualClaims) : l'.VestedPaid (es ++ [e]) where
  issued_eq := by
    unfold individualClaimed
    rw [issued_append, amountOf_eq_zero_of_reason_ne Transfer.reason_of_isSaleFor hreasons,
      Int.add_zero, hsale, hclaims]
    exact h.issued_eq
  claimed_le := by
    unfold individualClaimed
    rw [hsale, hclaims]
    exact h.claimed_le

theorem payIndividual_claimed (l : Ledger) (who who' : String) (amount : Int) :
    (l.payIndividual who amount).individualClaimed who' =
      l.individualClaimed who' + if who = who' then amount else 0 := by
  unfold payIndividual
  split
  · rename_i hzero
    rw [hzero]
    split <;> omega
  · show ((l.individualClaims.insert who _).get? who').getD 0 = _
    by_cases heq : who = who'
    · subst heq
      rw [Book.get?_insert_self, if_pos rfl]
      rfl
    · rw [Book.get?_insert_of_ne _ (Ne.symm heq), if_neg heq, Int.add_zero]
      rfl

theorem payIndividual_sale (l : Ledger) (who : String) (amount : Int) :
    (l.payIndividual who amount).sale = l.sale := by
  rw [payIndividual_eq]

theorem VestedPaid.payIndividual (h : l.VestedPaid es) (hsale : l.sale.Sound) {who : String}
    {holder : Stakeholder} {r now : Int} (hvested : l.sale.vested? who = some holder)
    (hreleased : holder.releasedAt l.sale.endTime now = .ok r)
    (hsent : amountOf (Transfer.isSaleFor .individualVesting) e.sent =
      claimable r (l.individualClaimed who)) :
    (l.payIndividual who (claimable r (l.individualClaimed who))).VestedPaid (es ++ [e]) where
  issued_eq := by
    obtain ⟨hmem, haccount⟩ := Sale.mem_vestedHolders hvested
    simp only [payIndividual_sale, payIndividual_claimed, issued_append, hsent, h.issued_eq]
    rw [← haccount]
    exact (sumOf_add_at hsale.vested_nodup hmem _ _).symm
  claimed_le := by
    obtain ⟨hmem, haccount⟩ := Sale.mem_vestedHolders hvested
    intro other hother
    rw [payIndividual_sale] at hother
    rw [payIndividual_claimed]
    have hclaimed := h.claimed_le other hother
    split
    · rename_i heq
      have hsame : other = holder :=
        List.inj_on_of_nodup_map hsale.vested_nodup hother hmem (heq.symm.trans haccount.symm)
      subst hsame
      rw [heq]
      exact add_claimable_le (released_le (hsale.vested_sound hmem).1 hreleased) hclaimed
    · omega

theorem VestedPaid.advance (h : l.VestedPaid es) (old : Ledger) (action : Action)
    (who : Option String) (transfers : List Transfer) (outcome : Outcome) :
    (old.advance action l who transfers outcome).ledger.VestedPaid es :=
  ⟨h.issued_eq, h.claimed_le⟩

theorem Move.vestedPaid (h : Move l e l') (hvested : l.VestedPaid es) :
    l'.VestedPaid (es ++ [e]) := by
  obtain ⟨hsale, hkept, -, -, -, hkind⟩ := h
  cases hkind with
  | idle => exact hvested.of_eq (by simp) rfl rfl
  | quiet hquiet hphase =>
    exact hvested.of_eq (hquiet.reason_ne _ rfl) hkept hquiet.individualClaims_eq
  | pays hpays =>
    have hreasons := hpays.reason_ne .individualVesting
    have hindividual := hpays.individualClaims_eq
    cases hpays with
    | claimIndividual hholder hreleased =>
      refine (hvested.payIndividual hsale hholder hreleased ?_).advance ..
      rw [amountOf_individualPayout _ _ (claimable_nonneg _ _)]
      rfl
    | _ => exact hvested.of_eq (hreasons rfl) hkept (hindividual rfl)

theorem BatchesPaid.issued_le (h : l.BatchesPaid es) (hsale : l.sale.Sound) :
    issued es (Transfer.isSaleFor .distribution) ≤ sumOf Prod.snd l.sale.payouts := by
  rw [h]
  exact paidOut_le hsale.payout_nonneg l.paid

theorem VestedPaid.issued_le (h : l.VestedPaid es) :
    issued es (Transfer.isSaleFor .individualVesting) ≤
      sumOf Stakeholder.allocation l.sale.vestedHolders := by
  rw [h.issued_eq]
  exact sumOf_le_sumOf h.claimed_le

theorem ClaimsPaid.issued_le (h : l.ClaimsPaid es) (hsale : l.sale.Sound)
    (hbalanced : l.Balanced) : issued es (Transfer.isSaleFor .claim) ≤ l.sale.saleAmount := by
  rw [h.issued_eq]
  exact Int.le_trans (Book.total_le_total h.claimed_le)
    (hbalanced.entitlements_le (Int.le_of_lt hsale.saleAmount_pos))

theorem claimsPaid_empty {s : Sale} (h : s.Sound) : ClaimsPaid { sale := s } [] := by
  have hnonneg := Int.le_of_lt h.saleAmount_pos
  exact (empty_untouched s).claimsPaid (balanced_empty hnonneg) hnonneg rfl

theorem batchesPaid_empty (s : Sale) : BatchesPaid { sale := s } [] :=
  (sumOf_eq_zero fun r _ => by simp).symm

theorem vestedPaid_empty {s : Sale} (h : s.Sound) : VestedPaid { sale := s } [] where
  issued_eq := (sumOf_eq_zero fun _ _ => rfl).symm
  claimed_le := fun _ hholder => (h.vested_sound hholder).1

end Ledger

end TokenSale
