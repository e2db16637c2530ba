import TokenSale.Proofs.Desk.History
import TokenSale.Proofs.Ledger.Posting

/-!
The balance of a ledger: its totals are those of its positions, a fixed price sells no more than the
sale amount, nothing is negative, and deposits are made for known participants only. Every step
keeps it, so it holds along every history of a desk.
-/

namespace TokenSale

namespace Ledger

structure Balanced (l : Ledger) : Prop where
  participants_eq : l.participants = l.positions.size
  totalDeposited_eq : l.totalDeposited = l.positions.total Position.amount
  totalSold_eq : l.totalSold = l.positions.total Position.weight
  capped : l.sale.mechanic.isFixedPrice = true → l.totalSold ≤ l.sale.saleAmount
  position_nonneg : l.positions.Forall Position.Nonneg
  claim_nonneg : l.individualClaims.Forall (0 ≤ ·)
  depositor_known : ∀ d who, l.depositors.get? d = some who → (l.positions.get? who).isSome

variable {l : Ledger} {who : String}

namespace Balanced

theorem checkTotals_ok (h : l.Balanced) : l.checkTotals = .ok () := by
  simp only [checkTotals, bind_eq_ok, demand_eq_ok]
  exact ⟨(), h.participants_eq, (), ⟨h.totalDeposited_eq.symm, h.totalSold_eq.symm⟩, h.capped⟩

theorem tallied (h : l.Balanced) : l.Tallied :=
  ⟨h.totalDeposited_eq, h.totalSold_eq, h.position_nonneg⟩

theorem totalDeposited_nonneg (h : l.Balanced) : 0 ≤ l.totalDeposited :=
  h.tallied.totalDeposited_nonneg

theorem totalSold_nonneg (h : l.Balanced) : 0 ≤ l.totalSold := h.tallied.totalSold_nonneg

end Balanced

/-! Deposits. -/

theorem take_totalDeposited {depositor participant : String} {q : Position.Purchase}
    {m : Mechanic} {cap amount : Int}
    (hq : q.Law m cap (l.held participant) l.totalDeposited l.totalSold amount) :
    (l.take depositor participant q).totalDeposited = l.totalDeposited + q.accepted := by
  have haccepted := hq.accepted_nonneg
  simp only [take]
  split
  · exact hq.totalDeposited_eq
  · -- a deposit is skipped only if it is refunded whole
    rename_i hskip
    have hzero : q.accepted = 0 := by omega
    rw [hzero, Int.add_zero]

theorem held_take {depositor participant who : String} {q : Position.Purchase} {m : Mechanic}
    {cap amount : Int}
    (hq : q.Law m cap (l.held participant) l.totalDeposited l.totalSold amount) :
    ((l.take depositor participant q).held who).claimed = (l.held who).claimed ∧
    ((l.take depositor participant q).held who).amount =
      (l.held who).amount + if participant = who then q.accepted else 0 := by
  have haccepted := hq.accepted_nonneg
  simp only [take]
  split
  · unfold held
    by_cases heq : who = participant
    · subst heq
      rw [held_insert_self, hq.position_eq, if_pos rfl]
      exact ⟨rfl, rfl⟩
    · rw [held_insert_of_ne l heq, if_neg (Ne.symm heq), Int.add_zero]
      exact ⟨rfl, rfl⟩
  · rename_i hskip
    have hzero : q.accepted = 0 := by omega
    refine ⟨rfl, ?_⟩
    rw [hzero]
    split <;> omega

/-! Withdrawals. -/

section Withdrawals

variable {p : Position} {w : Position.Withdrawal} {amount : Int}

theorem held_release {participant : String} (hp : l.positions.get? participant = some p)
    (hw : w.Law p l.totalDeposited l.totalSold amount) :
    ((l.release participant w).held who).claimed = (l.held who).claimed ∧
    ((l.release participant w).held who).amount =
      (l.held who).amount - if participant = who then amount else 0 := by
  show (((l.positions.insert participant w.position).get? who).getD .zero).claimed = _ ∧
    (((l.positions.insert participant w.position).get? who).getD .zero).amount = _
  by_cases heq : who = participant
  · subst heq
    rw [held_insert_self, held_of_get? hp, if_pos rfl]
    exact ⟨hw.claimed_eq, hw.amount_eq⟩
  · rw [held_insert_of_ne l heq, if_neg (Ne.symm heq), Int.sub_zero]
    exact ⟨rfl, rfl⟩

end Withdrawals

/-! Claims. -/

theorem held_payClaim {participant : String} {p : Position} {amount : Int}
    (hp : l.positions.get? participant = some p) :
    ((l.payClaim participant p amount).held who).amount = (l.held who).amount ∧
    ((l.payClaim participant p amount).held who).weight = (l.held who).weight ∧
    ((l.payClaim participant p amount).held who).claimed =
      (l.held who).claimed + if participant = who then amount else 0 := by
  unfold payClaim
  split
  · rename_i hzero
    refine ⟨rfl, rfl, ?_⟩
    rw [hzero]
    split <;> omega
  · show (((l.positions.insert participant _).get? who).getD .zero).amount = _ ∧
      (((l.positions.insert participant _).get? who).getD .zero).weight = _ ∧
      (((l.positions.insert participant _).get? who).getD .zero).claimed = _
    by_cases heq : who = participant
    · subst heq
      rw [held_insert_self, held_of_get? hp, if_pos rfl]
      exact ⟨rfl, rfl, rfl⟩
    · rw [held_insert_of_ne l heq, if_neg (Ne.symm heq), Int.add_zero]
      exact ⟨rfl, rfl, rfl⟩

/-! Steps and histories. -/

theorem individualClaimed_nonneg (h : l.individualClaims.Forall (0 ≤ ·)) (who : String) :
    0 ≤ l.individualClaimed who := by
  unfold individualClaimed
  cases hget : l.individualClaims.get? who with
  | none => exact Int.le_refl 0
  | some c => exact h who c hget

theorem payIndividual_nonneg (h : l.individualClaims.Forall (0 ≤ ·)) {amount : Int}
    (hamount : 0 ≤ amount) : (l.payIndividual who amount).individualClaims.Forall (0 ≤ ·) := by
  unfold payIndividual
  split
  · exact h
  · exact h.insert who (Int.add_nonneg (individualClaimed_nonneg h who) hamount)

theorem Step.claim_nonneg {op : Operation} {t : Transition} (hstep : Step l op t)
    (h : l.individualClaims.Forall (0 ≤ ·)) : t.ledger.individualClaims.Forall (0 ≤ ·) := by
  cases hstep with
  | deposit hfunded hstatus hmin hpurchase =>
    rw [take_eq]
    exact h
  | disburse hstatus hpays =>
    cases hpays with
    | claim hposition hreleased =>
      rw [claimPayout, payClaim_eq]
      exact h
    | claimIndividual hvested hreleased => exact payIndividual_nonneg h (claimable_nonneg _ _)
    | distribute hplan hbatch hne => exact h
    | distributeDeposits hplan hsplit hparts hlegs hne => exact h
  | _ => exact h

theorem Balanced.step {op : Operation} {t : Transition} (h : l.Balanced) (hstep : Step l op t) :
    t.ledger.Balanced := by
  have hposts := hstep.posts h.tallied
  have htallied := hposts.tallied h.tallied
  exact {
    participants_eq := hposts.counted h.participants_eq
    totalDeposited_eq := htallied.totalDeposited_eq
    totalSold_eq := htallied.totalSold_eq
    capped := fun hfixed => by
      rw [hstep.sale_eq] at hfixed ⊢
      exact hposts.capped hfixed (h.capped hfixed)
    position_nonneg := htallied.position_nonneg
    claim_nonneg := hstep.claim_nonneg h.claim_nonneg
    depositor_known := hposts.attached h.depositor_known }

theorem Balanced.writes {l' : Ledger} {e : Entry} (h : l.Balanced) (hwrites : Writes l e l') :
    l'.Balanced := by
  cases hwrites with
  | idle hprepared => exact h
  | step hprepared hstep => exact h.step hstep

theorem balanced_empty {s : Sale} (h : 0 ≤ s.saleAmount) : Balanced { sale := s } where
  participants_eq := rfl
  totalDeposited_eq := rfl
  totalSold_eq := rfl
  capped := fun _ => h
  position_nonneg := Book.forall_empty _
  claim_nonneg := Book.forall_empty _
  depositor_known := fun d who hd => by simp at hd

end Ledger

/-- Along every history of a desk the ledger is balanced, so its check of the totals never fails. -/
theorem History.run_balanced {draft : Sale.Draft} {settings : Settings} {outbox : Outbox}
    {clock : Int} {d : Desk} (h : Desk.start draft settings outbox clock = .ok d)
    (turns : List Turn) :
    (run d turns).ledger.checkTotals = .ok () ∧ (run d turns).ledger.Balanced := by
  have hrun := (run_induct (P := fun l _ => l.Balanced) h
    (fun s hs => Ledger.balanced_empty (Int.le_of_lt hs.saleAmount_pos))
    (fun l es e l' _ hbalanced hwrites => hbalanced.writes hwrites) turns).1
  exact ⟨hrun.checkTotals_ok, hrun⟩

theorem History.run_balanced_sample :
    Desk.start sampleSale.draft {} (.kept []) 0 = .ok sampleDesk ∧
      (run sampleDesk sampleTurns).ledger.checkTotals = .ok () ∧
      (run sampleDesk sampleTurns).ledger.Balanced := by
  have hstart : Desk.start sampleSale.draft {} (.kept []) 0 = .ok sampleDesk := rfl
  exact ⟨hstart, run_balanced hstart sampleTurns⟩

end TokenSale
