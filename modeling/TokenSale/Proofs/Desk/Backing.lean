import TokenSale.Proofs.Ledger.Balance
import TokenSale.Proofs.Ledger.Trade
import TokenSale.Proofs.Weighing

/-!
Weights are backed by principal. What a position weighs stays within its amount with the largest
bonus, at the price of the sale, whatever windows its deposits and withdrawals fell into: a bonus
leaves with the principal that earned it. So a position without principal has no weight, and nothing
is owed to it.
-/

namespace TokenSale

open Amount

/-- An amount that stands for a weight. Under price discovery it also weighs no less than it is. -/
def Mechanic.Backs (m : Mechanic) (s : Schedule) (amount weight : Int) : Prop :=
  match m with
  | .fixedPrice price =>
    weight * price.depositUnit * bpsUnit ≤ amount * price.saleUnit * (bpsUnit + s.largest)
  | .priceDiscovery => amount ≤ weight ∧ weight * bpsUnit ≤ amount * (bpsUnit + s.largest)

namespace Mechanic.Backs

variable {m : Mechanic} {s : Schedule} {a a' w w' : Int}

theorem none (m : Mechanic) (s : Schedule) : m.Backs s 0 0 := by
  cases m <;> simp [Backs]

theorem add (h : m.Backs s a w) (h' : m.Backs s a' w') : m.Backs s (a + a') (w + w') := by
  cases m with
  | fixedPrice price =>
    simp only [Backs, Int.add_mul] at h h' ⊢
    exact Int.add_le_add h h'
  | priceDiscovery =>
    simp only [Backs, Int.add_mul] at h h' ⊢
    exact ⟨Int.add_le_add h.1 h'.1, Int.add_le_add h.2 h'.2⟩

theorem weight_eq_zero (h : m.Backs s 0 w) (hw : 0 ≤ w)
    (hm : ∀ p, m = .fixedPrice p → p.Sound) : w = 0 := by
  cases m with
  | fixedPrice price =>
    simp only [Backs, Int.zero_mul] at h
    have hunit : 0 < price.depositUnit * bpsUnit :=
      Int.mul_pos (hm price rfl).depositUnit_pos (by decide)
    rw [Int.mul_assoc] at h
    have hle : w ≤ 0 := Int.le_of_mul_le_mul_right (by rw [Int.zero_mul]; exact h) hunit
    omega
  | priceDiscovery =>
    simp only [Backs, Int.zero_mul, bpsUnit] at h
    omega

end Mechanic.Backs

namespace Position

variable {m : Mechanic} {p : Price} {s : Schedule} {cap sold amount t : Int}

theorem value_le_largest (hp : p.Sound) (hamount : 0 ≤ amount) :
    amount * p.saleUnit * s.rateAt t ≤ amount * p.saleUnit * (bpsUnit + s.largest) :=
  Int.mul_le_mul_of_nonneg_left (s.rateAt_le_largest t)
    (Int.mul_nonneg hamount (Int.le_of_lt hp.saleUnit_pos))

theorem Fills.backs {f : Fill} (hp : p.Sound) (hs : s.Sound) (hamount : 0 ≤ amount)
    (h : Fills p s cap sold amount t f) :
    (Mechanic.fixedPrice p).Backs s f.accepted f.weightAdded := by
  cases h with
  | soldOut hfull => exact .none _ s
  | whole hroom hweight hassets hfits =>
    exact Int.le_trans (assets_value hp hs hweight hassets) (value_le_largest hp hamount)
  | @part weight assets remain refund hroom hweight hassets hcross hrefund =>
    have hbought := assets_value hp hs hweight hassets
    have hreturned := hrefund.value hp hs
    have hkept : 0 ≤ amount - refund := Int.sub_nonneg_of_le hrefund.refund_le
    show (cap - sold) * p.depositUnit * bpsUnit ≤ (amount - refund) * p.saleUnit * _
    calc (cap - sold) * p.depositUnit * bpsUnit
        = assets * p.depositUnit * bpsUnit -
            (sold + assets - cap) * p.depositUnit * bpsUnit := by grind
      _ ≤ amount * p.saleUnit * s.rateAt t - refund * p.saleUnit * s.rateAt t :=
          Int.sub_le_sub hbought hreturned
      _ = (amount - refund) * p.saleUnit * s.rateAt t := by simp only [Int.sub_mul]
      _ ≤ (amount - refund) * p.saleUnit * (bpsUnit + s.largest) := value_le_largest hp hkept

theorem fill_backs {f : Fill} (hm : ∀ p, m = .fixedPrice p → p.Sound) (hs : s.Sound)
    (hamount : 0 ≤ amount) (h : fill m s cap sold amount t = .ok f) :
    m.Backs s f.accepted f.weightAdded := by
  cases m with
  | fixedPrice p => exact (fills_of_fillFixed (hm p rfl) hs h).backs (hm p rfl) hs hamount
  | priceDiscovery =>
    simp only [fill, bind_eq_ok, pure_eq_ok] at h
    obtain ⟨weight, hweight, rfl⟩ := h
    exact ⟨hs.le_weigh hweight, hs.weigh_mul_le hweight⟩

def Backed (m : Mechanic) (s : Schedule) (p : Position) : Prop := m.Backs s p.amount p.weight

variable {q : Position} {totalDeposited totalSold : Int}

theorem backed_zero (m : Mechanic) (s : Schedule) : zero.Backed m s := .none m s

theorem Backed.deposit {r : Purchase} (h : q.Backed m s) (hm : ∀ p, m = .fixedPrice p → p.Sound)
    (hs : s.Sound) (hr : deposit m s cap q totalDeposited totalSold amount t = .ok r) :
    r.position.Backed m s := by
  simp only [Position.deposit, bind_eq_ok, demand_eq_ok, pure_eq_ok] at hr
  obtain ⟨-, hpos, f, hf, -, -, rfl⟩ := hr
  exact h.add (fill_backs hm hs (Int.le_of_lt hpos) hf)

/-- What stays of a position is weighed anew, so it keeps at most the bonus of the moment, and at
most the bonus it had. -/
theorem Backed.withdraw {w : Withdrawal} (h : q.Backed m s) (hs : s.Sound)
    (hw : withdraw m s q totalDeposited totalSold amount t = .ok w) : w.position.Backed m s := by
  cases m with
  | fixedPrice p =>
    simp only [Position.withdraw, withdrawFixed, bind_eq_ok, demand_eq_ok, pure_eq_ok] at hw
    obtain ⟨-, -, -, -, rfl⟩ := hw
    exact .none _ s
  | priceDiscovery =>
    obtain ⟨hpos, -, weight, hweight, rfl⟩ := withdraw_discovery_eq_ok.mp hw
    have hleast := hs.le_weigh hweight
    have hmost := hs.weigh_mul_le hweight
    obtain ⟨hown, -⟩ : q.amount ≤ q.weight ∧ _ := h
    refine ⟨?_, Int.le_trans ?_ hmost⟩
    · show q.amount - amount ≤ min weight q.weight
      omega
    · exact Int.mul_le_mul_of_nonneg_right (Int.min_le_left weight q.weight) (by decide)

end Position

namespace Ledger

variable {l l' : Ledger} {op : Operation} {t : Transition} {e : Entry}

def Backed (l : Ledger) : Prop :=
  l.positions.Forall (Position.Backed l.sale.mechanic l.sale.discounts)

theorem Backed.held (h : l.Backed) (who : String) :
    (l.held who).Backed l.sale.mechanic l.sale.discounts := by
  cases hget : l.positions.get? who with
  | none =>
    simp only [Ledger.held, hget, Option.getD_none]
    exact Position.backed_zero _ _
  | some p =>
    rw [held_of_get? hget]
    exact h who p hget

theorem Backed.step (h : l.Backed) (hsale : l.sale.Bounded) (hstep : Step l op t) :
    t.ledger.Backed := by
  have hprice := hsale.price_sound
  have hdiscounts := hsale.discounts_sound
  unfold Backed
  rw [hstep.sale_eq]
  cases hstep with
  | deposit hfunded hstatus hmin hpurchase =>
    simp only [advance, take]
    split
    · exact Book.Forall.insert h _ ((h.held _).deposit hprice hdiscounts hpurchase)
    · exact h
  | withdraw hopen hposition hwithdrawal =>
    exact Book.Forall.insert h _ ((h _ _ hposition).withdraw hdiscounts hwithdrawal)
  | disburse hstatus hpays =>
    have hpositions := hpays.positions_eq
    cases hpays with
    | @claim participant p r hposition hreleased =>
      have hown : p.Backed l.sale.mechanic l.sale.discounts := h participant p hposition
      simp only [claimPayout, advance, payClaim]
      split
      · exact h
      · exact Book.Forall.insert h participant hown
    | _ => exact hpositions rfl ▸ h
  | _ => exact h

theorem Backed.writes (h : l.Backed) (hsale : l.sale.Bounded) (hwrites : Writes l e l') :
    l'.Backed := by
  cases hwrites with
  | idle hprepared => exact h
  | step hprepared hstep => exact h.step hsale hstep

theorem Backed.of_amount_zero (h : l.Backed) (hsale : l.sale.Bounded)
    (hnonneg : l.positions.Forall Position.Nonneg) {who : String} {p : Position}
    (hp : l.positions.get? who = some p) (hzero : p.amount = 0) :
    p.weight = 0 ∧ l.allocation who = .ok 0 := by
  have hbacked : l.sale.mechanic.Backs l.sale.discounts p.amount p.weight := h who p hp
  rw [hzero] at hbacked
  have hweight := hbacked.weight_eq_zero (hnonneg who p hp).weight_nonneg hsale.price_sound
  refine ⟨hweight, ?_⟩
  simp only [allocation, hp, Sale.allocation, hweight]
  cases l.sale.mechanic <;> rfl

end Ledger

namespace History

theorem run_allBacked {draft : Sale.Draft} {settings : Settings} {outbox : Outbox} {clock : Int}
    {d : Desk} (h : Desk.start draft settings outbox clock = .ok d) (turns : List Turn) :
    (run d turns).ledger.Backed := by
  refine (run_induct (P := fun l _ => l.sale.Bounded → l.Backed) h ?_ ?_ turns).1
    (run_bounded h turns)
  · exact fun s _ _ => Book.forall_empty _
  · intro l es e l' _ hbacked hwrites hbounded
    rw [hwrites.sale_eq] at hbounded
    exact (hbacked hbounded).writes hbounded hwrites

/-- Along every history no position outweighs its principal: with `largest` the largest percentage
of a discount, its weight is at most its amount with that bonus, at the price of the sale. Under
price discovery its amount is also at most its weight. -/
theorem run_backed {draft : Sale.Draft} {settings : Settings} {outbox : Outbox} {clock : Int}
    {d : Desk} (h : Desk.start draft settings outbox clock = .ok d) (turns : List Turn)
    {who : String} {p : Position} (hp : (run d turns).ledger.positions.get? who = some p) :
    (d.ledger.sale.mechanic = .priceDiscovery → p.amount ≤ p.weight ∧
      p.weight * 10000 ≤ p.amount * (10000 + d.ledger.sale.discounts.largest)) ∧
    (∀ price, d.ledger.sale.mechanic = .fixedPrice price →
      p.weight * price.depositUnit * 10000 ≤
        p.amount * price.saleUnit * (10000 + d.ledger.sale.discounts.largest)) ∧
    (p.amount = 0 → p.weight = 0 ∧ (run d turns).ledger.allocation who = .ok 0) := by
  have hall := run_allBacked h turns
  have hbacked : (run d turns).ledger.sale.mechanic.Backs (run d turns).ledger.sale.discounts
      p.amount p.weight := hall who p hp
  rw [run_sale_eq h] at hbacked
  refine ⟨fun hdiscovery => ?_, fun price hfixed => ?_, fun hzero => ?_⟩
  · rw [hdiscovery] at hbacked
    exact hbacked
  · rw [hfixed] at hbacked
    exact hbacked
  · exact hall.of_amount_zero (run_bounded h turns) (run_balanced h turns).2.position_nonneg hp
      hzero

end History

def bonusSale : Sale := { sampleSale with discounts := [⟨0, 50, 2000⟩, ⟨50, 80, 5000⟩] }

def bonusDesk : Desk := { sampleDesk with ledger := { sale := bonusSale } }

/-- Deposits in both windows, and withdrawals in the second and after it. -/
def bonusTurns : List Turn :=
  [⟨.deposit "tok" 1100 "tok" 0 none, 0⟩, ⟨.deposit "alice" 100 "alice" 10 none, 0⟩,
    ⟨.deposit "alice" 100 "alice" 60 none, 0⟩, ⟨.withdraw "alice" 50 70, 1⟩,
    ⟨.deposit "bob" 40 "bob" 60 none, 0⟩, ⟨.withdraw "bob" 40 90, 1⟩]

theorem History.run_backed_bonus :
    Desk.start bonusSale.draft {} (.kept []) 0 = .ok bonusDesk ∧
      (run bonusDesk bonusTurns).ledger.positions.get? "alice" = some ⟨150, 225, 0⟩ ∧
      ((150 : Int) ≤ 225 ∧ (225 : Int) * 10000 ≤ 150 * (10000 + bonusSale.discounts.largest)) ∧
      (run bonusDesk bonusTurns).ledger.positions.get? "bob" = some ⟨0, 0, 0⟩ ∧
      (run bonusDesk bonusTurns).ledger.allocation "bob" = .ok 0 := by
  have hstart : Desk.start bonusSale.draft {} (.kept []) 0 = .ok bonusDesk := rfl
  have halice : (run bonusDesk bonusTurns).ledger.positions.get? "alice" = some ⟨150, 225, 0⟩ := by
    decide +kernel
  have hbob : (run bonusDesk bonusTurns).ledger.positions.get? "bob" = some ⟨0, 0, 0⟩ := by
    decide +kernel
  exact ⟨hstart, halice, (run_backed hstart bonusTurns halice).1 rfl, hbob,
    ((run_backed hstart bonusTurns hbob).2.2 rfl).2⟩

end TokenSale
