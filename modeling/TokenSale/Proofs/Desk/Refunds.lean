import TokenSale.Proofs.Desk.Backing

/-!
Money back. While withdrawals are open, every participant can take out the whole principal at once,
whatever happened before: zero weighs nothing at any rate, so nothing can overflow. All participants
can do so one after the other, in any order, and then no deposit and no weight is left.
-/

namespace TokenSale

namespace Position

theorem withdraw_whole {s : Schedule} {p : Position} (hs : s.Sound) (hpos : 0 < p.amount)
    (hweight : 0 ≤ p.weight) (m : Mechanic) (totalDeposited totalSold t : Int) :
    withdraw m s p totalDeposited totalSold p.amount t =
      .ok ⟨⟨0, 0, p.claimed⟩, Amount.monus totalDeposited p.amount,
        Amount.monus totalSold p.weight, p.amount, p.weight⟩ := by
  cases m with
  | fixedPrice price =>
    simp only [withdraw, withdrawFixed, bind_eq_ok, demand_eq_ok, pure_eq_ok, and_true,
      exists_const]
    exact hpos
  | priceDiscovery =>
    have hleft : s.weigh (p.amount - p.amount) t = .ok 0 := by
      rw [Int.sub_self]
      exact hs.weigh_zero
    refine withdraw_discovery_eq_ok.mpr ⟨hpos, Int.le_refl _, 0, hleft, ?_⟩
    rw [Int.min_eq_left hweight, Int.sub_self, Int.sub_zero]

end Position

namespace Ledger

variable {l l' : Ledger} {now : Int} {who : String} {p : Position}

/-- The ledger after operations of which none is refused, with all their transfers. -/
def performAll (l : Ledger) : List Operation → Except Fault (Ledger × List Transfer)
  | [] => .ok (l, [])
  | op :: ops => do
    let t ← l.perform op
    let (l', transfers) ← t.ledger.performAll ops
    return (l', t.transfers ++ transfers)

def wholeWithdrawal (l : Ledger) (now : Int) (who : String) : Operation :=
  .withdraw who (l.held who).amount now

def wholeRefund (l : Ledger) (who : String) : Transfer :=
  ⟨.deposit, who, (l.held who).amount, .withdraw⟩

theorem wholeWithdrawals_congr {order : List String}
    (h : ∀ who ∈ order, l'.held who = l.held who) (now : Int) :
    order.map (l'.wholeWithdrawal now) = order.map (l.wholeWithdrawal now) ∧
      order.map l'.wholeRefund = order.map l.wholeRefund := by
  refine ⟨List.map_congr_left fun who hwho => ?_, List.map_congr_left fun who hwho => ?_⟩
  · rw [wholeWithdrawal, wholeWithdrawal, h who hwho]
  · rw [wholeRefund, wholeRefund, h who hwho]

theorem canWithdraw_iff :
    l.canWithdraw now = true ↔ l.status now = .failed ∨ l.status now = .locked ∨
      l.status now = .ongoing ∧ l.sale.mechanic = .priceDiscovery := by
  unfold canWithdraw
  cases l.status now <;> cases l.sale.mechanic <;> simp [Mechanic.isFixedPrice]

theorem status_eq_locked :
    l.status now = .locked ↔ l.funded = true ∧ l.locked = true := by
  unfold status
  constructor
  · intro h
    repeat' split at h
    all_goals try cases h
    simp_all
  · rintro ⟨hfunded, hlocked⟩
    rw [if_neg (by simp [hfunded]), if_pos hlocked]

theorem canWithdraw_of_le (hsale : l'.sale = l.sale) (hfunded : l'.funded = l.funded)
    (hlocked : l'.locked = l.locked) (hle : l'.totalDeposited ≤ l.totalDeposited)
    (h : l.canWithdraw now = true) : l'.canWithdraw now = true := by
  rw [canWithdraw_iff] at h ⊢
  rw [status_eq_failed, status_eq_locked, status_eq_ongoing] at h ⊢
  rw [hsale, hfunded, hlocked]
  rcases h with ⟨hf, hl, hstart, hend, hcap⟩ | hlocked | hongoing
  · exact .inl ⟨hf, hl, hstart, hend, Int.lt_of_le_of_lt hle hcap⟩
  · exact .inr (.inl hlocked)
  · exact .inr (.inr hongoing)

theorem held_of_pos (h : 0 < (l.held who).amount) : l.positions.get? who = some (l.held who) := by
  cases hget : l.positions.get? who with
  | none => simp [held, hget, Position.zero] at h
  | some p => rw [held_of_get? hget]

structure Refundable (l : Ledger) (now : Int) : Prop where
  bounded : l.sale.Bounded
  tallied : l.Tallied
  backed : l.Backed
  opened : l.canWithdraw now = true

theorem Refundable.withdraw (h : l.Refundable now) (hp : l.positions.get? who = some p)
    (hpos : 0 < p.amount) :
    ∃ t, l.perform (.withdraw who p.amount now) = .ok t ∧
      t.transfers = [⟨.deposit, who, p.amount, .withdraw⟩] ∧
      t.ledger.positions = l.positions.insert who ⟨0, 0, p.claimed⟩ ∧ t.ledger.Refundable now := by
  have hw := Position.withdraw_whole h.bounded.discounts_sound hpos
    (h.tallied.position_nonneg who p hp).weight_nonneg l.sale.mechanic l.totalDeposited l.totalSold
    now
  have hperform := withdraw_eq_ok.mpr ⟨h.opened, p, hp, _, hw, rfl⟩
  have hstep := step_of_withdraw hperform
  refine ⟨_, hperform, ?_, rfl, ?_⟩
  · simp [advance, hpos]
  · refine ⟨h.bounded, (hstep.posts h.tallied).tallied h.tallied, h.backed.step h.bounded hstep, ?_⟩
    refine canWithdraw_of_le (l := l) rfl rfl rfl ?_ h.opened
    have hlowered := h.tallied.release_totalDeposited hp (Position.withdraw_law hw)
    exact Int.le_trans (Int.le_of_eq hlowered) (Int.sub_le_self _ (Int.le_of_lt hpos))

theorem Refundable.totals_eq_zero (h : l.Refundable now) (hnone : ∀ who, (l.held who).amount ≤ 0) :
    l.totalDeposited = 0 ∧ l.totalSold = 0 := by
  have hamount : l.positions.Forall fun p => p.amount = 0 := by
    intro who p hp
    have hle := hnone who
    have hge := (h.tallied.position_nonneg who p hp).amount_nonneg
    rw [held_of_get? hp] at hle
    omega
  have hweight : l.positions.Forall fun p => p.weight = 0 := fun who p hp =>
    (h.backed.of_amount_zero h.bounded h.tallied.position_nonneg hp (hamount who p hp)).1
  rw [h.tallied.totalDeposited_eq, h.tallied.totalSold_eq]
  exact ⟨Book.total_eq_zero hamount, Book.total_eq_zero hweight⟩

/-- All who have principal withdraw it one after the other. The induction is on who is still to
come: exactly those have any principal. -/
theorem Refundable.withdrawAll {order : List String} (h : l.Refundable now) (hnodup : order.Nodup)
    (hall : ∀ who, who ∈ order ↔ 0 < (l.held who).amount) :
    ∃ l', l.performAll (order.map (l.wholeWithdrawal now)) = .ok (l', order.map l.wholeRefund) ∧
      l'.totalDeposited = 0 ∧ l'.totalSold = 0 := by
  induction order generalizing l with
  | nil =>
    refine ⟨l, rfl, h.totals_eq_zero fun who => ?_⟩
    exact Int.not_lt.mp fun hpos => absurd ((hall who).mpr hpos) (by simp)
  | cons who rest ih =>
    obtain ⟨hfresh, hrest⟩ := List.nodup_cons.mp hnodup
    have hpos := (hall who).mp List.mem_cons_self
    obtain ⟨t, hperform, htransfers, hpositions, hafter⟩ := h.withdraw (held_of_pos hpos) hpos
    have hgone : (t.ledger.held who).amount = 0 := by
      rw [held, hpositions, held_insert_self]
    have hothers : ∀ other, other ≠ who → t.ledger.held other = l.held other := by
      intro other hne
      rw [held, hpositions, held_insert_of_ne l hne]
    have hleft : ∀ other, other ∈ rest ↔ 0 < (t.ledger.held other).amount := by
      intro other
      by_cases heq : other = who
      · rw [heq, hgone]
        exact iff_of_false hfresh (Int.lt_irrefl 0)
      · rw [hothers other heq, ← hall other, List.mem_cons]
        exact ⟨.inr, fun hmem => hmem.resolve_left heq⟩
    obtain ⟨l', hrun, hzero⟩ := ih hafter hrest hleft
    have hsame : ∀ other ∈ rest, t.ledger.held other = l.held other := fun other hmem =>
      hothers other fun heq => hfresh (heq ▸ hmem)
    obtain ⟨hops, hpaid⟩ := wholeWithdrawals_congr hsame now
    rw [hops, hpaid] at hrun
    have hfirst : l.perform (l.wholeWithdrawal now who) = .ok t := hperform
    refine ⟨l', ?_, hzero⟩
    simp only [List.map_cons, performAll, hfirst, bind_eq_ok, pure_eq_ok]
    exact ⟨t, rfl, _, hrun, by rw [htransfers]; rfl⟩

end Ledger

namespace History

theorem run_refundable {draft : Sale.Draft} {settings : Settings} {outbox : Outbox} {clock : Int}
    {d : Desk} (h : Desk.start draft settings outbox clock = .ok d) (turns : List Turn) {now : Int}
    (hopen : (run d turns).ledger.canWithdraw now = true) :
    (run d turns).ledger.Refundable now :=
  ⟨run_bounded h turns, (run_balanced h turns).2.tallied, run_allBacked h turns, hopen⟩

/-- Along every history, while a sale has failed or is locked, and under price discovery while it is
open, everyone with principal can withdraw all of it. Each such withdrawal pays exactly the
principal and leaves all others as they are; and one after the other they leave nothing in total, in
whatever order. -/
theorem run_money_back {draft : Sale.Draft} {settings : Settings} {outbox : Outbox} {clock : Int}
    {d : Desk} (h : Desk.start draft settings outbox clock = .ok d) (turns : List Turn) {now : Int}
    (hopen : (run d turns).ledger.status now = .failed ∨
      (run d turns).ledger.status now = .locked ∨
      (run d turns).ledger.status now = .ongoing ∧
        (run d turns).ledger.sale.mechanic = .priceDiscovery) :
    (∀ who p, (run d turns).ledger.positions.get? who = some p → 0 < p.amount →
      ∃ t, (run d turns).ledger.perform (.withdraw who p.amount now) = .ok t ∧
        t.transfers = [⟨.deposit, who, p.amount, .withdraw⟩] ∧
        t.ledger.positions = (run d turns).ledger.positions.insert who ⟨0, 0, p.claimed⟩) ∧
    (∀ order : List String, order.Nodup →
      (∀ who, who ∈ order ↔ 0 < ((run d turns).ledger.held who).amount) →
      ∃ l', (run d turns).ledger.performAll
          (order.map ((run d turns).ledger.wholeWithdrawal now)) =
            .ok (l', order.map (run d turns).ledger.wholeRefund) ∧
        l'.totalDeposited = 0 ∧ l'.totalSold = 0) := by
  have hrefundable := run_refundable h turns (Ledger.canWithdraw_iff.mpr hopen)
  refine ⟨fun who p hp hpos => ?_, fun order hnodup hall => hrefundable.withdrawAll hnodup hall⟩
  obtain ⟨t, hperform, htransfers, hpositions, -⟩ := hrefundable.withdraw hp hpos
  exact ⟨t, hperform, htransfers, hpositions⟩

/-- Both participants of the sample with bonuses take their deposits back. -/
theorem run_money_back_bonus :
    Desk.start bonusSale.draft {} (.kept []) 0 = .ok bonusDesk ∧
      (run bonusDesk (bonusTurns.take 5)).ledger.status 75 = .ongoing ∧
      (∃ t, (run bonusDesk (bonusTurns.take 5)).ledger.perform (.withdraw "alice" 150 75) = .ok t ∧
        t.transfers = [⟨.deposit, "alice", 150, .withdraw⟩]) ∧
      ∃ l', (run bonusDesk (bonusTurns.take 5)).ledger.performAll
          [.withdraw "bob" 40 75, .withdraw "alice" 150 75] =
            .ok (l', [⟨.deposit, "bob", 40, .withdraw⟩, ⟨.deposit, "alice", 150, .withdraw⟩]) ∧
        l'.totalDeposited = 0 ∧ l'.totalSold = 0 := by
  have hstart : Desk.start bonusSale.draft {} (.kept []) 0 = .ok bonusDesk := rfl
  have hstatus : (run bonusDesk (bonusTurns.take 5)).ledger.status 75 = .ongoing := by
    decide +kernel
  have hpositions : (run bonusDesk (bonusTurns.take 5)).ledger.positions =
      (Book.empty.insert "alice" ⟨150, 225, 0⟩).insert "bob" ⟨40, 60, 0⟩ := by decide +kernel
  have hdiscovery : (run bonusDesk (bonusTurns.take 5)).ledger.sale.mechanic = .priceDiscovery := by
    rw [run_sale_eq hstart]
    rfl
  obtain ⟨hone, hall⟩ :=
    run_money_back hstart (bonusTurns.take 5) (.inr (.inr ⟨hstatus, hdiscovery⟩))
  obtain ⟨t, hperform, htransfers, -⟩ := hone "alice" ⟨150, 225, 0⟩
    (by rw [hpositions]; rfl) (by decide)
  have hheld : ∀ who, (run bonusDesk (bonusTurns.take 5)).ledger.held who =
      if who = "bob" then ⟨40, 60, 0⟩ else if who = "alice" then ⟨150, 225, 0⟩ else .zero := by
    intro who
    simp only [Ledger.held, hpositions, Book.get?_insert, Book.get?_empty]
    split
    · rfl
    · split <;> rfl
  obtain ⟨l', hrun, hzero⟩ := hall ["bob", "alice"] (by decide) fun who => by
    rw [hheld]
    split
    · simp_all
    · split <;> simp_all [Position.zero]
  simp only [List.map_cons, List.map_nil, Ledger.wholeWithdrawal, Ledger.wholeRefund, hheld,
    reduceIte, String.reduceEq] at hrun
  exact ⟨hstart, hstatus, ⟨t, hperform, htransfers⟩, l', hrun, hzero⟩

end History

end TokenSale
