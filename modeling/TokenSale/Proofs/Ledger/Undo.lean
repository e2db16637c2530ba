import TokenSale.Proofs.Ledger.Books
import TokenSale.Proofs.Ledger.Phase

/-!
Ledgers without a debt. Operations and applied changes keep a ledger free of negative parts, also
where its totals and its positions no longer agree, and an applied change moves the total of sale
tokens by exactly its own.
-/

namespace TokenSale.Ledger

structure Nonneg (l : Ledger) : Prop where
  position_nonneg : l.positions.Forall Position.Nonneg
  totalSold_nonneg : 0 ≤ l.totalSold

variable {l l' : Ledger} {c : Change}

theorem applyRoster_nonneg {r : Roster} (h : l.positions.Forall Position.Nonneg)
    (hok : l.applyRoster c = .ok r) : r.1.Forall Position.Nonneg := by
  simp only [applyRoster, bind_eq_ok, pure_eq_ok] at hok
  obtain ⟨b, hb, rfl⟩ := hok
  exact strike_nonneg (adjust_nonneg (enter_nonneg h _) hb) _

theorem apply_law (h : l.apply c = .ok l') :
    l'.sale = l.sale ∧ l'.totalSold = l.totalSold + c.totalSold ∧ 0 ≤ l'.totalSold ∧
      (l.positions.Forall Position.Nonneg → l'.positions.Forall Position.Nonneg) := by
  have happlied := apply_eq_ok.mp h
  exact ⟨happlied.sale_eq, happlied.totalSold_eq, happlied.totalSold_nonneg, fun hpositions =>
    applyRoster_nonneg hpositions happlied.roster_eq⟩

theorem Nonneg.advance (h : l.Nonneg) (old : Ledger) (action : Action) (who : Option String)
    (transfers : List Transfer) (outcome : Outcome) :
    (old.advance action l who transfers outcome).ledger.Nonneg :=
  ⟨h.position_nonneg, h.totalSold_nonneg⟩

theorem Nonneg.apply (h : l.Nonneg) (hok : l.apply c = .ok l') : l'.Nonneg := by
  obtain ⟨-, -, htotal, hpositions⟩ := apply_law hok
  exact ⟨hpositions h.position_nonneg, htotal⟩

theorem compensate_totalSold {t : Transition} (h : l.compensate t = .ok l') :
    l'.totalSold = l.totalSold - t.change.totalSold :=
  (apply_law h).2.1

theorem Nonneg.take (h : l.Nonneg) {depositor participant : String} {q : Position.Purchase}
    {m : Mechanic} {cap amount : Int}
    (hq : q.Law m cap (l.held participant) l.totalDeposited l.totalSold amount) :
    (l.take depositor participant q).Nonneg := by
  have hheld := held_nonneg h.position_nonneg participant
  simp only [Ledger.take]
  split
  · refine ⟨h.position_nonneg.insert participant (hq.position_nonneg hheld), ?_⟩
    show 0 ≤ q.totalSold
    rw [hq.totalSold_eq]
    exact Int.add_nonneg h.totalSold_nonneg hq.weightAdded_nonneg
  · exact h

theorem take_totalSold {depositor participant : String} {q : Position.Purchase}
    {m : Mechanic} {cap amount : Int}
    (hq : q.Law m cap (l.held participant) l.totalDeposited l.totalSold amount) :
    l.totalSold ≤ (l.take depositor participant q).totalSold ∧
      (m.isFixedPrice = true → l.totalSold ≤ cap →
        (l.take depositor participant q).totalSold ≤ cap) := by
  have hadded := hq.weightAdded_nonneg
  have htotal := hq.totalSold_eq
  simp only [take]
  split
  · refine ⟨?_, hq.capped⟩
    show l.totalSold ≤ q.totalSold
    omega
  · exact ⟨Int.le_refl _, fun _ hle => hle⟩

/-- A withdrawal lowers the total, however the total and the positions disagree. -/
theorem release_totalSold_le (h : l.Nonneg) {who : String} {p : Position}
    {w : Position.Withdrawal} {amount : Int} (hp : l.positions.get? who = some p)
    (hw : w.Law p l.totalDeposited l.totalSold amount) :
    0 ≤ (l.release who w).totalSold ∧ (l.release who w).totalSold ≤ l.totalSold := by
  have hle := hw.weight_le (h.position_nonneg who p hp).weight_nonneg
  have hnonneg := h.totalSold_nonneg
  show 0 ≤ w.totalSold ∧ w.totalSold ≤ _
  rw [hw.totalSold_eq]
  unfold Amount.monus
  split <;> omega

theorem Nonneg.payClaim (h : l.Nonneg) {who : String} {p : Position} {amount : Int}
    (hp : l.positions.get? who = some p) (hamount : 0 ≤ amount) :
    (l.payClaim who p amount).Nonneg := by
  have hheld := h.position_nonneg who p hp
  unfold Ledger.payClaim
  split
  · exact h
  · exact ⟨h.position_nonneg.insert who ⟨hheld.amount_nonneg, hheld.weight_nonneg,
      Int.add_nonneg hheld.claimed_nonneg hamount⟩, h.totalSold_nonneg⟩

theorem Nonneg.disburse {now : Int} {op : Operation} {t : Transition} (h : l.Nonneg)
    (hpays : l.Disburses now op t) : t.ledger.Nonneg := by
  have htotal : 0 ≤ t.ledger.totalSold := by
    rw [hpays.keeps.totalSold_eq]
    exact h.totalSold_nonneg
  have hpositions := hpays.positions_eq
  cases hpays with
  | claim hposition hreleased => exact (h.payClaim hposition (claimable_nonneg _ _)).advance ..
  | _ =>
    refine ⟨?_, htotal⟩
    rw [hpositions rfl]
    exact h.position_nonneg

theorem Nonneg.step {op : Operation} {t : Transition} (h : l.Nonneg) (hstep : Step l op t) :
    t.ledger.Nonneg := by
  cases hstep with
  | deposit hfunded hstatus hmin hpurchase =>
    exact (h.take (Position.deposit_law hpurchase)).advance ..
  | withdraw hopen hposition hwithdrawal =>
    have hlaw := Position.withdraw_law hwithdrawal
    have hheld := h.position_nonneg _ _ hposition
    exact ⟨h.position_nonneg.insert _ (hlaw.position_nonneg hheld),
      (release_totalSold_le h hposition hlaw).1⟩
  | disburse hstatus hpays => exact h.disburse hpays
  | _ => exact ⟨h.position_nonneg, h.totalSold_nonneg⟩

end TokenSale.Ledger
