import TokenSale.Proofs.Ledger.Step
import TokenSale.Proofs.Position

/-!
Postings. A step leaves the books of a ledger as they are, or it writes the position of one
participant. Then it moves the totals by as much as the position, counts the participant if it is
new, and notes at most one depositor, who deposits for that participant.

From this follow, each on its own, the three agreements of the books: of the totals with the
positions, of the number of participants, and of the depositors.
-/

namespace TokenSale

theorem claimable_nonneg (released claimed : Int) : 0 ≤ claimable released claimed :=
  Amount.monus_nonneg released claimed

def Operation.participant? : Operation → Option String
  | deposit _ _ participant _ _ => some participant
  | withdraw participant _ _ => some participant
  | claim participant _ => some participant
  | _ => none

def Operation.Named (op : Operation) : Prop := op.participant? ≠ some ""

instance (op : Operation) : Decidable op.Named := by unfold Operation.Named; infer_instance

namespace Ledger

variable {l new : Ledger} {who : String} {op : Operation} {t : Transition}

/-! What a participant holds after one position was written. -/

theorem held_of_get? {p : Position} (h : l.positions.get? who = some p) : l.held who = p := by
  simp [held, h]

theorem held_nonneg (h : l.positions.Forall Position.Nonneg) (who : String) :
    (l.held who).Nonneg := by
  cases hget : l.positions.get? who with
  | none =>
    simp only [held, hget, Option.getD_none]
    exact Position.zero_nonneg
  | some p =>
    rw [held_of_get? hget]
    exact h who p hget

theorem held_insert_self (l : Ledger) (who : String) (q : Position) :
    ((l.positions.insert who q).get? who).getD .zero = q := by
  simp

theorem held_insert_of_ne (l : Ledger) {who who' : String} (h : who' ≠ who) (q : Position) :
    ((l.positions.insert who q).get? who').getD .zero = l.held who' := by
  rw [Book.get?_insert_of_ne _ h]
  rfl

theorem total_put {f : Position → Int} (hzero : f .zero = 0) (b : Book Position) (who : String)
    (q : Position) :
    (b.insert who q).total f = b.total f + f q - f ((b.get? who).getD .zero) := by
  rw [Book.total_insert]
  cases b.get? who <;> simp [hzero]

theorem get?_put_isSome {b : Book Position} {who who' : String} (q : Position)
    (h : (b.get? who').isSome) : ((b.insert who q).get? who').isSome := by
  by_cases heq : who' = who
  · simp [heq]
  · rw [Book.get?_insert_of_ne _ heq]
    exact h

/-! The agreements. -/

/-- The totals are those of the positions, none of which is in debt. -/
structure Tallied (l : Ledger) : Prop where
  totalDeposited_eq : l.totalDeposited = l.positions.total Position.amount
  totalSold_eq : l.totalSold = l.positions.total Position.weight
  position_nonneg : l.positions.Forall Position.Nonneg

def Counted (l : Ledger) : Prop := l.participants = l.positions.size

def Attached (l : Ledger) : Prop :=
  ∀ d who, l.depositors.get? d = some who → (l.positions.get? who).isSome

instance (l : Ledger) : Decidable l.Counted := by unfold Counted; infer_instance

namespace Tallied

theorem amount_le (h : l.Tallied) {p : Position} (hp : l.positions.get? who = some p) :
    p.amount ≤ l.totalDeposited := by
  rw [h.totalDeposited_eq]
  exact Book.le_total (fun k v hv => (h.position_nonneg k v hv).amount_nonneg) hp

theorem weight_le (h : l.Tallied) {p : Position} (hp : l.positions.get? who = some p) :
    p.weight ≤ l.totalSold := by
  rw [h.totalSold_eq]
  exact Book.le_total (fun k v hv => (h.position_nonneg k v hv).weight_nonneg) hp

theorem totalDeposited_nonneg (h : l.Tallied) : 0 ≤ l.totalDeposited := by
  rw [h.totalDeposited_eq]
  exact Book.total_nonneg fun k v hv => (h.position_nonneg k v hv).amount_nonneg

theorem totalSold_nonneg (h : l.Tallied) : 0 ≤ l.totalSold := by
  rw [h.totalSold_eq]
  exact Book.total_nonneg fun k v hv => (h.position_nonneg k v hv).weight_nonneg

/-! A withdrawal lowers the totals by a difference that stops at zero. It never stops there: no
position exceeds the totals. -/

section Withdrawals

variable {p : Position} {w : Position.Withdrawal} {amount : Int}

theorem release_totalDeposited (h : l.Tallied) (hp : l.positions.get? who = some p)
    (hw : w.Law p l.totalDeposited l.totalSold amount) :
    (l.release who w).totalDeposited = l.totalDeposited - amount := by
  show w.totalDeposited = _
  rw [hw.totalDeposited_eq]
  exact Amount.monus_of_le (Int.le_trans hw.amount_le (h.amount_le hp))

theorem release_totalSold (h : l.Tallied) (hp : l.positions.get? who = some p)
    (hw : w.Law p l.totalDeposited l.totalSold amount) :
    (l.release who w).totalSold = l.totalSold - (p.weight - w.position.weight) := by
  have hle := h.weight_le hp
  have hleft := hw.weight_nonneg (h.position_nonneg who p hp).weight_nonneg
  show w.totalSold = _
  rw [hw.totalSold_eq]
  exact Amount.monus_of_le (by omega)

end Withdrawals

end Tallied

inductive Posts (l : Ledger) (op : Operation) (t : Transition) : Prop where
  | keeps (hpositions : t.ledger.positions = l.positions)
      (hparticipants : t.ledger.participants = l.participants)
      (hdeposited : t.ledger.totalDeposited = l.totalDeposited)
      (hsold : t.ledger.totalSold = l.totalSold)
      (hdepositors : t.ledger.depositors = l.depositors)
  | writes {who : String} {q : Position} (hop : op.participant? = some who)
      (hwho : t.change.participant = some who) (hnonneg : q.Nonneg)
      (hpositions : t.ledger.positions = l.positions.insert who q)
      (hparticipants : t.ledger.participants = l.participants +
        if (l.positions.get? who).isSome then 0 else 1)
      (hdeposited : t.ledger.totalDeposited = l.totalDeposited + q.amount - (l.held who).amount)
      (hsold : t.ledger.totalSold = l.totalSold + q.weight - (l.held who).weight)
      (hcapped : l.sale.mechanic.isFixedPrice = true → l.totalSold ≤ l.sale.saleAmount →
        t.ledger.totalSold ≤ l.sale.saleAmount)
      (hdepositors : ∀ d who', t.ledger.depositors.get? d = some who' →
        l.depositors.get? d = some who' ∨ who' = who)

theorem posts_deposit {depositor participant : String} {amount now : Int} {token : Option String}
    {p : Position.Purchase} (h : l.Tallied)
    (hlaw : p.Law l.sale.mechanic l.sale.saleAmount (l.held participant) l.totalDeposited
      l.totalSold amount) (transfers : List Transfer) (outcome : Outcome) :
    Posts l (.deposit depositor amount participant now token)
      (l.advance .deposit (l.take depositor participant p) (some participant) transfers
        outcome) := by
  have hposition := hlaw.position_eq
  have hdeposited := hlaw.totalDeposited_eq
  have hsold := hlaw.totalSold_eq
  by_cases htaken : 0 < p.accepted ∨ (l.positions.get? participant).isSome = true
  · rw [take_of_taken depositor htaken]
    refine .writes rfl rfl (hlaw.position_nonneg (held_nonneg h.position_nonneg participant)) rfl rfl
      ?_ ?_ hlaw.capped ?_
    · show p.totalDeposited = _
      rw [hposition]
      show _ = l.totalDeposited + ((l.held participant).amount + p.accepted) - _
      omega
    · show p.totalSold = _
      rw [hposition]
      show _ = l.totalSold + ((l.held participant).weight + p.weightAdded) - _
      omega
    · intro d who' hd
      have hd : (l.depositors.insert depositor participant).get? d = some who' := hd
      by_cases heq : d = depositor
      · rw [heq, Book.get?_insert_self] at hd
        exact .inr (Option.some.inj hd).symm
      · rw [Book.get?_insert_of_ne _ heq] at hd
        exact .inl hd
  · rw [take_of_skipped depositor htaken]
    exact .keeps rfl rfl rfl rfl rfl

theorem posts_withdraw {participant : String} {amount now : Int} {p : Position}
    {w : Position.Withdrawal} (h : l.Tallied) (hp : l.positions.get? participant = some p)
    (hlaw : w.Law p l.totalDeposited l.totalSold amount) (transfers : List Transfer)
    (outcome : Outcome) :
    Posts l (.withdraw participant amount now)
      (l.advance .withdraw (l.release participant w) (some participant) transfers outcome) := by
  have hnonneg := h.position_nonneg participant p hp
  have hheld := held_of_get? hp
  have hdeposited := h.release_totalDeposited hp hlaw
  have hsold := h.release_totalSold hp hlaw
  have hamount := hlaw.amount_eq
  have hweight := hlaw.weight_le hnonneg.weight_nonneg
  refine .writes (q := w.position) rfl rfl (hlaw.position_nonneg hnonneg) rfl ?_ ?_ ?_ ?_
    (fun d who' hd => .inl hd)
  · show l.participants = _
    simp [hp]
  · show (l.release participant w).totalDeposited = _
    rw [hheld]
    omega
  · show (l.release participant w).totalSold = _
    rw [hheld]
    omega
  · intro _ hcap
    show (l.release participant w).totalSold ≤ _
    omega

theorem posts_claim {participant : String} {now amount : Int} {p : Position} (h : l.Tallied)
    (hp : l.positions.get? participant = some p) (hamount : 0 ≤ amount) :
    Posts l (.claim participant now) (l.claimPayout participant p amount) := by
  have hnonneg := h.position_nonneg participant p hp
  have hheld := held_of_get? hp
  by_cases hzero : amount = 0
  · have hskip : l.payClaim participant p amount = l := if_pos hzero
    unfold claimPayout
    rw [hskip]
    exact .keeps rfl rfl rfl rfl rfl
  · have hpay : l.payClaim participant p amount = { l with
        positions := l.positions.insert participant { p with claimed := p.claimed + amount } } :=
      if_neg hzero
    unfold claimPayout
    rw [hpay]
    refine .writes (q := { p with claimed := p.claimed + amount }) rfl rfl ?_ rfl ?_ ?_ ?_
      (fun _ hcap => hcap) (fun d who' hd => .inl hd)
    · exact ⟨hnonneg.amount_nonneg, hnonneg.weight_nonneg,
        Int.add_nonneg hnonneg.claimed_nonneg hamount⟩
    · show l.participants = _
      simp [hp]
    · rw [hheld]
      show l.totalDeposited = l.totalDeposited + p.amount - p.amount
      omega
    · rw [hheld]
      show l.totalSold = l.totalSold + p.weight - p.weight
      omega

theorem posts_individual (l : Ledger) (op : Operation) (who : String) (amount : Int) :
    Posts l op (l.individualPayout who amount) := by
  unfold individualPayout payIndividual
  split <;> exact .keeps rfl rfl rfl rfl rfl

theorem Step.posts (hstep : Step l op t) (h : l.Tallied) : Posts l op t := by
  cases hstep with
  | deposit hfunded hstatus hmin hpurchase =>
    exact posts_deposit h (Position.deposit_law hpurchase) ..
  | withdraw hopen hposition hwithdrawal =>
    exact posts_withdraw h hposition (Position.withdraw_law hwithdrawal) ..
  | disburse hstatus hpays =>
    cases hpays with
    | claim hposition hreleased => exact posts_claim h hposition (claimable_nonneg _ _)
    | claimIndividual hvested hreleased => exact posts_individual ..
    | distribute hplan hbatch hne => exact .keeps rfl rfl rfl rfl rfl
    | distributeDeposits hplan hsplit hparts hlegs hne => exact .keeps rfl rfl rfl rfl rfl
  | _ => exact .keeps rfl rfl rfl rfl rfl

namespace Posts

theorem tallied (hposts : Posts l op t) (h : l.Tallied) : t.ledger.Tallied := by
  cases hposts with
  | keeps hpositions hparticipants hdeposited hsold hdepositors =>
    refine ⟨?_, ?_, ?_⟩
    · rw [hdeposited, hpositions, h.totalDeposited_eq]
    · rw [hsold, hpositions, h.totalSold_eq]
    · rw [hpositions]
      exact h.position_nonneg
  | @writes who q hop hwho hnonneg hpositions hparticipants hdeposited hsold hcapped hdepositors =>
    refine ⟨?_, ?_, ?_⟩
    · rw [hdeposited, hpositions, total_put rfl, h.totalDeposited_eq]
      rfl
    · rw [hsold, hpositions, total_put rfl, h.totalSold_eq]
      rfl
    · rw [hpositions]
      exact h.position_nonneg.insert who hnonneg

theorem counted (hposts : Posts l op t) (h : l.Counted) : t.ledger.Counted := by
  unfold Counted at h ⊢
  cases hposts with
  | keeps hpositions hparticipants hdeposited hsold hdepositors =>
    rw [hparticipants, hpositions, h]
  | writes hop hwho hnonneg hpositions hparticipants hdeposited hsold hcapped hdepositors =>
    rw [hparticipants, hpositions, Book.size_insert, h]
    split <;> rfl

theorem attached (hposts : Posts l op t) (h : l.Attached) : t.ledger.Attached := by
  intro d who' hd
  cases hposts with
  | keeps hpositions hparticipants hdeposited hsold hdepositors =>
    rw [hdepositors] at hd
    rw [hpositions]
    exact h d who' hd
  | @writes who q hop hwho hnonneg hpositions hparticipants hdeposited hsold hcapped hdepositors =>
    rw [hpositions]
    rcases hdepositors d who' hd with hold | rfl
    · exact get?_put_isSome q (h d who' hold)
    · simp

theorem capped (hposts : Posts l op t) (hfixed : l.sale.mechanic.isFixedPrice = true)
    (hcap : l.totalSold ≤ l.sale.saleAmount) : t.ledger.totalSold ≤ l.sale.saleAmount := by
  cases hposts with
  | keeps hpositions hparticipants hdeposited hsold hdepositors =>
    rw [hsold]
    exact hcap
  | writes hop hwho hnonneg hpositions hparticipants hdeposited hsold hcapped hdepositors =>
    exact hcapped hfixed hcap

end Posts

theorem tallied_empty (s : Sale) : Tallied { sale := s } :=
  ⟨rfl, rfl, Book.forall_empty _⟩

theorem attached_empty (s : Sale) : Attached { sale := s } := by
  intro d who hd
  simp at hd

end Ledger

end TokenSale
