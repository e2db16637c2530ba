import TokenSale.Proofs.Ledger.Evolution
import TokenSale.Proofs.Ledger.Lifecycle

/-!
Trades: deposits and withdrawals while a sale by price discovery is open. There is no cap to share,
so what a trade makes of a position depends on the sale and on that position alone, and it adds the
same to the totals whatever others do. Two ledgers that are one trade apart stay so under all trades
of others.
-/

namespace TokenSale

inductive Sale.Trades (s : Sale) (p? : Option Position) : Operation → Position → Prop where
  | deposit {depositor participant : String} {amount now weight : Int} {token : Option String}
      (hpos : 0 < amount) (htoken : ∀ x, token = some x → x = s.depositToken)
      (hmin : s.minDeposit ≤ amount) (hweight : s.discounts.weigh amount now = .ok weight) :
      Trades s p? (.deposit depositor amount participant now token)
        ⟨(p?.getD .zero).amount + amount, (p?.getD .zero).weight + weight, (p?.getD .zero).claimed⟩
  | withdraw {participant : String} {amount now weight : Int} {p : Position}
      (hposition : p? = some p) (hpos : 0 < amount) (hle : amount ≤ p.amount)
      (hweight : s.discounts.weigh (p.amount - amount) now = .ok weight) :
      Trades s p? (.withdraw participant amount now)
        ⟨p.amount - amount, min weight p.weight, p.claimed⟩

namespace Ledger

variable {l l' : Ledger} {op : Operation} {t : Transition} {q : Position} {who : String}
  {d? : Option String}

def OpenFor (l : Ledger) (op : Operation) : Prop :=
  ∃ now, op.now? = some now ∧ l.status now = .ongoing

def post (l : Ledger) (who : String) (q : Position) (d? : Option String) : Ledger :=
  { l with
    totalDeposited := l.totalDeposited + q.amount - (l.held who).amount
    totalSold := l.totalSold + q.weight - (l.held who).weight
    depositors := note l.depositors d? (some who)
    participants := l.participants + if (l.positions.get? who).isSome then 0 else 1
    positions := l.positions.insert who q
    revision := l.revision + 1 }

theorem take_eq_post {depositor participant : String} {amount weight : Int} {action : Action}
    {transfers : List Transfer} {outcome : Outcome} (hpos : 0 < amount) :
    (l.advance action (l.take depositor participant
      ⟨⟨(l.held participant).amount + amount, (l.held participant).weight + weight,
        (l.held participant).claimed⟩, l.totalDeposited + amount, l.totalSold + weight, amount,
        weight, 0⟩) (some participant) transfers outcome).ledger =
      l.post participant ⟨(l.held participant).amount + amount,
        (l.held participant).weight + weight, (l.held participant).claimed⟩ (some depositor) := by
  have hamount : l.totalDeposited + amount =
      l.totalDeposited + ((l.held participant).amount + amount) - (l.held participant).amount := by
    omega
  have hweight : l.totalSold + weight =
      l.totalSold + ((l.held participant).weight + weight) - (l.held participant).weight := by
    omega
  rw [take_of_taken depositor (.inl hpos)]
  simp only [advance, post, note]
  rw [← hamount, ← hweight]

theorem release_eq_post {participant : String} {amount : Int} {p : Position}
    {w : Position.Withdrawal} {action : Action} {transfers : List Transfer} {outcome : Outcome}
    (h : l.Tallied) (hp : l.positions.get? participant = some p)
    (hlaw : w.Law p l.totalDeposited l.totalSold amount) :
    (l.advance action (l.release participant w) (some participant) transfers outcome).ledger =
      l.post participant w.position none := by
  have hdeposited : w.totalDeposited = l.totalDeposited - amount := h.release_totalDeposited hp hlaw
  have hsold : w.totalSold = l.totalSold - (p.weight - w.position.weight) :=
    h.release_totalSold hp hlaw
  have hamount := hlaw.amount_eq
  simp only [advance, release, post, note, held_of_get? hp, hp, Option.isSome_some, if_true,
    Int.add_zero, hdeposited, hsold, hamount]
  congr 1 <;> omega

/-- In an open sale by price discovery, the deposits and withdrawals that are not refused are the
trades, and each posts its position. -/
theorem perform_iff_trades (h : l.Tallied) (hdiscovery : l.sale.mechanic = .priceDiscovery)
    (hopen : l.OpenFor op) (hmoves : op.movesDeposits = true) :
    (∃ t, l.perform op = .ok t ∧ t.ledger = l') ↔
      ∃ who q, op.participant? = some who ∧ l.sale.Trades (l.positions.get? who) op q ∧
        l' = l.post who q op.depositor? := by
  obtain ⟨now, hnow, hstatus⟩ := hopen
  have hfunded : l.funded = true := (status_eq_ongoing.mp hstatus).1
  cases op with
  | deposit depositor amount participant time token =>
    cases hnow
    simp only [perform, deposit_eq_ok hfunded, hdiscovery, Position.deposit_discovery_eq_ok]
    constructor
    · rintro ⟨t, ⟨-, -, htoken, hmin, p, ⟨hpos, weight, hweight, rfl⟩, rfl⟩, rfl⟩
      exact ⟨participant, _, rfl, .deposit hpos htoken hmin hweight, take_eq_post hpos⟩
    · rintro ⟨who, q, hwho, htrades, rfl⟩
      cases hwho
      cases htrades with
      | deposit hpos htoken hmin hweight =>
        exact ⟨_, ⟨hpos, hstatus, htoken, hmin, _, ⟨hpos, _, hweight, rfl⟩, rfl⟩, take_eq_post hpos⟩
  | withdraw participant amount time =>
    cases hnow
    have hcan : l.canWithdraw now = true := by
      simp [canWithdraw, hstatus, hdiscovery, Mechanic.isFixedPrice]
    have hlaw : ∀ {p w}, Position.withdraw .priceDiscovery l.sale.discounts p l.totalDeposited
        l.totalSold amount now = .ok w → w.Law p l.totalDeposited l.totalSold amount :=
      Position.withdraw_law
    simp only [perform, withdraw_eq_ok, hdiscovery]
    constructor
    · rintro ⟨t, ⟨-, p, hp, w, hw, rfl⟩, rfl⟩
      obtain ⟨hpos, hle, weight, hweight, rfl⟩ := Position.withdraw_discovery_eq_ok.mp hw
      exact ⟨participant, _, rfl, .withdraw hp hpos hle hweight, release_eq_post h hp (hlaw hw)⟩
    · rintro ⟨who, q, hwho, htrades, rfl⟩
      cases hwho
      cases htrades with
      | withdraw hp hpos hle hweight =>
        have hw : Position.withdraw .priceDiscovery l.sale.discounts _ l.totalDeposited
            l.totalSold amount now = .ok _ :=
          Position.withdraw_discovery_eq_ok.mpr ⟨hpos, hle, _, hweight, rfl⟩
        exact ⟨_, ⟨hcan, _, hp, _, hw, rfl⟩, release_eq_post h hp (hlaw hw)⟩
  | _ => cases hmoves

/-! Two ledgers that are a trade apart. -/

/-- The ledger `lb` is `la` with one trade of `who` more, whose change is `c`. -/
structure Apart (who : String) (d? : Option String) (c : Change) (la lb : Ledger) : Prop where
  evolves : Evolves la (some who) d? lb
  change_eq : la.changeTo lb (some who) = c
  individualClaims_eq : lb.individualClaims = la.individualClaims
  funded_eq : lb.funded = la.funded
  locked_eq : lb.locked = la.locked

theorem apart_post (l : Ledger) (who : String) (q : Position) (d? : Option String) :
    Apart who d? (l.changeTo (l.post who q d?) (some who)) l (l.post who q d?) where
  evolves := {
    sale_eq := rfl
    revision_eq := rfl
    roster := .inr ⟨who, q, rfl, rfl, rfl⟩
    claims := .inl rfl
    depositors_eq := rfl
    paid_grown := grown_refl _
    legsPaid_grown := grown_refl _ }
  change_eq := rfl
  individualClaims_eq := rfl
  funded_eq := rfl
  locked_eq := rfl

theorem note_comm (b : Book String) {d? e? : Option String} (who who' : String)
    (h : ∀ d, d? = some d → e? ≠ some d) :
    note (note b d? (some who)) e? (some who') = note (note b e? (some who')) d? (some who) := by
  cases d? with
  | none => rfl
  | some d =>
    cases e? with
    | none => rfl
    | some e =>
      have hne : d ≠ e := fun heq => h d rfl (heq ▸ rfl)
      exact Book.insert_comm b hne who who'

theorem note_get?_of_ne (b : Book String) {e? : Option String} {d : String} (who : String)
    (h : e? ≠ some d) : (note b e? (some who)).get? d = b.get? d := by
  cases e? with
  | none => rfl
  | some e =>
    have hne : d ≠ e := fun heq => h (heq ▸ rfl)
    exact Book.get?_insert_of_ne b hne who

theorem entriesBeyond_note {b b' : Book String} {d? : Option String} (who : String)
    (h : ∀ d, d? = some d → b'.get? d = b.get? d) :
    entriesBeyond b' (note b' d? (some who)) = entriesBeyond b (note b d? (some who)) ∧
      entriesBeyond (note b' d? (some who)) b' = entriesBeyond (note b d? (some who)) b := by
  cases d? with
  | none => simp [note]
  | some d =>
    obtain ⟨hadded, hremoved⟩ := entriesBeyond_insert b d who
    obtain ⟨hadded', hremoved'⟩ := entriesBeyond_insert b' d who
    rw [h d rfl] at hadded' hremoved'
    exact ⟨hadded'.trans hadded.symm, hremoved'.trans hremoved.symm⟩

theorem post_get?_of_ne {who' : String} (l : Ledger) (h : who' ≠ who) (q : Position)
    (d? : Option String) : (l.post who q d?).positions.get? who' = l.positions.get? who' :=
  Book.get?_insert_of_ne _ h q

namespace Apart

variable {c : Change} {la lb : Ledger} {other : String} {e? : Option String}

theorem get?_eq (h : Apart who d? c la lb) (hother : other ≠ who) :
    lb.positions.get? other = la.positions.get? other := by
  rcases h.evolves.roster with ⟨hpositions, -⟩ | ⟨who', q, hwho, hpositions, -⟩
  · rw [hpositions]
  · cases hwho
    rw [hpositions, Book.get?_insert_of_ne _ hother]

theorem status_ongoing_iff (h : Apart who d? c la lb) {now : Int} :
    lb.status now = .ongoing ↔ la.status now = .ongoing := by
  rw [status_eq_ongoing, status_eq_ongoing, h.funded_eq, h.locked_eq, h.evolves.sale_eq]

theorem held_eq (h : Apart who d? c la lb) (hother : other ≠ who) :
    lb.held other = la.held other := by
  simp only [held, h.get?_eq hother]

theorem post_depositors (h : Apart who d? c la lb) (hdepositor : ∀ d, d? = some d → e? ≠ some d)
    (q : Position) : (lb.post other q e?).depositors =
      note (la.post other q e?).depositors d? (some who) := by
  show note lb.depositors e? (some other) = _
  rw [h.evolves.depositors_eq]
  exact note_comm la.depositors who other hdepositor

theorem post_evolves (h : Apart who d? c la lb) (hother : other ≠ who)
    (hdepositor : ∀ d, d? = some d → e? ≠ some d) (q : Position) :
    Evolves (la.post other q e?) (some who) d? (lb.post other q e?) where
  sale_eq := h.evolves.sale_eq
  revision_eq := by
    show lb.revision + 1 = la.revision + 1 + 1
    rw [h.evolves.revision_eq]
  roster := by
    rcases h.evolves.roster with ⟨hpositions, hparticipants⟩ |
      ⟨who', q', hwho, hpositions, hparticipants⟩
    · refine .inl ⟨?_, ?_⟩
      · show lb.positions.insert other q = la.positions.insert other q
        rw [hpositions]
      · show lb.participants + _ = la.participants + _
        rw [hparticipants, hpositions]
    · cases hwho
      refine .inr ⟨who, q', rfl, ?_, ?_⟩
      · show lb.positions.insert other q = (la.positions.insert other q).insert who q'
        rw [hpositions, Book.insert_comm _ hother]
      · rw [post_get?_of_ne la (Ne.symm hother)]
        show lb.participants + _ = la.participants + _ + _
        rw [hparticipants, h.get?_eq hother, Int.add_right_comm]
  claims := .inl h.individualClaims_eq
  depositors_eq := h.post_depositors hdepositor q
  paid_grown := h.evolves.paid_grown
  legsPaid_grown := h.evolves.legsPaid_grown

theorem post_changeTo (h : Apart who d? c la lb) (hother : other ≠ who)
    (hdepositor : ∀ d, d? = some d → e? ≠ some d) (q : Position) :
    (la.post other q e?).changeTo (lb.post other q e?) (some who) =
      la.changeTo lb (some who) := by
  have hheld := h.held_eq hother
  have hla : (la.post other q e?).positions.get? who = la.positions.get? who :=
    post_get?_of_ne la (Ne.symm hother) q e?
  have hlb : (lb.post other q e?).positions.get? who = lb.positions.get? who :=
    post_get?_of_ne lb (Ne.symm hother) q e?
  have hsame : ∀ d, d? = some d →
      (la.post other q e?).depositors.get? d = la.depositors.get? d := fun d hd =>
    note_get?_of_ne la.depositors other (hdepositor d hd)
  obtain ⟨hadded, hremoved⟩ := entriesBeyond_note who hsame
  rw [← h.post_depositors hdepositor q, ← h.evolves.depositors_eq] at hadded hremoved
  have hpositionA : (la.post other q e?).positionOf (some who) = la.positionOf (some who) := by
    simp only [positionOf, hla]
  have hpositionB : (lb.post other q e?).positionOf (some who) = lb.positionOf (some who) := by
    simp only [positionOf, hlb]
  have hnew : newParticipants (la.post other q e?) (lb.post other q e?) (some who) =
      newParticipants la lb (some who) := by
    simp only [newParticipants, hla, hlb]
  have hdeposited : (lb.post other q e?).totalDeposited - (la.post other q e?).totalDeposited =
      lb.totalDeposited - la.totalDeposited := by
    simp only [Ledger.post, hheld]
    omega
  have hsold : (lb.post other q e?).totalSold - (la.post other q e?).totalSold =
      lb.totalSold - la.totalSold := by
    simp only [Ledger.post, hheld]
    omega
  unfold changeTo
  rw [hadded, hremoved, hpositionA, hpositionB, hnew, hdeposited, hsold]
  rfl

theorem post (h : Apart who d? c la lb) (hother : other ≠ who)
    (hdepositor : ∀ d, d? = some d → e? ≠ some d) (q : Position) :
    Apart who d? c (la.post other q e?) (lb.post other q e?) where
  evolves := h.post_evolves hother hdepositor q
  change_eq := (h.post_changeTo hother hdepositor q).trans h.change_eq
  individualClaims_eq := h.individualClaims_eq
  funded_eq := h.funded_eq
  locked_eq := h.locked_eq

/-- A trade of someone else goes through without the trade that is left out, and leaves the two
ledgers apart by it. -/
theorem trade (h : Apart who d? c la lb) (hla : la.Tallied) (hlb : lb.Tallied)
    (hdiscovery : la.sale.mechanic = .priceDiscovery) (hopen : lb.OpenFor op)
    (hmoves : op.movesDeposits = true) (hother : op.participant? ≠ some who)
    (hdepositor : ∀ d, d? = some d → op.depositor? ≠ some d) (hperform : lb.perform op = .ok t) :
    la.OpenFor op ∧ ∃ ta, la.perform op = .ok ta ∧ Apart who d? c ta.ledger t.ledger := by
  have hopenA : la.OpenFor op := by
    obtain ⟨now, hnow, hstatus⟩ := hopen
    exact ⟨now, hnow, h.status_ongoing_iff.mp hstatus⟩
  have hsale := h.evolves.sale_eq
  obtain ⟨other, q, hwho, htrades, hposted⟩ := (perform_iff_trades hlb (hsale ▸ hdiscovery) hopen
    hmoves).mp ⟨t, hperform, rfl⟩
  have hne : other ≠ who := fun heq => hother (heq ▸ hwho)
  rw [hsale, h.get?_eq hne] at htrades
  obtain ⟨ta, hta, hledger⟩ := (perform_iff_trades hla hdiscovery hopenA hmoves).mpr
    ⟨other, q, hwho, htrades, rfl⟩
  refine ⟨hopenA, ta, hta, ?_⟩
  rw [hledger, hposted]
  exact h.post hne hdepositor q

end Apart

inductive TradesTo : Ledger → List Operation → Ledger → Prop where
  | nil {l : Ledger} : TradesTo l [] l
  | cons {l l' : Ledger} {op : Operation} {ops : List Operation} {t : Transition}
      (hopen : l.OpenFor op) (hperform : l.perform op = .ok t) (hrest : TradesTo t.ledger ops l') :
      TradesTo l (op :: ops) l'

theorem Apart.trades {c : Change} {la lb lb' : Ledger} {ops : List Operation}
    (h : Apart who d? c la lb) (hla : la.Balanced) (hlb : lb.Balanced)
    (hdiscovery : la.sale.mechanic = .priceDiscovery)
    (hothers : ∀ op ∈ ops, op.movesDeposits = true ∧ op.participant? ≠ some who ∧
      ∀ d, d? = some d → op.depositor? ≠ some d)
    (htrades : lb.TradesTo ops lb') :
    ∃ la', la.TradesTo ops la' ∧ la'.Balanced ∧ Apart who d? c la' lb' := by
  -- along the run with the trade, the run without it is built up, one trade apart all the time
  induction htrades generalizing la with
  | nil => exact ⟨la, .nil, hla, h⟩
  | @cons lb lb' op ops t hopen hperform hrest ih =>
    obtain ⟨hmoves, hother, hdepositor⟩ := hothers op List.mem_cons_self
    obtain ⟨hopenA, ta, hta, hapart⟩ :=
      h.trade hla.tallied hlb.tallied hdiscovery hopen hmoves hother hdepositor hperform
    have hstep := step_of_perform hta
    obtain ⟨la', hrestA, hbalanced, hapart'⟩ := ih hapart (hla.step hstep)
      (hlb.step (step_of_perform hperform)) (hstep.sale_eq ▸ hdiscovery)
      (fun op' hop' => hothers op' (List.mem_cons_of_mem op hop'))
    exact ⟨la', .cons hopenA hta hrestA, hbalanced, hapart'⟩

theorem Step.participant_of_moves (h : Step l op t) (hfunded : l.funded = true)
    (hmoves : op.movesDeposits = true) : t.change.participant = op.participant? := by
  cases h with
  | fund hunfunded hamount => simp [hfunded] at hunfunded
  | deposit _ hstatus hmin hpurchase => rfl
  | withdraw hopen hposition hwithdrawal => rfl
  | disburse hstatus h => cases h <;> cases hmoves
  | _ => cases hmoves

theorem apart_of_perform (h : l.Tallied) (hdiscovery : l.sale.mechanic = .priceDiscovery)
    (hopen : l.OpenFor op) (hmoves : op.movesDeposits = true) (hperform : l.perform op = .ok t) :
    ∃ who, op.participant? = some who ∧ Apart who op.depositor? t.change l t.ledger ∧
      (l.positions.get? who = none → t.change.participantsAdded = [who]) := by
  obtain ⟨who, q, hwho, -, hposted⟩ :=
    (perform_iff_trades h hdiscovery hopen hmoves).mp ⟨t, hperform, rfl⟩
  obtain ⟨now, -, hstatus⟩ := hopen
  have hstep := step_of_perform hperform
  have hchange : t.change = l.changeTo (l.post who q op.depositor?) (some who) := by
    rw [hstep.change_eq, hstep.participant_of_moves (status_eq_ongoing.mp hstatus).1 hmoves, hwho,
      hposted]
  refine ⟨who, hwho, ?_, fun hnone => ?_⟩
  · rw [hchange, hposted]
    exact apart_post l who q op.depositor?
  · rw [hchange]
    simp [changeTo, newParticipants, post, hnone]

/-- A trade that is undone after trades of others leaves the records as if it had never been. -/
theorem Apart.undo {c : Change} {la lb : Ledger} (h : Apart who d? c la lb) (hla : la.Balanced)
    (hnamed : who ≠ "") :
    ∃ lu, lb.apply c.negate = .ok lu ∧ la.SameRecords lu ∧
      lu.individualClaims = la.individualClaims ∧
      (c.participantsAdded = [who] → lu.depositors = la.depositors) := by
  have hkeeps := h.evolves.keepsNameless fun heq => hnamed (Option.some.inj heq)
  obtain ⟨lu, happly, hsame, -, hdepositors, -, hclaims⟩ := h.evolves.apply_negate hkeeps hla
  rw [h.change_eq] at happly
  refine ⟨lu, happly, hsame, hclaims h.individualClaims_eq, fun hadded => ?_⟩
  have hnew : newParticipants la lb (some who) = [who] := by
    rw [← hadded, ← h.change_eq]
    rfl
  have hnone : la.positions.get? who = none := by
    simp only [newParticipants] at hnew
    split at hnew
    · rename_i hcond
      simp only [Bool.and_eq_true, Option.isNone_iff_eq_none] at hcond
      exact hcond.1
    · cases hnew
  rw [hdepositors]
  cases d? with
  | none => rfl
  | some d => simp [unnote, hnone]

end Ledger

end TokenSale
