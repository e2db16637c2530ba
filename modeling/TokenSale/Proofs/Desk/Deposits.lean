import TokenSale.Proofs.Desk.Issued

/-!
Conservation of deposits. All that came in is in the total or went back, by refund or by withdrawal,
and likewise for the position of each participant. In the order of time, the legs that are forwarded
are shares of one and the same total, so refunds, withdrawals and legs never exceed what came in.
-/

namespace TokenSale

namespace Ledger

variable {l l' : Ledger} {op : Operation} {t : Transition} {e : Entry} {es : List Entry}

theorem Disburses.held_amount_eq {now : Int} (h : l.Disburses now op t) (who : String) :
    (t.ledger.held who).amount = (l.held who).amount := by
  cases h with
  | claim hposition hreleased => exact (held_payClaim hposition).1
  | claimIndividual hvested hreleased =>
    rw [individualPayout, payIndividual_eq]
    rfl
  | distribute hplan hbatch hne => rfl
  | distributeDeposits hplan hsplit hparts hlegs hne => rfl

theorem parts_nonneg {split : Split} {total : Int} {parts : Int × Int}
    (h : Split.parts (some split) total = .ok parts) : 0 ≤ parts.1 ∧ 0 ≤ parts.2 := by
  simp only [Split.parts, bind_eq_ok, pure_eq_ok, Amount.share_eq_ok] at h
  obtain ⟨a, ⟨-, ha⟩, b, ⟨-, hb⟩, rfl⟩ := h
  exact ⟨Amount.mulDiv_nonneg ha, Amount.mulDiv_nonneg hb⟩

theorem legTransfer_nonneg {plan : Plan} {split : Split} {total : Int} {parts : Int × Int}
    (h : Split.parts (some split) total = .ok parts) (leg : Leg) :
    0 ≤ (legTransfer plan split parts leg).amount := by
  cases leg with
  | solver => exact (parts_nonneg h).1
  | fee => exact (parts_nonneg h).2

/-- How an entry moves the deposits: what it adds to the total and to the position of a participant
is what came in less what went back. -/
structure Flow (l : Ledger) (e : Entry) (l' : Ledger) : Prop where
  total_eq : l'.totalDeposited = l.totalDeposited + e.deposited -
    amountOf (Transfer.isFor .refund) e.sent - amountOf (Transfer.isFor .withdraw) e.sent
  held_eq : ∀ who, (l'.held who).amount = (l.held who).amount + e.acceptedFor who -
    amountOf (Transfer.isWithdrawalOf who) e.sent

theorem flow_of_eq (hdeposited : e.deposited = 0) (haccepted : ∀ who, e.acceptedFor who = 0)
    (hreasons : ∀ x ∈ e.sent, x.reason ≠ .refund ∧ x.reason ≠ .withdraw)
    (htotal : l'.totalDeposited = l.totalDeposited)
    (hheld : ∀ who, (l'.held who).amount = (l.held who).amount) : Flow l e l' where
  total_eq := by
    have hrefund : amountOf (Transfer.isFor .refund) e.sent = 0 :=
      amountOf_eq_zero_of_reason_ne Transfer.reason_of_isFor fun x hx => (hreasons x hx).1
    have hwithdraw : amountOf (Transfer.isFor .withdraw) e.sent = 0 :=
      amountOf_eq_zero_of_reason_ne Transfer.reason_of_isFor fun x hx => (hreasons x hx).2
    omega
  held_eq := by
    intro who
    have hwithdraw : amountOf (Transfer.isWithdrawalOf who) e.sent = 0 :=
      amountOf_eq_zero_of_reason_ne Transfer.reason_of_isWithdrawalOf fun x hx => (hreasons x hx).2
    have := haccepted who
    have := hheld who
    omega

theorem flow_of_purchase {m : Mechanic} {cap amount : Int} {participant : String}
    {p : Position.Purchase}
    (hlaw : p.Law m cap (l.held participant) l.totalDeposited l.totalSold amount)
    (depositor : String) (now : Int) (token : Option String)
    (prepared : Except Failure Transition)
    (ht : t = l.advance .deposit (l.take depositor participant p) (some participant)
      [⟨.deposit, depositor, p.refund, .refund⟩] (.deposit p.accepted p.refund p.weightAdded)) :
    Flow l ⟨.deposit depositor amount participant now token, prepared, some t, t.transfers⟩
      t.ledger := by
  have htotal : (l.take depositor participant p).totalDeposited = l.totalDeposited + p.accepted :=
    take_totalDeposited hlaw
  have hsum := hlaw.accepted_add_refund
  have hsent := fun q => amountOf_advance_one q l (l.take depositor participant p) .deposit
    (some participant) ⟨.deposit, depositor, p.refund, .refund⟩
    (.deposit p.accepted p.refund p.weightAdded) hlaw.refund_nonneg
  subst ht
  constructor
  · show (l.take depositor participant p).totalDeposited = _ + amount - _ - _
    rw [hsent, hsent, htotal]
    show _ = _ + amount - p.refund - 0
    omega
  · intro who
    show ((l.take depositor participant p).held who).amount =
      _ + (if participant = who then p.accepted else 0) - _
    rw [hsent, (held_take hlaw).2]
    simp [Transfer.isWithdrawalOf]

theorem flow_of_withdrawal (htallied : l.Tallied) {amount : Int} {participant : String}
    {p : Position} {w : Position.Withdrawal} (hposition : l.positions.get? participant = some p)
    (hlaw : w.Law p l.totalDeposited l.totalSold amount) (now : Int)
    (prepared : Except Failure Transition)
    (ht : t = l.advance .withdraw (l.release participant w) (some participant)
      [⟨.deposit, participant, w.withdrawn, .withdraw⟩] .plain) :
    Flow l ⟨.withdraw participant amount now, prepared, some t, t.transfers⟩ t.ledger := by
  have htotal := htallied.release_totalDeposited hposition hlaw
  have hpos := hlaw.amount_pos
  have hwithdrawn := hlaw.withdrawn_eq
  have hsent := fun q => amountOf_advance_one q l (l.release participant w) .withdraw
    (some participant) ⟨.deposit, participant, w.withdrawn, .withdraw⟩ .plain (by simp; omega)
  subst ht
  constructor
  · show (l.release participant w).totalDeposited = _ + 0 - _ - _
    rw [hsent, hsent, htotal]
    show _ = _ + 0 - 0 - w.withdrawn
    omega
  · intro who
    show ((l.release participant w).held who).amount = _ + 0 - _
    rw [hsent, (held_release hposition hlaw).2, hwithdrawn]
    simp [Transfer.isWithdrawalOf]

theorem Step.flow (hbalanced : l.Balanced) (h : Step l op t)
    (prepared : Except Failure Transition) :
    Flow l ⟨op, prepared, some t, t.transfers⟩ t.ledger := by
  cases h with
  | fund hfunded hamount =>
    exact flow_of_eq rfl (fun _ => rfl) (by simp [advance]) rfl fun _ => rfl
  | @deposit depositor participant amount now token p hfunded hstatus hmin hpurchase =>
    exact flow_of_purchase (Position.deposit_law hpurchase) depositor now token prepared rfl
  | @withdraw participant amount now p w hopen hposition hwithdrawal =>
    exact flow_of_withdrawal hbalanced.tallied hposition (Position.withdraw_law hwithdrawal) now
      prepared rfl
  | disburse hstatus h =>
    refine flow_of_eq ?_ ?_ ?_ h.keeps.totalDeposited_eq h.held_amount_eq
    · cases h <;> rfl
    · intro who
      cases h <;> rfl
    · intro x hx
      exact ⟨h.reason_ne _ (by cases h <;> rfl) x hx, h.reason_ne _ (by cases h <;> rfl) x hx⟩
  | lock hstatus => exact flow_of_eq rfl (fun _ => rfl) (by simp [advance]) rfl fun _ => rfl
  | unlock hfunded hlocked =>
    exact flow_of_eq rfl (fun _ => rfl) (by simp [advance]) rfl fun _ => rfl
  | adminWithdraw hpos htoken hstatus =>
    refine flow_of_eq rfl (fun _ => rfl) (fun x hx => ?_) rfl fun _ => rfl
    dsimp only at hx
    rw [eq_of_mem_advance hx]
    exact ⟨by simp, by simp⟩

theorem Writes.flow (hbalanced : l.Balanced) (h : Writes l e l') : Flow l e l' := by
  cases h with
  | idle hprepared =>
    exact flow_of_eq (Entry.deposited_none ..) (fun who => Entry.acceptedFor_none ..) (by simp) rfl
      fun _ => rfl
  | step hprepared hstep => exact hstep.flow hbalanced _

/-- The deposits that came in are in the total or went back, also for each participant. -/
structure Conserved (l : Ledger) (es : List Entry) : Prop where
  total_eq : sumOf Entry.deposited es = l.totalDeposited +
    issued es (Transfer.isFor .refund) + issued es (Transfer.isFor .withdraw)
  held_eq : ∀ who, sumOf (Entry.acceptedFor who) es -
    issued es (Transfer.isWithdrawalOf who) = (l.held who).amount

theorem Conserved.append (h : l.Conserved es) (hflow : Flow l e l') :
    l'.Conserved (es ++ [e]) where
  total_eq := by
    have hold := h.total_eq
    have hnew := hflow.total_eq
    simp only [sumOf_append, sumOf_cons, sumOf_nil, issued_append]
    omega
  held_eq := by
    intro who
    have hold := h.held_eq who
    have hnew := hflow.held_eq who
    simp only [sumOf_append, sumOf_cons, sumOf_nil, issued_append]
    omega

/-! The legs, in the order of time. -/

def legPart (l : Ledger) (leg : Leg) : Int :=
  match l.sale.split, leg with
  | none, _ => 0
  | some s, .solver => l.totalDeposited * s.solverShare / Amount.bpsUnit
  | some s, .fee => l.totalDeposited * s.feeShare / Amount.bpsUnit

theorem split_sound (hsale : l.sale.Sound) {s : Split} (h : l.sale.split = some s) : s.Sound := by
  obtain ⟨plan, hplan, hdeposits⟩ := Option.bind_eq_some_iff.mp h
  exact (hsale.plan_sound plan hplan).split_sound s hdeposits

theorem legPart_nonneg (hsale : l.sale.Sound) (hnonneg : 0 ≤ l.totalDeposited) (leg : Leg) :
    0 ≤ l.legPart leg := by
  unfold legPart
  split
  · exact Int.le_refl 0
  · rename_i s hsplit
    exact Int.ediv_nonneg (Int.mul_nonneg hnonneg (split_sound hsale hsplit).solverShare_nonneg)
      (by decide)
  · rename_i s hsplit
    exact Int.ediv_nonneg (Int.mul_nonneg hnonneg (split_sound hsale hsplit).feeShare_nonneg)
      (by decide)

theorem legPart_add_le (hsale : l.sale.Sound) (hnonneg : 0 ≤ l.totalDeposited) :
    l.legPart .solver + l.legPart .fee ≤ l.totalDeposited := by
  cases hsplit : l.sale.split with
  | none =>
    simp only [legPart, hsplit]
    omega
  | some s =>
    have hmul := Int.mul_le_mul_of_nonneg_left (split_sound hsale hsplit).shares_le hnonneg
    rw [Int.mul_add] at hmul
    simp only [legPart, hsplit, Amount.bpsUnit] at hmul ⊢
    omega

theorem legTransfer_amount {plan : Plan} {split : Split} {parts : Int × Int}
    (hsplit : l.sale.split = some split)
    (hparts : Split.parts (some split) l.totalDeposited = .ok parts) (leg : Leg) :
    (legTransfer plan split parts leg).amount = l.legPart leg := by
  simp only [Split.parts, bind_eq_ok, pure_eq_ok, Amount.share_eq_ok, Amount.mulDiv_eq_ok] at hparts
  obtain ⟨a, ⟨-, -, -, -, -, ha, -⟩, b, ⟨-, -, -, -, -, hb, -⟩, rfl⟩ := hparts
  cases leg with
  | solver => simp only [legTransfer, legPart, hsplit, ha]
  | fee => simp only [legTransfer, legPart, hsplit, hb]

theorem legPart_of_eq (hsale : l'.sale = l.sale) (htotal : l'.totalDeposited = l.totalDeposited)
    (leg : Leg) : l'.legPart leg = l.legPart leg := by
  simp only [legPart, hsale, htotal]

theorem legTransfer_isFor (plan : Plan) (split : Split) (parts : Int × Int) (leg leg' : Leg) :
    (legTransfer plan split parts leg').isFor (.leg leg) = decide (leg = leg') := by
  cases leg <;> cases leg' <;> rfl

theorem amountOf_legs {plan : Plan} {split : Split} {parts : Int × Int} {legs : List Leg}
    (hnodup : legs.Nodup) (leg : Leg) :
    amountOf (Transfer.isFor (.leg leg)) (legs.map (legTransfer plan split parts)) =
      if leg ∈ legs then (legTransfer plan split parts leg).amount else 0 := by
  induction legs with
  | nil => rfl
  | cons first legs ih =>
    obtain ⟨hfresh, hrest⟩ := List.nodup_cons.mp hnodup
    rw [List.map_cons, amountOf_cons, ih hrest, legTransfer_isFor]
    by_cases heq : leg = first
    · subst heq
      simp [hfresh]
    · simp [heq]

theorem dueLegs_nodup (l : Ledger) : l.dueLegs.Nodup :=
  List.Nodup.sublist List.filter_sublist (by decide)

/-- Each leg that was forwarded, and no other, has issued its part of the total. -/
def Forwarded (l : Ledger) (es : List Entry) : Prop :=
  ∀ leg, issued es (Transfer.isFor (.leg leg)) =
    if leg.name ∈ l.legsPaid then l.legPart leg else 0

theorem Forwarded.of_eq (h : l.Forwarded es)
    (hreasons : ∀ leg, ∀ x ∈ e.sent, x.reason ≠ .leg leg) (hpaid : l'.legsPaid = l.legsPaid)
    (hparts : l.legsPaid = [] ∨ ∀ leg, l'.legPart leg = l.legPart leg) :
    l'.Forwarded (es ++ [e]) := by
  intro leg
  have hnone : amountOf (Transfer.isFor (.leg leg)) e.sent = 0 :=
    amountOf_eq_zero_of_reason_ne Transfer.reason_of_isFor (hreasons leg)
  rw [issued_append, hnone, Int.add_zero, h leg, hpaid]
  rcases hparts with hempty | hsame
  · simp [hempty]
  · rw [hsame leg]

theorem Forwarded.legPayout (h : l.Forwarded es) {plan : Plan} {split : Split}
    {parts : Int × Int} {legs : List Leg} (hsplit : l.sale.split = some split)
    (hparts : Split.parts (some split) l.totalDeposited = .ok parts)
    (hlegs : legs <+: l.dueLegs) (hsent : e.sent = (l.legPayout plan split parts legs).transfers) :
    (l.legPayout plan split parts legs).ledger.Forwarded (es ++ [e]) := by
  intro leg
  have hnodup : legs.Nodup := hlegs.sublist.nodup l.dueLegs_nodup
  have hnew : amountOf (Transfer.isFor (.leg leg)) e.sent =
      if leg ∈ legs then l.legPart leg else 0 := by
    rw [hsent, Ledger.legPayout, amountOf_advance, amountOf_legs hnodup,
      legTransfer_amount hsplit hparts]
    intro x hx
    obtain ⟨leg', -, rfl⟩ := List.mem_map.mp hx
    exact legTransfer_nonneg hparts leg'
  have hmem : leg.name ∈ legs.map Leg.name ↔ leg ∈ legs := by
    constructor
    · intro hin
      obtain ⟨leg', hleg', heq⟩ := List.mem_map.mp hin
      exact Leg.name_injective heq ▸ hleg'
    · exact List.mem_map_of_mem
  have hdue : leg ∈ legs → leg.name ∉ l.legsPaid := fun hin => by
    simpa using (List.mem_filter.mp (hlegs.subset hin)).2
  show _ = if leg.name ∈ l.legsPaid ++ legs.map Leg.name then l.legPart leg else 0
  rw [issued_append, h leg, hnew]
  simp only [List.mem_append, hmem]
  by_cases hin : leg ∈ legs
  · simp [hin, hdue hin]
  · simp [hin]

theorem Move.forwarded (h : Move l e l') (hforwarded : l.Forwarded es) :
    l'.Forwarded (es ++ [e]) := by
  cases h.kind with
  | idle => exact hforwarded.of_eq (by simp) rfl (.inr fun _ => rfl)
  | quiet hquiet hphase =>
    refine hforwarded.of_eq (fun leg => hquiet.reason_ne (.leg leg) rfl) hquiet.legsPaid_eq ?_
    · rcases hphase with huntouched | hsame
      · exact .inl huntouched.legsPaid_eq
      · exact .inr fun leg => by rw [hsame]; rfl
  | pays hpays =>
    have hkeeps := hpays.keeps
    have hsame := legPart_of_eq hkeeps.sale_eq hkeeps.totalDeposited_eq
    have hreasons := fun leg => hpays.reason_ne (.leg leg)
    have hpaid := hpays.legsPaid_eq
    cases hpays with
    | distributeDeposits hplan hsplit hparts hlegs hne =>
      exact hforwarded.legPayout hsplit hparts hlegs rfl
    | _ => exact hforwarded.of_eq (fun leg => hreasons leg rfl) (hpaid fun _ => rfl) (.inr hsame)

theorem Forwarded.issued_le (h : l.Forwarded es) (hsale : l.sale.Sound)
    (hnonneg : 0 ≤ l.totalDeposited) :
    issued es (Transfer.isFor (.leg .solver)) + issued es (Transfer.isFor (.leg .fee)) ≤
      l.totalDeposited := by
  have hle := legPart_add_le hsale hnonneg
  have hsolver := legPart_nonneg hsale hnonneg .solver
  have hfee := legPart_nonneg hsale hnonneg .fee
  rw [h, h]
  split <;> split <;> omega

end Ledger

namespace History

variable {draft : Sale.Draft} {settings : Settings} {outbox : Outbox} {clock : Int} {d : Desk}

/-- Along every history deposits are conserved, in total and for each participant; in the order of
time, what is forwarded never exceeds what the sale holds. -/
theorem run_conserved (h : Desk.start draft settings outbox clock = .ok d) (turns : List Turn) :
    (sumOf Entry.deposited (run d turns).entries = (run d turns).ledger.totalDeposited +
      issued (run d turns).entries (Transfer.isFor .refund) +
      issued (run d turns).entries (Transfer.isFor .withdraw)) ∧
    (∀ who, sumOf (Entry.acceptedFor who) (run d turns).entries -
      issued (run d turns).entries (Transfer.isWithdrawalOf who) =
        ((run d turns).ledger.held who).amount) ∧
    (InOrder (turns.map Turn.op) →
      issued (run d turns).entries (Transfer.isFor (.leg .solver)) +
        issued (run d turns).entries (Transfer.isFor (.leg .fee)) ≤
          (run d turns).ledger.totalDeposited ∧
      issued (run d turns).entries (Transfer.isFor .refund) +
        issued (run d turns).entries (Transfer.isFor .withdraw) +
        (issued (run d turns).entries (Transfer.isFor (.leg .solver)) +
          issued (run d turns).entries (Transfer.isFor (.leg .fee))) ≤
        sumOf Entry.deposited (run d turns).entries) := by
  have hrun := (run_induct (P := fun l es => l.Balanced ∧ l.Conserved es) h
    (fun s hs => ⟨Ledger.balanced_empty (Int.le_of_lt hs.saleAmount_pos), rfl, fun _ => rfl⟩)
    (fun l es e l' _ ⟨hbalanced, hconserved⟩ hwrites =>
      ⟨hbalanced.writes hwrites, hconserved.append (hwrites.flow hbalanced)⟩) turns).1
  have htotal := hrun.2.total_eq
  refine ⟨htotal, hrun.2.held_eq, fun hordered => ?_⟩
  obtain ⟨hfinal, hbalanced, hforwarded⟩ := run_induct_ordered (P := fun l es => l.Forwarded es) h
    (fun _ _ _ => by simp [issued])
    (fun l es e l' hforwarded hmove => hmove.forwarded hforwarded) hordered
  have hle := hforwarded.issued_le hfinal hbalanced.totalDeposited_nonneg
  exact ⟨hle, by omega⟩

theorem run_conserved_sample :
    Desk.start sampleSale.draft {} (.kept []) 0 = .ok sampleDesk ∧
      InOrder (sampleTurns.map Turn.op) ∧
      sumOf Entry.deposited (run sampleDesk sampleTurns).entries = 40 ∧
      issued (run sampleDesk sampleTurns).entries (Transfer.isFor .refund) +
        issued (run sampleDesk sampleTurns).entries (Transfer.isFor .withdraw) +
        (issued (run sampleDesk sampleTurns).entries (Transfer.isFor (.leg .solver)) +
          issued (run sampleDesk sampleTurns).entries (Transfer.isFor (.leg .fee))) ≤ 40 := by
  have hstart : Desk.start sampleSale.draft {} (.kept []) 0 = .ok sampleDesk := rfl
  have hordered : InOrder (sampleTurns.map Turn.op) := by decide
  have hdeposited : sumOf Entry.deposited (run sampleDesk sampleTurns).entries = 40 := by
    decide +kernel
  have hle := ((run_conserved hstart sampleTurns).2.2 hordered).2
  rw [hdeposited] at hle
  exact ⟨hstart, hordered, hdeposited, hle⟩

end History

end TokenSale
