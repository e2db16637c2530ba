import TokenSale.Proofs.Desk.Lifecycle
import TokenSale.Proofs.Desk.Receipts

/-!
Claims along the curve of a release. In a history in the order of time, what anyone has claimed is
what was released at the time of the last claim: releases grow with time, and after a success no
stake changes any more. So every claim brings what was claimed up to what is released, however often
and whenever claims were made before.
-/

namespace TokenSale

structure CaughtUp (v? : Option Vesting) (start now allocation claimed : Int) : Prop where
  released_eq : released allocation v? start now = .ok claimed
  claimed_le : claimed ≤ allocation
  claimed_eq : (∀ v, v? = some v → start + v.period ≤ now) → claimed = allocation

theorem caughtUp_of_released {v? : Option Vesting} {start now allocation claimed : Int}
    (hnonneg : 0 ≤ allocation) (hcliff : ∀ v, v? = some v → v.cliff < v.period)
    (h : released allocation v? start now = .ok claimed) :
    CaughtUp v? start now allocation claimed where
  released_eq := h
  claimed_le := released_le hnonneg h
  claimed_eq := by
    intro hend
    cases v? with
    | none => exact (Except.ok.inj h).symm
    | some v => exact Vesting.released_at_end (hcliff v rfl) (hend v rfl) h

namespace Ledger

variable {l l' : Ledger} {op : Operation} {t : Transition} {e : Entry} {es : List Entry}
  {who : String} {now : Int}

/-! What a claim is. -/

theorem Step.of_claim (h : Step l (.claim who now) t) :
    l.status now = .success ∧ ∃ p r, l.positions.get? who = some p ∧
      l.sale.releasedTo p l.totalSold now = .ok r ∧
      t = l.claimPayout who p (claimable r p.claimed) := by
  cases h with
  | disburse hstatus hpays =>
    cases hpays with
    | claim hposition hreleased => exact ⟨hstatus, _, _, hposition, hreleased, rfl⟩

theorem Step.of_claimIndividual (h : Step l (.claimIndividual who now) t) :
    ∃ holder r, l.sale.vested? who = some holder ∧
      holder.releasedAt l.sale.endTime now = .ok r ∧
      t = l.individualPayout who (claimable r (l.individualClaimed who)) := by
  cases h with
  | disburse hstatus hpays =>
    cases hpays with
    | claimIndividual hvested hreleased => exact ⟨_, _, hvested, hreleased, rfl⟩

theorem Step.claim_of_claimed_ne (h : Step l op t)
    (hne : (t.ledger.held who).claimed ≠ (l.held who).claimed) : ∃ now, op = .claim who now := by
  have hkeeps := h.claimed_eq
  cases op with
  | claim participant now =>
    obtain ⟨-, p, r, hposition, -, rfl⟩ := h.of_claim
    refine ⟨now, ?_⟩
    by_cases heq : participant = who
    · rw [heq]
    · refine absurd ?_ hne
      show ((l.payClaim participant p (claimable r p.claimed)).held who).claimed = _
      rw [(held_payClaim hposition).2.2, if_neg heq, Int.add_zero]
  | _ => exact absurd (hkeeps rfl who) hne

theorem Step.claimIndividual_of_claimed_ne (h : Step l op t)
    (hne : t.ledger.individualClaimed who ≠ l.individualClaimed who) :
    ∃ now, op = .claimIndividual who now := by
  have hkeeps : op.pays .individualVesting = false →
      t.ledger.individualClaimed who = l.individualClaimed who := fun hop => by
    rw [individualClaimed, individualClaimed, h.individualClaims_eq hop]
  cases op with
  | claimIndividual stakeholder now =>
    obtain ⟨holder, r, -, -, rfl⟩ := h.of_claimIndividual
    refine ⟨now, ?_⟩
    by_cases heq : stakeholder = who
    · rw [heq]
    · refine absurd ?_ hne
      show (l.payIndividual stakeholder _).individualClaimed who = _
      rw [payIndividual_claimed, if_neg heq, Int.add_zero]
  | _ => exact absurd (hkeeps rfl) hne

theorem SameStakes.held_weight_eq (h : l.SameStakes l') (who : String) :
    (l'.held who).weight = (l.held who).weight := by
  have hstake := h.stake_eq who
  unfold held
  cases hl : l.positions.get? who <;> cases hl' : l'.positions.get? who <;>
    simp_all [Position.stake]

/-! Claims of participants. -/

/-- What participants have claimed is nothing, or what was released to them at a time of success. -/
def ClaimsReleased (l : Ledger) (es : List Entry) : Prop :=
  ∀ who, (l.held who).claimed = 0 ∨
    ∃ e ∈ es, ∃ s, e.op.now? = some s ∧ l.status s = .success ∧
      l.sale.releasedTo (l.held who) l.totalSold s = .ok (l.held who).claimed

def Until (es : List Entry) (now : Int) : Prop := ∀ e ∈ es, ∀ s, e.op.now? = some s → s ≤ now

theorem ClaimsReleased.claimed_le (h : l.ClaimsReleased es) (hl : l.Balanced)
    (hsale : l.sale.Sound) (huntil : Until es now) {r : Int}
    (hreleased : l.sale.releasedTo (l.held who) l.totalSold now = .ok r) :
    (l.held who).claimed ≤ r := by
  have hamount := Int.le_of_lt hsale.saleAmount_pos
  have hheld := held_nonneg hl.position_nonneg who
  rcases h who with hzero | ⟨e, he, s, hnow, -, hthen⟩
  · rw [hzero]
    exact Sale.releasedTo_nonneg hamount hheld hl.totalSold_nonneg hreleased
  · exact Sale.releasedTo_mono hamount hheld hl.totalSold_nonneg (huntil e he s hnow) hthen
      hreleased

theorem ClaimsReleased.claim (h : l.ClaimsReleased es) (hl : l.Balanced) (hsale : l.sale.Sound)
    (huntil : Until es now) (hstep : Step l (.claim who now) t) :
    t.ledger.status now = .success ∧
      t.ledger.sale.releasedTo (t.ledger.held who) t.ledger.totalSold now =
        .ok (t.ledger.held who).claimed := by
  have hsame := hstep.success_later hstep.of_claim.1 fun s hs => Int.le_of_eq (Option.some.inj hs)
  refine ⟨hsame.1, ?_⟩
  rw [hstep.sale_eq, hsame.2.totalSold_eq, Sale.releasedTo_congr (hsame.2.held_weight_eq who)]
  obtain ⟨-, p, r, hposition, hreleased, rfl⟩ := hstep.of_claim
  have hheld : l.held who = p := held_of_get? hposition
  have hclaimed : ((l.claimPayout who p (claimable r p.claimed)).ledger.held who).claimed = r := by
    show ((l.payClaim who p (claimable r p.claimed)).held who).claimed = r
    rw [(held_payClaim hposition).2.2, if_pos rfl, hheld]
    refine add_claimable_eq ?_
    rw [← hheld] at hreleased ⊢
    exact h.claimed_le hl hsale huntil hreleased
  rw [hclaimed, hheld]
  exact hreleased

theorem ClaimsReleased.writes (h : l.ClaimsReleased es) (hl : l.Balanced) (hsale : l.sale.Sound)
    (hwrites : Writes l e l') (huntil : ∀ now, e.op.now? = some now → Until es now) :
    l'.ClaimsReleased (es ++ [e]) := by
  intro who
  cases hwrites with
  | idle hprepared =>
    rcases h who with hzero | ⟨e', he', hthen⟩
    · exact .inl hzero
    · exact .inr ⟨e', List.mem_append_left _ he', hthen⟩
  | @step op prepared t hprepared hstep =>
    by_cases hkept : (t.ledger.held who).claimed = (l.held who).claimed
    · rcases h who with hzero | ⟨e', he', s, hnow, hs, hthen⟩
      · exact .inl (hkept.trans hzero)
      · -- the earlier success has frozen the stake
        obtain ⟨hs', hstakes⟩ := hstep.success_later hs fun now hnow' =>
          huntil now hnow' e' he' s hnow
        refine .inr ⟨e', List.mem_append_left _ he', s, hnow, hs', ?_⟩
        rw [hkept, hstep.sale_eq, hstakes.totalSold_eq,
          Sale.releasedTo_congr (hstakes.held_weight_eq who)]
        exact hthen
    · obtain ⟨now, rfl⟩ := hstep.claim_of_claimed_ne hkept
      exact .inr ⟨_, List.mem_append_right _ List.mem_cons_self, now, rfl,
        h.claim hl hsale (huntil now rfl) hstep⟩

/-! Claims of stakeholders. -/

def VestingReleased (l : Ledger) (es : List Entry) : Prop :=
  ∀ who, l.individualClaimed who = 0 ∨ ∃ holder, l.sale.vested? who = some holder ∧
    ∃ e ∈ es, ∃ s, e.op.now? = some s ∧
      holder.releasedAt l.sale.endTime s = .ok (l.individualClaimed who)

theorem VestingReleased.claimed_le {holder : Stakeholder} (h : l.VestingReleased es)
    (hsale : l.sale.Sound) (huntil : Until es now) (hvested : l.sale.vested? who = some holder)
    {r : Int} (hreleased : holder.releasedAt l.sale.endTime now = .ok r) :
    l.individualClaimed who ≤ r := by
  have hnonneg := (hsale.vested_sound (Sale.mem_vestedHolders hvested).1).1
  rcases h who with hzero | ⟨holder', hvested', e, he, s, hnow, hthen⟩
  · rw [hzero]
    exact released_nonneg hnonneg hreleased
  · obtain rfl : holder' = holder := Option.some.inj (hvested'.symm.trans hvested)
    exact released_mono hnonneg (huntil e he s hnow) hthen hreleased

theorem VestingReleased.claim (h : l.VestingReleased es) (hsale : l.sale.Sound)
    (huntil : Until es now) (hstep : Step l (.claimIndividual who now) t) :
    ∃ holder, t.ledger.sale.vested? who = some holder ∧
      holder.releasedAt t.ledger.sale.endTime now = .ok (t.ledger.individualClaimed who) := by
  rw [hstep.sale_eq]
  obtain ⟨holder, r, hvested, hreleased, rfl⟩ := hstep.of_claimIndividual
  have hclaimed : (l.individualPayout who
      (claimable r (l.individualClaimed who))).ledger.individualClaimed who = r := by
    show (l.payIndividual who _).individualClaimed who = r
    rw [payIndividual_claimed, if_pos rfl]
    exact add_claimable_eq (h.claimed_le hsale huntil hvested hreleased)
  rw [hclaimed]
  exact ⟨holder, hvested, hreleased⟩

theorem VestingReleased.writes (h : l.VestingReleased es) (hsale : l.sale.Sound)
    (hwrites : Writes l e l') (huntil : ∀ now, e.op.now? = some now → Until es now) :
    l'.VestingReleased (es ++ [e]) := by
  intro who
  cases hwrites with
  | idle hprepared =>
    rcases h who with hzero | ⟨holder, hvested, e', he', hthen⟩
    · exact .inl hzero
    · exact .inr ⟨holder, hvested, e', List.mem_append_left _ he', hthen⟩
  | @step op prepared t hprepared hstep =>
    by_cases hkept : t.ledger.individualClaimed who = l.individualClaimed who
    · rw [hkept, hstep.sale_eq]
      rcases h who with hzero | ⟨holder, hvested, e', he', hthen⟩
      · exact .inl hzero
      · exact .inr ⟨holder, hvested, e', List.mem_append_left _ he', hthen⟩
    · obtain ⟨now, rfl⟩ := hstep.claimIndividual_of_claimed_ne hkept
      obtain ⟨holder, hvested, hreleased⟩ := h.claim hsale (huntil now rfl) hstep
      exact .inr ⟨holder, hvested, _, List.mem_append_right _ List.mem_cons_self, now, rfl,
        hreleased⟩

/-! Views. -/

theorem allocation_eq_held (l : Ledger) (who : String) :
    l.allocation who = l.sale.allocation (l.held who) l.totalSold := by
  unfold allocation held
  cases l.positions.get? who with
  | some p => rfl
  | none =>
    unfold Sale.allocation Position.allocation
    cases l.sale.mechanic with
    | fixedPrice price => rfl
    | priceDiscovery => simp [Position.zero]

theorem ClaimsReleased.allocation_released (h : l.ClaimsReleased es) (hl : l.Balanced)
    (hsale : l.sale.Sound) (huntil : Until es now) (hstep : Step l (.claim who now) t) :
    ∃ allocation, 0 ≤ allocation ∧ l.allocation who = .ok allocation ∧
      t.ledger.allocation who = .ok allocation ∧
      released allocation l.sale.vesting l.sale.vestingStart now =
        .ok (t.ledger.held who).claimed := by
  have hl' := hl.step hstep
  obtain ⟨-, hreleased⟩ := h.claim hl hsale huntil hstep
  obtain ⟨-, hstakes⟩ := hstep.success_later hstep.of_claim.1 fun s hs =>
    Int.le_of_eq (Option.some.inj hs)
  obtain ⟨allocation, hallocation, hreleased⟩ := bind_eq_ok.mp hreleased
  have hafter : t.ledger.allocation who = .ok allocation := by
    rw [allocation_eq_held]
    exact hallocation
  rw [hstep.sale_eq] at hallocation hreleased
  have hbefore : l.allocation who = .ok allocation := by
    rw [allocation_eq_held, ← hallocation, hstakes.totalSold_eq]
    simp only [Sale.allocation, hstakes.held_weight_eq who]
  have hnonneg : 0 ≤ allocation := by
    rw [Sale.allocation_eq hallocation]
    exact Sale.entitlement_nonneg (Int.le_of_lt hsale.saleAmount_pos)
      (held_nonneg hl'.position_nonneg who) hl'.totalSold_nonneg
  exact ⟨allocation, hnonneg, hbefore, hafter, hreleased⟩

theorem Step.claim_available (h : Step l (.claim who now) t) :
    l.availableForClaim who now = .ok (amountOf (Transfer.isForTo .claim who) t.transfers) := by
  obtain ⟨hs, p, r, hposition, hreleased, rfl⟩ := h.of_claim
  rw [amountOf_claimPayout _ _ _ (claimable_nonneg r p.claimed)]
  simp [availableForClaim, hposition, hs, hreleased, Transfer.isForTo, bind, Except.bind, pure,
    Except.pure]

theorem Step.claimIndividual_available (h : Step l (.claimIndividual who now) t) :
    l.availableForIndividualClaim who now =
      .ok (amountOf (Transfer.isForTo .individualVesting who) t.transfers) := by
  obtain ⟨holder, r, hvested, hreleased, rfl⟩ := h.of_claimIndividual
  rw [amountOf_individualPayout _ _ (claimable_nonneg r (l.individualClaimed who))]
  simp [availableForIndividualClaim, hvested, hreleased, Transfer.isForTo, bind, Except.bind, pure,
    Except.pure]

end Ledger

theorem InOrder.until {es : List Entry} {op : Operation} {now : Int}
    (h : InOrder (es.map Entry.op ++ [op])) (hnow : op.now? = some now) : Ledger.Until es now :=
  fun e he s hs => h.last e.op (List.mem_map_of_mem he) s hs now hnow

namespace History

variable {draft : Sale.Draft} {settings : Settings} {outbox : Outbox} {clock : Int} {d : Desk}
  {turns : List Turn}

theorem run_claimsReleased (h : Desk.start draft settings outbox clock = .ok d)
    (hordered : InOrder (turns.map Turn.op)) :
    (run d turns).ledger.ClaimsReleased (run d turns).entries ∧
      (run d turns).ledger.VestingReleased (run d turns).entries := by
  rw [← run_ops d turns] at hordered
  refine ((run_induct (P := fun l es => InOrder (es.map Entry.op) → l.Balanced ∧
    l.ClaimsReleased es ∧ l.VestingReleased es) h ?_ ?_ turns).1 hordered).2
  · intro s hs _
    exact ⟨Ledger.balanced_empty (Int.le_of_lt hs.saleAmount_pos), fun _ => .inl rfl,
      fun _ => .inl rfl⟩
  · intro l es e l' hsale hP hwrites hordered
    rw [List.map_append] at hordered
    obtain ⟨hl, hclaims, hvesting⟩ := hP hordered.init
    have huntil : ∀ now, e.op.now? = some now → Ledger.Until es now := fun _ hnow =>
      hordered.until hnow
    exact ⟨hl.writes hwrites, hclaims.writes hl hsale hwrites huntil,
      hvesting.writes hsale hwrites huntil⟩

theorem run_append_of_sent {x : Turn} {t : Transition}
    (hperform : (run d turns).ledger.perform x.op = .ok t) (hsent : t.transfers.length ≤ x.taken) :
    (run d (turns ++ [x])).ledger = t.ledger := by
  rw [run_append, turn_of_ok hperform, ledger, Desk.installSent_ledger, Transition.committed,
    if_pos hsent]
  rfl

theorem start_cliff_lt (h : Desk.start draft settings outbox clock = .ok d) :
    ∀ v, d.ledger.sale.vesting = some v → v.cliff < v.period := by
  simp only [Desk.start, Ledger.start, bind_eq_ok, pure_eq_ok] at h
  obtain ⟨-, -, l, ⟨s, hs, rfl⟩, rfl⟩ := h
  exact Sale.cliff_lt_of_check hs

/-- In a history in the order of time, a claim pays what the view says is available, and after it
everything was claimed that is released at that time, and sent. This holds of participants, on the
vesting of the sale, and of stakeholders, on their own from the end of the sale. -/
theorem run_claims_released (h : Desk.start draft settings outbox clock = .ok d) {x : Turn}
    {t : Transition} (hordered : InOrder ((turns ++ [x]).map Turn.op))
    (hperform : (run d turns).ledger.perform x.op = .ok t) (hsent : t.transfers.length ≤ x.taken) :
    (∀ who now, x.op = .claim who now → ∃ allocation,
      (run d turns).ledger.allocation who = .ok allocation ∧
      (run d (turns ++ [x])).ledger.allocation who = .ok allocation ∧
      (run d turns).ledger.availableForClaim who now =
        .ok (amountOf (Transfer.isForTo .claim who) t.transfers) ∧
      amountOf (Transfer.isForTo .claim who) (run d (turns ++ [x])).sent =
        ((run d (turns ++ [x])).ledger.held who).claimed ∧
      CaughtUp d.ledger.sale.vesting d.ledger.sale.vestingStart now allocation
        ((run d (turns ++ [x])).ledger.held who).claimed) ∧
    (∀ who now, x.op = .claimIndividual who now → ∃ holder,
      d.ledger.sale.vested? who = some holder ∧
      (run d turns).ledger.availableForIndividualClaim who now =
        .ok (amountOf (Transfer.isForTo .individualVesting who) t.transfers) ∧
      amountOf (Transfer.isForTo .individualVesting who) (run d (turns ++ [x])).sent =
        (run d (turns ++ [x])).ledger.individualClaimed who ∧
      CaughtUp holder.vesting d.ledger.sale.endTime now holder.allocation
        ((run d (turns ++ [x])).ledger.individualClaimed who)) := by
  obtain ⟨op, n⟩ := x
  have hsale := run_sale_sound h turns
  have hsame := run_sale_eq h turns
  have hl := (run_balanced h turns).2
  have hreceipts := run_agree h (turns ++ [⟨op, n⟩])
  rw [List.map_append] at hordered
  obtain ⟨hclaims, hvesting⟩ := run_claimsReleased h hordered.init
  rw [← run_ops d turns] at hordered
  rw [run_append_of_sent hperform hsent] at hreceipts ⊢
  refine ⟨?_, ?_⟩
  · rintro who now hop
    cases hop
    have hstep := Ledger.step_of_perform hperform
    obtain ⟨allocation, hnonneg, hbefore, hafter, hreleased⟩ :=
      hclaims.allocation_released hl hsale (hordered.until rfl) hstep
    rw [hsame] at hreleased
    exact ⟨allocation, hbefore, hafter, hstep.claim_available, hreceipts.claims who,
      caughtUp_of_released hnonneg (start_cliff_lt h) hreleased⟩
  · rintro who now hop
    cases hop
    have hstep := Ledger.step_of_perform hperform
    obtain ⟨holder, hvested, hreleased⟩ := hvesting.claim hsale (hordered.until rfl) hstep
    rw [hstep.sale_eq, hsame] at hvested hreleased
    rw [hsame] at hsale
    have hsound := hsale.vested_sound (Sale.mem_vestedHolders hvested).1
    exact ⟨holder, hvested, hstep.claimIndividual_available, hreceipts.vesting who,
      caughtUp_of_released hsound.1 hsound.2 hreleased⟩

def claimTurns : List Turn :=
  sampleTurns.take 4 ++ [⟨.claim "alice" 100, 1⟩, ⟨.claimIndividual "vic" 150, 1⟩,
    ⟨.claimIndividual "vic" 170, 1⟩]

theorem run_claims_released_sample :
    Desk.start sampleSale.draft {} (.kept []) 0 = .ok sampleDesk ∧
      InOrder (claimTurns.map Turn.op) ∧
      (run sampleDesk (claimTurns.take 4)).ledger.allocation "alice" = .ok 333 ∧
      CaughtUp none 100 100 333 ((run sampleDesk (claimTurns.take 5)).ledger.held "alice").claimed ∧
      CaughtUp (some ⟨10, 100, none, .immediate⟩) 100 170 20
        ((run sampleDesk claimTurns).ledger.individualClaimed "vic") ∧
      (run sampleDesk claimTurns).ledger.individualClaimed "vic" = 14 := by
  have hstart : Desk.start sampleSale.draft {} (.kept []) 0 = .ok sampleDesk := rfl
  have hordered : InOrder (claimTurns.map Turn.op) := by decide
  obtain ⟨t, ht⟩ := exists_eq_ok (x := (run sampleDesk (claimTurns.take 4)).ledger.perform
    (.claim "alice" 100)) (by decide +kernel)
  obtain ⟨t', ht'⟩ := exists_eq_ok (x := (run sampleDesk (claimTurns.take 6)).ledger.perform
    (.claimIndividual "vic" 170)) (by decide +kernel)
  have hlength : t.transfers.length ≤ 1 := by
    obtain ⟨-, p, r, -, -, rfl⟩ := (Ledger.step_of_perform ht).of_claim
    exact Ledger.advance_transfers_length_le ..
  have hlength' : t'.transfers.length ≤ 1 := by
    obtain ⟨holder, r, -, -, rfl⟩ := (Ledger.step_of_perform ht').of_claimIndividual
    exact Ledger.advance_transfers_length_le ..
  obtain ⟨hclaim, -⟩ := run_claims_released hstart (x := ⟨.claim "alice" 100, 1⟩) (by decide) ht
    hlength
  obtain ⟨allocation, hallocation, -, -, -, hcaught⟩ := hclaim "alice" 100 rfl
  obtain ⟨-, hvesting⟩ := run_claims_released hstart (x := ⟨.claimIndividual "vic" 170, 1⟩)
    (by decide) ht' hlength'
  obtain ⟨holder, hvested, -, -, hcaught'⟩ := hvesting "vic" 170 rfl
  cases hvested
  have hshare : ((run sampleDesk (claimTurns.take 4)).ledger.allocation "alice").toOption =
      some 333 := by
    decide +kernel
  rw [hallocation] at hshare
  cases hshare
  exact ⟨hstart, hordered, hallocation, hcaught, hcaught', by decide +kernel⟩

end History

end TokenSale
