import TokenSale.Proofs.Ledger.Applied
import TokenSale.Proofs.Ledger.Phase

/-!
Changes against the two ledgers that they are read off. The change of a step applied to the old
ledger gives the new one, and taken back from the new ledger it gives the old one.

Two things are lost. A change holds no numbers of the nameless participant. And a depositor who is
noted first for a participant who was there before stays noted when the change is taken back.
-/

namespace TokenSale

def Operation.depositor? : Operation → Option String
  | deposit depositor _ _ _ _ => some depositor
  | _ => none

def Operation.subject? : Operation → Option String
  | claimIndividual stakeholder _ => some stakeholder
  | op => op.participant?

namespace Ledger

variable {l l' : Ledger} {who? d? : Option String}

/-! Steps as seen by the change between two ledgers. -/

/-- What a step of `who?` may write: the position and the individual claim of `who?`, the depositor
`d?` for `who?`, totals and flags, and new names at the ends of the logs. -/
structure Evolves (l : Ledger) (who? d? : Option String) (l' : Ledger) : Prop where
  sale_eq : l'.sale = l.sale
  revision_eq : l'.revision = l.revision + 1
  roster : l'.positions = l.positions ∧ l'.participants = l.participants ∨
    ∃ who q, who? = some who ∧ l'.positions = l.positions.insert who q ∧
      l'.participants = l.participants + if (l.positions.get? who).isSome then 0 else 1
  claims : l'.individualClaims = l.individualClaims ∨
    ∃ who v, who? = some who ∧ v ≠ l.individualClaimed who ∧
      l'.individualClaims = l.individualClaims.insert who v
  depositors_eq : l'.depositors = note l.depositors d? who?
  paid_grown : Grown l.paid l'.paid
  legsPaid_grown : Grown l.legsPaid l'.legsPaid

def KeepsNameless (l l' : Ledger) : Prop :=
  l'.held "" = l.held "" ∧ l'.individualClaimed "" = l.individualClaimed ""

theorem Evolves.keepsNameless (h : Evolves l who? d? l') (hwho : who? ≠ some "") :
    l.KeepsNameless l' := by
  refine ⟨?_, ?_⟩
  · rcases h.roster with ⟨hpositions, -⟩ | ⟨who, q, hsome, hpositions, -⟩
    · simp only [held, hpositions]
    · have hne : "" ≠ who := fun heq => hwho (heq ▸ hsome)
      simp only [held, hpositions, Book.get?_insert_of_ne _ hne]
  · rcases h.claims with hclaims | ⟨who, v, hsome, -, hclaims⟩
    · simp only [individualClaimed, hclaims]
    · have hne : "" ≠ who := fun heq => hwho (heq ▸ hsome)
      simp only [individualClaimed, hclaims, Book.get?_insert_of_ne _ hne]

theorem KeepsNameless.positionOf_sub (h : l.KeepsNameless l') (f : Position → Int) (who : String) :
    f (l'.positionOf (some who)) - f (l.positionOf (some who)) =
      f (l'.held who) - f (l.held who) := by
  by_cases heq : who = ""
  · subst heq
    rw [h.1]
    simp [positionOf]
  · rw [positionOf_of_ne _ heq, positionOf_of_ne _ heq]

theorem KeepsNameless.individualClaimOf_sub (h : l.KeepsNameless l') (who : String) :
    l'.individualClaimOf (some who) - l.individualClaimOf (some who) =
      l'.individualClaimed who - l.individualClaimed who := by
  by_cases heq : who = ""
  · subst heq
    rw [h.2]
    simp [individualClaimOf]
  · simp [individualClaimOf, heq]

theorem Evolves.roster_cases (h : Evolves l who? d? l') :
    l'.positions = l.positions ∧ l'.participants = l.participants ∧
        newParticipants l l' who? = [] ∧ ¬(l.changeTo l' who?).Moves ∨
      ∃ who q, who? = some who ∧ l'.positions = l.positions.insert who q ∧
        l'.participants = l.participants + (if (l.positions.get? who).isSome then 0 else 1) ∧
        newParticipants l l' who? = (if (l.positions.get? who).isNone then [who] else []) := by
  rcases h.roster with ⟨hpositions, hparticipants⟩ | ⟨who, q, rfl, hpositions, hparticipants⟩
  · refine .inl ⟨hpositions, hparticipants, ?_, ?_⟩
    · cases who? with
      | none => rfl
      | some who =>
        simp only [newParticipants, hpositions]
        cases l.positions.get? who <;> rfl
    · simp only [Change.Moves, changeTo, positionOf_congr hpositions, Int.sub_self, and_self,
        not_true_eq_false, not_false_eq_true]
  · refine .inr ⟨who, q, rfl, hpositions, hparticipants, ?_⟩
    simp [newParticipants, hpositions]

theorem Evolves.applyRoster_changeTo (h : Evolves l who? d? l') (hk : l.KeepsNameless l')
    (hnonneg : l'.positions.Forall Position.Nonneg) :
    l.applyRoster (l.changeTo l' who?) = .ok (l'.positions, l'.participants) := by
  simp only [applyRoster, bind_eq_ok, pure_eq_ok]
  show ∃ b, adjust (enter _ (newParticipants l l' who?)).1 _ = .ok b ∧
    strike (b, (enter _ (newParticipants l l' who?)).2) [] = _
  rcases h.roster_cases with ⟨hpositions, hparticipants, hnone, hstill⟩ |
    ⟨who, q, rfl, hpositions, hparticipants, hnew⟩
  · rw [hnone, hpositions, hparticipants]
    exact ⟨_, adjust_of_not_moves hstill, rfl⟩
  · obtain ⟨b, henter, hget, hinsert⟩ := enter_newcomer l.positions l.participants who
    have hheld : l'.held who = q := by simp [held, hpositions]
    have hq : q.Nonneg := hnonneg who q (by simp [hpositions])
    have hsub := fun f => hk.positionOf_sub f who
    rw [hheld] at hsub
    rw [hnew, henter, hparticipants, hpositions, ← hinsert q]
    exact ⟨_, adjust_to rfl hget hq (hsub Position.amount) (hsub Position.weight)
      (hsub Position.claimed), rfl⟩

theorem Evolves.applyRoster_negate (h : Evolves l who? d? l') (hk : l.KeepsNameless l')
    (hnonneg : l.positions.Forall Position.Nonneg) :
    l'.applyRoster (l.changeTo l' who?).negate = .ok (l.positions, l.participants) := by
  simp only [applyRoster, bind_eq_ok, pure_eq_ok]
  show ∃ b, adjust l'.positions _ = .ok b ∧
    strike (b, l'.participants) (newParticipants l l' who?) = _
  rcases h.roster_cases with ⟨hpositions, hparticipants, hnone, hstill⟩ |
    ⟨who, q, rfl, hpositions, hparticipants, hnew⟩
  · rw [hnone, hpositions, hparticipants]
    exact ⟨_, adjust_of_not_moves (mt Change.moves_negate.mp hstill), rfl⟩
  · have hget : l'.positions.get? who = some q := by simp [hpositions]
    have hheld : l'.held who = q := held_of_get? hget
    have hsub : ∀ f : Position → Int,
        -(f (l'.positionOf (some who)) - f (l.positionOf (some who))) = f (l.held who) - f q := by
      intro f
      rw [hk.positionOf_sub f who, hheld, Int.neg_sub]
    rw [hnew, hparticipants]
    refine ⟨_, adjust_to rfl hget (held_nonneg hnonneg who) (hsub Position.amount)
      (hsub Position.weight) (hsub Position.claimed), ?_⟩
    rw [hpositions, Book.insert_insert_self]
    exact strike_newcomer l.positions l.participants who

theorem Evolves.applyIndividual_changeTo (h : Evolves l who? d? l') (hk : l.KeepsNameless l')
    (hnonneg : l'.individualClaims.Forall (0 ≤ ·)) :
    l.applyIndividual (l.changeTo l' who?) = .ok l'.individualClaims := by
  rcases h.claims with hclaims | ⟨who, v, rfl, hne, hclaims⟩
  · have hzero : (l.changeTo l' who?).individualClaimed = 0 := by
      show l'.individualClaimOf who? - l.individualClaimOf who? = 0
      rw [individualClaimOf_congr hclaims, Int.sub_self]
    rw [applyIndividual_of_eq_zero hzero, hclaims]
  · have hv : l'.individualClaimed who = v := by simp [individualClaimed, hclaims]
    have hsub := hk.individualClaimOf_sub who
    rw [hv] at hsub
    have hpos : 0 ≤ v := hnonneg who v (by simp [hclaims])
    rw [applyIndividual_to rfl hsub hne hpos, hclaims]

/-- Taken back, the change of a step restores what every stakeholder has claimed. The record of one
who had none before stays, with nothing in it. -/
theorem Evolves.applyIndividual_negate (h : Evolves l who? d? l') (hk : l.KeepsNameless l')
    (hnonneg : l.individualClaims.Forall (0 ≤ ·)) :
    ∃ claims, l'.applyIndividual (l.changeTo l' who?).negate = .ok claims ∧
      (∀ a, (claims.get? a).getD 0 = l.individualClaimed a) ∧
      (l'.individualClaims = l.individualClaims → claims = l.individualClaims) := by
  rcases h.claims with hclaims | ⟨who, v, rfl, hne, hclaims⟩
  · have hzero : (l.changeTo l' who?).negate.individualClaimed = 0 := by
      show -(l'.individualClaimOf who? - l.individualClaimOf who?) = 0
      rw [individualClaimOf_congr hclaims, Int.sub_self, Int.neg_zero]
    refine ⟨_, applyIndividual_of_eq_zero hzero, fun a => ?_, id⟩
    rw [hclaims]
    rfl
  · have hv : l'.individualClaimed who = v := by simp [individualClaimed, hclaims]
    have hsub : (l.changeTo l' (some who)).negate.individualClaimed =
        l.individualClaimed who - l'.individualClaimed who := by
      show -(l'.individualClaimOf (some who) - l.individualClaimOf (some who)) = _
      rw [hk.individualClaimOf_sub, Int.neg_sub]
    refine ⟨_, applyIndividual_to rfl hsub (hv ▸ Ne.symm hne)
      (individualClaimed_nonneg hnonneg who), fun a => ?_, fun hsame => absurd ?_ hne⟩
    · rw [hclaims, Book.insert_insert_self]
      by_cases ha : a = who
      · rw [ha, Book.get?_insert_self]
        rfl
      · rw [Book.get?_insert_of_ne _ ha]
        rfl
    · rw [← hv, individualClaimed, hsame]
      rfl

/-! The whole change. -/

theorem keepsNameless_of_applied (h : l.Applied (l.changeTo l' (some "")) l') :
    l.KeepsNameless l' := by
  refine ⟨?_, ?_⟩
  · have hstill : ¬(l.changeTo l' (some "")).Moves := by simp [Change.Moves, changeTo, positionOf]
    have hroster := h.roster_eq
    simp only [applyRoster, bind_eq_ok, pure_eq_ok, adjust_of_not_moves hstill] at hroster
    obtain ⟨b, hb, hroster⟩ := hroster
    cases hb
    have hpositions : (enter (l.positions, l.participants) _).1 = l'.positions :=
      congrArg Prod.fst hroster
    rw [held, ← hpositions, enter_held]
    rfl
  · have hzero : (l.changeTo l' (some "")).individualClaimed = 0 := by
      simp [changeTo, individualClaimOf]
    have hclaims := h.individualClaims_eq
    rw [applyIndividual_of_eq_zero hzero] at hclaims
    have hsame : l.individualClaims = l'.individualClaims := Except.ok.inj hclaims
    rw [individualClaimed, individualClaimed, hsame]

/-- The change of a step leads from the old ledger to the new one exactly if the step leaves the
nameless participant alone. -/
theorem Evolves.apply_changeTo_iff (h : Evolves l who? d? l') (hl : l'.Balanced) :
    l.apply (l.changeTo l' who?) = .ok l' ↔ l.KeepsNameless l' := by
  rw [apply_eq_ok]
  constructor
  · -- only a step of the nameless participant can fail to, and its change moves nothing
    intro happlied
    by_cases hwho : who? = some ""
    · subst hwho
      exact keepsNameless_of_applied happlied
    · exact h.keepsNameless hwho
  · intro hk
    obtain ⟨hnodup, hfresh, hpaid⟩ := h.paid_grown.added
    obtain ⟨-, hlegsFresh, hlegs⟩ := h.legsPaid_grown.added
    exact {
      sale_eq := h.sale_eq
      revision_eq := h.revision_eq
      roster_eq := h.applyRoster_changeTo hk hl.position_nonneg
      individualClaims_eq := h.applyIndividual_changeTo hk hl.claim_nonneg
      depositors_eq := by
        rw [h.depositors_eq]
        simp only [changeTo, h.depositors_eq]
        exact (attach_note l.depositors l'.positions).symm
      totalDeposited_eq := by
        simp only [changeTo]
        omega
      totalSold_eq := by
        simp only [changeTo]
        omega
      totalDeposited_nonneg := hl.totalDeposited_nonneg
      totalSold_nonneg := hl.totalSold_nonneg
      paid_eq := by
        simp only [changeTo, filter_not_nil]
        rw [recordPaid_eq_append hnodup hfresh, hpaid]
      legsPaid_eq := by
        simp only [changeTo, relist, filter_not_nil]
        rw [filter_new_eq_self hlegsFresh, hlegs]
      funded_eq := (flagChange_getD l.funded l'.funded).symm
      locked_eq := (flagChange_getD l.locked l'.locked).symm }

/-- The records of two ledgers are the same, except for depositors and individual claims. -/
structure SameRecords (l lu : Ledger) : Prop where
  sale_eq : lu.sale = l.sale
  totalDeposited_eq : lu.totalDeposited = l.totalDeposited
  totalSold_eq : lu.totalSold = l.totalSold
  funded_eq : lu.funded = l.funded
  locked_eq : lu.locked = l.locked
  participants_eq : lu.participants = l.participants
  positions_eq : lu.positions = l.positions
  paid_eq : lu.paid = l.paid
  legsPaid_eq : lu.legsPaid = l.legsPaid

theorem Evolves.apply_negate (h : Evolves l who? d? l') (hk : l.KeepsNameless l')
    (hl : l.Balanced) : ∃ lu, l'.apply (l.changeTo l' who?).negate = .ok lu ∧ l.SameRecords lu ∧
      lu.revision = l'.revision + 1 ∧ lu.depositors = unnote l.depositors l.positions d? who? ∧
      (∀ a, lu.individualClaimed a = l.individualClaimed a) ∧
      (l'.individualClaims = l.individualClaims → lu.individualClaims = l.individualClaims) := by
  obtain ⟨claims, hclaims, hclaimed, hsame⟩ := h.applyIndividual_negate hk hl.claim_nonneg
  refine ⟨{ l with
    depositors := unnote l.depositors l.positions d? who?
    individualClaims := claims
    revision := l'.revision + 1 }, apply_eq_ok.mpr ?_,
    ⟨rfl, rfl, rfl, rfl, rfl, rfl, rfl, rfl, rfl⟩, rfl, rfl, hclaimed, hsame⟩
  exact {
    sale_eq := h.sale_eq.symm
    revision_eq := rfl
    roster_eq := h.applyRoster_negate hk hl.position_nonneg
    individualClaims_eq := hclaims
    depositors_eq := by
      simp only [Change.negate, changeTo, h.depositors_eq]
      exact (attach_unnote l.depositors l.positions).symm
    totalDeposited_eq := by
      simp only [Change.negate, changeTo]
      omega
    totalSold_eq := by
      simp only [Change.negate, changeTo]
      omega
    totalDeposited_nonneg := hl.totalDeposited_nonneg
    totalSold_nonneg := hl.totalSold_nonneg
    paid_eq := by
      simp only [Change.negate, changeTo, recordPaid]
      exact h.paid_grown.filter_added.symm
    legsPaid_eq := by
      simp only [Change.negate, changeTo, relist, List.filter_nil, List.append_nil]
      exact h.legsPaid_grown.filter_added.symm
    funded_eq := (flagChange_not_getD l.funded l'.funded).symm
    locked_eq := (flagChange_not_getD l.locked l'.locked).symm }

/-! Steps evolve a ledger. -/

section Steps

variable {op : Operation} {t : Transition}

def depositorsLeft (l : Ledger) (op : Operation) : Book String :=
  if l.funded then unnote l.depositors l.positions op.depositor? op.participant? else l.depositors

theorem depositorsLeft_of_none (l : Ledger) (h : op.depositor? = none) :
    l.depositorsLeft op = l.depositors := by
  simp only [depositorsLeft, h, unnote, ite_self]

theorem Step.participant_eq (h : Step l op t) :
    t.change.participant = none ∨ t.change.participant = op.subject? := by
  cases h with
  | disburse hstatus h =>
    cases h with
    | claim hposition hreleased => exact .inr rfl
    | claimIndividual hvested hreleased => exact .inr rfl
    | distribute hplan hbatch hne => exact .inl rfl
    | distributeDeposits hplan hsplit hparts hlegs hne => exact .inl rfl
  | deposit hfunded hstatus hmin hpurchase => exact .inr rfl
  | withdraw hopen hposition hwithdrawal => exact .inr rfl
  | _ => exact .inl rfl

theorem Posts.roster (h : Posts l op t) :
    t.ledger.positions = l.positions ∧ t.ledger.participants = l.participants ∨
      ∃ who q, t.change.participant = some who ∧ t.ledger.positions = l.positions.insert who q ∧
        t.ledger.participants =
          l.participants + if (l.positions.get? who).isSome then 0 else 1 := by
  cases h with
  | keeps hpositions hparticipants hdeposited hsold hdepositors =>
    exact .inl ⟨hpositions, hparticipants⟩
  | writes hop hwho hnonneg hpositions hparticipants hdeposited hsold hcapped hdepositors =>
    exact .inr ⟨_, _, hwho, hpositions, hparticipants⟩

theorem Step.claims (h : Step l op t) :
    t.ledger.individualClaims = l.individualClaims ∨
      ∃ who v, t.change.participant = some who ∧ v ≠ l.individualClaimed who ∧
        t.ledger.individualClaims = l.individualClaims.insert who v := by
  rcases h.quiet_or_disburses with hquiet | ⟨now, -, hpays⟩
  · exact .inl hquiet.individualClaims_eq
  · have hkeeps := hpays.individualClaims_eq
    cases hpays with
    | @claimIndividual stakeholder holder r hvested hreleased =>
      by_cases hzero : claimable r (l.individualClaimed stakeholder) = 0
      · left
        simp only [individualPayout, advance, payIndividual, if_pos hzero]
      · right
        refine ⟨stakeholder, l.individualClaimed stakeholder +
          claimable r (l.individualClaimed stakeholder), rfl, by omega, ?_⟩
        simp only [individualPayout, advance, payIndividual, if_neg hzero]
    | _ => exact .inl (hkeeps rfl)

theorem Step.paid_grown (h : Step l op t) (hsale : l.sale.Sound) : Grown l.paid t.ledger.paid := by
  rcases h.quiet_or_disburses with hquiet | ⟨now, -, hpays⟩
  · rw [hquiet.paid_eq]
    exact grown_refl _
  · have hkeeps := hpays.paid_eq
    cases hpays with
    | @distribute limit plan batch hplan hbatch hne =>
      have hsound := hsale.plan_sound plan hplan
      exact ⟨batch.map Prod.fst, hbatch.nodup hsound, hbatch.fresh, payBatch_paid hsound hbatch⟩
    | _ =>
      rw [hkeeps rfl]
      exact grown_refl _

theorem Step.legsPaid_grown (h : Step l op t) : Grown l.legsPaid t.ledger.legsPaid := by
  rcases h.quiet_or_disburses with hquiet | ⟨now, -, hpays⟩
  · rw [hquiet.legsPaid_eq]
    exact grown_refl _
  · have hkeeps := hpays.legsPaid_eq
    cases hpays with
    | @distributeDeposits plan split parts legs hplan hsplit hparts hlegs hne =>
      have hall : legs.Sublist Leg.all := (List.IsPrefix.sublist hlegs).trans List.filter_sublist
      refine ⟨legs.map Leg.name, (hall.map Leg.name).nodup (by decide), ?_, rfl⟩
      exact fun a ha => dueLegs_fresh a ((hlegs.map Leg.name).subset ha)
    | _ =>
      rw [hkeeps fun _ => rfl]
      exact grown_refl _

theorem Step.noted (h : Step l op t) :
    ∃ d?, t.ledger.depositors = note l.depositors d? t.change.participant ∧
      unnote l.depositors l.positions d? t.change.participant = l.depositorsLeft op := by
  cases h with
  | fund hfunded hamount => exact ⟨none, rfl, by simp [depositorsLeft, hfunded, unnote]⟩
  | @deposit depositor participant amount now token p hfunded hstatus hmin hpurchase =>
    by_cases htaken : 0 < p.accepted ∨ (l.positions.get? participant).isSome = true
    · refine ⟨some depositor, ?_, ?_⟩
      · rw [take_of_taken depositor htaken]
        rfl
      · rw [depositorsLeft, if_pos hfunded]
        rfl
    · refine ⟨none, ?_, ?_⟩
      · rw [take_of_skipped depositor htaken]
        rfl
      · have hnew : ¬(l.positions.get? participant).isSome = true := fun hin => htaken (.inr hin)
        rw [depositorsLeft, if_pos hfunded]
        show l.depositors = if _ ∧ (l.positions.get? participant).isSome then _ else _
        rw [if_neg fun hand => hnew hand.2]
  | disburse hstatus h =>
    refine ⟨none, ?_, ?_⟩
    · cases h with
      | claim hposition hreleased =>
        rw [claimPayout, payClaim_eq]
        rfl
      | claimIndividual hvested hreleased =>
        rw [individualPayout, payIndividual_eq]
        rfl
      | _ => rfl
    · rw [depositorsLeft_of_none l (by cases h <;> rfl)]
      rfl
  | _ => exact ⟨none, rfl, (depositorsLeft_of_none l rfl).symm⟩

theorem Step.evolves (h : Step l op t) (hsale : l.sale.Sound) (htallied : l.Tallied) :
    ∃ d?, Evolves l t.change.participant d? t.ledger ∧
      unnote l.depositors l.positions d? t.change.participant = l.depositorsLeft op := by
  obtain ⟨d?, hnoted, hleft⟩ := h.noted
  exact ⟨d?, {
    sale_eq := h.sale_eq
    revision_eq := h.revision_eq
    roster := (h.posts htallied).roster
    claims := h.claims
    depositors_eq := hnoted
    paid_grown := h.paid_grown hsale
    legsPaid_grown := h.legsPaid_grown }, hleft⟩

end Steps

end Ledger

end TokenSale
