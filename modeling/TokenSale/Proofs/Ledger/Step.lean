import TokenSale.Ledger.Operation
import TokenSale.Proofs.Distribution

/-!
The steps of a ledger: all that an operation which is not refused can lead to, with the guards it
has passed. A payout of several transfers may stop early, so a step of it pays any first part of
what is due. Every invariant is derived from these cases, and none opens an operation again.
-/

namespace TokenSale

/-- The time of an operation. Resuming a halted sale has none. -/
def Operation.now? : Operation → Option Int
  | deposit _ _ _ now _ => some now
  | withdraw _ _ now => some now
  | claim _ now => some now
  | claimIndividual _ now => some now
  | distributeNext now _ => some now
  | distributeDeposits now => some now
  | lock now => some now
  | unlock => none
  | adminWithdraw _ _ _ now => some now

def payoutTransfer (r : Payout) : Transfer := ⟨.sale, r.1, r.2, .distribution⟩

namespace Ledger

/-- What a participant holds, which is nothing for one who is unknown. -/
def held (l : Ledger) (who : String) : Position := (l.positions.get? who).getD .zero

def payClaim (l : Ledger) (who : String) (p : Position) (amount : Int) : Ledger :=
  if amount = 0 then l
  else { l with positions := l.positions.insert who { p with claimed := p.claimed + amount } }

def payIndividual (l : Ledger) (who : String) (amount : Int) : Ledger :=
  if amount = 0 then l
  else
    { l with
      individualClaims := l.individualClaims.insert who (l.individualClaimed who + amount) }

def release (l : Ledger) (who : String) (w : Position.Withdrawal) : Ledger :=
  { l with
    totalDeposited := w.totalDeposited
    totalSold := w.totalSold
    positions := l.positions.insert who w.position }

def payBatch (l : Ledger) (batch : List Payout) : Ledger :=
  { l with paid := recordPaid l.paid (batch.map Prod.fst) }

def payLegs (l : Ledger) (legs : List Leg) : Ledger :=
  { l with legsPaid := l.legsPaid ++ legs.map Leg.name }

/-! What each of these writes: all other fields of the ledger stay as they are. -/

theorem take_of_taken {l : Ledger} {participant : String} {p : Position.Purchase}
    (depositor : String)
    (htaken : 0 < p.accepted ∨ (l.positions.get? participant).isSome = true) :
    l.take depositor participant p =
      { l with
        totalDeposited := p.totalDeposited
        totalSold := p.totalSold
        depositors := l.depositors.insert depositor participant
        participants := l.participants + if (l.positions.get? participant).isSome then 0 else 1
        positions := l.positions.insert participant p.position } :=
  if_pos htaken

theorem take_of_skipped {l : Ledger} {participant : String} {p : Position.Purchase}
    (depositor : String)
    (hskipped : ¬(0 < p.accepted ∨ (l.positions.get? participant).isSome = true)) :
    l.take depositor participant p = l :=
  if_neg hskipped

theorem take_eq (l : Ledger) (depositor participant : String) (p : Position.Purchase) :
    l.take depositor participant p =
      { l with
        totalDeposited := (l.take depositor participant p).totalDeposited
        totalSold := (l.take depositor participant p).totalSold
        depositors := (l.take depositor participant p).depositors
        participants := (l.take depositor participant p).participants
        positions := (l.take depositor participant p).positions } := by
  by_cases htaken : 0 < p.accepted ∨ (l.positions.get? participant).isSome = true
  · rw [take_of_taken depositor htaken]
  · rw [take_of_skipped depositor htaken]

theorem payClaim_eq (l : Ledger) (who : String) (p : Position) (amount : Int) :
    l.payClaim who p amount = { l with positions := (l.payClaim who p amount).positions } := by
  unfold payClaim
  split <;> rfl

theorem payIndividual_eq (l : Ledger) (who : String) (amount : Int) :
    l.payIndividual who amount =
      { l with individualClaims := (l.payIndividual who amount).individualClaims } := by
  unfold payIndividual
  split <;> rfl

def claimPayout (l : Ledger) (who : String) (p : Position) (amount : Int) : Transition :=
  l.advance .claim (l.payClaim who p amount) (some who) [⟨.sale, who, amount, .claim⟩]
    (.claim amount)

def individualPayout (l : Ledger) (who : String) (amount : Int) : Transition :=
  l.advance .claimIndividual (l.payIndividual who amount) (some who)
    [⟨.sale, who, amount, .individualVesting⟩] (.claim amount)

def batchPayout (l : Ledger) (batch : List Payout) : Transition :=
  l.advance .distribute (l.payBatch batch) none (batch.map payoutTransfer) .plain

def legPayout (l : Ledger) (plan : Plan) (split : Split) (parts : Int × Int) (legs : List Leg) :
    Transition :=
  l.advance .distributeDeposits (l.payLegs legs) none (legs.map (legTransfer plan split parts))
    .plain

inductive Disburses (l : Ledger) (now : Int) : Operation → Transition → Prop where
  | claim {participant : String} {p : Position} {r : Int}
      (hposition : l.positions.get? participant = some p)
      (hreleased : l.sale.releasedTo p l.totalSold now = .ok r) :
      Disburses l now (.claim participant now) (l.claimPayout participant p (claimable r p.claimed))
  | claimIndividual {stakeholder : String} {h : Stakeholder} {r : Int}
      (hvested : l.sale.vested? stakeholder = some h)
      (hreleased : h.releasedAt l.sale.endTime now = .ok r) :
      Disburses l now (.claimIndividual stakeholder now)
        (l.individualPayout stakeholder (claimable r (l.individualClaimed stakeholder)))
  | distribute {limit : Option Int} {plan : Plan} {batch : List Payout}
      (hplan : l.sale.plan = some plan) (hbatch : plan.IsBatch l.paid batch) (hne : batch ≠ []) :
      Disburses l now (.distributeNext now limit) (l.batchPayout batch)
  | distributeDeposits {plan : Plan} {split : Split} {parts : Int × Int} {legs : List Leg}
      (hplan : l.sale.plan = some plan) (hsplit : l.sale.split = some split)
      (hparts : Split.parts (some split) l.totalDeposited = .ok parts)
      (hlegs : legs <+: l.dueLegs) (hne : legs ≠ []) :
      Disburses l now (.distributeDeposits now) (l.legPayout plan split parts legs)

inductive Step (l : Ledger) : Operation → Transition → Prop where
  | fund {depositor participant : String} {amount now : Int} {token : Option String}
      (hfunded : l.funded = false) (hamount : amount = l.sale.totalSaleAmount) :
      Step l (.deposit depositor amount participant now token)
        (l.advance .fund { l with funded := true } none [] (.deposit amount 0 0))
  | deposit {depositor participant : String} {amount now : Int} {token : Option String}
      {p : Position.Purchase} (hfunded : l.funded = true) (hstatus : l.status now = .ongoing)
      (hmin : l.sale.minDeposit ≤ amount)
      (hpurchase : Position.deposit l.sale.mechanic l.sale.discounts l.sale.saleAmount
        (l.held participant) l.totalDeposited l.totalSold amount now = .ok p) :
      Step l (.deposit depositor amount participant now token)
        (l.advance .deposit (l.take depositor participant p) (some participant)
          [⟨.deposit, depositor, p.refund, .refund⟩]
          (.deposit p.accepted p.refund p.weightAdded))
  | withdraw {participant : String} {amount now : Int} {p : Position} {w : Position.Withdrawal}
      (hopen : l.canWithdraw now = true) (hposition : l.positions.get? participant = some p)
      (hwithdrawal : Position.withdraw l.sale.mechanic l.sale.discounts p l.totalDeposited
        l.totalSold amount now = .ok w) :
      Step l (.withdraw participant amount now)
        (l.advance .withdraw (l.release participant w) (some participant)
          [⟨.deposit, participant, w.withdrawn, .withdraw⟩] .plain)
  | disburse {now : Int} {op : Operation} {t : Transition} (hstatus : l.status now = .success)
      (h : l.Disburses now op t) : Step l op t
  | lock {now : Int} (hstatus : l.status now ∈ [.notStarted, .ongoing, .preTge]) :
      Step l (.lock now) (l.advance .lock { l with locked := true } none [] .plain)
  | unlock (hfunded : l.funded = true) (hlocked : l.locked = true) :
      Step l .unlock (l.advance .unlock { l with locked := false } none [] .plain)
  | adminWithdraw {name recipient : String} {amount now : Int} {token : Token}
      {allowed : List Status} (hpos : 0 < amount) (htoken : adminToken name = .ok (token, allowed))
      (hstatus : l.status now ∈ allowed) :
      Step l (.adminWithdraw name recipient amount now)
        (l.advance .adminWithdraw l none [⟨token, recipient, amount, .adminWithdraw⟩] .plain)

variable {l : Ledger} {t : Transition}

theorem Disburses.now?_eq {now : Int} {op : Operation} (h : l.Disburses now op t) :
    op.now? = some now := by
  cases h <;> rfl

/-! Every operation takes one of the steps. -/

theorem requireStatus_eq_ok {action : Action} {now : Int} {allowed : List Status} {u : Unit} :
    l.requireStatus action now allowed = .ok u ↔ l.status now ∈ allowed :=
  demand_eq_ok

theorem requirePosition_eq_ok {who : String} {p : Position} :
    l.requirePosition who = .ok p ↔ l.positions.get? who = some p := by
  unfold requirePosition
  split <;> simp_all

theorem requireVested_eq_ok {who : String} {h : Stakeholder} :
    l.requireVested who = .ok h ↔ l.sale.vested? who = some h := by
  unfold requireVested
  split <;> simp_all

theorem requireDepositToken_eq_ok {token : Option String} {u : Unit} :
    l.requireDepositToken token = .ok u ↔ ∀ x, token = some x → x = l.sale.depositToken := by
  cases token with
  | none => simp [requireDepositToken]
  | some x => simp [requireDepositToken]

theorem deposit_eq_ok {depositor participant : String} {amount now : Int} {token : Option String}
    (hfunded : l.funded = true) :
    l.deposit depositor amount participant now token = .ok t ↔
      0 < amount ∧ l.status now = .ongoing ∧ (∀ x, token = some x → x = l.sale.depositToken) ∧
        l.sale.minDeposit ≤ amount ∧
        ∃ p, Position.deposit l.sale.mechanic l.sale.discounts l.sale.saleAmount
          (l.held participant) l.totalDeposited l.totalSold amount now = .ok p ∧
          t = l.advance .deposit (l.take depositor participant p) (some participant)
            [⟨.deposit, depositor, p.refund, .refund⟩]
            (.deposit p.accepted p.refund p.weightAdded) := by
  simp only [deposit, hfunded, Bool.not_true, Bool.false_eq_true, if_false, bind_eq_ok,
    demand_eq_ok, pure_eq_ok, requireStatus_eq_ok, requireDepositToken_eq_ok, List.mem_singleton]
  constructor
  · rintro ⟨-, hpos, -, hstatus, -, htoken, -, hmin, p, hp, rfl⟩
    exact ⟨hpos, hstatus, htoken, hmin, p, hp, rfl⟩
  · rintro ⟨hpos, hstatus, htoken, hmin, p, hp, rfl⟩
    exact ⟨(), hpos, (), hstatus, (), htoken, (), hmin, p, hp, rfl⟩

theorem withdraw_eq_ok {participant : String} {amount now : Int} :
    l.withdraw participant amount now = .ok t ↔
      l.canWithdraw now = true ∧ ∃ p, l.positions.get? participant = some p ∧
        ∃ w, Position.withdraw l.sale.mechanic l.sale.discounts p l.totalDeposited l.totalSold amount
          now = .ok w ∧
          t = l.advance .withdraw (l.release participant w) (some participant)
            [⟨.deposit, participant, w.withdrawn, .withdraw⟩] .plain := by
  simp only [withdraw, bind_eq_ok, demand_eq_ok, pure_eq_ok, requirePosition_eq_ok]
  constructor
  · rintro ⟨-, hopen, p, hp, w, hw, rfl⟩
    exact ⟨hopen, p, hp, w, hw, rfl⟩
  · rintro ⟨hopen, p, hp, w, hw, rfl⟩
    exact ⟨(), hopen, p, hp, w, hw, rfl⟩

theorem nextBatch_eq_ok {limit : Option Int} {batch : List Payout} (hne : batch ≠ []) :
    l.nextBatch limit = .ok batch ↔
      ∃ plan, l.sale.plan = some plan ∧ plan.nextBatch l.paid limit = .ok batch := by
  cases hplan : l.sale.plan with
  | none => simp [nextBatch, hplan, Ne.symm hne]
  | some plan => simp [nextBatch, hplan]

theorem distributeNext_eq_ok {now : Int} {limit : Option Int} :
    l.distributeNext now limit = .ok t ↔
      l.status now = .success ∧ ∃ plan batch, l.sale.plan = some plan ∧
        plan.nextBatch l.paid limit = .ok batch ∧ batch ≠ [] ∧ t = l.batchPayout batch := by
  simp only [distributeNext, bind_eq_ok, demand_eq_ok, pure_eq_ok, requireStatus_eq_ok,
    List.mem_singleton]
  constructor
  · rintro ⟨-, hstatus, batch, hbatch, -, hne, rfl⟩
    obtain ⟨plan, hplan, hbatch⟩ := (nextBatch_eq_ok hne).mp hbatch
    exact ⟨hstatus, plan, batch, hplan, hbatch, hne, rfl⟩
  · rintro ⟨hstatus, plan, batch, hplan, hbatch, hne, rfl⟩
    exact ⟨(), hstatus, batch, (nextBatch_eq_ok hne).mpr ⟨plan, hplan, hbatch⟩, (), hne, rfl⟩

theorem distributeDeposits_eq_ok {now : Int} :
    l.distributeDeposits now = .ok t ↔
      l.status now = .success ∧ ∃ plan split parts, l.sale.plan = some plan ∧
        l.sale.split = some split ∧ l.dueLegs ≠ [] ∧
        Split.parts (some split) l.totalDeposited = .ok parts ∧
        t = l.legPayout plan split parts l.dueLegs := by
  simp only [distributeDeposits, bind_eq_ok, requireStatus_eq_ok, List.mem_singleton]
  constructor
  · rintro ⟨-, hstatus, h⟩
    split at h
    · rename_i plan split hplan hsplit
      simp only [bind_eq_ok, demand_eq_ok, pure_eq_ok] at h
      obtain ⟨-, hne, parts, hparts, rfl⟩ := h
      exact ⟨hstatus, plan, split, parts, hplan, hsplit, hne, hparts, rfl⟩
    · cases h
  · rintro ⟨hstatus, plan, split, parts, hplan, hsplit, hne, hparts, rfl⟩
    refine ⟨(), hstatus, ?_⟩
    simp only [hplan, hsplit, hparts, bind_eq_ok, demand_eq_ok, pure_eq_ok]
    exact ⟨(), hne, parts, rfl, rfl⟩

theorem step_of_deposit {depositor participant : String} {amount now : Int}
    {token : Option String} (h : l.deposit depositor amount participant now token = .ok t) :
    Step l (.deposit depositor amount participant now token) t := by
  cases hfunded : l.funded with
  | false =>
    simp only [deposit, fund, hfunded, Bool.not_false, if_true, bind_eq_ok, demand_eq_ok,
      pure_eq_ok] at h
    obtain ⟨-, -, -, -, -, hamount, rfl⟩ := h
    exact .fund hfunded hamount
  | true =>
    obtain ⟨-, hstatus, -, hmin, p, hp, rfl⟩ := (deposit_eq_ok hfunded).mp h
    exact .deposit hfunded hstatus hmin hp

theorem step_of_withdraw {participant : String} {amount now : Int}
    (h : l.withdraw participant amount now = .ok t) :
    Step l (.withdraw participant amount now) t := by
  obtain ⟨hopen, p, hp, w, hw, rfl⟩ := withdraw_eq_ok.mp h
  exact .withdraw hopen hp hw

theorem step_of_claim {participant : String} {now : Int} (h : l.claim participant now = .ok t) :
    Step l (.claim participant now) t := by
  simp only [claim, bind_eq_ok, pure_eq_ok, requireStatus_eq_ok, requirePosition_eq_ok,
    List.mem_singleton] at h
  obtain ⟨-, hstatus, p, hp, r, hr, rfl⟩ := h
  exact .disburse hstatus (.claim hp hr)

theorem step_of_claimIndividual {stakeholder : String} {now : Int}
    (h : l.claimIndividual stakeholder now = .ok t) :
    Step l (.claimIndividual stakeholder now) t := by
  simp only [claimIndividual, bind_eq_ok, pure_eq_ok, requireStatus_eq_ok, requireVested_eq_ok,
    List.mem_singleton] at h
  obtain ⟨-, hstatus, holder, hholder, r, hr, rfl⟩ := h
  exact .disburse hstatus (.claimIndividual hholder hr)

theorem step_of_distributeNext {now : Int} {limit : Option Int}
    (h : l.distributeNext now limit = .ok t) : Step l (.distributeNext now limit) t := by
  obtain ⟨hstatus, plan, batch, hplan, hbatch, hne, rfl⟩ := distributeNext_eq_ok.mp h
  exact .disburse hstatus (.distribute hplan (Plan.isBatch_of_nextBatch hbatch) hne)

theorem step_of_distributeDeposits {now : Int} (h : l.distributeDeposits now = .ok t) :
    Step l (.distributeDeposits now) t := by
  obtain ⟨hstatus, plan, split, parts, hplan, hsplit, hne, hparts, rfl⟩ :=
    distributeDeposits_eq_ok.mp h
  exact .disburse hstatus (.distributeDeposits hplan hsplit hparts (List.prefix_refl _) hne)

theorem step_of_adminWithdraw {name recipient : String} {amount now : Int}
    (h : l.adminWithdraw name recipient amount now = .ok t) :
    Step l (.adminWithdraw name recipient amount now) t := by
  simp only [adminWithdraw, bind_eq_ok, demand_eq_ok, pure_eq_ok, requireStatus_eq_ok] at h
  obtain ⟨-, hpos, ⟨token, allowed⟩, htoken, -, hstatus, rfl⟩ := h
  exact .adminWithdraw hpos htoken hstatus

theorem step_of_perform {op : Operation} (h : l.perform op = .ok t) : Step l op t := by
  cases op with
  | deposit depositor amount participant now token => exact step_of_deposit h
  | withdraw participant amount now => exact step_of_withdraw h
  | claim participant now => exact step_of_claim h
  | claimIndividual stakeholder now => exact step_of_claimIndividual h
  | distributeNext now limit => exact step_of_distributeNext h
  | distributeDeposits now => exact step_of_distributeDeposits h
  | lock now =>
    simp only [perform, lock, bind_eq_ok, pure_eq_ok, requireStatus_eq_ok] at h
    obtain ⟨-, hstatus, rfl⟩ := h
    exact .lock hstatus
  | unlock =>
    simp only [perform, unlock, bind_eq_ok, demand_eq_ok, pure_eq_ok] at h
    obtain ⟨-, ⟨hfunded, hlocked⟩, rfl⟩ := h
    exact .unlock hfunded hlocked
  | adminWithdraw token recipient amount now => exact step_of_adminWithdraw h

/-! What all steps have in common. -/

@[simp] theorem advance_ledger_sale (old new : Ledger) (action : Action) (who : Option String)
    (transfers : List Transfer) (outcome : Outcome) :
    (old.advance action new who transfers outcome).ledger.sale = new.sale := rfl

theorem mem_advance {old new : Ledger} {action : Action} {who : Option String}
    {transfers : List Transfer} {outcome : Outcome} {x : Transfer}
    (h : x ∈ (old.advance action new who transfers outcome).transfers) : x ∈ transfers :=
  (List.mem_filter.mp h).1

theorem eq_of_mem_advance {old new : Ledger} {action : Action} {who : Option String}
    {outcome : Outcome} {x y : Transfer}
    (h : x ∈ (old.advance action new who [y] outcome).transfers) : x = y :=
  List.mem_singleton.mp (mem_advance h)

theorem Step.sale_eq {op : Operation} (h : Step l op t) : t.ledger.sale = l.sale := by
  cases h with
  | fund hfunded hamount => rfl
  | deposit hfunded hstatus hmin hpurchase =>
    rw [take_eq]
    rfl
  | withdraw hopen hposition hwithdrawal => rfl
  | disburse hstatus h =>
    cases h with
    | claim hposition hreleased =>
      rw [claimPayout, payClaim_eq]
      rfl
    | claimIndividual hvested hreleased =>
      rw [individualPayout, payIndividual_eq]
      rfl
    | distribute hplan hbatch hne => rfl
    | distributeDeposits hplan hsplit hparts hlegs hne => rfl
  | lock hstatus => rfl
  | unlock hfunded hlocked => rfl
  | adminWithdraw hpos htoken hstatus => rfl

theorem Step.revision_eq {op : Operation} (h : Step l op t) :
    t.ledger.revision = l.revision + 1 := by
  cases h with
  | disburse hstatus h => cases h <;> rfl
  | _ => rfl

theorem Step.baseRevision_eq {op : Operation} (h : Step l op t) : t.baseRevision = l.revision := by
  cases h with
  | disburse hstatus h => cases h <;> rfl
  | _ => rfl

end Ledger

end TokenSale
