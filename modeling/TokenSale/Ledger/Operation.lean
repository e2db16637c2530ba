import TokenSale.Ledger.Transition

/-!
The operations on a sale. Each checks its preconditions, and only then forms a transition; a refused
operation leaves nothing behind.
-/

namespace TokenSale

/-- An operation with its arguments. Tokens come by name, and times in seconds. -/
inductive Operation where
  | deposit (depositor : String) (amount : Int) (participant : String) (now : Int)
      (token : Option String)
  | withdraw (participant : String) (amount now : Int)
  | claim (participant : String) (now : Int)
  | claimIndividual (stakeholder : String) (now : Int)
  | distributeNext (now : Int) (limit : Option Int)
  | distributeDeposits (now : Int)
  | lock (now : Int)
  | unlock
  | adminWithdraw (token recipient : String) (amount now : Int)
deriving DecidableEq, Repr

def Operation.name : Operation → String
  | .deposit .. => "deposit"
  | .withdraw .. => "withdraw"
  | .claim .. => "claim"
  | .claimIndividual .. => "claim_individual"
  | .distributeNext .. => "distribute_next"
  | .distributeDeposits .. => "distribute_deposits"
  | .lock .. => "lock"
  | .unlock => "unlock"
  | .adminWithdraw .. => "admin_withdraw"

namespace Ledger

/-- The deposit that funds a sale: all its tokens, from the sale token itself. -/
def fund (l : Ledger) (depositor : String) (amount : Int) (token : Option String) :
    Except Fault Transition := do
  demand (depositor = l.sale.saleToken ∧ token.all fun t => t == l.sale.saleToken)
    (.fundingRefused depositor)
  demand (amount = l.sale.totalSaleAmount) (.fundingAmount amount l.sale.totalSaleAmount)
  return l.advance .fund { l with funded := true } none [] (.deposit amount 0 0)

def requireDepositToken (l : Ledger) : Option String → Except Fault Unit
  | none => .ok ()
  | some t => demand (t = l.sale.depositToken) (.wrongDepositToken t l.sale.depositToken)

/-- The ledger after a deposit was taken. A deposit that is refunded whole makes no participant. -/
def take (l : Ledger) (depositor participant : String) (p : Position.Purchase) : Ledger :=
  let known := (l.positions.get? participant).isSome
  if 0 < p.accepted ∨ known then
    { l with
      totalDeposited := p.totalDeposited
      totalSold := p.totalSold
      depositors := l.depositors.insert depositor participant
      participants := l.participants + if known then 0 else 1
      positions := l.positions.insert participant p.position }
  else l

def deposit (l : Ledger) (depositor : String) (amount : Int) (participant : String) (now : Int)
    (token : Option String) : Except Fault Transition := do
  demand (0 < amount) (.depositNotPositive amount)
  if !l.funded then l.fund depositor amount token
  else
    l.requireStatus .deposit now [.ongoing]
    l.requireDepositToken token
    demand (l.sale.minDeposit ≤ amount) (.belowMinimum amount l.sale.minDeposit)
    let p ← Position.deposit l.sale.mechanic l.sale.discounts l.sale.saleAmount
      ((l.positions.get? participant).getD .zero) l.totalDeposited l.totalSold amount now
    return l.advance .deposit (l.take depositor participant p) (some participant)
      [⟨.deposit, depositor, p.refund, .refund⟩] (.deposit p.accepted p.refund p.weightAdded)

/-- Whether withdrawals are open: under price discovery during the sale, and always when it failed
or is locked. -/
def canWithdraw (l : Ledger) (now : Int) : Bool :=
  match l.status now with
  | .ongoing => !l.sale.mechanic.isFixedPrice
  | .failed | .locked => true
  | _ => false

def requirePosition (l : Ledger) (who : String) : Except Fault Position :=
  match l.positions.get? who with
  | some p => .ok p
  | none => .error (.unknownParticipant who)

def withdraw (l : Ledger) (participant : String) (amount now : Int) : Except Fault Transition := do
  demand (l.canWithdraw now) (.withdrawalClosed (l.status now))
  let p ← l.requirePosition participant
  let w ← Position.withdraw l.sale.mechanic l.sale.discounts p l.totalDeposited l.totalSold amount
    now
  let new := { l with
    totalDeposited := w.totalDeposited
    totalSold := w.totalSold
    positions := l.positions.insert participant w.position }
  return l.advance .withdraw new (some participant)
    [⟨.deposit, participant, w.withdrawn, .withdraw⟩] .plain

def claim (l : Ledger) (participant : String) (now : Int) : Except Fault Transition := do
  l.requireStatus .claim now [.success]
  let p ← l.requirePosition participant
  let amount := claimable (← l.sale.releasedTo p l.totalSold now) p.claimed
  let new :=
    if amount = 0 then l
    else
      { l with
        positions := l.positions.insert participant { p with claimed := p.claimed + amount } }
  return l.advance .claim new (some participant) [⟨.sale, participant, amount, .claim⟩]
    (.claim amount)

def requireVested (l : Ledger) (who : String) : Except Fault Stakeholder :=
  match l.sale.vested? who with
  | some h => .ok h
  | none => .error (.noIndividualVesting who)

def claimIndividual (l : Ledger) (stakeholder : String) (now : Int) :
    Except Fault Transition := do
  l.requireStatus .claimIndividual now [.success]
  let h ← l.requireVested stakeholder
  let claimed := l.individualClaimed stakeholder
  let amount := claimable (← h.releasedAt l.sale.endTime now) claimed
  let new :=
    if amount = 0 then l
    else { l with individualClaims := l.individualClaims.insert stakeholder (claimed + amount) }
  return l.advance .claimIndividual new (some stakeholder)
    [⟨.sale, stakeholder, amount, .individualVesting⟩] (.claim amount)

def nextBatch (l : Ledger) (limit : Option Int) : Except Fault (List Payout) :=
  match l.sale.plan with
  | none => .ok []
  | some plan => plan.nextBatch l.paid limit

def distributeNext (l : Ledger) (now : Int) (limit : Option Int) : Except Fault Transition := do
  l.requireStatus .distribute now [.success]
  let batch ← l.nextBatch limit
  demand (batch ≠ []) .nothingToDistribute
  return l.advance .distribute { l with paid := recordPaid l.paid (batch.map Prod.fst) } none
    (batch.map fun r => ⟨.sale, r.1, r.2, .distribution⟩) .plain

def dueLegs (l : Ledger) : List Leg := Leg.all.filter fun leg => !l.legsPaid.contains leg.name

def legTransfer (plan : Plan) (split : Split) (parts : Int × Int) : Leg → Transfer
  | .solver => ⟨.deposit, plan.solver, parts.1, .leg .solver⟩
  | .fee => ⟨.deposit, split.feeAccount, parts.2, .leg .fee⟩

def distributeDeposits (l : Ledger) (now : Int) : Except Fault Transition := do
  l.requireStatus .distributeDeposits now [.success]
  match l.sale.plan, l.sale.split with
  | some plan, some split =>
    demand (l.dueLegs ≠ []) .depositsDistributed
    let parts ← Split.parts (some split) l.totalDeposited
    return l.advance .distributeDeposits
      { l with legsPaid := l.legsPaid ++ l.dueLegs.map Leg.name } none
      (l.dueLegs.map (legTransfer plan split parts)) .plain
  | _, _ => .error .depositsDistributed

def lock (l : Ledger) (now : Int) : Except Fault Transition := do
  l.requireStatus .lock now [.notStarted, .ongoing, .preTge]
  return l.advance .lock { l with locked := true } none [] .plain

def unlock (l : Ledger) : Except Fault Transition := do
  demand (l.funded ∧ l.locked) .notLocked
  return l.advance .unlock { l with locked := false } none [] .plain

/-- The token of a name and the statuses in which the administration may move it: deposits after a
success, sale tokens of a sale that failed or is locked. -/
def adminToken (name : String) : Except Fault (Token × List Status) :=
  if name = Token.deposit.name then .ok (.deposit, [.success])
  else if name = Token.sale.name then .ok (.sale, [.failed, .locked])
  else .error (.unknownToken name)

def adminWithdraw (l : Ledger) (token recipient : String) (amount now : Int) :
    Except Fault Transition := do
  demand (0 < amount) (.adminWithdrawalNotPositive amount)
  let (token, allowed) ← adminToken token
  l.requireStatus .adminWithdraw now allowed
  return l.advance .adminWithdraw l none [⟨token, recipient, amount, .adminWithdraw⟩] .plain

def perform (l : Ledger) : Operation → Except Fault Transition
  | .deposit depositor amount participant now token =>
    l.deposit depositor amount participant now token
  | .withdraw participant amount now => l.withdraw participant amount now
  | .claim participant now => l.claim participant now
  | .claimIndividual stakeholder now => l.claimIndividual stakeholder now
  | .distributeNext now limit => l.distributeNext now limit
  | .distributeDeposits now => l.distributeDeposits now
  | .lock now => l.lock now
  | .unlock => l.unlock
  | .adminWithdraw token recipient amount now => l.adminWithdraw token recipient amount now

end Ledger

end TokenSale
