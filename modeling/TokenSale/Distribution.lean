import TokenSale.Sum
import TokenSale.Vesting

/-!
Payout of reserved allocations. A plan names a solver and stakeholders; a log of the recipients
already paid makes paying in batches idempotent. Stakeholders with a vesting of their own are no
part of batches, and nothing is paid on an allocation of zero.
-/

namespace TokenSale

structure Stakeholder where
  account : String
  allocation : Int
  vesting : Option Vesting
deriving DecidableEq, Repr

/-- Shares of the raised deposits in basis points, for the solver and for a fee account. -/
structure Split where
  solverShare : Int
  feeAccount : String
  feeShare : Int
deriving DecidableEq, Repr

structure Plan where
  solver : String
  solverAllocation : Int
  stakeholders : List Stakeholder
  deposits : Option Split
deriving DecidableEq, Repr

abbrev Payout := String × Int

namespace Split

def validate (s : Split) : Except Fault Unit := do
  demand (0 ≤ s.solverShare ∧ s.solverShare ≤ Amount.bpsUnit)
    (.splitShare "solver_percentage" s.solverShare)
  demand (0 ≤ s.feeShare ∧ s.feeShare ≤ Amount.bpsUnit) (.splitShare "fee_percentage" s.feeShare)
  demand (s.solverShare + s.feeShare ≤ Amount.bpsUnit) (.splitTotal s.solverShare s.feeShare)

def parts (s? : Option Split) (total : Int) : Except Fault (Int × Int) :=
  match s? with
  | none => .ok (0, 0)
  | some s => do return (← Amount.share total s.solverShare, ← Amount.share total s.feeShare)

end Split

namespace Plan

def reserved (p : Plan) : Int := p.solverAllocation + sumOf Stakeholder.allocation p.stakeholders

/-- Checks stakeholders in order; `seen` holds the accounts before them. -/
def validateStakeholders (seen : List String) : List Stakeholder → Except Fault Unit
  | [] => .ok ()
  | s :: rest => do
    demand (0 ≤ s.allocation) (.negativeAllocation s.account)
    demand (s.account ∉ seen) (.repeatedRecipient s.account)
    match s.vesting with
    | none => pure ()
    | some v => v.validate
    validateStakeholders (s.account :: seen) rest

def validate (p : Plan) : Except Fault Unit := do
  demand (p.solver ≠ "") .missingSolver
  demand (0 ≤ p.solverAllocation) .negativeSolverAllocation
  validateStakeholders [p.solver] p.stakeholders
  match p.deposits with
  | none => return
  | some s => s.validate

def vested? (p : Plan) (account : String) : Option Stakeholder :=
  p.stakeholders.find? fun s => s.account == account && s.vesting.isSome

/-- The recipients of batches, the solver first. -/
def payouts (p : Plan) : List Payout :=
  (p.solver, p.solverAllocation) ::
    (p.stakeholders.filter fun s => s.vesting.isNone).map fun s => (s.account, s.allocation)

def pending (p : Plan) (log : List String) : List Payout :=
  p.payouts.filter fun r => decide (0 < r.2) && !log.contains r.1

def nextBatch (p : Plan) (log : List String) (limit : Option Int) : Except Fault (List Payout) :=
  match limit with
  | none => .ok (p.pending log)
  | some n => do
    demand (0 < n) (.limitNotPositive n)
    return (p.pending log).take n.toNat

end Plan

def recordPaid (log : List String) : List String → List String
  | [] => log
  | a :: rest => recordPaid (if a ∈ log then log else log ++ [a]) rest

end TokenSale
