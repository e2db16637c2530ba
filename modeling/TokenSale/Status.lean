/-!
The statuses of a sale and the actions on it, with their names in reports.
-/

namespace TokenSale

inductive Status where
  | notInitialized
  | locked
  | notStarted
  | ongoing
  | preTge
  | success
  | failed
deriving DecidableEq, Repr

def Status.name : Status → String
  | .notInitialized => "not_initialized"
  | .locked => "locked"
  | .notStarted => "not_started"
  | .ongoing => "ongoing"
  | .preTge => "pre_tge"
  | .success => "success"
  | .failed => "failed"

def Status.all : List Status :=
  [.notInitialized, .locked, .notStarted, .ongoing, .preTge, .success, .failed]

inductive Action where
  | fund
  | deposit
  | withdraw
  | claim
  | claimIndividual
  | distribute
  | distributeDeposits
  | lock
  | unlock
  | adminWithdraw
deriving DecidableEq, Repr

def Action.name : Action → String
  | .fund => "init"
  | .deposit => "deposit"
  | .withdraw => "withdraw"
  | .claim => "claim"
  | .claimIndividual => "claim_individual"
  | .distribute => "distribute"
  | .distributeDeposits => "distribute_deposits"
  | .lock => "lock"
  | .unlock => "unlock"
  | .adminWithdraw => "admin_withdraw"

end TokenSale
