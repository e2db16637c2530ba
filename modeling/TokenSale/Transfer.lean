/-!
Transfers of tokens out of a sale.
-/

namespace TokenSale

inductive Token where
  | deposit
  | sale
deriving DecidableEq, Repr

def Token.name : Token → String
  | .deposit => "deposit"
  | .sale => "sale"

/-- The parts of the raised deposits that are forwarded after a sale, each at most once. -/
inductive Leg where
  | solver
  | fee
deriving DecidableEq, Repr

def Leg.name : Leg → String
  | .solver => "deposit_distribution"
  | .fee => "fee"

def Leg.all : List Leg := [.solver, .fee]

theorem Leg.name_injective {a b : Leg} (h : a.name = b.name) : a = b := by
  cases a <;> cases b <;> simp_all [name]

inductive Reason where
  | refund
  | withdraw
  | claim
  | individualVesting
  | distribution
  | leg (l : Leg)
  | adminWithdraw
deriving DecidableEq, Repr

def Reason.name : Reason → String
  | .refund => "refund"
  | .withdraw => "withdraw"
  | .claim => "claim"
  | .individualVesting => "individual_vesting"
  | .distribution => "distribution"
  | .leg l => l.name
  | .adminWithdraw => "admin_withdraw"

structure Transfer where
  token : Token
  recipient : String
  amount : Int
  reason : Reason
deriving DecidableEq, Repr

end TokenSale
