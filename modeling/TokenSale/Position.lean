import TokenSale.Discount
import TokenSale.Mechanic

/-!
The position of a participant, and what deposits and withdrawals make of it and of the totals.

At a fixed price a deposit is taken whole while the sale tokens it buys stay within the cap. The
deposit that crosses the cap takes what is left, and the worth of the excess goes back; every
conversion rounds down, so no more goes back than came in.
-/

namespace TokenSale

/-- Principal held by the sale, bonus-adjusted weight (sale tokens at a fixed price), and sale
tokens released so far. -/
structure Position where
  amount : Int
  weight : Int
  claimed : Int
deriving DecidableEq, Repr

namespace Position

def zero : Position := ⟨0, 0, 0⟩

instance : Inhabited Position := ⟨zero⟩

structure Purchase where
  position : Position
  totalDeposited : Int
  totalSold : Int
  accepted : Int
  weightAdded : Int
  refund : Int
deriving DecidableEq, Repr

structure Fill where
  accepted : Int
  weightAdded : Int
  refund : Int
deriving DecidableEq, Repr

def fillFixed (p : Price) (s : Schedule) (cap sold amount t : Int) : Except Fault Fill := do
  if cap ≤ sold then return ⟨0, 0, amount⟩
  let weight ← s.weigh amount t
  let assets ← p.assets weight
  if sold + assets ≤ cap then return ⟨amount, assets, 0⟩
  let excess := sold + assets - cap
  let remain ← p.worth excess
  let refund ← s.unweigh remain t
  demand (refund ≤ amount) (.excessiveRefund amount refund excess)
  return ⟨amount - refund, cap - sold, refund⟩

def fill (m : Mechanic) (s : Schedule) (cap sold amount t : Int) : Except Fault Fill :=
  match m with
  | .fixedPrice p => fillFixed p s cap sold amount t
  | .priceDiscovery => do return ⟨amount, ← s.weigh amount t, 0⟩

def deposit (m : Mechanic) (s : Schedule) (cap : Int) (p : Position)
    (totalDeposited totalSold amount t : Int) : Except Fault Purchase := do
  demand (0 < amount) (.depositNotPositive amount)
  let f ← fill m s cap totalSold amount t
  demand (f.refund ≤ amount ∧ f.accepted + f.refund = amount)
    (.refundMismatch amount f.refund f.accepted)
  return {
    position := { p with amount := p.amount + f.accepted, weight := p.weight + f.weightAdded }
    totalDeposited := totalDeposited + f.accepted
    totalSold := totalSold + f.weightAdded
    accepted := f.accepted
    weightAdded := f.weightAdded
    refund := f.refund }

structure Withdrawal where
  position : Position
  totalDeposited : Int
  totalSold : Int
  withdrawn : Int
  weightRemoved : Int
deriving DecidableEq, Repr

def withdrawFixed (p : Position) (totalDeposited totalSold amount : Int) :
    Except Fault Withdrawal := do
  demand (amount = p.amount) (.partialFixedWithdrawal amount p.amount)
  return {
    position := { p with amount := 0, weight := 0 }
    totalDeposited := Amount.monus totalDeposited amount
    totalSold := Amount.monus totalSold p.weight
    withdrawn := amount
    weightRemoved := p.weight }

/-- Withdraws part of a position under price discovery. What stays is weighed anew at `t`, and
never gains weight. -/
def withdrawPart (s : Schedule) (p : Position) (totalDeposited totalSold amount t : Int) :
    Except Fault Withdrawal := do
  demand (amount ≤ p.amount) (.excessiveWithdrawal amount p.amount)
  let weighed ← s.weigh (p.amount - amount) t
  let weight := min weighed p.weight
  return {
    position := { p with amount := p.amount - amount, weight }
    totalDeposited := Amount.monus totalDeposited amount
    totalSold := Amount.monus totalSold (p.weight - weight)
    withdrawn := amount
    weightRemoved := p.weight - weight }

def withdraw (m : Mechanic) (s : Schedule) (p : Position)
    (totalDeposited totalSold amount t : Int) : Except Fault Withdrawal := do
  demand (0 < amount) (.withdrawalNotPositive amount)
  match m with
  | .fixedPrice _ => withdrawFixed p totalDeposited totalSold amount
  | .priceDiscovery => withdrawPart s p totalDeposited totalSold amount t

/-- Sale tokens owed for a weight: the weight itself at a fixed price, else its share of the sale
amount. -/
def allocation (weight totalSold : Int) (m : Mechanic) (saleAmount : Int) : Except Fault Int :=
  match m with
  | .fixedPrice _ => .ok weight
  | .priceDiscovery =>
    if weight = 0 ∨ totalSold = 0 then .ok 0 else Amount.scale weight saleAmount totalSold

end Position

end TokenSale
