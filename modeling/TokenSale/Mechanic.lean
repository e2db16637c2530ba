import TokenSale.Amount

/-!
How a sale prices its tokens: at a fixed price up to a cap, or by the final ratio of the sale
amount to all weight, without a cap.
-/

namespace TokenSale

/-- `saleUnit` sale tokens for every `depositUnit` deposit tokens. -/
structure Price where
  depositUnit : Int
  saleUnit : Int
deriving DecidableEq, Repr

namespace Price

def assets (p : Price) (weight : Int) : Except Fault Int :=
  Amount.scale weight p.saleUnit p.depositUnit

def worth (p : Price) (assets : Int) : Except Fault Int :=
  Amount.unscale assets p.saleUnit p.depositUnit

end Price

inductive Mechanic where
  | fixedPrice (price : Price)
  | priceDiscovery
deriving DecidableEq, Repr

inductive Mechanic.Draft where
  | fixedPrice (depositUnit saleUnit : Datum)
  | priceDiscovery

namespace Mechanic

def isFixedPrice : Mechanic → Bool
  | fixedPrice _ => true
  | priceDiscovery => false

def name : Mechanic → String
  | fixedPrice _ => "fixed_price"
  | priceDiscovery => "price_discovery"

def draft : Mechanic → Draft
  | fixedPrice p => .fixedPrice (.int p.depositUnit) (.int p.saleUnit)
  | priceDiscovery => .priceDiscovery

/-- A unit in range. A truth value passes as the integer that it equals, and is that integer from then
on; prices are made of integers, and a price with a truth value, by which nothing can be converted,
is not among them. -/
def checkUnit (name : String) (v : Datum) : Except Fault Int :=
  match v.whole? with
  | some n => if 0 < n ∧ n ≤ Amount.maxU128 then .ok n else .error (.unitNotPositive name v)
  | none => .error (.unitNotPositive name v)

def Draft.check : Draft → Except Fault Mechanic
  | .fixedPrice depositUnit saleUnit => do
    let depositUnit ← checkUnit "deposit_unit" depositUnit
    let saleUnit ← checkUnit "sale_unit" saleUnit
    return .fixedPrice ⟨depositUnit, saleUnit⟩
  | .priceDiscovery => return .priceDiscovery

end Mechanic

end TokenSale
