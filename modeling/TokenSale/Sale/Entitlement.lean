import TokenSale.Position
import TokenSale.Sale

/-!
What the terms of a sale owe, and how much of it is released at a time.
-/

namespace TokenSale

def Stakeholder.releasedAt (h : Stakeholder) (start t : Int) : Except Fault Int :=
  released h.allocation h.vesting start t

namespace Sale

def allocation (s : Sale) (p : Position) (totalSold : Int) : Except Fault Int :=
  Position.allocation p.weight totalSold s.mechanic s.saleAmount

/-- What is released to a position at `t`, claimed or not. -/
def releasedTo (s : Sale) (p : Position) (totalSold t : Int) : Except Fault Int := do
  released (← s.allocation p totalSold) s.vesting s.vestingStart t

def vested? (s : Sale) (account : String) : Option Stakeholder :=
  s.plan.bind fun p => p.vested? account

def split (s : Sale) : Option Split := s.plan.bind Plan.deposits

end Sale

end TokenSale
