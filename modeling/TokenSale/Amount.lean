import TokenSale.Demand
import TokenSale.Fault

/-!
Arithmetic of token amounts. Amounts are unsigned 128-bit integers; a product is formed exactly and
its quotient, rounded down, must be an amount again.
-/

namespace TokenSale.Amount

def maxU128 : Int := 0xffffffffffffffffffffffffffffffff

def bpsUnit : Int := 10000

def InRange (x : Int) : Prop := 0 ≤ x ∧ x ≤ maxU128

instance (x : Int) : Decidable (InRange x) := by unfold InRange; infer_instance

def requireU128 (name : String) (x : Int) : Except Fault Unit :=
  demand (InRange x) (.outsideU128 name x)

/-- `x * num / den` rounded down. -/
def mulDiv (x num den : Int) : Except Fault Int := do
  requireU128 "x" x
  requireU128 "num" num
  requireU128 "den" den
  demand (den ≠ 0) .zeroDenominator
  let q := x * num / den
  demand (q ≤ maxU128) (.quotientOutsideU128 x num den)
  return q

def scale (x num den : Int) : Except Fault Int := mulDiv x num den

def unscale (x num den : Int) : Except Fault Int := mulDiv x den num

def monus (a b : Int) : Int := if b < a then a - b else 0

/-- A share of `x` in basis points, rounded down. -/
def share (x bps : Int) : Except Fault Int := do
  demand (0 ≤ bps ∧ bps ≤ bpsUnit) (.basisPoints bps)
  mulDiv x bps bpsUnit

theorem monus_nonneg (a b : Int) : 0 ≤ monus a b := by
  unfold monus
  split <;> omega

theorem monus_of_le {a b : Int} (h : b ≤ a) : monus a b = a - b := by
  unfold monus
  split <;> omega

theorem mulDiv_eq_ok {x num den q : Int} :
    mulDiv x num den = .ok q ↔
      InRange x ∧ InRange num ∧ InRange den ∧ den ≠ 0 ∧ q = x * num / den ∧ q ≤ maxU128 := by
  simp only [mulDiv, requireU128, demand, bind, Except.bind, pure, Except.pure]
  repeat' split
  all_goals simp_all
  all_goals grind

theorem mulDiv_nonneg {x num den q : Int} (h : mulDiv x num den = .ok q) : 0 ≤ q := by
  obtain ⟨hx, hnum, hden, -, rfl, -⟩ := mulDiv_eq_ok.mp h
  exact Int.ediv_nonneg (Int.mul_nonneg hx.1 hnum.1) hden.1

theorem mulDiv_le {x num den q : Int} (h : mulDiv x num den = .ok q) (hle : num ≤ den) :
    q ≤ x := by
  obtain ⟨hx, -, hden, hne, rfl, -⟩ := mulDiv_eq_ok.mp h
  have hpos : 0 < den := by
    have := hden.1
    omega
  exact Int.ediv_le_of_le_mul hpos (Int.mul_le_mul_of_nonneg_left hle hx.1)

theorem mulDiv_mono {x num num' den q q' : Int} (h : mulDiv x num den = .ok q)
    (h' : mulDiv x num' den = .ok q') (hle : num ≤ num') : q ≤ q' := by
  obtain ⟨hx, -, hden, hne, rfl, -⟩ := mulDiv_eq_ok.mp h
  obtain ⟨-, -, -, -, rfl, -⟩ := mulDiv_eq_ok.mp h'
  have hpos : 0 < den := by
    have := hden.1
    omega
  exact Int.ediv_le_ediv hpos (Int.mul_le_mul_of_nonneg_left hle hx.1)

theorem share_eq_ok {x bps q : Int} :
    share x bps = .ok q ↔ (0 ≤ bps ∧ bps ≤ bpsUnit) ∧ mulDiv x bps bpsUnit = .ok q := by
  simp [share]

/-! Arguments of any kind: only integers are amounts, truth values are not. -/

def ofDatum (name : String) (v : Datum) : Except Failure Int :=
  match v with
  | .int n => do
    liftFault (requireU128 name n)
    return n
  | v => .error (.malformed (.notInteger name v.kind))

def mulDivData (x num den : Datum) : Except Failure Int := do
  let x ← ofDatum "x" x
  let num ← ofDatum "num" num
  let den ← ofDatum "den" den
  liftFault (mulDiv x num den)

/-- `share` of arguments of any kind; a rate that is no integer is left to `mulDivData`. -/
def shareData (x bps : Datum) : Except Failure Int := do
  if let .int n := bps then
    liftFault (demand (0 ≤ n ∧ n ≤ bpsUnit) (.basisPoints n))
  mulDivData x bps (.int bpsUnit)

end TokenSale.Amount
