import TokenSale.Amount

/-!
Release of an allocation over time. Before the cliff only an instant share is released; at the end
of the vesting period all of it; in between the rest grows linearly, from the start or from the
cliff.
-/

namespace TokenSale

inductive Vesting.Scheme where
  | immediate
  | afterCliff
deriving DecidableEq, Repr

/-- Periods from the start of a release, an instant share in basis points, and a scheme. -/
structure Vesting where
  cliff : Int
  period : Int
  instantShare : Option Int
  scheme : Vesting.Scheme
deriving DecidableEq, Repr

namespace Vesting

def Scheme.name : Scheme → String
  | .immediate => "immediate"
  | .afterCliff => "after_cliff"

def Scheme.ofName? (s : String) : Option Scheme :=
  if s = Scheme.immediate.name then some .immediate
  else if s = Scheme.afterCliff.name then some .afterCliff
  else none

@[simp] theorem Scheme.ofName?_name (s : Scheme) : ofName? s.name = some s := by
  cases s <;> simp [ofName?, name]

def validate (v : Vesting) : Except Fault Unit := do
  demand (0 ≤ v.cliff) .negativeCliff
  demand (v.cliff < v.period) (.shortVesting v.cliff v.period)
  match v.instantShare with
  | none => return
  | some bps => demand (0 ≤ bps ∧ bps ≤ Amount.bpsUnit) (.instantShare bps)

def instantAmount (v : Vesting) (allocation : Int) : Except Fault Int :=
  match v.instantShare with
  | none => .ok 0
  | some bps => Amount.share allocation bps

def growthStart (v : Vesting) (start : Int) : Int :=
  match v.scheme with
  | .immediate => start
  | .afterCliff => start + v.cliff

def growthPeriod (v : Vesting) : Int :=
  match v.scheme with
  | .immediate => v.period
  | .afterCliff => v.period - v.cliff

/-- What is released of an allocation at `t`, for a release that starts at `start`. -/
def released (v : Vesting) (allocation start t : Int) : Except Fault Int := do
  let instant ← v.instantAmount allocation
  if t < start + v.cliff then return instant
  if start + v.period ≤ t then return allocation
  demand (instant ≤ allocation) .excessiveInstantShare
  let grown ← Amount.scale (allocation - instant) (t - v.growthStart start) v.growthPeriod
  return instant + grown

end Vesting

/-- What is released of an allocation at `t`; all of it without vesting. -/
def released (allocation : Int) (v? : Option Vesting) (start t : Int) : Except Fault Int :=
  match v? with
  | none => .ok allocation
  | some v => v.released allocation start t

def claimable (released claimed : Int) : Int := Amount.monus released claimed

def unreleased (allocation released : Int) : Int := Amount.monus allocation released

end TokenSale
