import TokenSale.Amount

/-!
Deposit bonuses. A discount adds a share of a deposit to its weight while its window is open; the
windows of an accepted schedule are disjoint, so at most one discount is active at a time.
-/

namespace TokenSale

/-- A bonus in basis points from `startTime` until just before `endTime`. -/
structure Discount where
  startTime : Int
  endTime : Int
  percentage : Int
deriving DecidableEq, Repr

structure Discount.Draft where
  startTime : Int
  endTime : Int
  percentage : Datum

namespace Discount

def maxPercentage : Int := 10000

def IsActive (d : Discount) (t : Int) : Prop := d.startTime ≤ t ∧ t < d.endTime

instance (d : Discount) (t : Int) : Decidable (d.IsActive t) := by unfold IsActive; infer_instance

/-- Whether two windows have an instant in common, by their ends. -/
def Meets (a b : Discount) : Prop := a.startTime < b.endTime ∧ b.startTime < a.endTime

instance (a b : Discount) : Decidable (a.Meets b) := by unfold Meets; infer_instance

def draft (d : Discount) : Draft := ⟨d.startTime, d.endTime, .int d.percentage⟩

def checkPercentage (p : Datum) : Except Fault Int :=
  match p.whole? with
  | some n => if 0 < n ∧ n ≤ maxPercentage then .ok n else .error (.discountPercentage p)
  | none => .error (.discountPercentage p)

def Draft.check (d : Draft) : Except Fault Discount := do
  let percentage ← checkPercentage d.percentage
  demand (d.startTime < d.endTime) (.discountWindow d.startTime d.endTime)
  return ⟨d.startTime, d.endTime, percentage⟩

end Discount

abbrev Schedule := List Discount

namespace Schedule

def overlaps (s : Schedule) : List (Nat × Nat) :=
  s.zipIdx.flatMap fun (a, i) =>
    (s.zipIdx.filter fun (b, j) => decide (i < j ∧ a.Meets b)).map fun (_, j) => (i, j)

def check (ds : List Discount.Draft) : Except Fault Schedule := do
  let s ← ds.mapM Discount.Draft.check
  demand (overlaps s = []) (.discountOverlap (overlaps s))
  return s

def validate (s : Schedule) : Except Fault Unit := do
  let _ ← check (s.map Discount.draft)

def active? (s : Schedule) (t : Int) : Option Discount := s.find? fun d => decide (d.IsActive t)

def weigh (s : Schedule) (amount t : Int) : Except Fault Int :=
  match s.active? t with
  | none => Amount.scale amount 1 1
  | some d => Amount.scale amount (Amount.bpsUnit + d.percentage) Amount.bpsUnit

def unweigh (s : Schedule) (weight t : Int) : Except Fault Int :=
  match s.active? t with
  | none => Amount.scale weight 1 1
  | some d => Amount.unscale weight (Amount.bpsUnit + d.percentage) Amount.bpsUnit

theorem weigh_nonneg {s : Schedule} {amount t w : Int} (h : s.weigh amount t = .ok w) : 0 ≤ w := by
  unfold weigh at h
  split at h <;> exact Amount.mulDiv_nonneg h

theorem unweigh_nonneg {s : Schedule} {weight t a : Int} (h : s.unweigh weight t = .ok a) :
    0 ≤ a := by
  unfold unweigh at h
  split at h <;> exact Amount.mulDiv_nonneg h

end Schedule

end TokenSale
