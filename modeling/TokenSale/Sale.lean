import TokenSale.Discount
import TokenSale.Distribution
import TokenSale.Mechanic

/-!
The configuration of a sale, and the check that turns a draft of one, whose numbers may be data of
any kind, into a sale.
-/

namespace TokenSale

structure Sale where
  depositToken : String
  saleToken : String
  startTime : Int
  endTime : Int
  softCap : Int
  mechanic : Mechanic
  saleAmount : Int
  totalSaleAmount : Int
  vesting : Option Vesting
  plan : Option Plan
  discounts : Schedule
  minDeposit : Int
  tge : Option Int
deriving DecidableEq, Repr

structure Sale.Draft where
  depositToken : String
  saleToken : String
  startTime : Datum
  endTime : Datum
  softCap : Datum
  mechanic : Mechanic.Draft
  saleAmount : Datum
  totalSaleAmount : Datum
  vesting : Option Vesting
  plan : Option Plan
  discounts : List Discount.Draft
  minDeposit : Datum
  tge : Option Datum

namespace Sale

def reserved (plan : Option Plan) : Int := (plan.map Plan.reserved).getD 0

/-- When the releases of participants start: at the token generation event if one is set, else at
the end of the sale. -/
def vestingStart (s : Sale) : Int := s.tge.getD s.endTime

def draft (s : Sale) : Draft where
  depositToken := s.depositToken
  saleToken := s.saleToken
  startTime := .int s.startTime
  endTime := .int s.endTime
  softCap := .int s.softCap
  mechanic := s.mechanic.draft
  saleAmount := .int s.saleAmount
  totalSaleAmount := .int s.totalSaleAmount
  vesting := s.vesting
  plan := s.plan
  discounts := s.discounts.map Discount.draft
  minDeposit := .int s.minDeposit
  tge := s.tge.map .int

namespace Draft

def checkField (name : String) (v : Datum) : Except Fault Int :=
  match v with
  | .int n => if Amount.InRange n then .ok n else .error (.fieldOutsideU128 name v)
  | _ => .error (.fieldOutsideU128 name v)

def checkTge (saleEnd : Int) : Option Datum → Except Fault (Option Int)
  | none => .ok none
  | some (.int n) => if saleEnd < n then .ok (some n) else .error (.earlyTge (.int n) saleEnd)
  | some v => .error (.earlyTge v saleEnd)

def checkPart (validate : α → Except Fault Unit) : Option α → Except Fault Unit
  | none => .ok ()
  | some a => validate a

/-- The sale of a draft. The first rule that is broken is reported: tokens, numbers one by one, the
window, the parts, and last that the total is the sale amount with all that is reserved. -/
def check (d : Draft) : Except Fault Sale := do
  demand (d.depositToken ≠ "" ∧ d.saleToken ≠ "") .missingToken
  let startTime ← checkField "start_time" d.startTime
  let endTime ← checkField "end_time" d.endTime
  let softCap ← checkField "soft_cap" d.softCap
  let saleAmount ← checkField "sale_amount" d.saleAmount
  let totalSaleAmount ← checkField "total_sale_amount" d.totalSaleAmount
  let minDeposit ← checkField "min_deposit" d.minDeposit
  demand (startTime < endTime) (.saleWindow startTime endTime)
  demand (saleAmount ≠ 0) .emptySale
  let tge ← checkTge endTime d.tge
  let mechanic ← d.mechanic.check
  let discounts ← Schedule.check d.discounts
  checkPart Vesting.validate d.vesting
  checkPart Plan.validate d.plan
  let expected := saleAmount + reserved d.plan
  demand (totalSaleAmount = expected) (.reservedMismatch totalSaleAmount expected)
  return {
    depositToken := d.depositToken, saleToken := d.saleToken
    startTime, endTime, softCap, mechanic, saleAmount, totalSaleAmount
    vesting := d.vesting, plan := d.plan, discounts, minDeposit, tge }

end Draft

def validate (s : Sale) : Except Fault Unit := do
  let _ ← s.draft.check

def Draft.isValid (d : Draft) : Bool := d.check.isOk

end Sale

end TokenSale
