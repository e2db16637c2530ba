import TokenSale.Datum.Access
import TokenSale.Sale.Record

/-!
Reading a sale and its parts from data. Main statement of the design: a sale that is read has
passed its check, so reading gives a valid sale or says what is wrong.
-/

namespace TokenSale

open TokenSale.Text

def Discount.ofDatum (d : Datum) : Except Malformed Discount := do
  let startTime ← (← d.entry "start_time").toInt
  let endTime ← (← d.entry "end_time").toInt
  let percentage ← (← d.entry "percentage").toInt
  return { startTime, endTime, percentage }

def Discount.ofTimedDatum (d : Datum) : Except Failure Discount := do
  let startTime ← (← liftMalformed (d.entry "start_time")).toInstant
  let endTime ← (← liftMalformed (d.entry "end_time")).toInstant
  let percentage ← liftMalformed (do (← d.entry "percentage").toInt)
  return { startTime, endTime, percentage }

/-- The price of a mapping; one that counts as absent is an empty mapping. -/
def Price.ofDatum (d : Datum) : Except Malformed Price := do
  let d := if d.isPresent then d else .map []
  let depositUnit ← (← d.entry "deposit_unit").toInt
  let saleUnit ← (← d.entry "sale_unit").toInt
  return { depositUnit, saleUnit }

/-- Reads a mechanic: the name of price discovery, or a mapping with one entry that counts, a fixed
price first. -/
def Mechanic.ofDatum (d : Datum) : Except Failure Mechanic :=
  match d with
  | .text s =>
    if lower s ∈ ["price_discovery", "pricediscovery"] then .ok .priceDiscovery
    else .error (.fault (.unknownMechanic d))
  | .map es =>
    match Datum.lookup "fixed_price" es with
    | some p => do return .fixedPrice (← liftMalformed (Price.ofDatum p))
    | none =>
      if (Datum.lookup "price_discovery" es).isSome then .ok .priceDiscovery
      else .error (Fault.unknownMechanic d).raised
  | _ => .error (Fault.unknownMechanic d).raised

def Position.ofDatum (d : Datum) : Except Malformed Position := do
  let amount ← d.intOr "amount" 0
  let weight ← d.intOr "weight" 0
  let claimed ← d.intOr "claimed" 0
  return { amount, weight, claimed }

def Vesting.Scheme.ofDatum (d : Datum) : Except Malformed Vesting.Scheme := do
  let name := lower (← d.name)
  match ofName? name with
  | some s => .ok s
  | none => .error (.unknownScheme name)

def Datum.optionalInt : Option Datum → Except Malformed (Option Int)
  | none => .ok none
  | some .null => .ok none
  | some v => do return some (← v.toInt)

def Vesting.ofDatum (d : Datum) : Except Malformed Vesting := do
  let share ← d.field? "instant_claim_percentage"
  let cliff ← (← d.entry "cliff_period").toInt
  let period ← (← d.entry "vesting_period").toInt
  let instantShare ← Datum.optionalInt share
  let scheme ← Scheme.ofDatum ((← d.field? "scheme").getD (.text Scheme.immediate.name))
  return { cliff, period, instantShare, scheme }

def Datum.optionally (read : Datum → Except Malformed α) (d : Option Datum) :
    Except Malformed (Option α) :=
  match present? d with
  | none => .ok none
  | some d => do return some (← read d)

def Stakeholder.ofDatum (d : Datum) : Except Malformed Stakeholder := do
  let vesting ← d.field? "vesting"
  let account ← (← d.entry "account").name
  let allocation ← (← d.entry "allocation").toInt
  let vesting ← Datum.optionally Vesting.ofDatum vesting
  return { account, allocation, vesting }

def Split.ofDatum (d : Datum) : Except Malformed Split := do
  let solverShare ← d.intOr "solver_percentage" 0
  let feeAccount ← (← d.entry "fee_account").name
  let feeShare ← d.intOr "fee_percentage" 0
  return { solverShare, feeAccount, feeShare }

def Datum.elementsOr (d : Option Datum) : Except Malformed (List Datum) :=
  match present? d with
  | none => .ok []
  | some d => d.elements

def Plan.ofDatum (d : Datum) : Except Malformed Plan := do
  let deposits ← d.field? "deposits"
  let solver ← (← d.entry "solver_account").name
  let solverAllocation ← d.intOr "solver_allocation" 0
  let stakeholders ← (← Datum.elementsOr (← d.field? "stakeholders")).mapM Stakeholder.ofDatum
  let deposits ← Datum.optionally Split.ofDatum deposits
  return { solver, solverAllocation, stakeholders, deposits }

namespace Sale

def readTge : Option Datum → Except Failure (Option Int)
  | none => .ok none
  | some .null => .ok none
  | some v => do return some (← v.toInstant)

def readFields (d : Datum) : Except Failure Sale := do
  let vesting ← liftMalformed (d.field? "vesting")
  let plan ← liftMalformed (d.field? "distribution")
  let tge ← liftMalformed (d.field? "tge")
  let discounts ← liftMalformed (do Datum.elementsOr (← d.field? "discounts"))
  let discounts ← discounts.mapM Discount.ofTimedDatum
  let depositToken ← liftMalformed (do (← d.entry "deposit_token").name)
  let saleToken ← liftMalformed (do (← d.entry "sale_token").name)
  let startTime ← (← liftMalformed (d.entry "start_time")).toInstant
  let endTime ← (← liftMalformed (d.entry "end_time")).toInstant
  let softCap ← liftMalformed (d.intOr "soft_cap" 0)
  let mechanic ← Mechanic.ofDatum (← liftMalformed (d.entry "mechanic"))
  let saleAmount ← liftMalformed (do (← d.entry "sale_amount").toInt)
  let totalSaleAmount ← liftMalformed (do (← d.entry "total_sale_amount").toInt)
  let vesting ← liftMalformed (Datum.optionally Vesting.ofDatum vesting)
  let plan ← liftMalformed (Datum.optionally Plan.ofDatum plan)
  let minDeposit ← liftMalformed (d.intOr "min_deposit" 0)
  let tge ← readTge tge
  return {
    depositToken, saleToken, startTime, endTime, softCap, mechanic, saleAmount, totalSaleAmount,
    vesting, plan, discounts, minDeposit, tge }

/-- How a failure to read a field is reported: a missing key and a value of the wrong type or range
are faults of the configuration. -/
def asFault : Failure → Failure
  | .malformed (.missing key) => .fault (.missingField key)
  | .malformed m =>
    match m.category with
    | .type | .value => .fault (.malformedSale m)
    | _ => .malformed m
  | f => f

def ofDatum (d : Datum) : Except Failure Sale := do
  let s ← (readFields d).mapError asFault
  liftFault s.validate
  return s

def readsBack (s : Sale) : Bool :=
  match ofDatum s.toDatum with
  | .ok s' => s' == s
  | .error _ => false

end Sale

end TokenSale
