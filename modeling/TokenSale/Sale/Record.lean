import TokenSale.Position
import TokenSale.Sale
import TokenSale.Settings

/-!
A sale and its parts as data, in the form in which sale files hold them.
-/

namespace TokenSale

def Discount.Draft.toDatum (d : Discount.Draft) : Datum :=
  .record [("start_time", .int d.startTime), ("end_time", .int d.endTime),
    ("percentage", d.percentage)]

def Discount.toDatum (d : Discount) : Datum := d.draft.toDatum

def Mechanic.Draft.toDatum : Mechanic.Draft → Datum
  | .fixedPrice depositUnit saleUnit =>
    .record [("fixed_price",
      .record [("deposit_unit", depositUnit), ("sale_unit", saleUnit)])]
  | .priceDiscovery => .record [("price_discovery", .record [])]

def Mechanic.toDatum (m : Mechanic) : Datum := m.draft.toDatum

def Position.toDatum (p : Position) : Datum :=
  .record [("amount", .int p.amount), ("weight", .int p.weight), ("claimed", .int p.claimed)]

def Vesting.toDatum (v : Vesting) : Datum :=
  .record [("cliff_period", .int v.cliff), ("vesting_period", .int v.period),
    ("instant_claim_percentage", .ofOption .int v.instantShare), ("scheme", .text v.scheme.name)]

def Stakeholder.toDatum (s : Stakeholder) : Datum :=
  .record [("account", .text s.account), ("allocation", .int s.allocation),
    ("vesting", .ofOption Vesting.toDatum s.vesting)]

def Split.toDatum (s : Split) : Datum :=
  .record [("solver_percentage", .int s.solverShare), ("fee_account", .text s.feeAccount),
    ("fee_percentage", .int s.feeShare)]

def Plan.toDatum (p : Plan) : Datum :=
  .record [("solver_account", .text p.solver), ("solver_allocation", .int p.solverAllocation),
    ("stakeholders", .list (p.stakeholders.map Stakeholder.toDatum)),
    ("deposits", .ofOption Split.toDatum p.deposits)]

def Sale.Draft.toDatum (d : Sale.Draft) : Datum :=
  .record [("deposit_token", .text d.depositToken), ("sale_token", .text d.saleToken),
    ("start_time", d.startTime), ("end_time", d.endTime), ("soft_cap", d.softCap),
    ("mechanic", d.mechanic.toDatum), ("sale_amount", d.saleAmount),
    ("total_sale_amount", d.totalSaleAmount), ("vesting", .ofOption Vesting.toDatum d.vesting),
    ("distribution", .ofOption Plan.toDatum d.plan),
    ("discounts", .list (d.discounts.map Discount.Draft.toDatum)), ("min_deposit", d.minDeposit),
    ("tge", .ofOption id d.tge)]

def Sale.toDatum (s : Sale) : Datum := s.draft.toDatum

def Sale.Draft.pretty (d : Sale.Draft) : String := Datum.Json.indented d.toDatum

def Sale.Draft.prettyWith (d : Sale.Draft) (settings : Settings) : String :=
  Datum.Json.indented (.record [("sale", d.toDatum), ("engine", settings.toDatum)])

end TokenSale
