import TokenSale.Book
import TokenSale.Sale.Entitlement

/-!
The ledger of a sale: who holds what, what has been paid, and in which status the sale is.

The sale is not initialized until its tokens are funded; a locked sale stays locked; else the clock
decides, and at the end of the sale whether the soft cap was reached. Exactly one status applies.
-/

namespace TokenSale

/-- A snapshot of a sale. `depositors` maps depositors to the participants they deposit for, `paid`
lists the recipients of batches, and `legsPaid` names the legs that were forwarded. -/
structure Ledger where
  sale : Sale
  totalDeposited : Int := 0
  totalSold : Int := 0
  funded : Bool := false
  locked : Bool := false
  depositors : Book String := .empty
  participants : Int := 0
  positions : Book Position := .empty
  paid : List String := []
  individualClaims : Book Int := .empty
  legsPaid : List String := []
  revision : Int := 0
deriving DecidableEq

namespace Ledger

def start (d : Sale.Draft) : Except Fault Ledger := do
  return { sale := ← d.check }

def status (l : Ledger) (now : Int) : Status :=
  if !l.funded then .notInitialized
  else if l.locked then .locked
  else if now < l.sale.startTime then .notStarted
  else if now < l.sale.endTime then .ongoing
  else if l.totalDeposited < l.sale.softCap then .failed
  else if l.sale.tge.any fun tge => decide (now < tge) then .preTge
  else .success

def requireStatus (l : Ledger) (action : Action) (now : Int) (allowed : List Status) :
    Except Fault Unit :=
  demand (l.status now ∈ allowed) (.wrongStatus action (l.status now) allowed)

def depositsForwarded (l : Ledger) : Bool := Leg.all.all fun leg => l.legsPaid.contains leg.name

/-- The totals agree with the positions, and a fixed price sells no more than the sale amount. -/
def checkTotals (l : Ledger) : Except Fault Unit := do
  demand (l.participants = l.positions.size) (.participantCount l.participants l.positions.size)
  let amounts := l.positions.total Position.amount
  let weights := l.positions.total Position.weight
  demand (amounts = l.totalDeposited ∧ weights = l.totalSold)
    (.totalsDrift l.totalDeposited amounts l.totalSold weights)
  demand (l.sale.mechanic.isFixedPrice → l.totalSold ≤ l.sale.saleAmount)
    (.soldOverCap l.totalSold l.sale.saleAmount)

/-! Views of participants. -/

/-- The sale tokens owed to a participant. Under price discovery later deposits dilute them. -/
def allocation (l : Ledger) (who : String) : Except Fault Int :=
  match l.positions.get? who with
  | none => .ok 0
  | some p => l.sale.allocation p l.totalSold

/-- What a participant could claim at `now`: nothing unless the sale succeeded. -/
def availableForClaim (l : Ledger) (who : String) (now : Int) : Except Fault Int :=
  match l.positions.get? who with
  | none => .ok 0
  | some p =>
    if l.status now = .success then do
      return claimable (← l.sale.releasedTo p l.totalSold now) p.claimed
    else .ok 0

def remainingVesting (l : Ledger) (who : String) (now : Int) : Except Fault Int :=
  match l.positions.get? who with
  | none => .ok 0
  | some p => do
    let r ← l.sale.releasedTo p l.totalSold now
    return unreleased (← l.allocation who) r

/-! Views of stakeholders with a vesting of their own, whose releases start at the end of the
sale. -/

def individualAllocation (l : Ledger) (who : String) : Int :=
  ((l.sale.vested? who).map Stakeholder.allocation).getD 0

def individualClaimed (l : Ledger) (who : String) : Int := (l.individualClaims.get? who).getD 0

def individualRemainingVesting (l : Ledger) (who : String) (now : Int) : Except Fault Int :=
  match l.sale.vested? who with
  | none => .ok 0
  | some h => do return unreleased h.allocation (← h.releasedAt l.sale.endTime now)

def availableForIndividualClaim (l : Ledger) (who : String) (now : Int) : Except Fault Int :=
  match l.sale.vested? who with
  | none => .ok 0
  | some h => do
    return claimable (← h.releasedAt l.sale.endTime now) (l.individualClaimed who)

end Ledger

end TokenSale
