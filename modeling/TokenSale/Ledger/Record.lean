import TokenSale.Ledger.Transition
import TokenSale.Sale.Record

/-!
Ledgers, transfers, changes and transitions as data.
-/

namespace TokenSale

def Book.toDatum (f : α → Datum) (b : Book α) : Datum :=
  .record (b.entries.map fun e => (e.1, f e.2))

def Ledger.toDatum (l : Ledger) : Datum :=
  .record [("total_deposited", .int l.totalDeposited), ("total_sold_tokens", .int l.totalSold),
    ("is_sale_token_set", .bool l.funded), ("is_locked", .bool l.locked),
    ("accounts", l.depositors.toDatum .text), ("participants_count", .int l.participants),
    ("investments", l.positions.toDatum Position.toDatum),
    ("distributed_accounts", .texts l.paid),
    ("individual_claims", l.individualClaims.toDatum .int),
    ("deposit_legs_paid", .texts l.legsPaid),
    ("deposits_distributed", .bool l.depositsForwarded), ("revision", .int l.revision)]

def Transfer.toDatum (t : Transfer) : Datum :=
  .record [("token", .text t.token.name), ("recipient", .text t.recipient),
    ("amount", .int t.amount), ("reason", .text t.reason.name)]

namespace Change

def numberField (name : String) (n : Int) : List (String × Datum) :=
  if n = 0 then [] else [(name, .int n)]

def listField (name : String) (xs : List Datum) : List (String × Datum) :=
  if xs.isEmpty then [] else [(name, .list xs)]

def optionField (name : String) (d : Option Datum) : List (String × Datum) :=
  (d.map fun d => (name, d)).toList

def pairDatum (e : String × String) : Datum := .texts [e.1, e.2]

/-- A change as a datum, without the fields that change nothing. -/
def toDatum (c : Change) : Datum :=
  .record (List.flatten [
    optionField "participant" (c.participant.map .text),
    numberField "amount" c.amount, numberField "weight" c.weight,
    numberField "claimed" c.claimed, numberField "individual_claimed" c.individualClaimed,
    numberField "total_deposited" c.totalDeposited,
    numberField "total_sold_tokens" c.totalSold,
    listField "recipients_added" (c.recipientsAdded.map .text),
    listField "recipients_removed" (c.recipientsRemoved.map .text),
    listField "participants_added" (c.participantsAdded.map .text),
    listField "participants_removed" (c.participantsRemoved.map .text),
    listField "accounts_added" (c.depositorsAdded.map pairDatum),
    listField "accounts_removed" (c.depositorsRemoved.map pairDatum),
    listField "deposit_legs_added" (c.legsAdded.map .text),
    listField "deposit_legs_removed" (c.legsRemoved.map .text),
    optionField "sale_token_set" (c.funded.map .bool),
    optionField "locked" (c.locked.map .bool)])

end Change

def Outcome.fields : Outcome → List (String × Datum)
  | .plain => []
  | .deposit accepted refund weightAdded =>
    [("accepted", .int accepted), ("refund", .int refund), ("weight_added", .int weightAdded)]
  | .claim amount => [("amount", .int amount)]

def Transition.toDatum (t : Transition) : Datum :=
  .record ([("operation", .text t.action.name), ("base_revision", .int t.baseRevision),
    ("revision", .int t.ledger.revision), ("effects", .list (t.transfers.map Transfer.toDatum)),
    ("delta", t.change.toDatum)] ++ t.outcome.fields)

end TokenSale
