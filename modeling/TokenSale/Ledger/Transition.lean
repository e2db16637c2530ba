import TokenSale.Change
import TokenSale.Ledger

/-!
Transitions: a ledger that replaces another one, the transfers to make, and the change between the
two. The change is read off the two ledgers, so it cannot disagree with them.
-/

namespace TokenSale

inductive Outcome where
  | plain
  | deposit (accepted refund weightAdded : Int)
  | claim (amount : Int)
deriving DecidableEq, Repr

/-- A transition from the revision `baseRevision` to `ledger`. -/
structure Transition where
  action : Action
  ledger : Ledger
  baseRevision : Int
  transfers : List Transfer
  change : Change
  outcome : Outcome
deriving DecidableEq

namespace Ledger

/-- The position of a participant; no participant and the empty name have none. -/
def positionOf (l : Ledger) : Option String → Position
  | none => .zero
  | some who => if who = "" then .zero else (l.positions.get? who).getD .zero

/-- What a stakeholder has claimed; no stakeholder and the empty name have claimed nothing. -/
def individualClaimOf (l : Ledger) : Option String → Int
  | none => 0
  | some who => if who = "" then 0 else l.individualClaimed who

def newParticipants (old new : Ledger) : Option String → List String
  | none => []
  | some who =>
    if (old.positions.get? who).isNone && (new.positions.get? who).isSome then [who] else []

def entriesBeyond (old new : Book String) : List (String × String) :=
  new.entries.filter fun e => old.get? e.1 != some e.2

@[simp] theorem entriesBeyond_self (b : Book String) : entriesBeyond b b = [] := by
  simp only [entriesBeyond, List.filter_eq_nil_iff]
  intro e he
  have hget : b.get? e.1 = some e.2 := Book.get?_eq_some.mpr he
  simp [hget]

/-- The value that a flag was set to, if it was changed. -/
def flagChange (old new : Bool) : Option Bool := if new != old then some new else none

@[simp] theorem flagChange_self (b : Bool) : flagChange b b = none := by
  simp [flagChange]

def changeTo (old new : Ledger) (participant : Option String) : Change where
  participant := participant
  amount := (new.positionOf participant).amount - (old.positionOf participant).amount
  weight := (new.positionOf participant).weight - (old.positionOf participant).weight
  claimed := (new.positionOf participant).claimed - (old.positionOf participant).claimed
  individualClaimed := new.individualClaimOf participant - old.individualClaimOf participant
  totalDeposited := new.totalDeposited - old.totalDeposited
  totalSold := new.totalSold - old.totalSold
  recipientsAdded := new.paid.filter fun a => !old.paid.contains a
  participantsAdded := newParticipants old new participant
  depositorsAdded := entriesBeyond old.depositors new.depositors
  depositorsRemoved := entriesBeyond new.depositors old.depositors
  legsAdded := new.legsPaid.filter fun a => !old.legsPaid.contains a
  funded := flagChange old.funded new.funded
  locked := flagChange old.locked new.locked

/-- The transition to `new`, one revision on. Transfers of nothing are left out. -/
def advance (old : Ledger) (action : Action) (new : Ledger) (participant : Option String)
    (transfers : List Transfer) (outcome : Outcome) : Transition :=
  let new := { new with revision := old.revision + 1 }
  { action
    ledger := new
    baseRevision := old.revision
    transfers := transfers.filter fun t => decide (0 < t.amount)
    change := old.changeTo new participant
    outcome }

end Ledger

end TokenSale
