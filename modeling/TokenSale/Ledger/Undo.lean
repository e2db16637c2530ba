import TokenSale.Ledger.Transition

/-!
Changes applied to a ledger that may have moved on since, and the undoing of transitions whose
transfers failed. Only what a transition touched is taken back.
-/

namespace TokenSale.Ledger

abbrev Roster := Book Position × Int

def enter (r : Roster) : List String → Roster
  | [] => r
  | a :: rest =>
    enter (if (r.1.get? a).isSome then r else (r.1.insert a .zero, r.2 + 1)) rest

def strike (r : Roster) : List String → Roster
  | [] => r
  | a :: rest => strike (if r.1.get? a = some .zero then (r.1.erase a, r.2 - 1) else r) rest

/-- Adds to the position of the participant of a change. No part may become negative. -/
def adjust (b : Book Position) (c : Change) : Except Fault (Book Position) :=
  match c.participant with
  | none => .ok b
  | some who =>
    if c.amount = 0 ∧ c.weight = 0 ∧ c.claimed = 0 then .ok b
    else do
      let p := (b.get? who).getD .zero
      let p : Position := ⟨p.amount + c.amount, p.weight + c.weight, p.claimed + c.claimed⟩
      demand (0 ≤ p.amount ∧ 0 ≤ p.weight ∧ 0 ≤ p.claimed) (.negativeInvestment who)
      return b.insert who p

def applyRoster (l : Ledger) (c : Change) : Except Fault Roster := do
  let entered := enter (l.positions, l.participants) c.participantsAdded
  let positions ← adjust entered.1 c
  return strike (positions, entered.2) c.participantsRemoved

/-- Removes depositors of a participant, unless the participant is still there. -/
def detach (positions : Book Position) (b : Book String) : List (String × String) → Book String
  | [] => b
  | (d, who) :: rest =>
    detach positions
      (if b.get? d = some who ∧ (positions.get? who).isNone then b.erase d else b) rest

def attach (b : Book String) : List (String × String) → Book String
  | [] => b
  | (d, who) :: rest => attach (b.insert d who) rest

def applyIndividual (l : Ledger) (c : Change) : Except Fault (Book Int) :=
  match c.participant with
  | none => .ok l.individualClaims
  | some who =>
    if c.individualClaimed = 0 then .ok l.individualClaims
    else do
      let value := l.individualClaimed who + c.individualClaimed
      demand (0 ≤ value) (.negativeIndividualClaim who)
      return l.individualClaims.insert who value

def relist (names added removed : List String) : List String :=
  let kept := names.filter fun a => !removed.contains a
  kept ++ added.filter fun a => !kept.contains a

def apply (l : Ledger) (c : Change) : Except Fault Ledger := do
  let (positions, participants) ← l.applyRoster c
  let depositors := attach (detach positions l.depositors c.depositorsRemoved) c.depositorsAdded
  let individualClaims ← l.applyIndividual c
  let totalDeposited := l.totalDeposited + c.totalDeposited
  let totalSold := l.totalSold + c.totalSold
  demand (0 ≤ totalDeposited ∧ 0 ≤ totalSold) .negativeTotal
  return { l with
    totalDeposited, totalSold, participants, positions, depositors, individualClaims
    paid := recordPaid (l.paid.filter fun a => !c.recipientsRemoved.contains a) c.recipientsAdded
    legsPaid := relist l.legsPaid c.legsAdded c.legsRemoved
    funded := c.funded.getD l.funded
    locked := c.locked.getD l.locked
    revision := l.revision + 1 }

def compensate (l : Ledger) (t : Transition) : Except Fault Ledger := l.apply t.change.negate

end TokenSale.Ledger
