import TokenSale.Ledger.Transition

/-!
Partial settlement: a transition narrowed to the transfers that went out. Only payouts of a batch
and legs can be left pending, since each of them has a record of its own that can be dropped.
-/

namespace TokenSale.Transition

/-- How many transfers a count stands for; a negative one counts from the end. -/
def cut (t : Transition) (issued : Int) : Nat :=
  if issued < 0 then (t.transfers.length + issued).toNat else issued.toNat

@[simp] theorem cut_natCast (t : Transition) (n : Nat) : t.cut n = n := by
  unfold cut
  split
  · omega
  · exact Int.toNat_natCast n

def unpaid (c : Change) (pending : List Transfer) : List String :=
  ((pending.filter fun x => x.reason == .distribution).map Transfer.recipient).eraseDups.filter
    fun a => c.recipientsAdded.contains a

def legName? (x : Transfer) : Option String :=
  match x.reason with
  | .leg l => some l.name
  | _ => none

def unpaidLegs (c : Change) (pending : List Transfer) : List String :=
  (pending.filterMap legName?).eraseDups.filter fun a => c.legsAdded.contains a

def settle (t : Transition) (issued : Int) : Except Fault Transition :=
  let n := t.cut issued
  let pending := t.transfers.drop n
  if pending.isEmpty then .ok t
  else do
    let gone := unpaid t.change pending
    let goneLegs := unpaidLegs t.change pending
    demand (gone.length + goneLegs.length = pending.length)
      (.unsettledTransfers t.action (pending.map Transfer.reason))
    return { t with
      ledger := { t.ledger with
        paid := t.ledger.paid.filter fun a => !gone.contains a
        legsPaid := t.ledger.legsPaid.filter fun a => !goneLegs.contains a }
      transfers := t.transfers.take n
      change := { t.change with
        recipientsAdded := t.change.recipientsAdded.filter fun a => !gone.contains a
        legsAdded := t.change.legsAdded.filter fun a => !goneLegs.contains a } }

end TokenSale.Transition
