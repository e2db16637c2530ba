/-!
What a transition changes, in a form that can be applied elsewhere and undone: sums to add, members
that entered or left a collection, and flags that were set.
-/

namespace TokenSale

/-- A change. The four numbers after the participant belong to it; a flag holds the value that it
was set to. -/
structure Change where
  participant : Option String := none
  amount : Int := 0
  weight : Int := 0
  claimed : Int := 0
  individualClaimed : Int := 0
  totalDeposited : Int := 0
  totalSold : Int := 0
  recipientsAdded : List String := []
  recipientsRemoved : List String := []
  participantsAdded : List String := []
  participantsRemoved : List String := []
  depositorsAdded : List (String × String) := []
  depositorsRemoved : List (String × String) := []
  legsAdded : List String := []
  legsRemoved : List String := []
  funded : Option Bool := none
  locked : Option Bool := none
deriving DecidableEq, Repr

namespace Change

def negate (c : Change) : Change where
  participant := c.participant
  amount := -c.amount
  weight := -c.weight
  claimed := -c.claimed
  individualClaimed := -c.individualClaimed
  totalDeposited := -c.totalDeposited
  totalSold := -c.totalSold
  recipientsAdded := c.recipientsRemoved
  recipientsRemoved := c.recipientsAdded
  participantsAdded := c.participantsRemoved
  participantsRemoved := c.participantsAdded
  depositorsAdded := c.depositorsRemoved
  depositorsRemoved := c.depositorsAdded
  legsAdded := c.legsRemoved
  legsRemoved := c.legsAdded
  funded := c.funded.map not
  locked := c.locked.map not

def isEmpty (c : Change) : Bool := c == { participant := c.participant }

@[simp] theorem negate_negate (c : Change) : c.negate.negate = c := by
  cases c
  simp [negate, Function.comp_def]

end Change

end TokenSale
