/-!
Sets of characters given by ranges of code points.
-/

namespace TokenSale.Text

abbrev RangeTable := List (Nat × Nat)

def RangeTable.has (t : RangeTable) (n : Nat) : Bool :=
  t.any fun r => decide (r.1 ≤ n ∧ n ≤ r.2)

@[simp] theorem RangeTable.has_eq_true {t : RangeTable} {n : Nat} :
    t.has n = true ↔ ∃ r ∈ t, r.1 ≤ n ∧ n ≤ r.2 := by
  simp [RangeTable.has]

end TokenSale.Text
