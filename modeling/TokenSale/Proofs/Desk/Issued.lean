import TokenSale.Proofs.Desk.Order

/-!
What a history has issued, by kind of transfer, and what it has taken in. Transfers of nothing are
left out of a transition, which changes no sum.
-/

namespace TokenSale

def amountOf (q : Transfer → Bool) (xs : List Transfer) : Int :=
  sumOf (fun x => if q x then x.amount else 0) xs

@[simp] theorem amountOf_nil (q : Transfer → Bool) : amountOf q [] = 0 := rfl

@[simp] theorem amountOf_cons (q : Transfer → Bool) (x : Transfer) (xs : List Transfer) :
    amountOf q (x :: xs) = (if q x then x.amount else 0) + amountOf q xs := rfl

theorem amountOf_append (q : Transfer → Bool) (xs ys : List Transfer) :
    amountOf q (xs ++ ys) = amountOf q xs + amountOf q ys := by
  simp [amountOf]

theorem amountOf_eq_zero {q : Transfer → Bool} {xs : List Transfer} (h : ∀ x ∈ xs, q x = false) :
    amountOf q xs = 0 :=
  sumOf_eq_zero fun x hx => by simp [h x hx]

theorem amountOf_eq_zero_of_reason_ne {q : Transfer → Bool} {reason : Reason} {xs : List Transfer}
    (hq : ∀ x, q x = true → x.reason = reason) (h : ∀ x ∈ xs, x.reason ≠ reason) :
    amountOf q xs = 0 :=
  amountOf_eq_zero fun x hx => Bool.eq_false_iff.mpr fun heq => h x hx (hq x heq)

theorem amountOf_filter_pos (q : Transfer → Bool) {xs : List Transfer}
    (h : ∀ x ∈ xs, 0 ≤ x.amount) :
    amountOf q (xs.filter fun x => decide (0 < x.amount)) = amountOf q xs := by
  induction xs with
  | nil => rfl
  | cons x xs ih =>
    have hx := h x List.mem_cons_self
    have hxs := ih fun y hy => h y (List.mem_cons_of_mem x hy)
    by_cases hpos : 0 < x.amount
    · rw [List.filter_cons_of_pos (by simpa using hpos), amountOf_cons, amountOf_cons, hxs]
    · have hzero : x.amount = 0 := by omega
      rw [List.filter_cons_of_neg (by simpa using hpos), amountOf_cons, hxs, hzero]
      simp

theorem amountOf_advance (q : Transfer → Bool) (old new : Ledger) (action : Action)
    (who : Option String) {xs : List Transfer} (outcome : Outcome) (h : ∀ x ∈ xs, 0 ≤ x.amount) :
    amountOf q (old.advance action new who xs outcome).transfers = amountOf q xs :=
  amountOf_filter_pos q h

theorem amountOf_advance_one (q : Transfer → Bool) (old new : Ledger) (action : Action)
    (who : Option String) (x : Transfer) (outcome : Outcome) (h : 0 ≤ x.amount) :
    amountOf q (old.advance action new who [x] outcome).transfers =
      if q x then x.amount else 0 := by
  rw [amountOf_advance q old new action who outcome (by simpa using h), amountOf_cons,
    amountOf_nil, Int.add_zero]

def issued (es : List Entry) (q : Transfer → Bool) : Int := amountOf q (es.flatMap Entry.sent)

theorem issued_append (es : List Entry) (e : Entry) (q : Transfer → Bool) :
    issued (es ++ [e]) q = issued es q + amountOf q e.sent := by
  simp [issued, List.flatMap_append, amountOf_append]

/-! Kinds of transfers. -/

namespace Transfer

def isFor (reason : Reason) (x : Transfer) : Bool := x.reason == reason

theorem reason_of_isFor {reason : Reason} (x : Transfer) (h : isFor reason x = true) :
    x.reason = reason := eq_of_beq h

def isWithdrawalOf (who : String) (x : Transfer) : Bool :=
  x.reason == .withdraw && x.recipient == who

theorem reason_of_isWithdrawalOf {who : String} (x : Transfer) (h : isWithdrawalOf who x = true) :
    x.reason = .withdraw := eq_of_beq (Bool.and_eq_true_iff.mp h).1

def isSaleFor (reason : Reason) (x : Transfer) : Bool := x.token == .sale && x.reason == reason

theorem reason_of_isSaleFor {reason : Reason} (x : Transfer) (h : isSaleFor reason x = true) :
    x.reason = reason := eq_of_beq (Bool.and_eq_true_iff.mp h).2

end Transfer

/-! Deposits of an entry that were committed; the deposit that funds a sale is none of them. -/

namespace Entry

def deposited (e : Entry) : Int :=
  match e.op, e.committed with
  | .deposit _ amount _ _ _, some t => if t.action = .deposit then amount else 0
  | _, _ => 0

/-- What a deposit told its caller to have accepted for a participant. -/
def acceptedFor (who : String) (e : Entry) : Int :=
  match e.op, e.committed with
  | .deposit _ _ participant _ _, some { action := .deposit, outcome := .deposit accepted _ _, .. } =>
    if participant = who then accepted else 0
  | _, _ => 0

theorem deposited_none (op : Operation) (prepared : Except Failure Transition)
    (sent : List Transfer) : deposited ⟨op, prepared, none, sent⟩ = 0 := by
  cases op <;> rfl

theorem acceptedFor_none (who : String) (op : Operation) (prepared : Except Failure Transition)
    (sent : List Transfer) : acceptedFor who ⟨op, prepared, none, sent⟩ = 0 := by
  cases op <;> rfl

end Entry

end TokenSale
