import TokenSale.Ledger.Settlement
import TokenSale.Proofs.Ledger.Step

/-!
Partial settlement never fails: a payout narrowed to its first transfers is the payout of the first
recipients or legs alone. So what a desk commits of an operation is always a step of the ledger.
-/

namespace TokenSale

open Transition

namespace Ledger

variable {l : Ledger} {plan : Plan} {batch : List Payout}

theorem payBatch_paid (hplan : plan.Sound) (hbatch : plan.IsBatch l.paid batch) :
    (l.payBatch batch).paid = l.paid ++ batch.map Prod.fst :=
  hbatch.recordPaid_eq hplan

theorem batchPayout_transfers (hbatch : plan.IsBatch l.paid batch) :
    (l.batchPayout batch).transfers = batch.map payoutTransfer := by
  simp only [batchPayout, advance, List.filter_eq_self]
  intro x hx
  obtain ⟨r, hr, rfl⟩ := List.mem_map.mp hx
  exact decide_eq_true (hbatch.due r hr).1

theorem filter_new_eq_self {old new : List String} (h : ∀ a ∈ new, a ∉ old) :
    new.filter (fun a => !old.contains a) = new := by
  rw [List.filter_eq_self]
  intro a ha
  simpa using h a ha

theorem filter_new_append {old new : List String} (h : ∀ a ∈ new, a ∉ old) :
    (old ++ new).filter (fun a => !old.contains a) = new := by
  rw [List.filter_append, filter_new_eq_self h, List.filter_eq_nil_iff.mpr (by simp),
    List.nil_append]

theorem filter_append_eq_left {old new : List String} (h : ∀ a ∈ old, a ∉ new) :
    (old ++ new).filter (fun a => !new.contains a) = old := by
  rw [List.filter_append, filter_new_eq_self h, List.filter_eq_nil_iff.mpr (by simp),
    List.append_nil]

theorem batchPayout_change (hplan : plan.Sound) (hbatch : plan.IsBatch l.paid batch) :
    (l.batchPayout batch).change = { recipientsAdded := batch.map Prod.fst } := by
  have hpaid : (l.payBatch batch).paid.filter (fun a => !l.paid.contains a) =
      batch.map Prod.fst := by
    rw [payBatch_paid hplan hbatch, filter_new_append hbatch.fresh]
  simp only [batchPayout, advance, changeTo, hpaid]
  simp [payBatch, positionOf, individualClaimOf, newParticipants]

theorem unpaid_map_payoutTransfer {rest : List Payout} {c : Change}
    (hnodup : (rest.map Prod.fst).Nodup) (hadded : ∀ a ∈ rest.map Prod.fst, a ∈ c.recipientsAdded) :
    unpaid c (rest.map payoutTransfer) = rest.map Prod.fst := by
  have hkeep : (rest.map payoutTransfer).filter (fun x => x.reason == .distribution) =
      rest.map payoutTransfer := by
    rw [List.filter_eq_self]
    intro x hx
    obtain ⟨r, -, rfl⟩ := List.mem_map.mp hx
    rfl
  have hnames : (rest.map payoutTransfer).map Transfer.recipient = rest.map Prod.fst := by
    rw [List.map_map]
    rfl
  rw [unpaid, hkeep, hnames, eraseDups_eq_self hnodup, List.filter_eq_self]
  intro a ha
  simpa using hadded a ha

theorem unpaidLegs_map_payoutTransfer (rest : List Payout) (c : Change) :
    unpaidLegs c (rest.map payoutTransfer) = [] := by
  have hnone : (rest.map payoutTransfer).filterMap legName? = [] := by
    rw [List.filterMap_eq_nil_iff]
    intro x hx
    obtain ⟨r, -, rfl⟩ := List.mem_map.mp hx
    rfl
  rw [unpaidLegs, hnone]
  rfl

theorem filter_not_drop {names : List String} (h : names.Nodup) (n : Nat) :
    names.filter (fun a => !(names.drop n).contains a) = names.take n := by
  have hsplit := List.take_append_drop n names
  have hdisjoint : ∀ a ∈ names.take n, a ∉ names.drop n := by
    intro a ha hmem
    rw [← hsplit] at h
    exact (List.nodup_append.mp h).2.2 a ha a hmem rfl
  calc names.filter (fun a => !(names.drop n).contains a)
      = (names.take n ++ names.drop n).filter (fun a => !(names.drop n).contains a) := by
        rw [hsplit]
    _ = names.take n := filter_append_eq_left hdisjoint

theorem filter_not_nil (names : List String) :
    names.filter (fun a => !([] : List String).contains a) = names := by
  simp

theorem settle_batchPayout (hplan : plan.Sound) (hbatch : plan.IsBatch l.paid batch) (n : Nat) :
    (l.batchPayout batch).settle n = .ok (l.batchPayout (batch.take n)) := by
  have hnodup := hbatch.nodup hplan
  have hpending : (l.batchPayout batch).transfers.drop n = (batch.drop n).map payoutTransfer := by
    rw [batchPayout_transfers hbatch, List.map_drop]
  have hgone : unpaid (l.batchPayout batch).change ((batch.drop n).map payoutTransfer) =
      (batch.map Prod.fst).drop n := by
    rw [unpaid_map_payoutTransfer, List.map_drop]
    · rw [List.map_drop]
      exact (List.drop_sublist _ _).nodup hnodup
    · rw [batchPayout_change hplan hbatch, List.map_drop]
      exact fun a ha => List.mem_of_mem_drop ha
  -- those who were not reached come out of the log again, and nobody else does
  have hpaid : (l.batchPayout batch).ledger.paid.filter
      (fun a => !((batch.map Prod.fst).drop n).contains a) = (l.payBatch (batch.take n)).paid := by
    have hold : ∀ a ∈ l.paid, a ∉ (batch.map Prod.fst).drop n := fun a ha hmem =>
      hbatch.fresh a (List.mem_of_mem_drop hmem) ha
    rw [payBatch_paid hplan (hbatch.take n), List.map_take, ← filter_not_drop hnodup n,
      ← filter_new_eq_self hold, ← List.filter_append]
    exact congrArg _ (payBatch_paid hplan hbatch)
  simp only [settle, cut_natCast, hpending]
  split
  · rename_i hdone
    have hall : batch.take n = batch := List.take_of_length_le (by simpa using hdone)
    rw [hall]
  · rw [hgone, unpaidLegs_map_payoutTransfer, demand, if_pos (by simp)]
    show Except.ok _ = Except.ok _
    congr 1
    rw [batchPayout_transfers hbatch, batchPayout_change hplan hbatch, hpaid,
      filter_not_drop hnodup, filter_not_nil, ← List.map_take, ← List.map_take,
      ← batchPayout_transfers (hbatch.take n)]
    show { l.batchPayout (batch.take n) with
      change := { recipientsAdded := (batch.take n).map Prod.fst } } = _
    rw [← batchPayout_change hplan (hbatch.take n)]

/-! Legs: at most two transfers, so a part of them is the first leg. -/

section Legs

variable {split : Split} {parts : Int × Int} {legs : List Leg}

theorem dueLegs_fresh : ∀ a ∈ l.dueLegs.map Leg.name, a ∉ l.legsPaid := by
  intro a ha
  obtain ⟨leg, hleg, rfl⟩ := List.mem_map.mp ha
  simpa using (List.mem_filter.mp hleg).2

theorem legPayout_change (hfresh : ∀ a ∈ legs.map Leg.name, a ∉ l.legsPaid) :
    (l.legPayout plan split parts legs).change = { legsAdded := legs.map Leg.name } := by
  have hlegs : (l.payLegs legs).legsPaid.filter (fun a => !l.legsPaid.contains a) =
      legs.map Leg.name := filter_new_append hfresh
  simp only [legPayout, advance, changeTo, hlegs]
  simp [payLegs, positionOf, individualClaimOf, newParticipants]

/-- The parts of both legs went out one by one only if both are due and neither is zero. -/
theorem eq_all_of_partial {n : Nat} (hlegs : legs <+: l.dueLegs) (hpos : 0 < n)
    (hlt : n < (l.legPayout plan split parts legs).transfers.length) :
    n = 1 ∧ legs = Leg.all ∧
      (l.legPayout plan split parts legs).transfers = legs.map (legTransfer plan split parts) := by
  have hall : legs.Sublist Leg.all := (List.IsPrefix.sublist hlegs).trans List.filter_sublist
  have hlength : Leg.all.length = 2 := rfl
  have hle := hall.length_le
  have hfilter : ((legs.map (legTransfer plan split parts)).filter
      fun t => decide (0 < t.amount)).length ≤ (legs.map (legTransfer plan split parts)).length :=
    List.length_filter_le _ _
  have hmap : (legs.map (legTransfer plan split parts)).length = legs.length := List.length_map _
  simp only [legPayout, advance] at hlt ⊢
  refine ⟨by omega, hall.eq_of_length (by omega), ?_⟩
  exact List.filter_sublist.eq_of_length (by omega)

theorem legPayout_one_transfers
    (h : (l.legPayout plan split parts Leg.all).transfers =
      Leg.all.map (legTransfer plan split parts)) (l' : Ledger) (leg : Leg) :
    (l'.legPayout plan split parts [leg]).transfers = [legTransfer plan split parts leg] := by
  have hmem : legTransfer plan split parts leg ∈
      (l.legPayout plan split parts Leg.all).transfers := by
    rw [h]
    apply List.mem_map_of_mem
    cases leg <;> decide
  simp only [legPayout, advance, List.map_cons, List.map_nil, List.filter_eq_self,
    List.mem_singleton, forall_eq]
  exact (List.mem_filter.mp hmem).2

theorem payLegs_all_filter (hfresh : ∀ a ∈ Leg.all.map Leg.name, a ∉ l.legsPaid) :
    (l.payLegs Leg.all).legsPaid.filter (fun a => !([Leg.fee.name].contains a)) =
      (l.payLegs [.solver]).legsPaid := by
  have hfee : ∀ a ∈ l.legsPaid ++ [Leg.solver.name], a ∉ [Leg.fee.name] := by
    intro a ha hmem
    rw [List.mem_singleton.mp hmem] at ha
    rcases List.mem_append.mp ha with ha | ha
    · exact hfresh Leg.fee.name (by simp [Leg.all]) ha
    · simp [Leg.name] at ha
  have hboth : (l.payLegs Leg.all).legsPaid =
      l.legsPaid ++ [Leg.solver.name] ++ [Leg.fee.name] := by
    rw [List.append_assoc]
    rfl
  rw [hboth, filter_append_eq_left hfee]
  rfl

theorem settle_legPayout {n : Nat} (hlegs : legs <+: l.dueLegs) (hpos : 0 < n)
    (hlt : n < (l.legPayout plan split parts legs).transfers.length) :
    (l.legPayout plan split parts legs).settle n = .ok (l.legPayout plan split parts [.solver]) := by
  -- with fewer than two transfers there is nothing between none and all
  obtain ⟨rfl, rfl, htransfers⟩ := eq_all_of_partial hlegs hpos hlt
  have hfresh : ∀ a ∈ Leg.all.map Leg.name, a ∉ l.legsPaid := fun a ha =>
    dueLegs_fresh a ((hlegs.map Leg.name).subset ha)
  have hfirst : ∀ a ∈ [Leg.solver].map Leg.name, a ∉ l.legsPaid := fun a ha =>
    hfresh a (by simp_all [Leg.all])
  have hsolver := legPayout_one_transfers htransfers l .solver
  have hlegsPaid : (l.legPayout plan split parts Leg.all).ledger.legsPaid.filter
      (fun a => !([Leg.fee.name].contains a)) = (l.payLegs [.solver]).legsPaid :=
    payLegs_all_filter hfresh
  have hpending : (l.legPayout plan split parts Leg.all).transfers.drop 1 =
      [legTransfer plan split parts .fee] := by
    rw [htransfers]
    rfl
  have hgone : unpaidLegs (l.legPayout plan split parts Leg.all).change
      [legTransfer plan split parts .fee] = [Leg.fee.name] := by
    rw [legPayout_change hfresh]
    rfl
  simp only [settle, cut_natCast, hpending, hgone]
  rw [if_neg (by simp), demand, if_pos (by rfl)]
  show Except.ok _ = Except.ok _
  congr 1
  rw [legPayout_change hfresh, hlegsPaid, htransfers]
  show { l.legPayout plan split parts [.solver] with
    ledger := { (l.legPayout plan split parts [.solver]).ledger with
      paid := l.paid.filter (fun a => !([] : List String).contains a) }
    transfers := [legTransfer plan split parts .solver]
    change := { legsAdded := [Leg.solver.name] } } = _
  rw [filter_not_nil, ← hsolver]
  show { l.legPayout plan split parts [.solver] with
    change := { legsAdded := [Leg.solver].map Leg.name } } = _
  rw [← legPayout_change hfirst]

end Legs

/-! What is committed of a step is a step. -/

theorem advance_transfers_length_le (old new : Ledger) (action : Action) (who : Option String)
    (transfers : List Transfer) (outcome : Outcome) :
    (old.advance action new who transfers outcome).transfers.length ≤ transfers.length :=
  List.length_filter_le _ _

theorem Disburses.settle {now : Int} {op : Operation} {t : Transition} {n : Nat}
    (h : l.Disburses now op t) (hsale : l.sale.Sound) (hpos : 0 < n)
    (hlt : n < t.transfers.length) :
    ∃ t', t.settle n = .ok t' ∧ t'.transfers = t.transfers.take n ∧ l.Disburses now op t' := by
  cases h with
  | claim hposition hreleased =>
    have := Nat.lt_of_lt_of_le hlt (advance_transfers_length_le ..)
    simp only [List.length_singleton] at this
    omega
  | claimIndividual hvested hreleased =>
    have := Nat.lt_of_lt_of_le hlt (advance_transfers_length_le ..)
    simp only [List.length_singleton] at this
    omega
  | @distribute limit plan batch hplan hbatch hne =>
    have hsound := hsale.plan_sound plan hplan
    refine ⟨l.batchPayout (batch.take n), settle_batchPayout hsound hbatch n, ?_,
      .distribute hplan (hbatch.take n) ?_⟩
    · rw [batchPayout_transfers hbatch, batchPayout_transfers (hbatch.take n), List.map_take]
    · simp only [ne_eq, List.take_eq_nil_iff, not_or]
      exact ⟨by omega, hne⟩
  | @distributeDeposits plan split parts legs hplan hsplit hparts hlegs hne =>
    obtain ⟨rfl, rfl, htransfers⟩ := eq_all_of_partial hlegs hpos hlt
    refine ⟨l.legPayout plan split parts [.solver], settle_legPayout hlegs hpos hlt, ?_,
      .distributeDeposits hplan hsplit hparts ((List.take_prefix 1 Leg.all).trans hlegs)
        (List.cons_ne_nil _ _)⟩
    rw [htransfers, legPayout_one_transfers htransfers]
    rfl

theorem Step.settle {op : Operation} {t : Transition} {n : Nat} (h : Step l op t)
    (hsale : l.sale.Sound) (hpos : 0 < n) (hlt : n < t.transfers.length) :
    ∃ t', t.settle n = .ok t' ∧ t'.transfers = t.transfers.take n ∧ Step l op t' := by
  cases h with
  | disburse hstatus h =>
    obtain ⟨t', hsettle, htransfers, h'⟩ := h.settle hsale hpos hlt
    exact ⟨t', hsettle, htransfers, .disburse hstatus h'⟩
  | _ =>
    have := Nat.lt_of_lt_of_le hlt (advance_transfers_length_le ..)
    simp only [List.length_singleton, List.length_nil] at this
    omega

end Ledger

end TokenSale
