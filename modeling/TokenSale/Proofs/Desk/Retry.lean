import TokenSale.Proofs.Batching
import TokenSale.Proofs.Desk.History

/-!
Retried payouts. A payout of several transfers that stopped early is narrowed to the transfers that
went out. For a batch this is the payout of a smaller batch, and in every case the same operation,
with what is left of its limit, then pays exactly the transfers that did not go out.
-/

namespace TokenSale

/-- The transition is narrowed to `part` once `k` transfers went out, and `again`, which comes after
that, makes exactly the other ones. -/
structure Transition.Resumed (t : Transition) (k : Nat) (part : Transition)
    (again : Except Fault Transition) : Prop where
  settled : t.settle k = .ok part
  completed : ∃ rest, again = .ok rest ∧ t.transfers.take k ++ rest.transfers = t.transfers

namespace Ledger

variable {l : Ledger} {now : Int} {limit : Option Int} {t : Transition} {k : Nat}

/-! Batches. -/

theorem distributeNext_resumed (hsale : l.sale.Sound) (h : l.distributeNext now limit = .ok t)
    (hpos : 0 < k) (hlt : k < t.transfers.length) :
    ∃ part, l.distributeNext now (some k) = .ok part ∧
      t.Resumed k part (part.ledger.distributeNext now (limit.map (· - (k : Int)))) := by
  obtain ⟨hstatus, plan, batch, hplan, hbatch, hne, rfl⟩ := distributeNext_eq_ok.mp h
  have hsound := hsale.plan_sound plan hplan
  have hfirst := Plan.isBatch_of_nextBatch hbatch
  rw [batchPayout_transfers hfirst, List.length_map] at hlt
  have hsome : batch.take k ≠ [] := by
    simp only [ne_eq, List.take_eq_nil_iff, not_or]
    exact ⟨by omega, hne⟩
  have hmore : batch.drop k ≠ [] := by simpa using hlt
  have hsmaller := Plan.nextBatch_first hbatch hpos (Nat.le_of_lt hlt)
  have hrest := hsound.nextBatch_rest hbatch hlt
  refine ⟨l.batchPayout (batch.take k),
    distributeNext_eq_ok.mpr ⟨hstatus, plan, _, hplan, hsmaller, hsome, rfl⟩,
    settle_batchPayout hsound hfirst k, ?_⟩
  -- the narrowed ledger differs from the old one in its log only
  refine ⟨(l.batchPayout (batch.take k)).ledger.batchPayout (batch.drop k),
    distributeNext_eq_ok.mpr ⟨hstatus, plan, _, hplan, hrest, hmore, rfl⟩, ?_⟩
  have hstill : plan.IsBatch (l.batchPayout (batch.take k)).ledger.paid (batch.drop k) :=
    Plan.isBatch_of_nextBatch hrest
  rw [batchPayout_transfers hfirst, batchPayout_transfers hstill, ← List.map_take,
    ← List.map_append, List.take_append_drop]

/-! Legs. -/

theorem dueLegs_payLegs_solver (h : l.dueLegs = Leg.all) :
    (l.payLegs [.solver]).dueLegs = [.fee] := by
  have hfresh : Leg.fee.name ∉ l.legsPaid := by
    apply dueLegs_fresh
    rw [h]
    decide
  have hother : Leg.fee.name ≠ Leg.solver.name := by decide
  simp [dueLegs, payLegs, Leg.all, hfresh, hother]

theorem distributeDeposits_resumed (h : l.distributeDeposits now = .ok t) (hpos : 0 < k)
    (hlt : k < t.transfers.length) :
    ∃ part, t.Resumed k part (part.ledger.distributeDeposits now) := by
  obtain ⟨hstatus, plan, split, parts, hplan, hsplit, hne, hparts, rfl⟩ :=
    distributeDeposits_eq_ok.mp h
  obtain ⟨rfl, hall, htransfers⟩ := eq_all_of_partial (List.prefix_refl _) hpos hlt
  refine ⟨l.legPayout plan split parts [.solver], settle_legPayout (List.prefix_refl _) hpos hlt, ?_⟩
  have hdue : (l.legPayout plan split parts [.solver]).ledger.dueLegs = [.fee] :=
    dueLegs_payLegs_solver hall
  refine ⟨_, distributeDeposits_eq_ok.mpr ⟨hstatus, plan, split, parts, hplan, hsplit, ?_, hparts, rfl⟩, ?_⟩
  · rw [hdue]
    exact List.cons_ne_nil _ _
  · rw [hdue, htransfers, legPayout_one_transfers (hall ▸ htransfers), hall]
    rfl

end Ledger

namespace History

/-- Along every history, a batch that stopped after `k` transfers was the batch of limit `k`; and a
batch or the legs of the deposits that stopped so are completed by the same operation. -/
theorem run_resumed {draft : Sale.Draft} {settings : Settings} {outbox : Outbox} {clock : Int}
    {d : Desk} (h : Desk.start draft settings outbox clock = .ok d) (turns : List Turn) (now : Int)
    {k : Nat} (hpos : 1 ≤ k) :
    (∀ limit t, (run d turns).ledger.perform (.distributeNext now limit) = .ok t →
      k < t.transfers.length →
      ∃ part, (run d turns).ledger.perform (.distributeNext now (some k)) = .ok part ∧
        t.Resumed k part
          (part.ledger.perform (.distributeNext now (limit.map fun n => n - (k : Int))))) ∧
    ∀ t, (run d turns).ledger.perform (.distributeDeposits now) = .ok t →
      k < t.transfers.length →
      ∃ part, t.Resumed k part (part.ledger.perform (.distributeDeposits now)) := by
  refine ⟨fun limit t ht hlt => ?_, fun t ht hlt => ?_⟩
  · exact Ledger.distributeNext_resumed (run_sale_sound h turns) ht hpos hlt
  · exact Ledger.distributeDeposits_resumed ht hpos hlt

/-- The payouts of the sample, each stopped after its first transfer. -/
theorem run_resumed_sample :
    Desk.start sampleSale.draft {} (.kept []) 0 = .ok sampleDesk ∧
      (∃ t part, t.transfers = [payoutTransfer ("solver", 50), payoutTransfer ("ann", 30)] ∧
        (run sampleDesk (sampleTurns.take 4)).ledger.perform (.distributeNext 100 (some 2)) =
          .ok t ∧
        (run sampleDesk (sampleTurns.take 4)).ledger.perform (.distributeNext 100 (some 1)) =
          .ok part ∧
        t.Resumed 1 part (part.ledger.perform (.distributeNext 100 (some 1)))) ∧
      ∃ t part, t.transfers = [⟨.deposit, "solver", 27, .leg .solver⟩,
          ⟨.deposit, "fees", 1, .leg .fee⟩] ∧
        (run sampleDesk (sampleTurns.take 4)).ledger.perform (.distributeDeposits 100) = .ok t ∧
        t.Resumed 1 part (part.ledger.perform (.distributeDeposits 100)) := by
  have hstart : Desk.start sampleSale.draft {} (.kept []) 0 = .ok sampleDesk := rfl
  obtain ⟨hbatch, hlegs⟩ := run_resumed hstart (sampleTurns.take 4) 100 (Nat.le_refl 1)
  obtain ⟨t, ht, htransfers⟩ := exists_ok_of_map
    (x := (run sampleDesk (sampleTurns.take 4)).ledger.perform (.distributeNext 100 (some 2)))
    (f := Transition.transfers)
    (b := [payoutTransfer ("solver", 50), payoutTransfer ("ann", 30)]) (by decide +kernel)
  obtain ⟨part, hpart, hresumed⟩ := hbatch (some 2) t ht (by rw [htransfers]; decide)
  obtain ⟨t', ht', htransfers'⟩ := exists_ok_of_map
    (x := (run sampleDesk (sampleTurns.take 4)).ledger.perform (.distributeDeposits 100))
    (f := Transition.transfers)
    (b := [⟨.deposit, "solver", 27, .leg .solver⟩, ⟨.deposit, "fees", 1, .leg .fee⟩])
    (by decide +kernel)
  obtain ⟨part', hresumed'⟩ := hlegs t' ht' (by rw [htransfers']; decide)
  exact ⟨hstart, ⟨t, part, htransfers, ht, hpart, hresumed⟩, t', part', htransfers', ht', hresumed'⟩

end History

end TokenSale
