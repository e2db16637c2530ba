import TokenSale.Proofs.Distribution

/-!
Batches taken from the front of what is due. Once the first payouts are in the log, exactly the others
are due, in the same order; so a batch that stops early was the smaller batch, and the next one
starts where it stopped.
-/

namespace TokenSale.Plan

variable {p : Plan} {log : List String} {batch : List Payout} {limit : Option Int}

theorem IsBatch.pending_eq (hp : p.Sound) (h : p.IsBatch log batch) :
    p.pending (recordPaid log (batch.map Prod.fst)) = (p.pending log).drop batch.length := by
  obtain ⟨rest, hrest⟩ := h
  have hnodup : ((p.pending log).map Prod.fst).Nodup :=
    (List.filter_sublist.map Prod.fst).nodup hp.payouts_nodup
  have hfirst : batch.filter (fun r => !(batch.map Prod.fst).contains r.1) = [] := by
    rw [List.filter_eq_nil_iff]
    intro r hr
    simpa using ⟨r.2, hr⟩
  have hothers : rest.filter (fun r => !(batch.map Prod.fst).contains r.1) = rest := by
    rw [List.filter_eq_self]
    intro r hr
    rw [← hrest, List.map_append] at hnodup
    have hapart := (List.nodup_append.mp hnodup).2.2
    have hnot : r.1 ∉ batch.map Prod.fst := fun hmem =>
      hapart _ hmem _ (List.mem_map_of_mem hr) rfl
    simpa using hnot
  calc p.pending (recordPaid log (batch.map Prod.fst))
      = (p.pending log).filter (fun r => !(batch.map Prod.fst).contains r.1) := by
        rw [IsBatch.recordPaid_eq hp ⟨rest, hrest⟩, pending, pending, List.filter_filter]
        apply List.filter_congr
        intro r _
        simp only [List.contains_eq_mem, List.mem_append]
        grind
    _ = (p.pending log).drop batch.length := by
        rw [← hrest, List.filter_append, hfirst, hothers, List.nil_append, List.drop_left]

theorem nextBatch_none : p.nextBatch log none = .ok (p.pending log) := rfl

theorem nextBatch_some {k : Nat} (hpos : 0 < k) :
    p.nextBatch log (some k) = .ok ((p.pending log).take k) := by
  apply nextBatch_eq_ok.mpr
  refine ⟨?_, rfl⟩
  rintro n ⟨⟩
  omega

theorem Sound.pending_take (hp : p.Sound) (log : List String) (k : Nat) :
    p.pending (recordPaid log (((p.pending log).take k).map Prod.fst)) = (p.pending log).drop k := by
  have hbatch : p.IsBatch log ((p.pending log).take k) := List.take_prefix k _
  rw [hbatch.pending_eq hp, List.length_take]
  apply List.drop_eq_drop_iff.mpr
  omega

theorem nextBatch_first {k : Nat} (h : p.nextBatch log limit = .ok batch) (hpos : 0 < k)
    (hle : k ≤ batch.length) : p.nextBatch log (some k) = .ok (batch.take k) := by
  obtain ⟨rest, hrest⟩ := isBatch_of_nextBatch h
  rw [nextBatch_some hpos, ← hrest, List.take_append_of_le_length hle]

theorem Sound.nextBatch_rest {k : Nat} (hp : p.Sound) (h : p.nextBatch log limit = .ok batch)
    (hlt : k < batch.length) :
    p.nextBatch (recordPaid log ((batch.take k).map Prod.fst)) (limit.map (· - (k : Int))) =
      .ok (batch.drop k) := by
  have hpending := ((isBatch_of_nextBatch h).take k).pending_eq hp
  rw [List.length_take_of_le (Nat.le_of_lt hlt)] at hpending
  obtain ⟨-, rfl⟩ := nextBatch_eq_ok.mp h
  refine nextBatch_eq_ok.mpr ⟨?_, ?_⟩
  · intro m hm
    obtain ⟨n, rfl, rfl⟩ := Option.map_eq_some_iff.mp hm
    have hcount : (upTo (some n) (p.pending log)).length ≤ n.toNat := List.length_take_le _ _
    omega
  · rw [hpending]
    cases limit with
    | none => rfl
    | some n =>
      have hcount : (n - (k : Int)).toNat = n.toNat - k := by omega
      show ((p.pending log).take n.toNat).drop k =
        ((p.pending log).drop k).take (n - (k : Int)).toNat
      rw [hcount, List.drop_take]

/-- What a log is once the recipients of a batch were recorded in it. -/
structure Recorded (log : List String) (batch : List Payout) (result : List String) : Prop where
  extended : log <+: result
  mem_iff : ∀ a, a ∈ result ↔ a ∈ log ∨ a ∈ batch.map Prod.fst
  nodup : log.Nodup → result.Nodup
  again : recordPaid result (batch.map Prod.fst) = result
  followed : ∀ later : List Payout, recordPaid result (later.map Prod.fst) =
    recordPaid log ((batch ++ later).map Prod.fst)

theorem recorded (log : List String) (batch : List Payout) :
    Recorded log batch (recordPaid log (batch.map Prod.fst)) where
  extended := prefix_recordPaid log _
  mem_iff _ := mem_recordPaid
  nodup := nodup_recordPaid
  again := recordPaid_eq_self (subset_recordPaid log _)
  followed later := by rw [List.map_append, recordPaid_append]

/-- A batch of an accepted plan takes its payouts off the front of what is due, whoever else is in
the log, and leaves the others in their order. Recording itself needs no plan: it appends
whoever is new and nobody twice, and a batch after a batch is recorded like both at once. -/
theorem batches_follow :
    (∀ (p : Plan) (log : List String) (k : Nat), p.validate = .ok () → 1 ≤ k →
      ∃ due batch, p.nextBatch log none = .ok due ∧ p.nextBatch log (some k) = .ok batch ∧
        p.nextBatch (recordPaid log (batch.map Prod.fst)) none = .ok (due.drop k)) ∧
    ∀ (log : List String) (batch : List Payout),
      Recorded log batch (recordPaid log (batch.map Prod.fst)) := by
  refine ⟨fun p log k hp hpos => ⟨_, _, nextBatch_none, nextBatch_some hpos, ?_⟩, recorded⟩
  rw [nextBatch_none, (sound_of_validate hp).pending_take log k]

/-- A log with a stranger and with one who was paid already, and a batch that names some twice. -/
theorem batches_follow_stranger :
    let p : Plan := ⟨"solver", 50, [⟨"ann", 30, none⟩, ⟨"bob", 0, none⟩,
      ⟨"eve", 20, some ⟨10, 100, none, .immediate⟩⟩, ⟨"cat", 10, none⟩, ⟨"dan", 5, none⟩], none⟩
    let log := ["stranger", "ann"]
    p.validate = .ok () ∧ p.nextBatch log (some 2) = .ok [("solver", 50), ("cat", 10)] ∧
      p.nextBatch (recordPaid log ["solver", "cat"]) none = .ok [("dan", 5)] ∧
      Recorded log [("cat", 10), ("ann", 30), ("cat", 10)] ["stranger", "ann", "cat"] := by
  intro p log
  obtain ⟨hfollow, hrecorded⟩ := batches_follow
  have hp : p.validate = .ok () := rfl
  obtain ⟨due, batch, hdue, hbatch, hnext⟩ := hfollow p log 2 hp (by decide)
  have hfirst : p.nextBatch log (some 2) = .ok [("solver", 50), ("cat", 10)] := rfl
  obtain rfl : due = [("solver", 50), ("cat", 10), ("dan", 5)] := by
    cases hdue
    rfl
  cases hfirst.symm.trans hbatch
  exact ⟨hp, hfirst, hnext, hrecorded log [("cat", 10), ("ann", 30), ("cat", 10)]⟩

end TokenSale.Plan
