import TokenSale.Proofs.Desk.Counting
import TokenSale.Proofs.Desk.Session

/-!
Metrics that reconcile with the ledger. Whatever clients do at a desk, short of an undo, and
wherever issuers stop, the metrics show what the ledger and the transfers that went out say, as long as
binary64 can count that far. What is refused, stale or only looked at moves none of these counts.
-/

namespace TokenSale

/-- What a client does at a desk, when it undoes nothing: it performs an operation at once, or in
the two phases, or looks at the status. -/
inductive Use where
  | perform (x : Turn)
  | prepare (op : Operation)
  | commit (i taken : Nat)
  | status (now : Int)

namespace Session

def perform (s : Session) (x : Turn) : Session :=
  match s.desk.prepare x.op with
  | (desk, .ok t) => ({ s with desk }.commit t x.taken).1
  | (desk, .error _) => { s with desk }

def use (s : Session) : Use → Session
  | .perform x => s.perform x
  | .prepare op => s.prepare op
  | .commit i taken => s.call (.commit i taken)
  | .status now => { s with desk := (s.desk.status now).1 }

def visit (d : Desk) (uses : List Use) : Session := uses.foldl use ⟨d, [], []⟩

end Session

namespace Desk

variable {d : Desk} {t : Transition} {op : Operation} {sent : List Transfer}

@[simp] theorem record_settings (d : Desk) (f : Metrics → Metrics) :
    (d.record f).settings = d.settings := by
  unfold record
  split <;> rfl

@[simp] theorem install_settings (d : Desk) (t : Transition) :
    (d.install t).1.settings = d.settings := by
  simp only [install]
  split <;> rfl

/-- A desk whose metrics show what its ledger and the transfers that went out say, if they can. -/
structure Metered (d : Desk) (sent : List Transfer) : Prop where
  enabled : d.settings.metricsEnabled = true
  sale_sound : d.ledger.sale.Sound
  balanced : d.ledger.Balanced
  count_eq : Countable (d.ledger.count sent) → ∀ k, d.metrics.count k = d.ledger.count sent k

theorem Metered.record (h : d.Metered sent) {f : Metrics → Metrics}
    (hf : ∀ m : Metrics, (f m).count = m.count) : (d.record f).Metered sent where
  enabled := by rw [record_settings, h.enabled]
  sale_sound := by
    rw [record_ledger]
    exact h.sale_sound
  balanced := by
    rw [record_ledger]
    exact h.balanced
  count_eq := by
    have hmetrics : (d.record f).metrics = f d.metrics := by
      rw [Desk.record, if_pos h.enabled]
    rw [record_ledger, hmetrics, hf]
    exact h.count_eq

theorem install_metrics (h : d.settings.metricsEnabled = true) (t : Transition) :
    (d.install t).1.metrics = (d.metrics.observe t).1 := by
  simp only [install, h, if_true]

theorem Metered.install (h : d.Metered sent) (hstep : Ledger.Step d.ledger op t) :
    (d.install t).1.Metered (sent ++ t.transfers) where
  enabled := by rw [install_settings, h.enabled]
  sale_sound := by
    rw [install_ledger, hstep.sale_eq]
    exact h.sale_sound
  balanced := by
    rw [install_ledger]
    exact h.balanced.step hstep
  count_eq := by
    have hcounted := hstep.counted h.sale_sound h.balanced.tallied
    have hcount := hstep.count_eq h.sale_sound h.balanced sent
    rw [install_ledger, install_metrics h.enabled]
    intro hcountable
    -- counts only grow, so what can be counted after the step could be before it
    have hold : Countable (d.ledger.count sent) := by
      intro k
      have hnew := hcountable k
      have hnonneg := hcounted.count_nonneg k
      rw [hcount k] at hnew
      omega
    have hsame := h.count_eq hold
    intro k
    have hroom : Countable fun k' => d.metrics.count k' + t.count k' := by
      intro k'
      show d.metrics.count k' + t.count k' < _
      rw [hsame k', ← hcount k']
      exact hcountable k'
    rw [hcounted.observe d.metrics hroom k, hsame k, hcount k]

theorem Metered.installSent (h : d.Metered sent) (hstep : Ledger.Step d.ledger op t) (n : Nat) :
    (d.installSent t n).1.Metered (sent ++ t.transfers.take n) := by
  unfold Desk.installSent
  split
  · rename_i hall
    rw [List.take_of_length_le hall]
    exact h.install hstep
  · rename_i hpart
    split
    · rename_i hnone
      rw [hnone, List.take_zero, List.append_nil]
      exact h
    · rename_i hsome
      obtain ⟨t', hsettle, htransfers, hstep'⟩ :=
        hstep.settle h.sale_sound (Nat.pos_of_ne_zero hsome) (Nat.lt_of_not_le hpart)
      rw [hsettle, ← htransfers]
      exact h.install hstep'

theorem Metered.commitFirst (h : d.Metered sent)
    (hstep : t.baseRevision = d.ledger.revision → Ledger.Step d.ledger op t) (n : Nat) :
    (d.commitFirst t n).1.Metered (sent ++ d.sentFirst t n) := by
  by_cases hbase : t.baseRevision = d.ledger.revision
  · rw [commitFirst_of_base hbase, sentFirst, if_neg (not_not_intro hbase)]
    exact h.installSent (hstep hbase) n
  · rw [commitFirst_of_stale hbase, sentFirst, if_pos hbase, List.append_nil]
    exact h.record Metrics.recordStaleCommit_count

theorem Metered.reject (h : d.Metered sent) (op : Operation) (f : Fault) :
    (d.reject op f).Metered sent := by
  unfold Desk.reject
  split
  · rename_i g heq
    exact h.record fun m => m.recordRejection_count op.name g.kind.code
  · exact h

theorem Metered.prepare (h : d.Metered sent) (op : Operation) : (d.prepare op).1.Metered sent := by
  cases hperform : d.ledger.perform op with
  | error f =>
    rw [prepare_of_error hperform]
    exact h.reject op f
  | ok t =>
    rw [prepare_of_ok hperform]
    exact h

theorem Metered.status (h : d.Metered sent) (now : Int) : (d.status now).1.Metered sent :=
  h.record fun m => m.setStatus_count _ _

theorem metered_of_start {draft : Sale.Draft} {settings : Settings} {outbox : Outbox} {clock : Int}
    (h : Desk.start draft settings outbox clock = .ok d)
    (henabled : settings.metricsEnabled = true) : d.Metered [] := by
  obtain ⟨s, hsound, hledger⟩ := start_ledger h
  simp only [Desk.start, bind_eq_ok, pure_eq_ok] at h
  obtain ⟨-, -, l, -, rfl⟩ := h
  obtain rfl : l = { sale := s } := hledger
  have hbalanced := Ledger.balanced_empty (Int.le_of_lt hsound.saleAmount_pos)
  refine ⟨henabled, hsound, hbalanced, fun _ k => ?_⟩
  cases k <;> rfl

end Desk

namespace Session

variable {s : Session}

structure Reconciled (s : Session) : Prop where
  current : s.Current
  metered : s.desk.Metered s.sent

theorem Reconciled.commit (h : s.Reconciled) {op : Operation} {t : Transition}
    (ht : (op, t) ∈ s.prepared) (n : Nat) : (s.commit t n).1.Reconciled where
  current := h.current.kept rfl ((h.current.commits ht n).ledger_cases.imp And.left And.right)
  metered := h.metered.commitFirst
    (fun hbase => Ledger.step_of_perform (h.current.perform_eq op t ht hbase)) n

theorem Reconciled.prepare (h : s.Reconciled) (op : Operation) : (s.prepare op).Reconciled where
  current := h.current.prepare op
  metered := by
    have hmetered := h.metered.prepare op
    unfold Session.prepare
    split <;> simp_all

theorem Reconciled.perform (h : s.Reconciled) (x : Turn) : (s.perform x).Reconciled := by
  cases hperform : s.desk.ledger.perform x.op with
  | error f =>
    have hprepared := h.prepare x.op
    simp only [Session.prepare, Session.perform, Desk.prepare_of_error hperform] at hprepared ⊢
    exact hprepared
  | ok t =>
    have hprepared := h.prepare x.op
    simp only [Session.prepare, Session.perform, Desk.prepare_of_ok hperform] at hprepared ⊢
    have ht : (x.op, t) ∈ s.prepared ++ [(x.op, t)] := by simp
    have hledger := (hprepared.current.commits ht x.taken).ledger_cases.imp And.left And.right
    exact ⟨h.current.kept rfl hledger, (hprepared.commit ht x.taken).metered⟩

theorem Reconciled.use (h : s.Reconciled) (u : Use) : (s.use u).Reconciled := by
  cases u with
  | perform x => exact h.perform x
  | prepare op => exact h.prepare op
  | commit i taken =>
    cases hi : s.prepared[i]? with
    | none =>
      simp only [Session.use, call, hi]
      exact h
    | some p =>
      simp only [Session.use, call, hi]
      exact h.commit (List.mem_of_getElem? hi) taken
  | status now =>
    exact ⟨h.current.kept rfl (.inl (Desk.record_ledger ..)), h.metered.status now⟩

theorem visit_reconciled_of_start {draft : Sale.Draft} {settings : Settings} {outbox : Outbox}
    {clock : Int} {d : Desk} (h : Desk.start draft settings outbox clock = .ok d)
    (henabled : settings.metricsEnabled = true) (uses : List Use) : (visit d uses).Reconciled := by
  have hstart : Reconciled ⟨d, [], []⟩ := ⟨run_current h [], Desk.metered_of_start h henabled⟩
  suffices hfold : ∀ s : Session, s.Reconciled → (uses.foldl use s).Reconciled by
    exact hfold _ hstart
  induction uses with
  | nil => exact fun s hs => hs
  | cons u uses ih => exact fun s hs => ih (s.use u) (hs.use u)

/-- Whatever clients do at a desk short of an undo, with any rejections and wherever issuers stop:
as long as binary64 holds what there is to count, the metrics reconcile with the ledger and the
transfers that went out. -/
theorem visit_reconciled {draft : Sale.Draft} {settings : Settings} {outbox : Outbox} {clock : Int}
    {d : Desk} (h : Desk.start draft settings outbox clock = .ok d)
    (henabled : settings.metricsEnabled = true) (uses : List Use)
    (hcountable : Countable ((visit d uses).ledger.count (visit d uses).sent)) :
    ((visit d uses).desk.metrics.deposited : Int) - (visit d uses).desk.metrics.withdrawn =
      (visit d uses).ledger.totalDeposited ∧
    (visit d uses).desk.metrics.refunded =
      amountOf (Transfer.isFor .refund) (visit d uses).sent ∧
    (visit d uses).desk.metrics.claimed.value ["participant"] =
      (visit d uses).ledger.positions.total Position.claimed ∧
    (visit d uses).desk.metrics.claimed.value ["individual"] =
      (visit d uses).ledger.individualClaims.total id ∧
    (visit d uses).desk.metrics.distributed = (visit d uses).ledger.paid.length ∧
    (visit d uses).desk.metrics.transitions.total = (visit d uses).ledger.revision := by
  have hcount := (visit_reconciled_of_start h henabled uses).metered.count_eq hcountable
  have hdeposited := hcount .deposited
  have hwithdrawn := hcount .withdrawn
  simp only [Metrics.count, Ledger.count] at hdeposited hwithdrawn
  refine ⟨?_, hcount .refunded, hcount .claimed, hcount .individuallyClaimed, ?_,
    hcount .transitions⟩
  · show _ = (visit d uses).desk.ledger.totalDeposited
    omega
  · exact Int.ofNat.inj (hcount .distributed)

/-- The turns of the sample, in which a batch and the legs are stopped once, with a claim that is
rejected, a commit that is stale and a look at the status. -/
def sampleUses : List Use :=
  sampleTurns.map .perform ++ [.perform ⟨.claim "dan" 200, 1⟩,
    .prepare (.adminWithdraw "deposit" "admin" 1 200), .perform ⟨.claim "bob" 200, 1⟩, .commit 0 1,
    .status 200]

theorem visit_reconciled_sample :
    Desk.start sampleSale.draft {} (.kept []) 0 = .ok sampleDesk ∧
      Countable ((visit sampleDesk sampleUses).ledger.count (visit sampleDesk sampleUses).sent) ∧
      (visit sampleDesk sampleUses).desk.metrics.staleCommits = 1 ∧
      (visit sampleDesk sampleUses).ledger.paid.length = 2 ∧
      (visit sampleDesk sampleUses).desk.metrics.distributed =
        (visit sampleDesk sampleUses).ledger.paid.length ∧
      (visit sampleDesk sampleUses).desk.metrics.transitions.total =
        (visit sampleDesk sampleUses).ledger.revision := by
  have hstart : Desk.start sampleSale.draft {} (.kept []) 0 = .ok sampleDesk := rfl
  have hcountable : Countable
      ((visit sampleDesk sampleUses).ledger.count (visit sampleDesk sampleUses).sent) := by
    intro k
    cases k <;> decide +kernel
  obtain ⟨-, -, -, -, hdistributed, htransitions⟩ :=
    visit_reconciled hstart rfl sampleUses hcountable
  exact ⟨hstart, hcountable, by decide +kernel, by decide +kernel, hdistributed, htransitions⟩

end Session

end TokenSale
