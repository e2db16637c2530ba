import TokenSale.Proofs.Desk.Cap
import TokenSale.Proofs.Desk.Session
import TokenSale.Proofs.Ledger.Defects

/-!
No defects. In sessions without undos, whatever clients call and wherever issuers stop, no error
comes up that reports a mistake of the sale itself: not from an operation, not from a commit, and
not when a payout is narrowed to the transfers that went out.
-/

namespace TokenSale

open Amount

namespace Session

variable {s : Session} {op : Operation} {t : Transition}

structure Flawless (s : Session) : Prop where
  ledger : s.ledger.Dependable
  run : ∀ outbox op f, ((s.desk.through outbox).run op).2 = .error (.fault f) → ¬f.IsDefect
  commit : ∀ outbox op t f, (op, t) ∈ s.prepared →
    ((s.desk.through outbox).commit t).2 = .error (.fault f) → ¬f.IsDefect
  /-- What was prepared on the live ledger can be narrowed to any number of its transfers. -/
  settle : ∀ op t n, (op, t) ∈ s.prepared → t.baseRevision = s.ledger.revision → 0 < n →
    n < t.transfers.length → ∃ t', t.settle n = .ok t'
  /-- Below the cap a deposit at a fixed price only overflows if it is too large itself. -/
  deposit : ∀ price, s.ledger.sale.mechanic = .fixedPrice price →
    s.ledger.totalSold < s.ledger.sale.saleAmount →
    ∀ depositor amount participant now token f,
      s.ledger.perform (.deposit depositor amount participant now token) = .error f →
      f.kind = .overflow → maxU128 < amount ∨
        maxU128 < s.ledger.sale.discounts.weightAt amount now ∨
        maxU128 < price.buys (s.ledger.sale.discounts.weightAt amount now)
  /-- The refund of a deposit that crosses the cap comes out, and not above the deposit. -/
  refund : ∀ price, s.ledger.sale.mechanic = .fixedPrice price →
    s.ledger.totalSold < s.ledger.sale.saleAmount →
    ∀ amount now weight assets, s.ledger.sale.discounts.weigh amount now = .ok weight →
      price.assets weight = .ok assets →
      s.ledger.sale.saleAmount < s.ledger.totalSold + assets →
      ∃ remain refund,
        price.worth (s.ledger.totalSold + assets - s.ledger.sale.saleAmount) = .ok remain ∧
        s.ledger.sale.discounts.unweigh remain now = .ok refund ∧ refund ≤ amount

theorem Commits.fault_stale {n : Nat} {r : Session × Except Failure Unit} {f : Fault}
    (h : s.Commits op t n r) (hf : r.2 = .error (.fault f)) :
    f = .stale t.baseRevision s.ledger.revision := by
  cases h with
  | stale hbase =>
    cases hf
    rfl
  | refused hbase htransfers => cases hf
  | installs hbase hstep hledger htransfers hok hfault => exact absurd hf (hfault f)

theorem Current.commit_fault (hs : s.Current) (ht : (op, t) ∈ s.prepared) {f : Fault}
    (hf : (s.desk.commit t).2 = .error (.fault f)) :
    f = .stale t.baseRevision s.ledger.revision := by
  by_cases hbase : t.baseRevision = s.ledger.revision
  · rw [Desk.commit_eq hbase] at hf
    exact (hs.commits ht _).fault_stale hf
  · rw [Desk.commit_of_stale hbase 0] at hf
    exact (hs.commits ht 0).fault_stale hf

theorem Current.through (hs : s.Current) (outbox : Outbox) :
    Current { s with desk := s.desk.through outbox } :=
  hs.kept rfl (.inl rfl)

theorem Current.run_fault (hs : s.Current) (hl : s.ledger.Consistent) {f : Fault}
    (hf : (s.desk.run op).2 = .error (.fault f)) : ¬f.IsDefect := by
  cases hperform : s.desk.ledger.perform op with
  | error e =>
    rw [Desk.run, Desk.prepare_of_error hperform] at hf
    obtain rfl := Fault.raised_eq_fault (Except.error.inj hf)
    exact Ledger.perform_defectFree hl op _ hperform
  | ok t =>
    have hprepare : s.prepare op = { s with prepared := s.prepared ++ [(op, t)] } := by
      rw [Session.prepare, Desk.prepare_of_ok hperform]
    have hmem : (op, t) ∈ (s.prepare op).prepared := by
      rw [hprepare]
      exact List.mem_append_right _ (List.mem_singleton.mpr rfl)
    have hcommit : ((s.prepare op).desk.commit t).2 = .error (.fault f) := by
      rw [hprepare]
      cases hresult : s.desk.commit t with
      | mk d r =>
        simp only [Desk.run, Desk.prepare_of_ok hperform, hresult] at hf
        cases r with
        | ok u => cases hf
        | error e =>
          cases hf
          rfl
    rw [(hs.prepare op).commit_fault hmem hcommit]
    exact (Fault.not_defect_not_overflow rfl).1

theorem Current.flawless (hs : s.Current) (hl : s.ledger.Consistent) : s.Flawless where
  ledger := hl.dependable
  run := fun outbox op f hf => (hs.through outbox).run_fault hl hf
  commit := by
    intro outbox op t f ht hf
    rw [(hs.through outbox).commit_fault ht hf]
    exact nofun
  settle := by
    intro op t n ht hbase hpos hlt
    have hstep := Ledger.step_of_perform (hs.perform_eq op t ht hbase)
    obtain ⟨t', hsettle, -⟩ := hstep.settle hs.sale_sound hpos hlt
    exact ⟨t', hsettle⟩
  deposit := by
    intro price hfixed hroom depositor amount participant now token f hf hoverflow
    rcases Ledger.deposit_fails hl depositor amount participant now token f hf with
      ⟨-, hnot⟩ | ⟨hpos, hfill⟩
    · exact absurd hoverflow hnot
    · rw [hfixed] at hfill
      exact (Position.fillFixed_fails (hl.bounded.price_sound price hfixed)
        hl.bounded.discounts_sound (Int.le_of_lt hpos) f hfill).2
  refund := by
    intro price hfixed hroom amount now weight assets hweight hassets hcross
    obtain ⟨remain, refund, hrefund⟩ :=
      Position.exists_refund (hl.bounded.price_sound price hfixed) hl.bounded.discounts_sound
        hweight hassets (Int.le_of_lt (Int.sub_pos_of_lt hcross)) (by omega)
    exact ⟨remain, refund, hrefund.worth_eq, hrefund.unweigh_eq, hrefund.refund_le⟩

/-- In every session without undos nothing fails with a defect, whatever clients call and wherever
issuers stop. -/
theorem run_flawless {draft : Sale.Draft} {settings : Settings} {outbox : Outbox} {clock : Int}
    {d : Desk} (h : Desk.start draft settings outbox clock = .ok d) {calls : List Call}
    (hundo : ∀ c ∈ calls, ∀ i, c ≠ .undo i) : (run d calls).Flawless := by
  obtain ⟨turns, hledger, -⟩ := run_eq_history h hundo
  exact (run_current h calls).flawless (hledger ▸ History.run_consistent h turns)

def unevenSale : Sale := { Course.cappedSale with
  mechanic := .fixedPrice ⟨3, 7⟩
  saleAmount := 1000
  totalSaleAmount := 1000
  discounts := [⟨1000, 2000, 2500⟩] }

def unevenDesk : Desk := { sampleDesk with ledger := { sale := unevenSale } }

/-- A deposit that leaves little room, and one that crosses the cap. -/
def unevenCalls : List Call :=
  [.prepare (.deposit "tok" 1000 "tok" 0 none), .commit 0 0,
    .prepare (.deposit "alice" 300 "alice" 1500 none), .commit 1 0,
    .prepare (.deposit "bob" 100 "bob" 1500 none)]

theorem run_flawless_uneven :
    Desk.start unevenSale.draft {} (.kept []) 0 = .ok unevenDesk ∧
      (∀ c ∈ unevenCalls, ∀ i, c ≠ .undo i) ∧ (run unevenDesk unevenCalls).Flawless ∧
      (run unevenDesk unevenCalls).ledger.totalSold = 875 ∧
      ∃ remain refund, Price.worth ⟨3, 7⟩ 166 = .ok remain ∧
        unevenSale.discounts.unweigh remain 1500 = .ok refund ∧ refund ≤ 100 := by
  have hstart : Desk.start unevenSale.draft {} (.kept []) 0 = .ok unevenDesk := rfl
  have hundo : ∀ c ∈ unevenCalls, ∀ i, c ≠ .undo i := by simp [unevenCalls]
  have hsale : (run unevenDesk unevenCalls).ledger.sale = unevenSale := by decide +kernel
  have hsold : (run unevenDesk unevenCalls).ledger.totalSold = 875 := by decide +kernel
  have hflawless := run_flawless hstart hundo
  have hrefund := hflawless.refund ⟨3, 7⟩ (by rw [hsale]; rfl) (by rw [hsale, hsold]; decide)
    100 1500 125 291 (by rw [hsale]; rfl) rfl (by rw [hsale, hsold]; decide)
  rw [hsale, hsold] at hrefund
  exact ⟨hstart, hundo, hflawless, hsold, hrefund⟩

end Session

end TokenSale
