import TokenSale.Proofs.Desk.Course
import TokenSale.Proofs.Ledger.Undo

/-!
The cap of a fixed price in courses with undos. Every operation keeps it, and so does every undo but
that of a withdrawal: it gives the withdrawn sale tokens back to the participant, also if the room
they left was sold to others by then. The cap holds all along a course exactly if every undo of a
withdrawal that is not refused finds that room.
-/

namespace TokenSale

namespace Ledger

variable {l l' : Ledger} {op : Operation} {t : Transition} {e : Entry}

theorem Step.change_totalSold (h : Step l op t) :
    t.change.totalSold = t.ledger.totalSold - l.totalSold := by
  cases h with
  | disburse hstatus h => cases h <;> rfl
  | _ => rfl

theorem Step.capped (h : Step l op t) (hnonneg : l.Nonneg)
    (hfixed : l.sale.mechanic.isFixedPrice = true) (hcap : l.totalSold ≤ l.sale.saleAmount) :
    t.ledger.totalSold ≤ l.sale.saleAmount := by
  cases h with
  | deposit hfunded hstatus hmin hpurchase =>
    exact (take_totalSold (Position.deposit_law hpurchase)).2 hfixed hcap
  | withdraw hopen hposition hwithdrawal =>
    exact Int.le_trans
      (release_totalSold_le hnonneg hposition (Position.withdraw_law hwithdrawal)).2 hcap
  | disburse hstatus h =>
    rw [h.keeps.totalSold_eq]
    exact hcap
  | _ => exact hcap

/-- Only a withdrawal lowers the total, so only its undo raises it. -/
theorem Step.change_totalSold_nonneg (h : Step l op t) (hother : t.action ≠ .withdraw) :
    0 ≤ t.change.totalSold := by
  rw [h.change_totalSold]
  cases h with
  | deposit hfunded hstatus hmin hpurchase =>
    exact Int.sub_nonneg_of_le (take_totalSold (Position.deposit_law hpurchase)).1
  | withdraw hopen hposition hwithdrawal => exact absurd rfl hother
  | disburse hstatus h =>
    rw [h.keeps.totalSold_eq]
    omega
  | _ => exact Int.sub_nonneg_of_le (Int.le_refl _)

/-- An entry of which an undo lowers the total, unless a withdrawal was committed. -/
def Reversible (e : Entry) : Prop :=
  ∀ t, e.committed = some t → t.action ≠ .withdraw → 0 ≤ t.change.totalSold

theorem Writes.reversible (h : Writes l e l') : Reversible e := by
  intro t ht hother
  cases h with
  | idle hprepared => cases ht
  | step hprepared hstep =>
    cases ht
    exact hstep.change_totalSold_nonneg hother

theorem Writes.nonneg (h : Writes l e l') (hnonneg : l.Nonneg) : l'.Nonneg := by
  cases h with
  | idle hprepared => exact hnonneg
  | step hprepared hstep => exact hnonneg.step hstep

theorem Writes.capped (h : Writes l e l') (hnonneg : l.Nonneg)
    (hfixed : l.sale.mechanic.isFixedPrice = true) (hcap : l.totalSold ≤ l.sale.saleAmount) :
    l'.totalSold ≤ l.sale.saleAmount := by
  cases h with
  | idle hprepared => exact hcap
  | step hprepared hstep => exact hstep.capped hnonneg hfixed hcap

end Ledger

namespace Course

variable {c : Course} {s : Sale} {i : Nat}

structure Sane (s : Sale) (c : Course) : Prop where
  sale_eq : c.ledger.sale = s
  nonneg : c.ledger.Nonneg
  reversible : ∀ e ∈ c.history.entries, Ledger.Reversible e

theorem turn_writes (hsale : c.ledger.sale.Sound) (x : Turn) :
    ∃ e, (c.step (.turn x)).history.entries = c.history.entries ++ [e] ∧
      Ledger.Writes c.ledger e (c.step (.turn x)).ledger := by
  obtain ⟨e, hentries, -, hwrites⟩ := c.history.turn_writes x hsale
  exact ⟨e, hentries, hwrites⟩

theorem Sane.turn (h : c.Sane s) (hsale : s.Sound) (x : Turn) : (c.step (.turn x)).Sane s := by
  obtain ⟨e, hentries, hwrites⟩ := turn_writes (h.sale_eq.symm ▸ hsale) x
  refine ⟨hwrites.sale_eq.trans h.sale_eq, hwrites.nonneg h.nonneg, fun e' he' => ?_⟩
  rw [hentries] at he'
  rcases List.mem_append.mp he' with hold | hnew
  · exact h.reversible e' hold
  · rw [List.mem_singleton.mp hnew]
    exact hwrites.reversible

theorem Sane.undo (h : c.Sane s) (i : Nat) : (c.undo i).Sane s := by
  rcases c.undo_cases i with hsame | ⟨t, l, -, hok, hledger, hentries⟩
  · rw [hsame]
    exact h
  · refine ⟨?_, ?_, ?_⟩
    · rw [hledger, (Ledger.apply_law hok).1]
      exact h.sale_eq
    · rw [hledger]
      exact h.nonneg.apply hok
    · rw [hentries]
      exact h.reversible

theorem run_sane {d : Desk} (hsale : d.ledger.sale.Sound) (hnonneg : d.ledger.Nonneg)
    (events : List Event) : (run d events).Sane d.ledger.sale := by
  suffices hfold : ∀ c : Course, c.Sane d.ledger.sale →
      (events.foldl step c).Sane d.ledger.sale from
    hfold _ ⟨rfl, hnonneg, fun e he => by simp at he⟩
  induction events with
  | nil => exact fun c hc => hc
  | cons x events ih =>
    intro c hc
    cases x with
    | turn x => exact ih _ (hc.turn hsale x)
    | undo i => exact ih _ (hc.undo i)

/-- The undo of a withdrawal that is not refused finds room for what the withdrawal had left. -/
def HasRoom (c : Course) (i : Nat) : Prop :=
  ∀ t, c.undoable? i = some t → t.action = .withdraw → (c.ledger.compensate t).isOk = true →
    c.ledger.totalSold - t.change.totalSold ≤ c.ledger.sale.saleAmount

theorem Sane.undo_capped_iff (h : c.Sane s) (hcap : c.ledger.totalSold ≤ s.saleAmount) (i : Nat) :
    (c.undo i).ledger.totalSold ≤ s.saleAmount ↔ c.HasRoom i := by
  unfold HasRoom
  rw [h.sale_eq]
  constructor
  · intro hkept t hundoable _ hok
    cases hresult : c.ledger.compensate t with
    | error f => simp [hresult, Except.isOk, Except.toBool] at hok
    | ok l =>
      rw [(undo_of_ok hundoable hresult).1, Ledger.compensate_totalSold hresult] at hkept
      exact hkept
  · intro hroom
    rcases c.undo_cases i with hsame | ⟨t, l, hundoable, hresult, hledger, -⟩
    · rw [hsame]
      exact hcap
    · rw [hledger, Ledger.compensate_totalSold hresult]
      by_cases hwithdraw : t.action = .withdraw
      · exact hroom t hundoable hwithdraw (by rw [hresult]; rfl)
      · obtain ⟨e, he, hcommitted⟩ := undoable_committed hundoable
        have := h.reversible e he t hcommitted hwithdraw
        omega

theorem Sane.step_capped_iff (h : c.Sane s) (hsale : s.Sound)
    (hfixed : s.mechanic.isFixedPrice = true) (hcap : c.ledger.totalSold ≤ s.saleAmount)
    (x : Event) :
    (c.step x).ledger.totalSold ≤ s.saleAmount ↔ ∀ i, x = .undo i → c.HasRoom i := by
  cases x with
  | turn x =>
    obtain ⟨e, -, hwrites⟩ := turn_writes (h.sale_eq.symm ▸ hsale) x
    have hkept := hwrites.capped h.nonneg (h.sale_eq.symm ▸ hfixed) (h.sale_eq.symm ▸ hcap)
    rw [h.sale_eq] at hkept
    exact ⟨fun _ i hi => (nomatch hi), fun _ => hkept⟩
  | undo i =>
    have hundo := h.undo_capped_iff hcap i
    constructor
    · intro hkept j hj
      cases hj
      exact hundo.mp hkept
    · intro hroom
      exact hundo.mpr (hroom i rfl)

/-- An undo that is refused changes nothing. At a fixed price the cap holds all along a course exactly
if each undo of a withdrawal that is not refused finds room for what the withdrawal had left. -/
theorem run_capped_iff {draft : Sale.Draft} {settings : Settings} {outbox : Outbox} {clock : Int}
    {d : Desk} (h : Desk.start draft settings outbox clock = .ok d)
    (hfixed : d.ledger.sale.mechanic.isFixedPrice = true) (events : List Event) :
    (∀ n i t f, events[n]? = some (.undo i) → (run d (events.take n)).undoable? i = some t →
      (run d (events.take n)).ledger.compensate t = .error f →
      run d (events.take (n + 1)) = run d (events.take n)) ∧
    ((∀ n, (run d (events.take n)).ledger.totalSold ≤ d.ledger.sale.saleAmount) ↔
      ∀ n i, events[n]? = some (.undo i) → (run d (events.take n)).HasRoom i) := by
  obtain ⟨s, hs, hledger⟩ := Desk.start_ledger h
  have hsale : d.ledger.sale.Sound := by
    rw [hledger]
    exact hs
  have hnonneg : d.ledger.Nonneg := by
    rw [hledger]
    exact ⟨Book.forall_empty _, Int.le_refl 0⟩
  have hsane := fun n => run_sane hsale hnonneg (events.take n)
  refine ⟨?_, ?_, ?_⟩
  · intro n i t f hi hundoable hrefused
    rw [run_take_succ d hi]
    exact undo_of_error hundoable hrefused
  · intro hcapped n i hi
    have hnext := hcapped (n + 1)
    rw [run_take_succ d hi] at hnext
    exact ((hsane n).step_capped_iff hsale hfixed (hcapped n) (.undo i)).mp hnext i rfl
  · intro hroom n
    induction n with
    | zero =>
      show d.ledger.totalSold ≤ d.ledger.sale.saleAmount
      rw [hledger]
      exact Int.le_of_lt hs.saleAmount_pos
    | succ n ih =>
      cases hevent : events[n]? with
      | none =>
        rw [run_take_of_none d hevent]
        exact ih
      | some x =>
        rw [run_take_succ d hevent]
        refine ((hsane n).step_capped_iff hsale hfixed ih x).mpr fun i hi => ?_
        exact hroom n i (hevent.trans (hi ▸ rfl))

/-! The room can be gone. -/

def cappedSale : Sale where
  depositToken := "usdc"
  saleToken := "tok"
  startTime := 1000
  endTime := 2000
  softCap := 0
  mechanic := .fixedPrice ⟨1, 1⟩
  saleAmount := 100
  totalSaleAmount := 100
  vesting := none
  plan := none
  discounts := []
  minDeposit := 0
  tge := none

def cappedDesk : Desk := { sampleDesk with ledger := { sale := cappedSale } }

/-- The tokens of a withdrawal are sold again before the withdrawal is undone. -/
def soldTwice : List Event :=
  [.turn ⟨.deposit "tok" 100 "tok" 0 none, 0⟩, .turn ⟨.deposit "alice" 100 "alice" 1500 none, 0⟩,
    .turn ⟨.lock 1500, 0⟩, .turn ⟨.withdraw "alice" 100 1500, 1⟩, .turn ⟨.unlock, 0⟩,
    .turn ⟨.deposit "bob" 100 "bob" 1500 none, 0⟩, .undo 3]

theorem run_capped_iff_soldTwice :
    Desk.start cappedSale.draft {} (.kept []) 0 = .ok cappedDesk ∧
      cappedDesk.ledger.sale.mechanic.isFixedPrice = true ∧
      (run cappedDesk (soldTwice.take 7)).ledger.totalSold = 200 ∧
      ¬ ∀ n i, soldTwice[n]? = some (.undo i) →
        (run cappedDesk (soldTwice.take n)).HasRoom i := by
  have hstart : Desk.start cappedSale.draft {} (.kept []) 0 = .ok cappedDesk := rfl
  have hfixed : cappedDesk.ledger.sale.mechanic.isFixedPrice = true := rfl
  have hsold : (run cappedDesk (soldTwice.take 7)).ledger.totalSold = 200 := by decide +kernel
  refine ⟨hstart, hfixed, hsold, fun hroom => ?_⟩
  have hcapped := (run_capped_iff hstart hfixed soldTwice).2.mpr hroom 7
  rw [hsold] at hcapped
  exact absurd hcapped (by decide)

/-- The cap does not survive every undo. -/
theorem cap_not_kept :
    ¬ ∀ (draft : Sale.Draft) (settings : Settings) (outbox : Outbox) (clock : Int) (d : Desk),
      Desk.start draft settings outbox clock = .ok d →
      d.ledger.sale.mechanic.isFixedPrice = true →
      ∀ events : List Event, (run d events).ledger.totalSold ≤ d.ledger.sale.saleAmount := by
  intro hall
  have hsold : (run cappedDesk soldTwice).ledger.totalSold = 200 := by decide +kernel
  have hcapped := hall cappedSale.draft {} (.kept []) 0 cappedDesk rfl rfl soldTwice
  rw [hsold] at hcapped
  exact absurd hcapped (by decide)

end Course

end TokenSale
