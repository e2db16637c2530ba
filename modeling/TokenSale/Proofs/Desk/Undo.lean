import TokenSale.Proofs.Desk.History
import TokenSale.Proofs.Ledger.Balance
import TokenSale.Proofs.Ledger.Trade

/-!
Undoing along histories. The change of an operation is a complete account of it, and undone at once
the operation leaves no trace in the records, unless it is about the nameless participant. Under
price discovery it leaves none either if others have gone on trading.
-/

namespace TokenSale

theorem Transition.settle_of_length_le {t : Transition} {n : Nat} (h : t.transfers.length ≤ n) :
    t.settle n = .ok t := by
  simp only [settle, cut_natCast, List.drop_of_length_le h]
  rfl

/-- The other operation is about another participant, and from another depositor if there is one. -/
def Operation.Unrelated (op other : Operation) : Prop :=
  other.participant? ≠ op.participant? ∧
    ∀ d, op.depositor? = some d → other.depositor? ≠ some d

namespace Ledger

variable {l : Ledger} {op : Operation} {t : Transition}

theorem Step.named (h : Step l op t) (hsubject : op.subject? ≠ some "") :
    t.change.participant ≠ some "" := by
  rcases h.participant_eq with heq | heq
  · simp [heq]
  · rw [heq]
    exact hsubject

theorem Step.apply_change_iff (h : Step l op t) (hsale : l.sale.Sound) (hl : l.Balanced) :
    l.apply t.change = .ok t.ledger ↔ l.KeepsNameless t.ledger := by
  obtain ⟨d?, hevolves, -⟩ := h.evolves hsale hl.tallied
  rw [h.change_eq]
  exact hevolves.apply_changeTo_iff (hl.step h)

theorem Step.keepsNameless (h : Step l op t) (hsale : l.sale.Sound) (hl : l.Balanced)
    (hsubject : op.subject? ≠ some "") : l.KeepsNameless t.ledger := by
  obtain ⟨d?, hevolves, -⟩ := h.evolves hsale hl.tallied
  exact hevolves.keepsNameless (h.named hsubject)

theorem Step.compensate (h : Step l op t) (hsale : l.sale.Sound) (hl : l.Balanced)
    (hsubject : op.subject? ≠ some "") :
    ∃ lu, t.ledger.compensate t = .ok lu ∧ l.SameRecords lu ∧ lu.revision = l.revision + 2 ∧
      lu.depositors = l.depositorsLeft op ∧
      ∀ a, lu.individualClaimed a = l.individualClaimed a := by
  obtain ⟨d?, hevolves, hleft⟩ := h.evolves hsale hl.tallied
  obtain ⟨lu, happly, hsame, hrevision, hdepositors, hclaimed, -⟩ :=
    hevolves.apply_negate (h.keepsNameless hsale hl hsubject) hl
  rw [← h.change_eq] at happly
  refine ⟨lu, happly, hsame, ?_, hdepositors.trans hleft, hclaimed⟩
  rw [hrevision, h.revision_eq]
  omega

end Ledger

namespace History

variable {draft : Sale.Draft} {settings : Settings} {outbox : Outbox} {clock : Int} {d : Desk}

/-- Along every history, the change of an operation leads to its ledger exactly if the operation
leaves the nameless participant alone, as every operation about another one does. Of these, the same
holds however many of the transfers went out. -/
theorem run_change_complete_iff (h : Desk.start draft settings outbox clock = .ok d)
    (turns : List Turn) {op : Operation} {t : Transition}
    (hperform : (run d turns).ledger.perform op = .ok t) :
    ((run d turns).ledger.apply t.change = .ok t.ledger ↔
      (run d turns).ledger.KeepsNameless t.ledger) ∧
    (op.subject? ≠ some "" → (run d turns).ledger.KeepsNameless t.ledger ∧
      ∀ k : Nat, 0 < k → k ≤ t.transfers.length →
        ∃ t', t.settle k = .ok t' ∧ (run d turns).ledger.apply t'.change = .ok t'.ledger) := by
  have hsale := run_sale_sound h turns
  have hl := (run_balanced h turns).2
  have hstep := Ledger.step_of_perform hperform
  refine ⟨hstep.apply_change_iff hsale hl, fun hsubject =>
    ⟨hstep.keepsNameless hsale hl hsubject, fun k hpos hle => ?_⟩⟩
  have hcomplete : ∀ {t'}, Ledger.Step (run d turns).ledger op t' →
      (run d turns).ledger.apply t'.change = .ok t'.ledger := fun hstep' =>
    (hstep'.apply_change_iff hsale hl).mpr (hstep'.keepsNameless hsale hl hsubject)
  rcases Nat.lt_or_eq_of_le hle with hlt | rfl
  · obtain ⟨t', hsettle, -, hstep'⟩ := hstep.settle hsale hpos hlt
    exact ⟨t', hsettle, hcomplete hstep'⟩
  · exact ⟨t, Transition.settle_of_length_le (Nat.le_refl _), hcomplete hstep⟩

/-- A batch of two, all of it and its first transfer alone. -/
theorem run_change_complete_batch :
    Desk.start sampleSale.draft {} (.kept []) 0 = .ok sampleDesk ∧
      ∃ t t', (run sampleDesk (sampleTurns.take 4)).ledger.perform (.distributeNext 100 none) =
          .ok t ∧
        (run sampleDesk (sampleTurns.take 4)).ledger.apply t.change = .ok t.ledger ∧
        t.transfers.length = 2 ∧ t.settle 1 = .ok t' ∧
        (run sampleDesk (sampleTurns.take 4)).ledger.apply t'.change = .ok t'.ledger := by
  have hstart : Desk.start sampleSale.draft {} (.kept []) 0 = .ok sampleDesk := rfl
  obtain ⟨t, ht⟩ := exists_eq_ok (x := (run sampleDesk (sampleTurns.take 4)).ledger.perform
    (.distributeNext 100 none)) (by decide +kernel)
  have hlength : t.transfers.length = 2 := by
    have hcount : ((run sampleDesk (sampleTurns.take 4)).ledger.perform
        (.distributeNext 100 none)).toOption.map (fun t => t.transfers.length) = some 2 := by
      decide +kernel
    rw [ht] at hcount
    exact Option.some.inj hcount
  obtain ⟨hiff, hnamed⟩ := run_change_complete_iff hstart (sampleTurns.take 4) ht
  obtain ⟨hkeeps, hparts⟩ := hnamed (by decide)
  obtain ⟨t', hsettle, happly⟩ := hparts 1 Nat.one_pos (by omega)
  exact ⟨hstart, t, t', ht, hiff.mpr hkeeps, hlength, hsettle, happly⟩

/-- The change of a deposit for the nameless participant lacks its amount. -/
theorem change_not_complete :
    ¬ ∀ (draft : Sale.Draft) (settings : Settings) (outbox : Outbox) (clock : Int) (d : Desk),
      Desk.start draft settings outbox clock = .ok d →
      ∀ (turns : List Turn) (op : Operation) (t : Transition),
        (run d turns).ledger.perform op = .ok t →
        (run d turns).ledger.apply t.change = .ok t.ledger := by
  intro hall
  obtain ⟨t, ht⟩ := exists_eq_ok (x := (run sampleDesk (sampleTurns.take 1)).ledger.perform
    (.deposit "alice" 100 "" 10 none)) (by decide +kernel)
  have happly := hall sampleSale.draft {} (.kept []) 0 sampleDesk rfl _ _ t ht
  have hdiffers : ((run sampleDesk (sampleTurns.take 1)).ledger.perform
      (.deposit "alice" 100 "" 10 none)).toOption.all (fun t =>
        ((run sampleDesk (sampleTurns.take 1)).ledger.apply t.change).toOption != some t.ledger) =
      true := by
    decide +kernel
  rw [ht] at hdiffers
  simp [Except.toOption, happly] at hdiffers

/-- Along every history, an operation about nobody or about someone with a name that is undone at
once leaves the records as they were, two revisions on. Of the depositors, one stays who was not
noted before and deposited for a participant who was there. -/
theorem run_undone (h : Desk.start draft settings outbox clock = .ok d) (turns : List Turn)
    {op : Operation} {t : Transition} (hsubject : op.subject? ≠ some "")
    (hperform : (run d turns).ledger.perform op = .ok t) :
    ∃ lu, t.ledger.compensate t = .ok lu ∧ (run d turns).ledger.SameRecords lu ∧
      lu.revision = (run d turns).ledger.revision + 2 ∧
      lu.depositors = (run d turns).ledger.depositorsLeft op ∧
      ∀ a, lu.individualClaimed a = (run d turns).ledger.individualClaimed a :=
  (Ledger.step_of_perform hperform).compensate (run_sale_sound h turns) (run_balanced h turns).2
    hsubject

/-- A second depositor of a participant stays noted. -/
theorem run_undone_sample :
    Desk.start sampleSale.draft {} (.kept []) 0 = .ok sampleDesk ∧
      ∃ t lu, (run sampleDesk (sampleTurns.take 2)).ledger.perform
          (.deposit "bob" 5 "alice" 20 none) = .ok t ∧
        t.ledger.compensate t = .ok lu ∧
        (run sampleDesk (sampleTurns.take 2)).ledger.SameRecords lu ∧
        lu.depositors.get? "bob" = some "alice" := by
  have hstart : Desk.start sampleSale.draft {} (.kept []) 0 = .ok sampleDesk := rfl
  obtain ⟨t, ht⟩ := exists_eq_ok (x := (run sampleDesk (sampleTurns.take 2)).ledger.perform
    (.deposit "bob" 5 "alice" 20 none)) (by decide +kernel)
  obtain ⟨lu, hundo, hsame, -, hdepositors, -⟩ :=
    run_undone hstart (sampleTurns.take 2) (by decide) ht
  refine ⟨hstart, t, lu, ht, hundo, hsame, ?_⟩
  rw [hdepositors]
  decide +kernel

/-- Along every history of a sale by price discovery, a deposit or a withdrawal of a named
participant while the sale is open can be undone after any number of deposits and withdrawals by
others, from other depositors. Those go through without it just as well, and the undo leads to the
records that they lead to without it. -/
theorem run_undone_selectively (h : Desk.start draft settings outbox clock = .ok d)
    (hdiscovery : d.ledger.sale.mechanic = .priceDiscovery) (turns : List Turn) {op : Operation}
    {t : Transition} (hmoves : op.movesDeposits = true) (hnamed : op.Named)
    (hopen : (run d turns).ledger.OpenFor op) (hperform : (run d turns).ledger.perform op = .ok t)
    {ops : List Operation} {l' : Ledger}
    (hothers : ∀ other ∈ ops, other.movesDeposits = true ∧ op.Unrelated other)
    (htrades : t.ledger.TradesTo ops l') :
    ∃ l₀ lu, (run d turns).ledger.TradesTo ops l₀ ∧ l'.compensate t = .ok lu ∧
      l₀.SameRecords lu ∧ lu.individualClaims = l₀.individualClaims ∧
      ∀ who, op.participant? = some who → (run d turns).ledger.positions.get? who = none →
        lu.depositors = l₀.depositors := by
  have hl := (run_balanced h turns).2
  have hsale : (run d turns).ledger.sale.mechanic = .priceDiscovery := by
    rw [run_sale_eq h turns, hdiscovery]
  obtain ⟨who, hwho, hapart, hentered⟩ :=
    Ledger.apart_of_perform hl.tallied hsale hopen hmoves hperform
  obtain ⟨l₀, htrades₀, hbalanced, hapart'⟩ :=
    hapart.trades hl (hl.step (Ledger.step_of_perform hperform)) hsale
      (fun other hother => ⟨(hothers other hother).1, hwho ▸ (hothers other hother).2.1,
        (hothers other hother).2.2⟩) htrades
  obtain ⟨lu, happly, hsame, hclaims, hdepositors⟩ :=
    hapart'.undo hbalanced fun heq => hnamed (heq ▸ hwho)
  refine ⟨l₀, lu, htrades₀, happly, hsame, hclaims, fun who' hwho' hnone => ?_⟩
  obtain rfl : who = who' := Option.some.inj (hwho.symm.trans hwho')
  exact hdepositors (hentered hnone)

theorem exists_ledger_eq {x : Except Fault Transition} {l : Ledger}
    (h : x.toOption.map Transition.ledger = some l) : ∃ t, x = .ok t ∧ t.ledger = l :=
  exists_ok_of_map h

/-- The first deposit of the sample, undone after a deposit and a withdrawal of someone else. -/
theorem run_undone_selectively_sample :
    Desk.start sampleSale.draft {} (.kept []) 0 = .ok sampleDesk ∧
      ∃ t l₀ lu, (run sampleDesk (sampleTurns.take 1)).ledger.perform
          (.deposit "alice" 10 "alice" 10 none) = .ok t ∧
        t.ledger.TradesTo [.deposit "bob" 30 "bob" 20 none, .withdraw "bob" 10 30]
          (run sampleDesk (sampleTurns.take 4)).ledger ∧
        (run sampleDesk (sampleTurns.take 1)).ledger.TradesTo
          [.deposit "bob" 30 "bob" 20 none, .withdraw "bob" 10 30] l₀ ∧
        (run sampleDesk (sampleTurns.take 4)).ledger.compensate t = .ok lu ∧
        l₀.SameRecords lu ∧ lu.depositors = l₀.depositors := by
  have hstart : Desk.start sampleSale.draft {} (.kept []) 0 = .ok sampleDesk := rfl
  obtain ⟨t, ht, hledger⟩ := exists_ledger_eq (l := (run sampleDesk (sampleTurns.take 2)).ledger)
    (x := (run sampleDesk (sampleTurns.take 1)).ledger.perform
      (.deposit "alice" 10 "alice" 10 none)) (by decide +kernel)
  obtain ⟨t₁, ht₁, hledger₁⟩ := exists_ledger_eq
    (l := (run sampleDesk (sampleTurns.take 3)).ledger)
    (x := (run sampleDesk (sampleTurns.take 2)).ledger.perform
      (.deposit "bob" 30 "bob" 20 none)) (by decide +kernel)
  obtain ⟨t₂, ht₂, hledger₂⟩ := exists_ledger_eq
    (l := (run sampleDesk (sampleTurns.take 4)).ledger)
    (x := (run sampleDesk (sampleTurns.take 3)).ledger.perform (.withdraw "bob" 10 30))
    (by decide +kernel)
  have htrades : t.ledger.TradesTo [.deposit "bob" 30 "bob" 20 none, .withdraw "bob" 10 30]
      (run sampleDesk (sampleTurns.take 4)).ledger := by
    rw [hledger]
    refine .cons ⟨20, rfl, by decide +kernel⟩ ht₁ ?_
    rw [hledger₁]
    refine .cons ⟨30, rfl, by decide +kernel⟩ ht₂ ?_
    rw [hledger₂]
    exact .nil
  obtain ⟨l₀, lu, htrades₀, hundo, hsame, -, hdepositors⟩ :=
    run_undone_selectively hstart rfl (sampleTurns.take 1) rfl (by decide)
      ⟨10, rfl, by decide +kernel⟩ ht (by simp [Operation.movesDeposits, Operation.Unrelated,
        Operation.participant?, Operation.depositor?]) htrades
  exact ⟨hstart, t, l₀, lu, ht, htrades, htrades₀, hundo, hsame,
    hdepositors "alice" rfl (by decide +kernel)⟩

end History

end TokenSale
