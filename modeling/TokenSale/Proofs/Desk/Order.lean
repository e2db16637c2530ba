import TokenSale.Proofs.Ledger.Phase

/-!
Histories in the order of time. As success is final, their entries are of three kinds: nothing was
committed; a quiet step, taken before anything was paid out or leaving the ledger as it is; or a
payout. What all three keep holds along every such history.
-/

namespace TokenSale

def InOrder (ops : List Operation) : Prop := (ops.filterMap Operation.now?).Pairwise (· ≤ ·)

instance (ops : List Operation) : Decidable (InOrder ops) := by unfold InOrder; infer_instance

theorem InOrder.init {ops : List Operation} {op : Operation} (h : InOrder (ops ++ [op])) :
    InOrder ops := by
  unfold InOrder at h
  rw [List.filterMap_append, List.pairwise_append] at h
  exact h.1

theorem InOrder.last {ops : List Operation} {op : Operation} (h : InOrder (ops ++ [op])) :
    ∀ op' ∈ ops, ∀ s, op'.now? = some s → ∀ now, op.now? = some now → s ≤ now := by
  unfold InOrder at h
  rw [List.filterMap_append, List.pairwise_append] at h
  intro op' hop' s hs now hnow
  refine h.2.2 s (List.mem_filterMap.mpr ⟨op', hop', hs⟩) now ?_
  simp [hnow]

namespace Ledger

def Closed (l : Ledger) (es : List Entry) : Prop :=
  ∃ e ∈ es, ∃ s, e.op.now? = some s ∧ l.status s = .success

/-- Nothing was paid out yet, or success is final. -/
def Phase (l : Ledger) (es : List Entry) : Prop := l.Untouched ∨ l.Closed es

variable {l l' : Ledger} {es : List Entry} {e : Entry}

theorem Closed.append (h : l.Closed es) (hstatus : ∀ now, l'.status now = l.status now) :
    l'.Closed (es ++ [e]) := by
  obtain ⟨e', he', s, hnow, hs⟩ := h
  exact ⟨e', List.mem_append_left _ he', s, hnow, (hstatus s).trans hs⟩

inductive EntryKind (l : Ledger) : Entry → Ledger → Prop where
  | idle {op : Operation} {prepared : Except Failure Transition} :
      EntryKind l ⟨op, prepared, none, []⟩ l
  | quiet {op : Operation} {prepared : Except Failure Transition} {t : Transition}
      (hquiet : l.Quiet op t)
      (hphase : l.Untouched ∨ t.ledger = { l with revision := l.revision + 1 }) :
      EntryKind l ⟨op, prepared, some t, t.transfers⟩ t.ledger
  | pays {op : Operation} {prepared : Except Failure Transition} {t : Transition} {now : Int}
      (hpays : l.Disburses now op t) : EntryKind l ⟨op, prepared, some t, t.transfers⟩ t.ledger

theorem Writes.kind (h : Writes l e l') (hphase : l.Phase es)
    (hlater : ∀ e' ∈ es, ∀ s, e'.op.now? = some s → ∀ now, e.op.now? = some now → s ≤ now) :
    EntryKind l e l' ∧ l'.Phase (es ++ [e]) := by
  cases h with
  | idle hprepared =>
    refine ⟨.idle, ?_⟩
    rcases hphase with huntouched | hclosed
    · exact .inl huntouched
    · exact .inr (hclosed.append fun _ => rfl)
  | @step op prepared t hprepared hstep =>
    have hpaid : ∀ now, l.status now = .success → l.Disburses now op t →
        t.ledger.Closed (es ++ [⟨op, prepared, some t, t.transfers⟩]) := fun now hs hpays =>
      ⟨_, List.mem_append_right _ List.mem_cons_self, now, hpays.now?_eq,
        (hpays.keeps.status_eq now).trans hs⟩
    rcases hphase with huntouched | hclosed
    · rcases hstep.quiet_or_disburses with hquiet | ⟨now, hs, hpays⟩
      · exact ⟨.quiet hquiet (.inl huntouched), .inl (huntouched.quiet hquiet)⟩
      · exact ⟨.pays hpays, .inr (hpaid now hs hpays)⟩
    · obtain ⟨e', he', s, hnow, hs⟩ := hclosed
      rcases hstep.of_success hs (hlater e' he' s hnow) with ⟨now, hs', hpays⟩ |
        ⟨-, hquiet, hsame⟩
      · exact ⟨.pays hpays, .inr (hpaid now hs' hpays)⟩
      · have hclosed : l.Closed es := ⟨e', he', s, hnow, hs⟩
        exact ⟨.quiet hquiet (.inr hsame), .inr (hclosed.append fun now => by rw [hsame]; rfl)⟩

structure Move (l : Ledger) (e : Entry) (l' : Ledger) : Prop where
  sale_sound : l.sale.Sound
  sale_eq : l'.sale = l.sale
  balanced : l.Balanced
  balanced_after : l'.Balanced
  prepared_eq : liftFault (l.perform e.op) = e.prepared
  kind : EntryKind l e l'

end Ledger

/-- What holds of an empty ledger, and is kept by every kind of entry, holds of every ordered
history. -/
theorem History.run_induct_ordered {P : Ledger → List Entry → Prop} {draft : Sale.Draft}
    {settings : Settings} {outbox : Outbox} {clock : Int} {d : Desk}
    (hdesk : Desk.start draft settings outbox clock = .ok d)
    (hstart : ∀ s : Sale, s.Sound → P { sale := s } [])
    (hmove : ∀ l es e l', P l es → Ledger.Move l e l' → P l' (es ++ [e]))
    {turns : List Turn} (hordered : InOrder (turns.map Turn.op)) :
    (run d turns).ledger.sale.Sound ∧ (run d turns).ledger.Balanced ∧
      P (run d turns).ledger (run d turns).entries := by
  have hrun := (run_induct
    (P := fun l es => InOrder (es.map Entry.op) →
      l.sale.Sound ∧ l.Balanced ∧ l.Phase es ∧ P l es) hdesk
    (fun s hs _ => ⟨hs, Ledger.balanced_empty (Int.le_of_lt hs.saleAmount_pos),
      .inl (Ledger.empty_untouched s), hstart s hs⟩)
    (fun l es e l' hsale hP hwrites hordered => by
      rw [List.map_append] at hordered
      obtain ⟨-, hbalanced, hphase, hPl⟩ := hP hordered.init
      obtain ⟨hkind, hphase'⟩ := hwrites.kind hphase fun e' he' =>
        hordered.last e'.op (List.mem_map_of_mem he')
      have hbalanced' := hbalanced.writes hwrites
      refine ⟨hwrites.sale_eq ▸ hsale, hbalanced', hphase', hmove l es e l' hPl ?_⟩
      exact ⟨hsale, hwrites.sale_eq, hbalanced, hbalanced', hwrites.prepared_eq, hkind⟩)
    turns).1
  rw [← run_ops d turns] at hordered
  obtain ⟨hsale, hbalanced, -, hP⟩ := hrun hordered
  exact ⟨hsale, hbalanced, hP⟩

end TokenSale
