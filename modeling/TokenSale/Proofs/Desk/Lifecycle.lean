import TokenSale.Proofs.Desk.Order
import TokenSale.Proofs.Ledger.Lifecycle

/-!
The life of a sale along a history in the order of time: from any point of it to any later one the
rank does not go down, a success stays a success with the same stakes, a failure stays a failure, and
once anything was paid out no deposit moves any more.
-/

namespace TokenSale

def timesOf (turns : List Turn) : List Int := (turns.map Turn.op).filterMap Operation.now?

namespace Entry

def PaysOut (e : Entry) : Prop :=
  (∃ reason, e.op.pays reason = true) ∧ ∃ t, e.prepared = .ok t

def KeepsDeposits (e : Entry) : Prop :=
  e.op.movesDeposits = true → ∃ f, e.prepared = .error f

end Entry

namespace Ledger

variable {l l' : Ledger} {e : Entry} {es : List Entry} {s : Int}

theorem Writes.success_later (h : Writes l e l') (hs : l.status s = .success)
    (hle : ∀ now, e.op.now? = some now → s ≤ now) :
    l'.status s = .success ∧ l.SameStakes l' := by
  cases h with
  | idle hprepared => exact ⟨hs, .refl l⟩
  | step hprepared hstep => exact hstep.success_later hs hle

theorem Writes.tallied (h : Writes l e l') (htallied : l.Tallied) : l'.Tallied := by
  cases h with
  | idle hprepared => exact htallied
  | step hprepared hstep => exact (hstep.posts htallied).tallied htallied

theorem Writes.failed_later (h : Writes l e l') (htallied : l.Tallied) (hs : l.status s = .failed)
    (hle : ∀ now, e.op.now? = some now → s ≤ now) : l'.status s = .failed := by
  cases h with
  | idle hprepared => exact hs
  | step hprepared hstep => exact hstep.failed_later htallied hs hle

theorem Writes.accepted (h : Writes l e l') {t : Transition} (ht : e.prepared = .ok t) :
    Step l e.op t := by
  have hprepared := h.prepared_eq
  rw [ht] at hprepared
  cases hperform : l.perform e.op with
  | error f =>
    rw [hperform] at hprepared
    cases hprepared
  | ok t' =>
    rw [hperform] at hprepared
    cases hprepared
    exact step_of_perform hperform

theorem Writes.keepsDeposits (h : Writes l e l') (hs : l.status s = .success)
    (hle : ∀ now, e.op.now? = some now → s ≤ now) : e.KeepsDeposits := by
  intro hmoves
  cases hprepared : e.prepared with
  | error f => exact ⟨f, rfl⟩
  | ok t =>
    rw [(h.accepted hprepared).movesDeposits_of_success hs hle] at hmoves
    cases hmoves

theorem Writes.success_of_paysOut (h : Writes l e l') (hpays : e.PaysOut) :
    ∃ s, e.op.now? = some s ∧ l'.status s = .success := by
  obtain ⟨⟨reason, hreason⟩, t, ht⟩ := hpays
  obtain ⟨now, hnow, hs⟩ := (h.accepted ht).success_of_pays hreason
  refine ⟨now, hnow, (h.success_later hs fun now' hnow' => ?_).1⟩
  rw [hnow] at hnow'
  cases hnow'
  exact Int.le_refl now

/-- Every payout was made after a success, and no deposit has moved since. -/
structure Exclusive (l : Ledger) (es : List Entry) : Prop where
  success : ∀ e ∈ es, e.PaysOut → ∃ s, e.op.now? = some s ∧ l.status s = .success
  pairwise : es.Pairwise fun e e' => e.PaysOut → e'.KeepsDeposits

theorem Exclusive.writes (h : l.Exclusive es) (hwrites : Writes l e l')
    (hlater : ∀ e' ∈ es, ∀ s, e'.op.now? = some s → ∀ now, e.op.now? = some now → s ≤ now) :
    l'.Exclusive (es ++ [e]) where
  success := by
    intro e' he' hpays
    rcases List.mem_append.mp he' with hold | hnew
    · obtain ⟨s, hnow, hs⟩ := h.success e' hold hpays
      exact ⟨s, hnow, (hwrites.success_later hs (hlater e' hold s hnow)).1⟩
    · cases List.mem_singleton.mp hnew
      exact hwrites.success_of_paysOut hpays
  pairwise := by
    rw [List.pairwise_append]
    refine ⟨h.pairwise, List.pairwise_singleton _ _, ?_⟩
    intro e' hold e'' hnew hpays
    cases List.mem_singleton.mp hnew
    obtain ⟨s, hnow, hs⟩ := h.success e' hold hpays
    exact hwrites.keepsDeposits hs (hlater e' hold s hnow)

end Ledger

namespace History

variable {draft : Sale.Draft} {settings : Settings} {outbox : Outbox} {clock : Int} {d : Desk}

theorem run_exclusive (h : Desk.start draft settings outbox clock = .ok d) {turns : List Turn}
    (hordered : InOrder (turns.map Turn.op)) :
    (run d turns).ledger.Exclusive (run d turns).entries := by
  rw [← run_ops d turns] at hordered
  refine (run_induct (P := fun l es => InOrder (es.map Entry.op) → l.Exclusive es) h
    (fun s hs _ => ⟨by simp, List.Pairwise.nil⟩) ?_ turns).1 hordered
  intro l es e l' _ hP hwrites hordered
  rw [List.map_append] at hordered
  exact (hP hordered.init).writes hwrites fun e' he' =>
    hordered.last e'.op (List.mem_map_of_mem he')

theorem later_induct {P : Ledger → Prop} {turns : List Turn} {h : History}
    (hsale : h.ledger.sale.Sound) (hP : P h.ledger)
    (hwrite : ∀ l e l', P l → e.op ∈ turns.map Turn.op → Ledger.Writes l e l' → P l') :
    P (turns.foldl turn h).ledger := by
  induction turns generalizing h with
  | nil => exact hP
  | cons x turns ih =>
    obtain ⟨e, -, hop, hwrites⟩ := h.turn_writes x hsale
    apply ih
    · rw [hwrites.sale_eq]
      exact hsale
    · exact hwrite _ _ _ hP (by simp [hop]) hwrites
    · exact fun l e' l' hl he' => hwrite l e' l' hl (List.mem_cons_of_mem _ he')

section Later

variable {h : History} {turns : List Turn} {s now : Int}

theorem later_success (hsale : h.ledger.sale.Sound)
    (hlater : ∀ n ∈ timesOf turns, s ≤ n) (hs : h.ledger.status s = .success) :
    (turns.foldl turn h).ledger.status s = .success ∧
      h.ledger.SameStakes (turns.foldl turn h).ledger := by
  refine later_induct (P := fun l => l.status s = .success ∧ h.ledger.SameStakes l) hsale
    ⟨hs, .refl _⟩ ?_
  intro l e l' ⟨hl, hstakes⟩ he hwrites
  obtain ⟨hl', hstakes'⟩ := hwrites.success_later hl fun n hn =>
    hlater n (List.mem_filterMap.mpr ⟨e.op, he, hn⟩)
  exact ⟨hl', hstakes.trans hstakes'⟩

theorem later_failed (hsale : h.ledger.sale.Sound) (htallied : h.ledger.Tallied)
    (hlater : ∀ n ∈ timesOf turns, s ≤ n) (hs : h.ledger.status s = .failed) :
    (turns.foldl turn h).ledger.status s = .failed := by
  refine (later_induct (P := fun l => l.Tallied ∧ l.status s = .failed) hsale
    ⟨htallied, hs⟩ ?_).2
  intro l e l' ⟨hl, hfailed⟩ he hwrites
  exact ⟨hwrites.tallied hl, hwrites.failed_later hl hfailed fun n hn =>
    hlater n (List.mem_filterMap.mpr ⟨e.op, he, hn⟩)⟩

theorem later_sale (hsale : h.ledger.sale.Sound) :
    (turns.foldl turn h).ledger.sale = h.ledger.sale :=
  later_induct (P := fun l => l.sale = h.ledger.sale) hsale rfl fun _ _ _ hl _ hwrites =>
    hwrites.sale_eq.trans hl

theorem later_rank (hsale : h.ledger.sale.Sound) (htallied : h.ledger.Tallied)
    (hlater : ∀ n ∈ timesOf turns, s ≤ n) (hle : s ≤ now) {a b : Nat}
    (ha : (h.ledger.status s).rank? = some a)
    (hb : ((turns.foldl turn h).ledger.status now).rank? = some b) : a ≤ b := by
  have hstage := Sale.stage_le hsale hle
  rcases Ledger.rank?_status ha with hclock | ⟨hlast, hended, hsuccess | hfailed⟩
  · -- the clock has given the first rank, and gives at least as much later
    have hstages : (turns.foldl turn h).ledger.sale.stage now = h.ledger.sale.stage now := by
      rw [later_sale hsale]
    rcases Ledger.rank?_status hb with hclock' | ⟨hlast', hended', -⟩ <;> omega
  · rw [Ledger.status_success_later (later_success hsale hlater hsuccess).1 hle] at hb
    cases hb
    omega
  · rw [Ledger.status_failed_later (later_failed hsale htallied hlater hfailed) hle] at hb
    cases hb
    omega

end Later

/-- The sale goes one way. Between any two points of a history in the order of time, at `s` and at
`now`, the rank does not go down; a success stays one, and leaves the totals and all stakes as they
are; a failure stays one; and after a payout every deposit and every withdrawal is refused. -/
theorem run_one_way (h : Desk.start draft settings outbox clock = .ok d) {before after : List Turn}
    {s now : Int} (hordered : (timesOf before ++ s :: (timesOf after ++ [now])).Pairwise (· ≤ ·)) :
    (∀ a b, ((run d before).ledger.status s).rank? = some a →
      ((run d (before ++ after)).ledger.status now).rank? = some b → a ≤ b) ∧
    ((run d before).ledger.status s = .success →
      (run d (before ++ after)).ledger.status now = .success ∧
        (run d before).ledger.SameStakes (run d (before ++ after)).ledger) ∧
    ((run d before).ledger.status s = .failed →
      (run d (before ++ after)).ledger.status now = .failed) ∧
    (run d (before ++ after)).entries.Pairwise fun e e' => e.PaysOut → e'.KeepsDeposits := by
  have hsale := run_sale_sound h before
  have htallied := (run_balanced h before).2.tallied
  have hrun : run d (before ++ after) = after.foldl turn (run d before) := List.foldl_append
  obtain ⟨-, hrest, -⟩ := List.pairwise_append.mp hordered
  obtain ⟨hpoint, -⟩ := List.pairwise_cons.mp hrest
  have hlater : ∀ n ∈ timesOf after, s ≤ n := fun n hn => hpoint n (List.mem_append_left _ hn)
  have hle : s ≤ now := hpoint now (List.mem_append_right _ List.mem_cons_self)
  have hturns : InOrder ((before ++ after).map Turn.op) := by
    unfold InOrder
    rw [List.map_append, List.filterMap_append]
    refine hordered.sublist (List.Sublist.append_left ?_ _)
    exact (List.sublist_append_left _ _).cons s
  rw [hrun]
  refine ⟨?_, ?_, ?_, ?_⟩
  · exact fun a b ha hb => later_rank hsale htallied hlater hle ha hb
  · intro hs
    obtain ⟨hs', hstakes⟩ := later_success hsale hlater hs
    exact ⟨Ledger.status_success_later hs' hle, hstakes⟩
  · intro hs
    exact Ledger.status_failed_later (later_failed hsale htallied hlater hs) hle
  · rw [← hrun]
    exact (run_exclusive h hturns).pairwise

theorem run_one_way_sample :
    Desk.start sampleSale.draft {} (.kept []) 0 = .ok sampleDesk ∧
      (timesOf (sampleTurns.take 4) ++ 100 :: (timesOf (sampleTurns.drop 4) ++ [300])).Pairwise
        (· ≤ ·) ∧
      (run sampleDesk (sampleTurns.take 4)).ledger.status 100 = .success ∧
      (run sampleDesk sampleTurns).ledger.status 300 = .success ∧
      (run sampleDesk sampleTurns).entries.Pairwise fun e e' => e.PaysOut → e'.KeepsDeposits := by
  have hstart : Desk.start sampleSale.draft {} (.kept []) 0 = .ok sampleDesk := rfl
  have hordered : (timesOf (sampleTurns.take 4) ++
      100 :: (timesOf (sampleTurns.drop 4) ++ [300])).Pairwise (· ≤ ·) := by
    decide
  have hsuccess : (run sampleDesk (sampleTurns.take 4)).ledger.status 100 = .success := by
    decide +kernel
  obtain ⟨-, hstays, -, hexclusive⟩ := run_one_way hstart hordered
  exact ⟨hstart, hordered, hsuccess, (hstays hsuccess).1, hexclusive⟩

end History

end TokenSale
