import TokenSale.Proofs.Desk.Course
import TokenSale.Proofs.Ledger.Books

/-!
The books in courses with undos, in any order. The totals are always those of the positions. The
number of participants and the depositors may come apart from them: an undo can bring back a
participant who was forgotten without counting it, and can leave or bring back depositors of a
participant who is gone. Each agreement holds all along a course exactly if every undo meets its own
condition.
-/

namespace TokenSale

def Event.Named : Event → Prop
  | turn x => x.op.Named
  | undo _ => True

instance (x : Event) : Decidable x.Named := by
  cases x with
  | turn x => exact inferInstanceAs (Decidable x.op.Named)
  | undo i => exact inferInstanceAs (Decidable True)

namespace Course

variable {c : Course} {s : Sale} {i : Nat}

structure Traceable (s : Sale) (c : Course) : Prop where
  sale_eq : c.ledger.sale = s
  tallied : c.ledger.Tallied
  accounted : ∀ e ∈ c.history.entries, ∀ t, e.committed = some t → t.change.Accounted

theorem turn_step (hsale : c.ledger.sale.Sound) (x : Turn) :
    ∃ e, (c.step (.turn x)).history.entries = c.history.entries ++ [e] ∧
      (e.committed = none ∧ (c.step (.turn x)).ledger = c.ledger ∨
        ∃ t, e.committed = some t ∧ Ledger.Step c.ledger x.op t ∧
          (c.step (.turn x)).ledger = t.ledger) := by
  obtain ⟨e, hentries, hop, hwrites⟩ := c.history.turn_writes x hsale
  refine ⟨e, hentries, ?_⟩
  show _ ∧ (c.history.turn x).ledger = c.history.ledger ∨ ∃ t, _ ∧ _ ∧ (c.history.turn x).ledger = _
  generalize (c.history.turn x).ledger = l' at hwrites
  cases hwrites with
  | idle hprepared => exact .inl ⟨rfl, rfl⟩
  | step hprepared hstep => exact .inr ⟨_, rfl, hop ▸ hstep, rfl⟩

theorem Traceable.turn (h : c.Traceable s) (hsale : s.Sound) {x : Turn} (hnamed : x.op.Named) :
    (c.step (.turn x)).Traceable s := by
  obtain ⟨e, hentries, hturn⟩ := turn_step (h.sale_eq.symm ▸ hsale) x
  rcases hturn with ⟨hnone, hledger⟩ | ⟨t, hcommitted, hstep, hledger⟩
  · refine ⟨hledger ▸ h.sale_eq, hledger ▸ h.tallied, ?_⟩
    intro e' he' t' ht'
    rw [hentries] at he'
    rcases List.mem_append.mp he' with hold | hnew
    · exact h.accounted e' hold t' ht'
    · rw [List.mem_singleton.mp hnew, hnone] at ht'
      cases ht'
  · refine ⟨?_, ?_, ?_⟩
    · rw [hledger, hstep.sale_eq]
      exact h.sale_eq
    · rw [hledger]
      exact (hstep.posts h.tallied).tallied h.tallied
    · intro e' he' t' ht'
      rw [hentries] at he'
      rcases List.mem_append.mp he' with hold | hnew
      · exact h.accounted e' hold t' ht'
      · rw [List.mem_singleton.mp hnew, hcommitted] at ht'
        cases ht'
        exact hstep.accounted h.tallied hnamed

theorem Traceable.undoable (h : c.Traceable s) {t : Transition} (ht : c.undoable? i = some t) :
    t.change.Accounted := by
  obtain ⟨e, he, hcommitted⟩ := undoable_committed ht
  exact h.accounted e he t hcommitted

theorem Traceable.undo (h : c.Traceable s) (i : Nat) : (c.undo i).Traceable s := by
  rcases c.undo_cases i with hsame | ⟨t, l, hundoable, hok, hledger, hentries⟩
  · rw [hsame]
    exact h
  · refine ⟨?_, ?_, ?_⟩
    · rw [hledger, Ledger.apply_sale hok]
      exact h.sale_eq
    · rw [hledger]
      exact h.tallied.compensate (h.undoable hundoable) hok
    · rw [hentries]
      exact h.accounted

theorem run_traceable {d : Desk} {events : List Event} (hsale : d.ledger.sale.Sound)
    (htallied : d.ledger.Tallied) (hnamed : ∀ x ∈ events, x.Named) :
    (run d events).Traceable d.ledger.sale := by
  suffices hfold : ∀ c : Course, c.Traceable d.ledger.sale →
      (events.foldl step c).Traceable d.ledger.sale from
    hfold _ ⟨rfl, htallied, fun e he => by simp at he⟩
  induction events with
  | nil => exact fun c hc => hc
  | cons x events ih =>
    intro c hc
    have hrest := ih fun y hy => hnamed y (List.mem_cons_of_mem x hy)
    cases x with
    | turn x => exact hrest _ (hc.turn hsale (hnamed (.turn x) List.mem_cons_self))
    | undo i => exact hrest _ (hc.undo i)

/-! The agreements that an undo can break. -/

/-- The undo finds the participant of what it takes back, if it is not refused. -/
def FindsParticipant (c : Course) (i : Nat) : Prop :=
  ∀ t l, c.undoable? i = some t → c.ledger.compensate t = .ok l →
    Ledger.Finds c.ledger.positions t.change

/-- The depositors that the undo brings back find their participants, and it leaves none behind with
a participant that it forgets. -/
def RejoinsDepositors (c : Course) (i : Nat) : Prop :=
  ∀ t l, c.undoable? i = some t → c.ledger.compensate t = .ok l →
    Ledger.Rejoins c.ledger t.change.negate l.positions

theorem Traceable.undo_counted_iff (h : c.Traceable s) (hcounted : c.ledger.Counted) (i : Nat) :
    (c.undo i).ledger.Counted ↔ c.FindsParticipant i := by
  constructor
  · intro hkept t l hundoable hok
    rw [(undo_of_ok hundoable hok).1] at hkept
    exact (Ledger.compensate_counted_iff hcounted (h.undoable hundoable) hok).mp hkept
  · intro hfinds
    rcases c.undo_cases i with hsame | ⟨t, l, hundoable, hok, hledger, -⟩
    · rw [hsame]
      exact hcounted
    · rw [hledger]
      exact (Ledger.compensate_counted_iff hcounted (h.undoable hundoable) hok).mpr
        (hfinds t l hundoable hok)

theorem Traceable.undo_attached_iff (h : c.Traceable s) (hattached : c.ledger.Attached) (i : Nat) :
    (c.undo i).ledger.Attached ↔ c.RejoinsDepositors i := by
  constructor
  · intro hkept t l hundoable hok
    rw [(undo_of_ok hundoable hok).1] at hkept
    exact (Ledger.compensate_attached_iff (h.undoable hundoable) hok).mp hkept
  · intro hrejoins
    rcases c.undo_cases i with hsame | ⟨t, l, hundoable, hok, hledger, -⟩
    · rw [hsame]
      exact hattached
    · rw [hledger]
      exact (Ledger.compensate_attached_iff (h.undoable hundoable) hok).mpr
        (hrejoins t l hundoable hok)

theorem Traceable.turn_kept {P : Ledger → Prop} (h : c.Traceable s) (hsale : s.Sound)
    (hposts : ∀ op t, Ledger.Posts c.ledger op t → P c.ledger → P t.ledger) (hP : P c.ledger)
    (x : Turn) : P (c.step (.turn x)).ledger := by
  obtain ⟨e, -, ⟨-, hledger⟩ | ⟨t, -, hstep, hledger⟩⟩ := turn_step (h.sale_eq.symm ▸ hsale) x
  · exact hledger ▸ hP
  · exact hledger ▸ hposts x.op t (hstep.posts h.tallied) hP

/-- In courses of named participants, the totals are always those of the positions. The number of
participants is right all along exactly if every undo finds its participant, and the depositors are
attached all along exactly if every undo lets them rejoin. -/
theorem run_books_iff {draft : Sale.Draft} {settings : Settings} {outbox : Outbox} {clock : Int}
    {d : Desk} (h : Desk.start draft settings outbox clock = .ok d) {events : List Event}
    (hnamed : ∀ x ∈ events, x.Named) :
    (∀ n, (run d (events.take n)).ledger.Tallied) ∧
    ((∀ n, (run d (events.take n)).ledger.Counted) ↔
      ∀ n i, events[n]? = some (.undo i) → (run d (events.take n)).FindsParticipant i) ∧
    ((∀ n, (run d (events.take n)).ledger.Attached) ↔
      ∀ n i, events[n]? = some (.undo i) → (run d (events.take n)).RejoinsDepositors i) := by
  obtain ⟨s, hs, hledger⟩ := Desk.start_ledger h
  have hsale : d.ledger.sale.Sound := by
    rw [hledger]
    exact hs
  have htallied : d.ledger.Tallied := by
    rw [hledger]
    exact Ledger.tallied_empty s
  have htrace : ∀ n, (run d (events.take n)).Traceable d.ledger.sale := fun n =>
    run_traceable hsale htallied fun x hx => hnamed x (List.mem_of_mem_take hx)
  refine ⟨fun n => (htrace n).tallied, ?_, ?_⟩
  · refine run_take_iff ?_ (fun n x _ hcounted => ?_) fun n i hcounted =>
      (htrace n).undo_counted_iff hcounted i
    · show d.ledger.Counted
      rw [hledger]
      rfl
    · exact (htrace n).turn_kept hsale (fun _ _ hposts => hposts.counted) hcounted x
  · refine run_take_iff ?_ (fun n x _ hattached => ?_) fun n i hattached =>
      (htrace n).undo_attached_iff hattached i
    · show d.ledger.Attached
      rw [hledger]
      exact Ledger.attached_empty s
    · exact (htrace n).turn_kept hsale (fun _ _ hposts => hposts.attached) hattached x

/-! Undos that break the agreements. -/

/-- The first deposit is undone while a later one has filled up what was withdrawn, so the participant
is forgotten; the undo of the withdrawal brings it back. -/
def forgottenThenRestored : List Event :=
  [.turn ⟨.deposit "tok" 1100 "tok" 0 none, 0⟩, .turn ⟨.deposit "alice" 100 "alice" 10 none, 0⟩,
    .turn ⟨.withdraw "alice" 50 20, 1⟩, .turn ⟨.deposit "alice" 50 "alice" 30 none, 0⟩,
    .undo 1, .undo 2]

/-- The deposits of two depositors for one participant are undone, the later one first. -/
def depositorLeftBehind : List Event :=
  [.turn ⟨.deposit "tok" 1100 "tok" 0 none, 0⟩, .turn ⟨.deposit "ann" 100 "alice" 10 none, 0⟩,
    .turn ⟨.deposit "ben" 50 "alice" 20 none, 0⟩, .undo 2, .undo 1]

theorem run_books_iff_restored :
    Desk.start sampleSale.draft {} (.kept []) 0 = .ok sampleDesk ∧
      (∀ x ∈ forgottenThenRestored, x.Named) ∧
      (∀ n, (run sampleDesk (forgottenThenRestored.take n)).ledger.Tallied) ∧
      (run sampleDesk (forgottenThenRestored.take 6)).ledger.participants = 0 ∧
      ¬ ∀ n i, forgottenThenRestored[n]? = some (.undo i) →
        (run sampleDesk (forgottenThenRestored.take n)).FindsParticipant i := by
  have hstart : Desk.start sampleSale.draft {} (.kept []) 0 = .ok sampleDesk := rfl
  have hnamed : ∀ x ∈ forgottenThenRestored, x.Named := by decide
  have hcount : (run sampleDesk (forgottenThenRestored.take 6)).ledger.participants = 0 := by
    decide +kernel
  have hlost : ¬(run sampleDesk (forgottenThenRestored.take 6)).ledger.Counted := by
    decide +kernel
  obtain ⟨htallied, hcounted, -⟩ := run_books_iff hstart hnamed
  exact ⟨hstart, hnamed, htallied, hcount, fun hfinds => hlost (hcounted.mpr hfinds 6)⟩

/-- Neither the number of participants nor the depositors survive every undo. -/
theorem books_not_kept :
    (¬ ∀ (draft : Sale.Draft) (settings : Settings) (outbox : Outbox) (clock : Int) (d : Desk),
      Desk.start draft settings outbox clock = .ok d →
      ∀ events : List Event, (∀ x ∈ events, x.Named) → (run d events).ledger.Counted) ∧
    (¬ ∀ (draft : Sale.Draft) (settings : Settings) (outbox : Outbox) (clock : Int) (d : Desk),
      Desk.start draft settings outbox clock = .ok d →
      ∀ events : List Event, (∀ x ∈ events, x.Named) → (run d events).ledger.Attached) := by
  constructor
  · intro hall
    have hcounted := hall sampleSale.draft {} (.kept []) 0 sampleDesk rfl forgottenThenRestored
      (by decide)
    exact absurd hcounted (by decide +kernel)
  · intro hall
    have hattached := hall sampleSale.draft {} (.kept []) 0 sampleDesk rfl depositorLeftBehind
      (by decide)
    have hleft : (run sampleDesk depositorLeftBehind).ledger.depositors.get? "ben" =
        some "alice" := by
      decide +kernel
    have hgone : (run sampleDesk depositorLeftBehind).ledger.positions.get? "alice" = none := by
      decide +kernel
    have hthere := hattached "ben" "alice" hleft
    rw [hgone] at hthere
    cases hthere

end Course

end TokenSale
