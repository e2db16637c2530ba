import TokenSale.Proofs.Desk.History

/-!
Courses of a desk: histories in which committed transitions are also undone, each at most once, on
whatever ledger is live by then. An undo that is refused leaves the ledger as it was.
-/

namespace TokenSale

inductive Event where
  | turn (x : Turn)
  | undo (i : Nat)

structure Course where
  history : History
  undone : List Nat := []

namespace Course

def ledger (c : Course) : Ledger := c.history.ledger

/-- What undoing an entry takes back: nothing, if it has committed nothing or was undone before. -/
def undoable? (c : Course) (i : Nat) : Option Transition :=
  if i ∈ c.undone then none else c.history.entries[i]?.bind Entry.committed

def undo (c : Course) (i : Nat) : Course :=
  match c.undoable? i with
  | none => c
  | some t =>
    match c.history.desk.compensate t with
    | (desk, .ok ()) => ⟨{ c.history with desk }, i :: c.undone⟩
    | (desk, .error _) => ⟨{ c.history with desk }, c.undone⟩

def step (c : Course) : Event → Course
  | .turn x => { c with history := c.history.turn x }
  | .undo i => c.undo i

def run (d : Desk) (events : List Event) : Course := events.foldl step ⟨⟨d, []⟩, []⟩

theorem run_append (d : Desk) (events : List Event) (x : Event) :
    run d (events ++ [x]) = (run d events).step x := by
  simp [run]

theorem run_take_succ (d : Desk) {events : List Event} {n : Nat} {x : Event}
    (h : events[n]? = some x) : run d (events.take (n + 1)) = (run d (events.take n)).step x := by
  rw [List.take_add_one, h, Option.toList_some, run_append]

theorem run_take_of_none (d : Desk) {events : List Event} {n : Nat} (h : events[n]? = none) :
    run d (events.take (n + 1)) = run d (events.take n) := by
  rw [List.take_add_one, h, Option.toList_none, List.append_nil]

/-- What holds at the start and is kept by turns holds all along a course exactly if every undo meets
what it takes for the undo to keep it. -/
theorem run_take_iff {P : Ledger → Prop} {Q : Course → Nat → Prop} {d : Desk}
    {events : List Event} (hstart : P d.ledger)
    (hturn : ∀ n x, events[n]? = some (.turn x) → P (run d (events.take n)).ledger →
      P ((run d (events.take n)).step (.turn x)).ledger)
    (hundo : ∀ n i, P (run d (events.take n)).ledger →
      (P ((run d (events.take n)).undo i).ledger ↔ Q (run d (events.take n)) i)) :
    (∀ n, P (run d (events.take n)).ledger) ↔
      ∀ n i, events[n]? = some (.undo i) → Q (run d (events.take n)) i := by
  constructor
  · intro hall n i hi
    have hnext := hall (n + 1)
    rw [run_take_succ d hi] at hnext
    exact (hundo n i (hall n)).mp hnext
  · intro hmet n
    induction n with
    | zero => exact hstart
    | succ n ih =>
      cases hevent : events[n]? with
      | none =>
        rw [run_take_of_none d hevent]
        exact ih
      | some x =>
        rw [run_take_succ d hevent]
        cases x with
        | turn x => exact hturn n x hevent ih
        | undo i => exact (hundo n i ih).mpr (hmet n i hevent)

variable {c : Course} {i : Nat} {t : Transition}

theorem undo_of_none (h : c.undoable? i = none) : c.undo i = c := by
  simp only [undo, h]

theorem undo_of_error {f : Fault} (h : c.undoable? i = some t)
    (hrefused : c.ledger.compensate t = .error f) : c.undo i = c := by
  have hdesk : c.history.desk.ledger.compensate t = .error f := hrefused
  simp only [undo, h, Desk.compensate, hdesk]

theorem undo_of_ok {l : Ledger} (h : c.undoable? i = some t)
    (hok : c.ledger.compensate t = .ok l) :
    (c.undo i).ledger = l ∧ (c.undo i).history.entries = c.history.entries ∧
      (c.undo i).undone = i :: c.undone := by
  have hdesk : c.history.desk.ledger.compensate t = .ok l := hok
  simp [undo, h, Desk.compensate, hdesk, ledger, History.ledger]

theorem undo_cases (c : Course) (i : Nat) :
    c.undo i = c ∨ ∃ t l, c.undoable? i = some t ∧ c.ledger.compensate t = .ok l ∧
      (c.undo i).ledger = l ∧ (c.undo i).history.entries = c.history.entries := by
  cases hundoable : c.undoable? i with
  | none => exact .inl (undo_of_none hundoable)
  | some t =>
    cases hresult : c.ledger.compensate t with
    | error f => exact .inl (undo_of_error hundoable hresult)
    | ok l =>
      obtain ⟨hledger, hentries, -⟩ := undo_of_ok hundoable hresult
      exact .inr ⟨t, l, rfl, hresult, hledger, hentries⟩

theorem undoable_committed (h : c.undoable? i = some t) :
    ∃ e ∈ c.history.entries, e.committed = some t := by
  unfold undoable? at h
  split at h
  · cases h
  · obtain ⟨e, he, hcommitted⟩ := Option.bind_eq_some_iff.mp h
    exact ⟨e, List.mem_of_getElem? he, hcommitted⟩

end Course

end TokenSale
