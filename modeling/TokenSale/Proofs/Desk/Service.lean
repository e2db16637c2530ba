import TokenSale.Proofs.Desk.Reconciled

/-!
Desks in service are sessions. Whatever clients ask of a desk, there are calls that ask the same of
a session, and the session then stands for the desk: they differ in their outbox at most, and the
outbox of the desk has taken what the session has sent. How many transfers go out of a commit is not
chosen any more; it is what the outbox lets out.
-/

namespace TokenSale

/-- What a client asks of a desk. The transitions that were prepared are numbered in their order. -/
inductive Request where
  | perform (op : Operation)
  | prepare (op : Operation)
  | commit (i : Nat)
  | undo (i : Nat)
  | status (now : Int)

def Call.request : Call → Request
  | .prepare op => .prepare op
  | .commit i _ => .commit i
  | .undo i => .undo i

def Use.request : Use → Request
  | .perform x => .perform x.op
  | .prepare op => .prepare op
  | .commit i _ => .commit i
  | .status now => .status now

structure Service where
  desk : Desk
  prepared : List (Operation × Transition) := []

namespace Service

def serve (w : Service) : Request → Service
  | .perform op => { w with desk := (w.desk.run op).1 }
  | .prepare op =>
    match w.desk.prepare op with
    | (desk, .ok t) => ⟨desk, w.prepared ++ [(op, t)]⟩
    | (desk, .error _) => { w with desk }
  | .commit i =>
    match w.prepared[i]? with
    | none => w
    | some p => { w with desk := (w.desk.commit p.2).1 }
  | .undo i =>
    match w.prepared[i]? with
    | none => w
    | some p => { w with desk := (w.desk.compensate p.2).1 }
  | .status now => { w with desk := (w.desk.status now).1 }

def run (d : Desk) (requests : List Request) : Service := requests.foldl serve ⟨d, []⟩

end Service

/-- The session stands for the desk, whose outbox had taken `base` when the session began. -/
structure Session.StandsFor (s : Session) (base : List Transfer) (w : Service) : Prop where
  desk_eq : ∃ o, w.desk = s.desk.through o
  prepared_eq : w.prepared = s.prepared
  taken_eq : w.desk.outbox.taken = base ++ s.sent

namespace Session.StandsFor

variable {s : Session} {base : List Transfer} {w : Service}

theorem start (d : Desk) : StandsFor ⟨d, [], []⟩ d.outbox.taken ⟨d, []⟩ :=
  ⟨⟨d.outbox, rfl⟩, rfl, (List.append_nil _).symm⟩

theorem kept (h : s.StandsFor base w) (f : Desk → Desk)
    (hf : ∀ (d : Desk) (o : Outbox), f (d.through o) = (f d).through o) :
    StandsFor { s with desk := f s.desk } base { w with desk := f w.desk } := by
  obtain ⟨⟨o, hdesk⟩, hprepared, htaken⟩ := h
  have hserved : f w.desk = (f s.desk).through o := by rw [hdesk, hf]
  refine ⟨⟨o, hserved⟩, hprepared, ?_⟩
  rw [hdesk] at htaken
  show (f w.desk).outbox.taken = base ++ s.sent
  rw [hserved]
  exact htaken

/-- A commit at the desk is one of the session, with the same answer. -/
theorem commit (h : s.StandsFor base w) (t : Transition) :
    ∃ n, (s.commit t n).2 = (w.desk.commit t).2 ∧
      (s.commit t n).1.StandsFor base { w with desk := (w.desk.commit t).1 } := by
  obtain ⟨⟨o, hdesk⟩, hprepared, htaken⟩ := h
  obtain ⟨n, o', hcommit, hsent⟩ := s.desk.commit_through o t
  refine ⟨n, by rw [hdesk, hcommit]; rfl, ⟨o', by rw [hdesk, hcommit]; rfl⟩, hprepared, ?_⟩
  show (w.desk.commit t).1.outbox.taken = base ++ (s.sent ++ s.desk.sentFirst t n)
  rw [hdesk] at htaken
  rw [hdesk, hcommit, ← List.append_assoc, ← htaken]
  exact hsent

theorem perform_eq (h : s.StandsFor base w) (op : Operation) :
    w.desk.ledger.perform op = s.desk.ledger.perform op := by
  obtain ⟨⟨o, hdesk⟩, -, -⟩ := h
  rw [hdesk]
  rfl

theorem reject (h : s.StandsFor base w) (op : Operation) (f : Fault) :
    StandsFor { s with desk := s.desk.reject op f } base { w with desk := w.desk.reject op f } :=
  h.kept (·.reject op f) fun d o => d.reject_through o op f

theorem prepare (h : s.StandsFor base w) (op : Operation) :
    (s.prepare op).StandsFor base (w.serve (.prepare op)) := by
  cases hperform : s.desk.ledger.perform op with
  | error f =>
    have hserved := h.perform_eq op ▸ hperform
    simp only [Session.prepare, Service.serve, Desk.prepare_of_error hperform,
      Desk.prepare_of_error hserved]
    exact h.reject op f
  | ok t =>
    have hserved := h.perform_eq op ▸ hperform
    simp only [Session.prepare, Service.serve, Desk.prepare_of_ok hperform,
      Desk.prepare_of_ok hserved, h.prepared_eq]
    exact ⟨h.desk_eq, rfl, h.taken_eq⟩

theorem perform (h : s.StandsFor base w) (op : Operation) :
    ∃ n, (s.perform ⟨op, n⟩).StandsFor base (w.serve (.perform op)) := by
  cases hperform : s.desk.ledger.perform op with
  | error f =>
    have hserved := h.perform_eq op ▸ hperform
    refine ⟨0, ?_⟩
    simp only [Session.perform, Service.serve, Desk.run, Desk.prepare_of_error hperform,
      Desk.prepare_of_error hserved]
    exact h.reject op f
  | ok t =>
    have hserved := h.perform_eq op ▸ hperform
    obtain ⟨n, -, hcommit⟩ := h.commit t
    refine ⟨n, ?_⟩
    simp only [Session.perform, Service.serve, Desk.prepare_of_ok hperform,
      Desk.run_of_ok hserved]
    exact hcommit

theorem undo (h : s.StandsFor base w) (t : Transition) :
    (s.undo t).StandsFor base { w with desk := (w.desk.compensate t).1 } :=
  h.kept (fun d => (d.compensate t).1) fun d o => by rw [Desk.compensate_through]

theorem status (h : s.StandsFor base w) (now : Int) :
    StandsFor { s with desk := (s.desk.status now).1 } base (w.serve (.status now)) :=
  h.kept (fun d => (d.status now).1) fun d o =>
    d.record_through o fun m => m.setStatus (d.ledger.status now).name (Status.all.map Status.name)

theorem commitCall (h : s.StandsFor base w) (i : Nat) :
    ∃ n, (s.call (.commit i n)).StandsFor base (w.serve (.commit i)) := by
  cases hi : s.prepared[i]? with
  | none =>
    have hserved := h.prepared_eq ▸ hi
    refine ⟨0, ?_⟩
    simp only [Session.call, Service.serve, hi, hserved]
    exact h
  | some p =>
    have hserved := h.prepared_eq ▸ hi
    obtain ⟨n, -, hcommit⟩ := h.commit p.2
    refine ⟨n, ?_⟩
    simp only [Session.call, Service.serve, hi, hserved]
    exact hcommit

theorem undoCall (h : s.StandsFor base w) (i : Nat) :
    (s.call (.undo i)).StandsFor base (w.serve (.undo i)) := by
  cases hi : s.prepared[i]? with
  | none =>
    have hserved := h.prepared_eq ▸ hi
    simp only [Session.call, Service.serve, hi, hserved]
    exact h
  | some p =>
    have hserved := h.prepared_eq ▸ hi
    simp only [Session.call, Service.serve, hi, hserved]
    exact h.undo p.2

theorem call (h : s.StandsFor base w) {r : Request} (hperform : ∀ op, r ≠ .perform op)
    (hstatus : ∀ now, r ≠ .status now) :
    ∃ c : Call, c.request = r ∧ (s.call c).StandsFor base (w.serve r) := by
  cases r with
  | perform op => exact absurd rfl (hperform op)
  | prepare op => exact ⟨.prepare op, rfl, h.prepare op⟩
  | commit i =>
    obtain ⟨n, hcommit⟩ := h.commitCall i
    exact ⟨.commit i n, rfl, hcommit⟩
  | undo i => exact ⟨.undo i, rfl, h.undoCall i⟩
  | status now => exact absurd rfl (hstatus now)

theorem use (h : s.StandsFor base w) {r : Request} (hundo : ∀ i, r ≠ .undo i) :
    ∃ u : Use, u.request = r ∧ (s.use u).StandsFor base (w.serve r) := by
  cases r with
  | perform op =>
    obtain ⟨n, hperform⟩ := h.perform op
    exact ⟨.perform ⟨op, n⟩, rfl, hperform⟩
  | prepare op => exact ⟨.prepare op, rfl, h.prepare op⟩
  | commit i =>
    obtain ⟨n, hcommit⟩ := h.commitCall i
    exact ⟨.commit i n, rfl, hcommit⟩
  | undo i => exact absurd rfl (hundo i)
  | status now => exact ⟨.status now, rfl, h.status now⟩

end Session.StandsFor

namespace Service

/-- A desk at which clients prepare, commit and undo is a session of these calls. -/
theorem run_eq_session (d : Desk) {requests : List Request}
    (h : ∀ r ∈ requests, (∀ op, r ≠ .perform op) ∧ ∀ now, r ≠ .status now) :
    ∃ calls : List Call, calls.map Call.request = requests ∧
      (Session.run d calls).StandsFor d.outbox.taken (run d requests) :=
  exists_foldl (Session.StandsFor · d.outbox.taken ·)
    (fun r hr _ _ hs => hs.call (h r hr).1 (h r hr).2) (.start d)

/-- A desk at which clients perform, prepare, commit and look is a session of these uses. -/
theorem run_eq_visit (d : Desk) {requests : List Request} (h : ∀ r ∈ requests, ∀ i, r ≠ .undo i) :
    ∃ uses : List Use, uses.map Use.request = requests ∧
      (Session.visit d uses).StandsFor d.outbox.taken (run d requests) :=
  exists_foldl (Session.StandsFor · d.outbox.taken ·) (fun r hr _ _ hs => hs.use (h r hr))
    (.start d)

end Service

end TokenSale
