import TokenSale.Proofs.Desk.History
import TokenSale.Proofs.Ledger.Books

/-!
Sessions of a desk. Any number of clients prepare operations, commit what they have prepared and undo
it, in any order, and an issuer may stop any commit at any transfer.

The revision of the ledger names it among all ledgers of a session: every ledger that is installed
has the next revision. So a transition whose base is the live revision was prepared on the live
ledger, and one that was committed has lost its base for good.
-/

namespace TokenSale

namespace Desk

/-- A commit when the issuer takes `n` transfers before it refuses one. -/
def commitFirst (d : Desk) (t : Transition) (n : Nat) : Step Unit :=
  if t.baseRevision ≠ d.ledger.revision then
    (d.record Metrics.recordStaleCommit, .error (.fault (.stale t.baseRevision d.ledger.revision)))
  else ((d.installSent t n).1, do (d.installSent t n).2; refusal (t.transfers.drop n))

def sentFirst (d : Desk) (t : Transition) (n : Nat) : List Transfer :=
  if t.baseRevision ≠ d.ledger.revision then [] else t.transfers.take n

def through (d : Desk) (outbox : Outbox) : Desk := { d with outbox }

variable {d : Desk} {t : Transition}

theorem commitFirst_of_stale (h : t.baseRevision ≠ d.ledger.revision) (n : Nat) :
    d.commitFirst t n = (d.record Metrics.recordStaleCommit,
      .error (.fault (.stale t.baseRevision d.ledger.revision))) := by
  rw [commitFirst, if_pos h]

theorem commitFirst_of_base (h : t.baseRevision = d.ledger.revision) (n : Nat) :
    d.commitFirst t n =
      ((d.installSent t n).1, do (d.installSent t n).2; refusal (t.transfers.drop n)) := by
  rw [commitFirst, if_neg (not_not_intro h)]

theorem commit_of_stale (h : t.baseRevision ≠ d.ledger.revision) (n : Nat) :
    d.commit t = d.commitFirst t n := by
  rw [commitFirst_of_stale h, commit, if_pos h]

/-! What a desk does does not depend on its outbox, but for what the outbox lets out. -/

theorem record_through (d : Desk) (o : Outbox) (f : Metrics → Metrics) :
    (d.through o).record f = (d.record f).through o := by
  by_cases h : d.settings.metricsEnabled = true <;> simp [record, through, h]

theorem reject_through (d : Desk) (o : Outbox) (op : Operation) (f : Fault) :
    (d.through o).reject op f = (d.reject op f).through o := by
  unfold reject
  split
  · exact record_through d o _
  · rfl

theorem compensate_through (d : Desk) (o : Outbox) (t : Transition) :
    (d.through o).compensate t = ((d.compensate t).1.through o, (d.compensate t).2) := by
  simp only [compensate, through]
  split
  · rename_i l hresult
    exact congrArg (·, _) (record_through { d with ledger := l } o _)
  · rfl

theorem install_through (d : Desk) (o : Outbox) (t : Transition) :
    (d.through o).install t = ((d.install t).1.through o, (d.install t).2) := by
  by_cases h : d.settings.metricsEnabled = true <;> simp [install, through, h]

theorem installSent_through (d : Desk) (o : Outbox) (t : Transition) (n : Nat) :
    (d.through o).installSent t n = ((d.installSent t n).1.through o, (d.installSent t n).2) := by
  simp only [installSent]
  split
  · exact install_through d o t
  · split
    · rfl
    · split
      · exact install_through d o _
      · rfl

theorem commitFirst_through (d : Desk) (o : Outbox) (t : Transition) (n : Nat) :
    (d.through o).commitFirst t n = ((d.commitFirst t n).1.through o, (d.commitFirst t n).2) := by
  by_cases h : t.baseRevision = d.ledger.revision
  · have hthrough : t.baseRevision = (d.through o).ledger.revision := h
    rw [commitFirst_of_base h, commitFirst_of_base hthrough, installSent_through]
  · have hthrough : t.baseRevision ≠ (d.through o).ledger.revision := h
    rw [commitFirst_of_stale h, commitFirst_of_stale hthrough, record_through]
    rfl

theorem drop_issuedCount (d : Desk) (t : Transition) :
    t.transfers.drop (d.issuedCount t) = (d.outbox.putAll t.transfers).2 :=
  (List.suffix_iff_eq_drop.mp (Outbox.putAll_suffix d.outbox t.transfers)).symm

/-- A commit is one of those above: its outbox takes some number of transfers. -/
theorem commit_eq (h : t.baseRevision = d.ledger.revision) :
    d.commit t =
      ((d.commitFirst t (d.issuedCount t)).1.through (d.outbox.putAll t.transfers).1,
        (d.commitFirst t (d.issuedCount t)).2) := by
  have hinstall := installSent_through d (d.outbox.putAll t.transfers).1 t (d.issuedCount t)
  rw [issuedCount] at hinstall
  rw [commitFirst_of_base h, drop_issuedCount, commit, if_neg (not_not_intro h), issuedCount]
  simp only [through] at hinstall ⊢
  simp only [hinstall]
  cases (d.installSent t (t.transfers.length - (d.outbox.putAll t.transfers).2.length)).2 with
  | ok u => rfl
  | error e => rfl

/-- And so it is through any outbox, which takes what the commit sends. -/
theorem commit_through (d : Desk) (o : Outbox) (t : Transition) :
    ∃ n o', (d.through o).commit t = ((d.commitFirst t n).1.through o', (d.commitFirst t n).2) ∧
      o'.taken = o.taken ++ d.sentFirst t n := by
  by_cases h : t.baseRevision = d.ledger.revision
  · have hthrough : t.baseRevision = (d.through o).ledger.revision := h
    refine ⟨(d.through o).issuedCount t, (o.putAll t.transfers).1, ?_, ?_⟩
    · rw [commit_eq hthrough, commitFirst_through]
      rfl
    · rw [Outbox.putAll_taken, sentFirst, if_neg (not_not_intro h)]
      rfl
  · have hthrough : t.baseRevision ≠ (d.through o).ledger.revision := h
    refine ⟨0, o, ?_, ?_⟩
    · rw [commit_of_stale hthrough 0, commitFirst_through]
    · rw [sentFirst, if_pos h, List.append_nil]

/-! The three ways of a commit on the live ledger: all transfers go out, none, or some. -/

theorem install_error {e : Failure} (h : (d.install t).2 = .error e) : ∃ m, e = .malformed m := by
  simp only [install] at h
  split at h
  · cases hobserve : (d.metrics.observe t).2 with
    | ok u =>
      simp only [liftMalformed, hobserve] at h
      cases h
    | error m =>
      simp only [liftMalformed, hobserve] at h
      cases h
      exact ⟨m, rfl⟩
  · cases h

variable {n : Nat}

theorem commitFirst_all (h : t.baseRevision = d.ledger.revision) (hall : t.transfers.length ≤ n) :
    d.commitFirst t n = d.install t := by
  rw [commitFirst_of_base h, installSent, if_pos hall, List.drop_eq_nil_of_le hall]
  cases hresult : d.install t with
  | mk d' r =>
    cases r with
    | ok u => rfl
    | error e => rfl

theorem commitFirst_none {x : Transfer} {rest : List Transfer}
    (h : t.baseRevision = d.ledger.revision) (ht : t.transfers = x :: rest) :
    d.commitFirst t 0 = (d, .error (.refusedTransfer x.recipient)) := by
  rw [commitFirst_of_base h, installSent, ht]
  rfl

theorem commitFirst_some {t' : Transition} (h : t.baseRevision = d.ledger.revision) (hpos : 0 < n)
    (hlt : n < t.transfers.length) (hsettle : t.settle n = .ok t') :
    (d.commitFirst t n).1.ledger = t'.ledger ∧
      ∃ e, (d.commitFirst t n).2 = .error e ∧ ∀ f, e ≠ .fault f := by
  have hrest : t.transfers.drop n = t.transfers[n] :: t.transfers.drop (n + 1) :=
    List.drop_eq_getElem_cons hlt
  rw [commitFirst_of_base h, installSent, if_neg (Nat.not_le_of_lt hlt),
    if_neg (Nat.ne_of_gt hpos), hsettle, hrest]
  refine ⟨install_ledger d t', ?_⟩
  cases hresult : (d.install t').2 with
  | ok u => exact ⟨.refusedTransfer t.transfers[n].recipient, by simp [refusal], by simp⟩
  | error e =>
    obtain ⟨m, rfl⟩ := install_error hresult
    exact ⟨.malformed m, by simp, by simp⟩

end Desk

namespace Ledger

structure Precedes (l l' : Ledger) : Prop where
  revision_eq : l'.revision = l.revision + 1
  sale_eq : l'.sale = l.sale

theorem Step.precedes {l : Ledger} {op : Operation} {t : Transition} (h : Step l op t) :
    l.Precedes t.ledger :=
  ⟨h.revision_eq, h.sale_eq⟩

end Ledger

/-- What clients ask of a desk. The transitions that were prepared are numbered in their order. -/
inductive Call where
  | prepare (op : Operation)
  | commit (i taken : Nat)
  | undo (i : Nat)

structure Session where
  desk : Desk
  prepared : List (Operation × Transition) := []
  sent : List Transfer := []

namespace Session

def ledger (s : Session) : Ledger := s.desk.ledger

def prepare (s : Session) (op : Operation) : Session :=
  match s.desk.prepare op with
  | (desk, .ok t) => { s with desk, prepared := s.prepared ++ [(op, t)] }
  | (desk, .error _) => { s with desk }

def commit (s : Session) (t : Transition) (n : Nat) : Session × Except Failure Unit :=
  ({ s with desk := (s.desk.commitFirst t n).1, sent := s.sent ++ s.desk.sentFirst t n },
    (s.desk.commitFirst t n).2)

def undo (s : Session) (t : Transition) : Session := { s with desk := (s.desk.compensate t).1 }

def call (s : Session) : Call → Session
  | .prepare op => s.prepare op
  | .commit i taken =>
    match s.prepared[i]? with
    | none => s
    | some p => (s.commit p.2 taken).1
  | .undo i =>
    match s.prepared[i]? with
    | none => s
    | some p => s.undo p.2

def resume (s : Session) (calls : List Call) : Session := calls.foldl call s

def run (d : Desk) (calls : List Call) : Session := resume ⟨d, [], []⟩ calls

variable {s : Session} {op : Operation} {t : Transition}

/-- What a session keeps: nothing that was prepared is ahead of the ledger, and what is level with it
is what the operation does to it. -/
structure Current (s : Session) : Prop where
  sale_sound : s.ledger.sale.Sound
  base_le : ∀ op t, (op, t) ∈ s.prepared → t.baseRevision ≤ s.ledger.revision
  perform_eq : ∀ op t, (op, t) ∈ s.prepared → t.baseRevision = s.ledger.revision →
    s.ledger.perform op = .ok t

/-! Commits. -/

inductive Commits (s : Session) (op : Operation) (t : Transition) :
    Nat → Session × Except Failure Unit → Prop where
  | stale {n : Nat} (hbase : t.baseRevision ≠ s.ledger.revision) :
      Commits s op t n ({ s with desk := s.desk.record Metrics.recordStaleCommit },
        .error (.fault (.stale t.baseRevision s.ledger.revision)))
  | refused {x : Transfer} {rest : List Transfer} (hbase : t.baseRevision = s.ledger.revision)
      (htransfers : t.transfers = x :: rest) :
      Commits s op t 0 (s, .error (.refusedTransfer x.recipient))
  | installs {n : Nat} {desk : Desk} {t' : Transition} {r : Except Failure Unit}
      (hbase : t.baseRevision = s.ledger.revision) (hstep : Ledger.Step s.ledger op t')
      (hledger : desk.ledger = t'.ledger) (htransfers : t'.transfers = t.transfers.take n)
      (hok : r = .ok () → t' = t) (hfault : ∀ f, r ≠ .error (.fault f)) :
      Commits s op t n ({ s with desk, sent := s.sent ++ t.transfers.take n }, r)

theorem commit_of_stale (hbase : t.baseRevision ≠ s.ledger.revision) (n : Nat) :
    s.commit t n = ({ s with desk := s.desk.record Metrics.recordStaleCommit },
      .error (.fault (.stale t.baseRevision s.ledger.revision))) := by
  have hdesk : t.baseRevision ≠ s.desk.ledger.revision := hbase
  rw [commit, Desk.commitFirst_of_stale hdesk, Desk.sentFirst, if_pos hdesk, List.append_nil]
  rfl

theorem commit_none {x : Transfer} {rest : List Transfer}
    (hbase : t.baseRevision = s.ledger.revision) (ht : t.transfers = x :: rest) :
    s.commit t 0 = (s, .error (.refusedTransfer x.recipient)) := by
  have hdesk : t.baseRevision = s.desk.ledger.revision := hbase
  rw [commit, Desk.commitFirst_none hdesk ht, Desk.sentFirst, if_neg (not_not_intro hdesk),
    List.take_zero, List.append_nil]

theorem Current.commits (h : s.Current) (ht : (op, t) ∈ s.prepared) (n : Nat) :
    s.Commits op t n (s.commit t n) := by
  by_cases hbase : t.baseRevision = s.ledger.revision
  · have hstep := Ledger.step_of_perform (h.perform_eq op t ht hbase)
    have hdesk : t.baseRevision = s.desk.ledger.revision := hbase
    have hsent : s.desk.sentFirst t n = t.transfers.take n := by
      rw [Desk.sentFirst, if_neg (not_not_intro hdesk)]
    -- the issuer takes all transfers, none, or some
    by_cases hall : t.transfers.length ≤ n
    · rw [commit, hsent, Desk.commitFirst_all hdesk hall]
      refine .installs hbase hstep (Desk.install_ledger s.desk t)
        (List.take_of_length_le hall).symm (fun _ => rfl) fun f hf => ?_
      obtain ⟨m, hm⟩ := Desk.install_error hf
      cases hm
    · have hlt : n < t.transfers.length := Nat.lt_of_not_le hall
      by_cases hzero : n = 0
      · subst hzero
        obtain ⟨x, rest, htransfers⟩ := List.exists_cons_of_length_pos hlt
        rw [commit_none hbase htransfers]
        exact .refused hbase htransfers
      · have hpos := Nat.pos_of_ne_zero hzero
        obtain ⟨t', hsettle, htransfers, hstep'⟩ := hstep.settle h.sale_sound hpos hlt
        obtain ⟨hledger, e, he, hfault⟩ := Desk.commitFirst_some hdesk hpos hlt hsettle
        rw [commit, hsent]
        refine .installs hbase hstep' hledger htransfers (fun hok => ?_) fun f hf => ?_
        · rw [he] at hok
          cases hok
        · rw [he] at hf
          exact hfault f (Except.error.inj hf)
  · rw [commit_of_stale hbase]
    exact .stale hbase

theorem Commits.ledger_cases {r : Session × Except Failure Unit} (h : s.Commits op t n r) :
    r.1.ledger = s.ledger ∧ r.1.sent = s.sent ∧ r.2 ≠ .ok () ∨
      t.baseRevision = s.ledger.revision ∧ s.ledger.Precedes r.1.ledger := by
  cases h with
  | stale hbase => exact .inl ⟨Desk.record_ledger .., rfl, by simp⟩
  | refused hbase htransfers => exact .inl ⟨rfl, rfl, by simp⟩
  | @installs n desk t' r hbase hstep hledger htransfers hok hfault =>
    refine .inr ⟨hbase, ?_⟩
    show s.ledger.Precedes desk.ledger
    rw [hledger]
    exact hstep.precedes

/-! What a session keeps. -/

theorem Current.kept {s' : Session} (h : s.Current) (hprepared : s'.prepared = s.prepared)
    (hledger : s'.ledger = s.ledger ∨ s.ledger.Precedes s'.ledger) : s'.Current := by
  rcases hledger with hsame | hnext
  · refine ⟨hsame ▸ h.sale_sound, ?_, ?_⟩
    · rw [hsame, hprepared]
      exact h.base_le
    · rw [hsame, hprepared]
      exact h.perform_eq
  · have hrevision := hnext.revision_eq
    refine ⟨hnext.sale_eq ▸ h.sale_sound, ?_, ?_⟩
    · rw [hprepared]
      intro op t ht
      have := h.base_le op t ht
      omega
    · rw [hprepared]
      intro op t ht hbase
      have := h.base_le op t ht
      omega

theorem prepare_cases (s : Session) (op : Operation) :
    (s.prepare op).ledger = s.ledger ∧ (s.prepare op).sent = s.sent ∧
      ((s.prepare op).prepared = s.prepared ∨
        ∃ t, s.ledger.perform op = .ok t ∧ (s.prepare op).prepared = s.prepared ++ [(op, t)]) := by
  cases hperform : s.desk.ledger.perform op with
  | error f =>
    rw [prepare, Desk.prepare_of_error hperform]
    exact ⟨Desk.reject_ledger .., rfl, .inl rfl⟩
  | ok t =>
    rw [prepare, Desk.prepare_of_ok hperform]
    exact ⟨rfl, rfl, .inr ⟨t, hperform, rfl⟩⟩

theorem Current.prepare (h : s.Current) (op : Operation) : (s.prepare op).Current := by
  obtain ⟨hledger, -, hsame | ⟨t, hperform, hnew⟩⟩ := s.prepare_cases op
  · exact h.kept hsame (.inl hledger)
  · have hbase := (Ledger.step_of_perform hperform).baseRevision_eq
    refine ⟨hledger ▸ h.sale_sound, ?_, ?_⟩
    · intro op' t' ht'
      rw [hnew] at ht'
      rw [hledger]
      rcases List.mem_append.mp ht' with hold | hlast
      · exact h.base_le op' t' hold
      · cases List.mem_singleton.mp hlast
        exact Int.le_of_eq hbase
    · intro op' t' ht' hlevel
      rw [hnew] at ht'
      rw [hledger] at hlevel ⊢
      rcases List.mem_append.mp ht' with hold | hlast
      · exact h.perform_eq op' t' hold hlevel
      · cases List.mem_singleton.mp hlast
        exact hperform

theorem undo_ledger (s : Session) (t : Transition) :
    (s.undo t).ledger = s.ledger ∨ s.ledger.Precedes (s.undo t).ledger := by
  cases hresult : s.desk.ledger.compensate t with
  | error f =>
    left
    simp only [undo, ledger, Desk.compensate, hresult]
  | ok l =>
    right
    have hledger : (s.undo t).ledger = l := by
      simp only [undo, ledger, Desk.compensate, hresult, Desk.record_ledger]
    rw [hledger]
    exact ⟨Ledger.apply_revision hresult, Ledger.apply_sale hresult⟩

theorem Current.call_ledger (h : s.Current) (c : Call) :
    (s.call c).ledger = s.ledger ∨ s.ledger.Precedes (s.call c).ledger := by
  cases c with
  | prepare op => exact .inl (s.prepare_cases op).1
  | commit i taken =>
    cases hi : s.prepared[i]? with
    | none => exact .inl (by simp only [call, hi])
    | some p =>
      simp only [call, hi]
      rcases (h.commits (List.mem_of_getElem? hi) taken).ledger_cases with hsame | hnext
      · exact .inl hsame.1
      · exact .inr hnext.2
  | undo i =>
    cases hi : s.prepared[i]? with
    | none => exact .inl (by simp only [call, hi])
    | some p =>
      simp only [call, hi]
      exact s.undo_ledger p.2

theorem call_prepared {c : Call} (h : ∀ op, c ≠ .prepare op) : (s.call c).prepared = s.prepared := by
  unfold call
  split
  · exact absurd rfl (h _)
  · split <;> rfl
  · split <;> rfl

theorem Current.call (h : s.Current) (c : Call) : (s.call c).Current := by
  by_cases hprepare : ∃ op, c = .prepare op
  · obtain ⟨op, rfl⟩ := hprepare
    exact h.prepare op
  · refine h.kept (call_prepared fun op hop => hprepare ⟨op, hop⟩) (h.call_ledger c)

theorem Current.resume (h : s.Current) (calls : List Call) :
    (s.resume calls).Current ∧ s.ledger.revision ≤ (s.resume calls).ledger.revision := by
  induction calls generalizing s with
  | nil => exact ⟨h, Int.le_refl _⟩
  | cons c calls ih =>
    obtain ⟨hcurrent, hle⟩ := ih (h.call c)
    refine ⟨hcurrent, Int.le_trans ?_ hle⟩
    rcases h.call_ledger c with hsame | hnext
    · exact Int.le_of_eq (congrArg Ledger.revision hsame.symm)
    · rw [hnext.revision_eq]
      omega

theorem run_current {draft : Sale.Draft} {settings : Settings} {outbox : Outbox} {clock : Int}
    {d : Desk} (h : Desk.start draft settings outbox clock = .ok d) (calls : List Call) :
    (run d calls).Current := by
  obtain ⟨sale, hsound, hledger⟩ := Desk.start_ledger h
  have hstart : Current ⟨d, [], []⟩ := by
    refine ⟨?_, by simp, by simp⟩
    show d.ledger.sale.Sound
    rw [hledger]
    exact hsound
  exact (hstart.resume calls).1

/-! Sessions are serial. -/

structure Serializable (s : Session) : Prop where
  /-- A commit that returns has sent all transfers and installs what its operation does to the live
  ledger. -/
  returned : ∀ op t n, (op, t) ∈ s.prepared → (s.commit t n).2 = .ok () →
    s.ledger.perform op = .ok t ∧ (s.commit t n).1.ledger = t.ledger ∧
      (s.commit t n).1.sent = s.sent ++ t.transfers
  /-- What is installed is of the next revision. -/
  next : ∀ c, (s.call c).ledger = s.ledger ∨
    (s.call c).ledger.revision = s.ledger.revision + 1
  /-- A commit that is refused as stale does nothing but to be counted. -/
  stale : ∀ op t n a b, (op, t) ∈ s.prepared → (s.commit t n).2 = .error (.fault (.stale a b)) →
    (s.commit t n).1 = { s with desk := s.desk.record Metrics.recordStaleCommit }
  /-- A commit whose first transfer is refused does nothing. -/
  refused : ∀ op t, (op, t) ∈ s.prepared → t.baseRevision = s.ledger.revision →
    t.transfers ≠ [] → ∃ who, s.commit t 0 = (s, .error (.refusedTransfer who))
  /-- What was committed, all or in part, is stale from then on. -/
  spent : ∀ op t n, (op, t) ∈ s.prepared →
    (s.commit t n).2 = .ok () ∨ (s.commit t n).1.ledger ≠ s.ledger ∨
      (s.commit t n).1.sent ≠ s.sent →
    ∀ later m, ∃ a b,
      (((s.commit t n).1.resume later).commit t m).2 = .error (.fault (.stale a b))

theorem Commits.eq_of_stale {r : Session × Except Failure Unit} {a b : Int}
    (h : s.Commits op t n r) (hstale : r.2 = .error (.fault (.stale a b))) :
    r.1 = { s with desk := s.desk.record Metrics.recordStaleCommit } := by
  cases h with
  | stale hbase => rfl
  | refused hbase htransfers => cases hstale
  | installs hbase hstep hledger htransfers hok hfault => exact absurd hstale (hfault _)

theorem Current.serializable (h : s.Current) : s.Serializable where
  returned := by
    intro op t n ht hok
    generalize hr : s.commit t n = r at hok
    cases hr ▸ h.commits ht n with
    | stale hbase => cases hok
    | refused hbase htransfers => cases hok
    | installs hbase hstep hledger htransfers hsame hfault =>
      cases hsame hok
      exact ⟨h.perform_eq op t ht hbase, hledger, congrArg (s.sent ++ ·) htransfers.symm⟩
  next := by
    intro c
    rcases h.call_ledger c with hsame | hnext
    · exact .inl hsame
    · exact .inr hnext.revision_eq
  stale := fun op t n a b ht hstale => (h.commits ht n).eq_of_stale hstale
  refused := by
    intro op t _ hbase hne
    obtain ⟨x, rest, htransfers⟩ := List.exists_cons_of_ne_nil hne
    exact ⟨x.recipient, commit_none hbase htransfers⟩
  spent := by
    intro op t n ht hdone later m
    rcases (h.commits ht n).ledger_cases with ⟨hledger, hsent, hfailed⟩ | ⟨hbase, hnext⟩
    · rcases hdone with hok | hmoved | hwent
      · exact absurd hok hfailed
      · exact absurd hledger hmoved
      · exact absurd hsent hwent
    · have hcurrent : (s.commit t n).1.Current := h.kept rfl (.inr hnext)
      have hle := (hcurrent.resume later).2
      have hrevision := hnext.revision_eq
      have hlost : t.baseRevision ≠ ((s.commit t n).1.resume later).ledger.revision := by omega
      rw [commit_of_stale hlost]
      exact ⟨_, _, rfl⟩

/-- Along every session, whatever clients call and wherever issuers stop, commits are serial. -/
theorem run_serializable {draft : Sale.Draft} {settings : Settings} {outbox : Outbox} {clock : Int}
    {d : Desk} (h : Desk.start draft settings outbox clock = .ok d) (calls : List Call) :
    (run d calls).Serializable :=
  (run_current h calls).serializable

def sampleCalls : List Call :=
  [.prepare (.deposit "tok" 1100 "tok" 0 none), .commit 0 0,
    .prepare (.deposit "alice" 10 "alice" 10 none), .prepare (.deposit "bob" 30 "bob" 20 none)]

theorem run_serializable_sample :
    Desk.start sampleSale.draft {} (.kept []) 0 = .ok sampleDesk ∧
      ∃ op t, (op, t) ∈ (run sampleDesk sampleCalls).prepared ∧
        ((run sampleDesk sampleCalls).commit t 0).2 = .ok () ∧
        (run sampleDesk sampleCalls).ledger.perform op = .ok t ∧
        ∀ later m, ∃ a b, ((((run sampleDesk sampleCalls).commit t 0).1.resume later).commit t m).2 =
          .error (.fault (.stale a b)) := by
  have hstart : Desk.start sampleSale.draft {} (.kept []) 0 = .ok sampleDesk := rfl
  obtain ⟨hreturned, -, -, -, hspent⟩ := run_serializable hstart sampleCalls
  have hisOk : (run sampleDesk sampleCalls).prepared[1]?.any (fun p =>
      ((run sampleDesk sampleCalls).commit p.2 0).2.isOk) = true := by
    decide +kernel
  cases hprepared : (run sampleDesk sampleCalls).prepared[1]? with
  | none =>
    rw [hprepared] at hisOk
    cases hisOk
  | some p =>
    have hmem := List.mem_of_getElem? hprepared
    have hok : ((run sampleDesk sampleCalls).commit p.2 0).2 = .ok () := by
      simp only [hprepared, Option.any_some] at hisOk
      cases hresult : ((run sampleDesk sampleCalls).commit p.2 0).2 with
      | ok u => rfl
      | error e =>
        rw [hresult] at hisOk
        cases hisOk
    exact ⟨hstart, p.1, p.2, hmem, hok, (hreturned p.1 p.2 0 hmem hok).1,
      hspent p.1 p.2 0 hmem (.inl hok)⟩

/-! Histories. -/

theorem Current.call_eq_turns {h : History} {c : Call} (hs : s.Current)
    (hundo : ∀ i, c ≠ .undo i) (hledger : h.ledger = s.ledger) (hsent : h.sent = s.sent) :
    ∃ turns : List Turn, (turns.foldl History.turn h).ledger = (s.call c).ledger ∧
      (turns.foldl History.turn h).sent = (s.call c).sent := by
  cases c with
  | prepare op =>
    obtain ⟨hsame, hkept, -⟩ := s.prepare_cases op
    exact ⟨[], hledger.trans hsame.symm, hsent.trans hkept.symm⟩
  | undo i => exact absurd rfl (hundo i)
  | commit i taken =>
    cases hi : s.prepared[i]? with
    | none =>
      simp only [Session.call, hi]
      exact ⟨[], hledger, hsent⟩
    | some p =>
      obtain ⟨op, t⟩ := p
      simp only [Session.call, hi]
      by_cases hbase : t.baseRevision = s.ledger.revision
      · have hdesk : t.baseRevision = s.desk.ledger.revision := hbase
        have hlive : h.desk.ledger = s.desk.ledger := hledger
        have hperform : h.ledger.perform op = .ok t :=
          hledger ▸ hs.perform_eq op t (List.mem_of_getElem? hi) hbase
        refine ⟨[⟨op, taken⟩], ?_, ?_⟩
        · show (h.turn ⟨op, taken⟩).ledger = (s.desk.commitFirst t taken).1.ledger
          rw [History.turn_of_ok hperform, Desk.commitFirst_of_base hdesk, History.ledger,
            Desk.installSent_ledger, Desk.installSent_ledger, hlive]
        · show (h.turn ⟨op, taken⟩).sent = s.sent ++ s.desk.sentFirst t taken
          rw [History.turn_of_ok hperform, Desk.sentFirst, if_neg (not_not_intro hdesk), ← hsent]
          simp [History.sent]
      · rw [commit_of_stale hbase]
        exact ⟨[], hledger.trans (Desk.record_ledger ..).symm, hsent⟩

/-- A session without undos is a history of the operations that it commits, in the order of its
commits. -/
theorem run_eq_history {draft : Sale.Draft} {settings : Settings} {outbox : Outbox} {clock : Int}
    {d : Desk} (hdesk : Desk.start draft settings outbox clock = .ok d) {calls : List Call}
    (hundo : ∀ c ∈ calls, ∀ i, c ≠ .undo i) :
    ∃ turns : List Turn, (History.run d turns).ledger = (run d calls).ledger ∧
      (History.run d turns).sent = (run d calls).sent := by
  suffices hresume : ∀ (s : Session) (h : History), s.Current → h.ledger = s.ledger →
      h.sent = s.sent → ∃ turns : List Turn,
        (turns.foldl History.turn h).ledger = (s.resume calls).ledger ∧
          (turns.foldl History.turn h).sent = (s.resume calls).sent by
    exact hresume ⟨d, [], []⟩ ⟨d, []⟩ (run_current hdesk []) rfl rfl
  induction calls with
  | nil => exact fun s h _ hledger hsent => ⟨[], hledger, hsent⟩
  | cons c calls ih =>
    intro s h hs hledger hsent
    obtain ⟨first, hledger', hsent'⟩ :=
      hs.call_eq_turns (hundo c List.mem_cons_self) hledger hsent
    obtain ⟨rest, hrun⟩ := ih (fun c' hc' => hundo c' (List.mem_cons_of_mem c hc')) (s.call c) _
      (hs.call c) hledger' hsent'
    refine ⟨first ++ rest, ?_⟩
    rw [List.foldl_append]
    exact hrun

end Session

end TokenSale
