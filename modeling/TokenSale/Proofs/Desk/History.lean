import TokenSale.Desk
import TokenSale.Proofs.Ledger.Settlement

/-!
Histories of a desk. An issuer may refuse any transfer, so a turn is an operation with the number of
transfers that the issuer takes; the history keeps, for every turn, what was prepared, what was
committed of it and which transfers went out.

Every turn writes an entry of one of two kinds: nothing was committed and nothing went out, or a step
of the ledger was committed whose transfers are exactly those that went out. Facts about histories are
proved by induction on this.
-/

namespace TokenSale

/-- An operation at a desk, and how many of its transfers the issuer takes before it refuses one. -/
structure Turn where
  op : Operation
  taken : Nat

structure Entry where
  op : Operation
  prepared : Except Failure Transition
  committed : Option Transition
  sent : List Transfer

/-- What is committed of a transition once `n` of its transfers went out. -/
def Transition.committed (t : Transition) (n : Nat) : Option Transition :=
  if t.transfers.length ≤ n then some t
  else if n = 0 then none
  else (t.settle n).toOption

structure History where
  desk : Desk
  entries : List Entry := []

namespace History

def ledger (h : History) : Ledger := h.desk.ledger

def sent (h : History) : List Transfer := h.entries.flatMap Entry.sent

def turn (h : History) (x : Turn) : History :=
  match h.desk.prepare x.op with
  | (desk, .error e) => ⟨desk, h.entries ++ [⟨x.op, .error e, none, []⟩]⟩
  | (desk, .ok t) =>
    ⟨(desk.installSent t x.taken).1,
      h.entries ++ [⟨x.op, .ok t, t.committed x.taken, t.transfers.take x.taken⟩]⟩

def run (d : Desk) (turns : List Turn) : History := turns.foldl turn ⟨d, []⟩

theorem run_append (d : Desk) (turns : List Turn) (x : Turn) :
    run d (turns ++ [x]) = (run d turns).turn x := by
  simp [run]

end History

namespace Desk

@[simp] theorem record_ledger (d : Desk) (f : Metrics → Metrics) :
    (d.record f).ledger = d.ledger := by
  unfold record
  split <;> rfl

@[simp] theorem record_outbox (d : Desk) (f : Metrics → Metrics) :
    (d.record f).outbox = d.outbox := by
  unfold record
  split <;> rfl

@[simp] theorem reject_ledger (d : Desk) (op : Operation) (f : Fault) :
    (d.reject op f).ledger = d.ledger := by
  unfold reject
  split
  · exact record_ledger d _
  · rfl

@[simp] theorem reject_outbox (d : Desk) (op : Operation) (f : Fault) :
    (d.reject op f).outbox = d.outbox := by
  unfold reject
  split
  · exact record_outbox d _
  · rfl

theorem start_ledger {draft : Sale.Draft} {settings : Settings} {outbox : Outbox} {clock : Int}
    {d : Desk} (h : Desk.start draft settings outbox clock = .ok d) :
    ∃ s : Sale, s.Sound ∧ d.ledger = { sale := s } := by
  simp only [Desk.start, Ledger.start, bind_eq_ok, pure_eq_ok] at h
  obtain ⟨-, -, l, ⟨s, hs, rfl⟩, rfl⟩ := h
  exact ⟨s, Sale.sound_of_check hs, rfl⟩

theorem prepare_of_ok {d : Desk} {op : Operation} {t : Transition}
    (h : d.ledger.perform op = .ok t) : d.prepare op = (d, .ok t) := by
  simp only [prepare, h]

theorem prepare_of_error {d : Desk} {op : Operation} {f : Fault}
    (h : d.ledger.perform op = .error f) :
    d.prepare op = (d.reject op f, .error f.raised) := by
  simp only [prepare, h]

@[simp] theorem install_ledger (d : Desk) (t : Transition) : (d.install t).1.ledger = t.ledger := by
  simp only [install]
  split <;> rfl

@[simp] theorem install_outbox (d : Desk) (t : Transition) : (d.install t).1.outbox = d.outbox := by
  simp only [install]
  split <;> rfl

@[simp] theorem installSent_outbox (d : Desk) (t : Transition) (n : Nat) :
    (d.installSent t n).1.outbox = d.outbox := by
  unfold installSent
  split
  · exact install_outbox d t
  · split
    · rfl
    · split
      · exact install_outbox d _
      · rfl

theorem installSent_ledger (d : Desk) (t : Transition) (n : Nat) :
    (d.installSent t n).1.ledger = ((t.committed n).map Transition.ledger).getD d.ledger := by
  unfold installSent Transition.committed
  split
  · exact install_ledger d t
  · split
    · rfl
    · cases t.settle n with
      | ok t' => exact install_ledger d t'
      | error f => rfl

end Desk

namespace Ledger

/-- The entries that an operation can write on a ledger, with the ledger after it. -/
inductive Writes (l : Ledger) : Entry → Ledger → Prop where
  | idle {op : Operation} {prepared : Except Failure Transition}
      (hprepared : liftFault (l.perform op) = prepared) : Writes l ⟨op, prepared, none, []⟩ l
  | step {op : Operation} {prepared : Except Failure Transition} {t : Transition}
      (hprepared : liftFault (l.perform op) = prepared) (h : Step l op t) :
      Writes l ⟨op, prepared, some t, t.transfers⟩ t.ledger

theorem Writes.sale_eq {l l' : Ledger} {e : Entry} (h : Writes l e l') : l'.sale = l.sale := by
  cases h with
  | idle hprepared => rfl
  | step hprepared h => exact h.sale_eq

theorem Writes.prepared_eq {l l' : Ledger} {e : Entry} (h : Writes l e l') :
    liftFault (l.perform e.op) = e.prepared := by
  cases h with
  | idle hprepared => exact hprepared
  | step hprepared h => exact hprepared

theorem Step.writes_committed {l : Ledger} {op : Operation} {t : Transition}
    {prepared : Except Failure Transition} (h : Step l op t) (hsale : l.sale.Sound)
    (hprepared : liftFault (l.perform op) = prepared) (n : Nat) :
    Writes l ⟨op, prepared, t.committed n, t.transfers.take n⟩
      (((t.committed n).map Transition.ledger).getD l) := by
  unfold Transition.committed
  split
  · rename_i hall
    rw [List.take_of_length_le hall]
    exact .step hprepared h
  · rename_i hpart
    split
    · rename_i hnone
      rw [hnone]
      exact .idle hprepared
    · rename_i hsome
      obtain ⟨t', hsettle, htransfers, h'⟩ :=
        h.settle hsale (Nat.pos_of_ne_zero hsome) (Nat.lt_of_not_le hpart)
      rw [hsettle, ← htransfers]
      exact .step hprepared h'

end Ledger

namespace History

theorem turn_of_ok {h : History} {x : Turn} {t : Transition} (ht : h.ledger.perform x.op = .ok t) :
    h.turn x = ⟨(h.desk.installSent t x.taken).1,
      h.entries ++ [⟨x.op, .ok t, t.committed x.taken, t.transfers.take x.taken⟩]⟩ := by
  simp only [turn, Desk.prepare_of_ok (show h.desk.ledger.perform x.op = .ok t from ht)]

theorem turn_of_error {h : History} {x : Turn} {f : Fault}
    (hf : h.ledger.perform x.op = .error f) :
    h.turn x = ⟨h.desk.reject x.op f, h.entries ++ [⟨x.op, .error f.raised, none, []⟩]⟩ := by
  simp only [turn, Desk.prepare_of_error (show h.desk.ledger.perform x.op = .error f from hf)]

theorem turn_writes (h : History) (x : Turn) (hsale : h.ledger.sale.Sound) :
    ∃ e, (h.turn x).entries = h.entries ++ [e] ∧ e.op = x.op ∧
      Ledger.Writes h.ledger e (h.turn x).ledger := by
  cases hperform : h.ledger.perform x.op with
  | error f =>
    have hprepared : liftFault (h.ledger.perform x.op) = .error f.raised := by
      rw [hperform, liftFault_error]
    rw [turn_of_error hperform]
    refine ⟨_, rfl, rfl, ?_⟩
    show Ledger.Writes h.ledger _ (h.desk.reject x.op f).ledger
    rw [Desk.reject_ledger]
    exact .idle hprepared
  | ok t =>
    have hprepared : liftFault (h.ledger.perform x.op) = .ok t := by
      rw [hperform, liftFault_ok]
    rw [turn_of_ok hperform]
    refine ⟨_, rfl, rfl, ?_⟩
    show Ledger.Writes h.ledger _ (h.desk.installSent t x.taken).1.ledger
    rw [Desk.installSent_ledger]
    exact (Ledger.step_of_perform hperform).writes_committed hsale hprepared x.taken

/-- What holds of an empty ledger of a sound sale, and is kept by every entry that can be written,
holds of every history of a desk. The sale never changes. -/
theorem run_induct {P : Ledger → List Entry → Prop} {draft : Sale.Draft} {settings : Settings}
    {outbox : Outbox} {clock : Int} {d : Desk}
    (hdesk : Desk.start draft settings outbox clock = .ok d)
    (hstart : ∀ s : Sale, s.Sound → P { sale := s } [])
    (hwrite : ∀ l es e l', l.sale.Sound → P l es → Ledger.Writes l e l' → P l' (es ++ [e]))
    (turns : List Turn) :
    P (run d turns).ledger (run d turns).entries ∧
      (run d turns).ledger.sale = d.ledger.sale := by
  obtain ⟨s, hsound, hledger⟩ := Desk.start_ledger hdesk
  suffices hfold : ∀ h : History, P h.ledger h.entries ∧ h.ledger.sale = s →
      P (turns.foldl turn h).ledger (turns.foldl turn h).entries ∧
        (turns.foldl turn h).ledger.sale = s by
    rw [hledger]
    apply hfold
    show P d.ledger [] ∧ d.ledger.sale = s
    rw [hledger]
    exact ⟨hstart s hsound, rfl⟩
  induction turns with
  | nil => exact fun h hh => hh
  | cons x turns ih =>
    intro h ⟨hP, hsale⟩
    have hs : h.ledger.sale.Sound := hsale ▸ hsound
    obtain ⟨e, hentries, -, hwrites⟩ := h.turn_writes x hs
    apply ih
    rw [hentries]
    exact ⟨hwrite _ _ _ _ hs hP hwrites, hwrites.sale_eq.trans hsale⟩

theorem run_sale_eq {draft : Sale.Draft} {settings : Settings} {outbox : Outbox} {clock : Int}
    {d : Desk} (hdesk : Desk.start draft settings outbox clock = .ok d) (turns : List Turn) :
    (run d turns).ledger.sale = d.ledger.sale :=
  (run_induct (P := fun _ _ => True) hdesk (fun _ _ => trivial) (fun _ _ _ _ _ _ _ => trivial)
    turns).2

theorem run_sale_sound {draft : Sale.Draft} {settings : Settings} {outbox : Outbox} {clock : Int}
    {d : Desk} (hdesk : Desk.start draft settings outbox clock = .ok d) (turns : List Turn) :
    (run d turns).ledger.sale.Sound := by
  obtain ⟨s, hsound, hledger⟩ := Desk.start_ledger hdesk
  rw [run_sale_eq hdesk, hledger]
  exact hsound

theorem run_ops (d : Desk) (turns : List Turn) :
    (run d turns).entries.map Entry.op = turns.map Turn.op := by
  suffices hfold : ∀ h : History, (turns.foldl turn h).entries.map Entry.op =
      h.entries.map Entry.op ++ turns.map Turn.op by
    exact hfold ⟨d, []⟩
  induction turns with
  | nil => simp
  | cons x turns ih =>
    intro h
    have hturn : (h.turn x).entries.map Entry.op = h.entries.map Entry.op ++ [x.op] := by
      unfold turn
      split <;> simp
    rw [List.foldl_cons, ih, hturn, List.map_cons, List.append_assoc]
    rfl

end History

/-! Desks in use are desks with a history: what an outbox lets out is one of the counts above. -/

namespace Outbox

def taken (o : Outbox) : List Transfer := o.issued ++ o.sent

theorem put_taken (o : Outbox) (t : Transfer) :
    (o.put t).1.taken = if (o.put t).2 then o.taken ++ [t] else o.taken := by
  cases o with
  | kept ts => simp [put, taken, issued, sent]
  | issuing refusing ts =>
    simp only [put]
    split <;> simp [taken, issued, sent]

theorem putAll_taken (o : Outbox) (ts : List Transfer) :
    (o.putAll ts).1.taken = o.taken ++ ts.take (ts.length - (o.putAll ts).2.length) := by
  induction ts generalizing o with
  | nil => simp [putAll]
  | cons t ts ih =>
    have hput := put_taken o t
    simp only [putAll]
    split
    · rename_i o' heq
      have hle := (putAll_suffix o' ts).length_le
      simp only [heq, if_true] at hput
      have hcount : (t :: ts).length - (o'.putAll ts).2.length =
          ts.length - (o'.putAll ts).2.length + 1 := by
        simp only [List.length_cons]
        omega
      rw [ih, hput, hcount, List.take_succ_cons, List.append_assoc, List.singleton_append]
    · rename_i o' heq
      simp only [heq] at hput
      simpa using hput

end Outbox

/-- If every step of one system is a step of another with the same label, then so is every run. -/
theorem exists_foldl {α β σ τ : Type} (R : σ → τ → Prop) {label : α → β} {f : σ → α → σ}
    {g : τ → β → τ} {ys : List β} (h : ∀ y ∈ ys, ∀ s t, R s t → ∃ x, label x = y ∧ R (f s x) (g t y))
    {s : σ} {t : τ} (hst : R s t) :
    ∃ xs : List α, xs.map label = ys ∧ R (xs.foldl f s) (ys.foldl g t) := by
  induction ys generalizing s t with
  | nil => exact ⟨[], rfl, hst⟩
  | cons y ys ih =>
    obtain ⟨x, hlabel, hnext⟩ := h y List.mem_cons_self s t hst
    obtain ⟨xs, hlabels, hrun⟩ := ih (fun y' hy' => h y' (List.mem_cons_of_mem y hy')) hnext
    exact ⟨x :: xs, by rw [List.map_cons, hlabel, hlabels], hrun⟩

namespace Desk

def runAll (d : Desk) (ops : List Operation) : Desk := ops.foldl (fun d op => (d.run op).1) d

def issuedCount (d : Desk) (t : Transition) : Nat :=
  t.transfers.length - (d.outbox.putAll t.transfers).2.length

theorem commit_ledger {d : Desk} {t : Transition} (hbase : t.baseRevision = d.ledger.revision) :
    (d.commit t).1.ledger =
      (({ d with outbox := (d.outbox.putAll t.transfers).1 }).installSent t
        (d.issuedCount t)).1.ledger := by
  simp only [issuedCount, commit, hbase, ne_eq, not_true_eq_false, if_false]
  split <;> simp_all

theorem commit_outbox {d : Desk} {t : Transition} (hbase : t.baseRevision = d.ledger.revision) :
    (d.commit t).1.outbox = (d.outbox.putAll t.transfers).1 := by
  have hinstall := installSent_outbox { d with outbox := (d.outbox.putAll t.transfers).1 } t
    (d.issuedCount t)
  simp only [issuedCount] at hinstall
  simp only [commit, hbase, ne_eq, not_true_eq_false, if_false]
  split <;> simp_all

theorem run_of_ok {d : Desk} {op : Operation} {t : Transition} (h : d.ledger.perform op = .ok t) :
    (d.run op).1 = (d.commit t).1 := by
  simp only [run, prepare_of_ok h]
  split <;> simp_all

/-- An operation that a desk runs is a turn: from the ledger of a history it leads to the ledger of
the history after the turn, and the outbox takes the transfers of the turn. -/
theorem run_eq_turn {d : Desk} {h : History} {base : List Transfer} (op : Operation)
    (hledger : h.ledger = d.ledger) (htaken : d.outbox.taken = base ++ h.sent) :
    ∃ n, (h.turn ⟨op, n⟩).ledger = (d.run op).1.ledger ∧
      (d.run op).1.outbox.taken = base ++ (h.turn ⟨op, n⟩).sent := by
  cases hperform : d.ledger.perform op with
  | error f =>
    have hdesk : h.desk.ledger = d.ledger := hledger
    have hrun : (d.run op).1 = d.reject op f := by
      simp only [run, prepare_of_error hperform]
    refine ⟨0, ?_, ?_⟩
    · rw [hrun, History.turn_of_error (hledger ▸ hperform), History.ledger, reject_ledger,
        reject_ledger, hdesk]
    · rw [hrun, History.turn_of_error (hledger ▸ hperform), reject_outbox, htaken]
      simp [History.sent]
  | ok t =>
    have hbase : t.baseRevision = d.ledger.revision :=
      (Ledger.step_of_perform hperform).baseRevision_eq
    have hturn : h.turn ⟨op, d.issuedCount t⟩ = ⟨(h.desk.installSent t (d.issuedCount t)).1,
        h.entries ++ [⟨op, .ok t, t.committed (d.issuedCount t),
          t.transfers.take (d.issuedCount t)⟩]⟩ :=
      History.turn_of_ok (hledger ▸ hperform)
    have hdesk : h.desk.ledger = d.ledger := hledger
    refine ⟨d.issuedCount t, ?_, ?_⟩
    · rw [run_of_ok hperform, commit_ledger hbase, hturn, installSent_ledger, History.ledger,
        installSent_ledger, hdesk]
    · rw [run_of_ok hperform, commit_outbox hbase, hturn, Outbox.putAll_taken, htaken]
      simp [History.sent, issuedCount]

/-- A desk that runs operations has the ledger of a history of them, and its outbox has taken the
transfers of that history. -/
theorem runAll_eq_run (d : Desk) (ops : List Operation) :
    ∃ turns : List Turn, turns.map Turn.op = ops ∧
      (History.run d turns).ledger = (d.runAll ops).ledger ∧
      (d.runAll ops).outbox.taken = d.outbox.taken ++ (History.run d turns).sent := by
  have hstart : d.outbox.taken = d.outbox.taken ++ (⟨d, []⟩ : History).sent := by
    simp [History.sent]
  refine exists_foldl (fun (h : History) (d' : Desk) => h.ledger = d'.ledger ∧
    d'.outbox.taken = d.outbox.taken ++ h.sent) (fun op _ h d' hh => ?_) ⟨rfl, hstart⟩
  obtain ⟨n, hledger, htaken⟩ := run_eq_turn op hh.1 hh.2
  exact ⟨⟨op, n⟩, rfl, hledger, htaken⟩

end Desk

/-! A sale and some turns of it, on which results below are tried. -/

def sampleSale : Sale where
  depositToken := "usdc"
  saleToken := "tok"
  startTime := 0
  endTime := 100
  softCap := 0
  mechanic := .priceDiscovery
  saleAmount := 1000
  totalSaleAmount := 1100
  vesting := none
  plan := some
    { solver := "solver"
      solverAllocation := 50
      stakeholders := [⟨"ann", 30, none⟩, ⟨"vic", 20, some ⟨10, 100, none, .immediate⟩⟩]
      deposits := some ⟨9000, "fees", 500⟩ }
  discounts := []
  minDeposit := 1
  tge := none

def sampleDesk : Desk where
  ledger := { sale := sampleSale }
  settings := {}
  metrics := {}
  outbox := .kept []
  clock := 0

/-- A run to the end of the sample, in which a batch and the legs are stopped once. -/
def sampleTurns : List Turn :=
  [⟨.deposit "tok" 1100 "tok" 0 none, 0⟩, ⟨.deposit "alice" 10 "alice" 10 none, 0⟩,
    ⟨.deposit "bob" 30 "bob" 20 none, 0⟩, ⟨.withdraw "bob" 10 30, 1⟩, ⟨.claim "alice" 100, 1⟩,
    ⟨.distributeNext 100 none, 1⟩, ⟨.distributeNext 150 (some 5), 1⟩, ⟨.distributeDeposits 150, 1⟩,
    ⟨.distributeDeposits 160, 1⟩, ⟨.claimIndividual "vic" 200, 1⟩, ⟨.distributeNext 200 none, 0⟩]

end TokenSale
