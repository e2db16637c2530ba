import TokenSale.Desk.Outbox
import TokenSale.Ledger.Operation
import TokenSale.Ledger.Settlement
import TokenSale.Ledger.Undo
import TokenSale.Metrics
import TokenSale.Settings

/-!
The desk of a sale: the live ledger with its settings, metrics, outbox and clock.

An operation is prepared on the ledger and then committed. A commit is refused if the ledger has
moved on since. Its transfers go out first; if the first is refused nothing is installed, and if a
later one is refused the transition is installed narrowed to those that went out, so a second try
pays the rest and nobody twice.
-/

namespace TokenSale

structure Desk where
  ledger : Ledger
  settings : Settings
  metrics : Metrics
  outbox : Outbox
  clock : Int

namespace Desk

/-- A result that leaves a desk behind, also when it is an error. -/
abbrev Step (α : Type) := Desk × Except Failure α

def start (draft : Sale.Draft) (settings : Settings) (outbox : Outbox) (clock : Int) :
    Except Fault Desk := do
  settings.validate
  return { ledger := ← Ledger.start draft, settings, metrics := {}, outbox, clock }

def timeOf (d : Desk) (now : Option Int) : Int := now.getD d.clock

def limitOf (d : Desk) (limit : Option Int) : Option Int := limit <|> d.settings.batchLimit

def record (d : Desk) (f : Metrics → Metrics) : Desk :=
  if d.settings.metricsEnabled then { d with metrics := f d.metrics } else d

def status (d : Desk) (now : Int) : Desk × Status :=
  let s := d.ledger.status now
  (d.record fun m => m.setStatus s.name (Status.all.map Status.name), s)

/-- Counts a refused operation, if the fault is what comes out when it is raised. -/
def reject (d : Desk) (op : Operation) (f : Fault) : Desk :=
  match f.raised with
  | .fault f => d.record fun m => m.recordRejection op.name f.kind.code
  | _ => d

def prepare (d : Desk) (op : Operation) : Step Transition :=
  match d.ledger.perform op with
  | .ok t => (d, .ok t)
  | .error f => (d.reject op f, .error f.raised)

def install (d : Desk) (t : Transition) : Step Unit :=
  let d := { d with ledger := t.ledger }
  if d.settings.metricsEnabled then
    match d.metrics.observe t with
    | (metrics, r) => ({ d with metrics }, liftMalformed r)
  else (d, .ok ())

/-- Installs what there is to install once the first `sent` transfers went out. -/
def installSent (d : Desk) (t : Transition) (sent : Nat) : Step Unit :=
  if t.transfers.length ≤ sent then d.install t
  else if sent = 0 then (d, .ok ())
  else
    match t.settle sent with
    | .ok t => d.install t
    | .error f => (d, .error (.fault f))

def refusal : List Transfer → Except Failure Unit
  | [] => .ok ()
  | t :: _ => .error (.refusedTransfer t.recipient)

/-- Commits a transition that was prepared on the live ledger. The issuer is asked for one transfer
after the other, and all that it can do is to send it or to raise an exception on it. -/
def commit (d : Desk) (t : Transition) : Step Unit :=
  if t.baseRevision ≠ d.ledger.revision then
    (d.record Metrics.recordStaleCommit, .error (.fault (.stale t.baseRevision d.ledger.revision)))
  else
    let (outbox, unsent) := d.outbox.putAll t.transfers
    match { d with outbox }.installSent t (t.transfers.length - unsent.length) with
    | (d, .ok ()) => (d, refusal unsent)
    | (d, .error e) => (d, .error e)

def run (d : Desk) (op : Operation) : Step Transition :=
  match d.prepare op with
  | (d, .error e) => (d, .error e)
  | (d, .ok t) =>
    match d.commit t with
    | (d, .ok ()) => (d, .ok t)
    | (d, .error e) => (d, .error e)

/-- Undoes a transition whose transfers failed after they had gone out. -/
def compensate (d : Desk) (t : Transition) : Step Unit :=
  match d.ledger.compensate t with
  | .ok ledger =>
    ({ d with ledger }.record fun m => m.recordCompensation t.action.name, .ok ())
  | .error f => (d, .error (.fault f))

end Desk

end TokenSale
