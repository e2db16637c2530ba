import TokenSale.Binary64
import TokenSale.Ledger.Transition

/-!
Metrics of a sale desk, as `prometheus_client` documents its counters and gauges. A counter starts at
zero, is held in binary64 and takes any increment that is not negative; one with labels is a family
of counters, of which each appears with the first use of its label values. A gauge is set. Every
increment is rounded to 53 bits before and after it is added; below `2 ^ 53` counters are exact.
-/

namespace TokenSale

/-- The values of a metric with labels, each made when its label values are first used. -/
abbrev Tally := List (List String × Nat)

def Tally.update (f : Nat → Nat) (labels : List String) : Tally → Tally
  | [] => [(labels, f 0)]
  | (k, v) :: ts => if k = labels then (k, f v) :: ts else (k, v) :: update f labels ts

def Tally.value (labels : List String) (ts : Tally) : Nat := (List.lookup labels ts).getD 0

/-- The metrics. The label values of rejections are the code and the operation. -/
structure Metrics where
  transitions : Tally := []
  rejections : Tally := []
  deposited : Nat := 0
  refunded : Nat := 0
  withdrawn : Nat := 0
  claimed : Tally := []
  distributed : Nat := 0
  compensations : Tally := []
  staleCommits : Nat := 0
  status : Tally := []
deriving DecidableEq, Repr

namespace Metrics

abbrev Recorded := Metrics × Except Malformed Unit

/-- The value of a counter after `inc`, the sum of two doubles. -/
def increment (n v : Nat) : Nat := Binary64.roundNat (v + Binary64.roundNat n)

/-- The increment of an amount. `inc` refuses what is negative, and what binary64 cannot hold. -/
def amount? (n : Int) : Except Malformed Nat :=
  if n < 0 then .error .negativeIncrement
  else if Binary64.roundNat n.toNat < Nat.pow 2 1024 then .ok n.toNat
  else .error .beyondFloats

def addAmount (m : Metrics) (n : Int) (add : Metrics → Nat → Metrics) : Recorded :=
  match amount? n with
  | .ok n => (add m n, .ok ())
  | .error e => (m, .error e)

def addPositive (m : Metrics) (n : Int) (add : Metrics → Nat → Metrics) : Recorded :=
  if 0 < n then m.addAmount n add else (m, .ok ())

def andThen (r : Recorded) (f : Metrics → Recorded) : Recorded :=
  match r with
  | (m, .ok ()) => f m
  | (m, .error e) => (m, .error e)

def recordTransition (m : Metrics) (operation : String) : Metrics :=
  { m with transitions := m.transitions.update (increment 1) [operation] }

def recordRejection (m : Metrics) (operation code : String) : Metrics :=
  { m with rejections := m.rejections.update (increment 1) [code, operation] }

def recordDeposit (m : Metrics) (accepted refund : Int) : Recorded :=
  andThen (m.addPositive accepted fun m n => { m with deposited := increment n m.deposited })
    fun m => m.addPositive refund fun m n => { m with refunded := increment n m.refunded }

def recordWithdraw (m : Metrics) (amount : Int) : Recorded :=
  m.addPositive amount fun m n => { m with withdrawn := increment n m.withdrawn }

def recordClaim (m : Metrics) (amount : Int) (kind : String) : Recorded :=
  m.addPositive amount fun m n => { m with claimed := m.claimed.update (increment n) [kind] }

def recordDistribution (m : Metrics) (recipients : Int) : Recorded :=
  m.addAmount recipients fun m n => { m with distributed := increment n m.distributed }

def recordCompensation (m : Metrics) (operation : String) : Metrics :=
  { m with compensations := m.compensations.update (increment 1) [operation] }

def recordStaleCommit (m : Metrics) : Metrics :=
  { m with staleCommits := increment 1 m.staleCommits }

/-- Sets the status: one for it and zero for the others of a list. -/
def setStatus (m : Metrics) (status : String) (statuses : List String) : Metrics :=
  { m with
    status := statuses.foldl
      (fun t s => t.update (fun _ => if s = status then 1 else 0) [s]) m.status }

def participantKind : String := "participant"

def individualKind : String := "individual"

def claimKind (a : Action) : String :=
  if a = .claimIndividual then individualKind else participantKind

/-- Observes a transition that was committed. Funding counts as a transition and no more. -/
def observe (m : Metrics) (t : Transition) : Recorded :=
  let m := m.recordTransition t.action.name
  match t.action, t.outcome with
  | .deposit, .deposit accepted refund _ => m.recordDeposit accepted refund
  | a, .claim amount => m.recordClaim amount (claimKind a)
  | .withdraw, _ => m.recordWithdraw (sumOf Transfer.amount t.transfers)
  | .distribute, _ => m.recordDistribution t.change.recipientsAdded.length
  | _, _ => (m, .ok ())

end Metrics

end TokenSale
