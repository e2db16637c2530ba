import TokenSale.Binary64.Shortest
import TokenSale.Metrics

/-!
The exposition of metrics: a text with a line for each series under the help and the type of its
metric, and a list of samples by name.
-/

namespace TokenSale.Metrics

open TokenSale.Binary64

inductive Measure where
  | counter
  | gauge

def Measure.name : Measure → String
  | .counter => "counter"
  | .gauge => "gauge"

structure Family where
  name : String
  help : String
  measure : Measure
  labels : List String
  series : Tally

def counter (name help : String) (labels : List String) (series : Tally) : Family :=
  ⟨"launchpad_" ++ name ++ "_total", help, .counter, labels, series⟩

def plainCounter (name help : String) (value : Nat) : Family := counter name help [] [([], value)]

def families (m : Metrics) : List Family := [
  counter "transitions" "Committed transitions by operation." ["operation"] m.transitions,
  counter "rejections"
    "Operations rejected before producing a state, by operation and error code."
    ["code", "operation"] m.rejections,
  plainCounter "deposited_amount" "Deposit-token base units accepted into the sale." m.deposited,
  plainCounter "refunded_amount"
    "Deposit-token base units refunded because the cap was reached." m.refunded,
  plainCounter "withdrawn_amount" "Deposit-token base units withdrawn by participants."
    m.withdrawn,
  counter "claimed_amount" "Sale-token base units released by claims, by kind." ["kind"]
    m.claimed,
  plainCounter "distributed_recipients" "Recipients paid by distribution batches." m.distributed,
  counter "compensations" "Transitions undone after their transfers failed, by operation."
    ["operation"] m.compensations,
  plainCounter "stale_commits" "Commits refused because the snapshot changed underneath."
    m.staleCommits,
  ⟨"launchpad_status",
    "Last observed lifecycle status (1 for the current status, 0 otherwise).", .gauge,
    ["status"], m.status⟩]

def scientific (d : Decimal) (point : Int) : String :=
  let mantissa := match Nat.toDigits 10 d.digits with
    | [] => []
    | [c] => [c]
    | c :: rest => c :: '.' :: rest
  String.ofList mantissa ++ "e+0" ++ toString (point - 1)

/-- The text of a value: shortest decimal, scientific from seven digits before the point on. -/
def valueText (n : Nat) : String :=
  match Binary64.ofInt n with
  | .finite s m e =>
    let d := shortest m e
    let point : Int := digitCount d.digits + d.exponent
    if m ≠ 0 ∧ 6 < point ∧ point ≤ Layout.standard.greatestPoint then scientific d point
    else finiteText s m e
  | _ => "+Inf"

def escapeChar : Char → List Char
  | '\\' => ['\\', '\\']
  | '"' => ['\\', '"']
  | '\n' => ['\\', 'n']
  | c => [c]

def labelText (name value : String) : String :=
  name ++ "=\"" ++ String.ofList (value.toList.flatMap escapeChar) ++ "\""

def labelsText (names values : List String) : String :=
  if names.isEmpty then ""
  else "\x7b" ++ ",".intercalate (List.zipWith labelText names values) ++ "\x7d"

def Family.lines (f : Family) : List String :=
  ["# HELP " ++ f.name ++ " " ++ f.help, "# TYPE " ++ f.name ++ " " ++ f.measure.name] ++
    f.series.map fun s => f.name ++ labelsText f.labels s.1 ++ " " ++ valueText s.2

def exposition (m : Metrics) : String :=
  String.join ((m.families.flatMap Family.lines).map fun l => l ++ "\n")

structure Sample where
  name : String
  labels : List (String × String)
  value : Nat

def Family.samples (f : Family) : List Sample :=
  (f.series.mergeSort fun a b => !decide (b.1 < a.1)).map fun s =>
    ⟨f.name, f.labels.zip s.1, s.2⟩

def samples (m : Metrics) : List Sample :=
  (m.families.mergeSort fun a b => !decide (b.name < a.name)).flatMap Family.samples

end TokenSale.Metrics
