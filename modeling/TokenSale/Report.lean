import TokenSale.Datum.Json.Printer

/-!
Error reports: what an error shows to callers. A report has a kind with a stable code, a message,
and details; its text is `CODE: message [details]`, the details in compact JSON and left out when
there are none.
-/

namespace TokenSale

inductive Report.Kind where
  | general
  | config
  | amount
  | status
  | participant
  | unauthorized
  | nothingToDistribute
  | overflow
  | divisionByZero
  | invariant
  | stale
deriving DecidableEq, Repr

namespace Report.Kind

def name : Kind → String
  | .general => "LaunchpadError"
  | .config => "ConfigError"
  | .amount => "InvalidAmount"
  | .status => "InvalidStatus"
  | .participant => "UnknownParticipant"
  | .unauthorized => "Unauthorized"
  | .nothingToDistribute => "NothingToDistribute"
  | .overflow => "ArithmeticOverflow"
  | .divisionByZero => "DivisionByZero"
  | .invariant => "InvariantViolation"
  | .stale => "StaleTransition"

def code : Kind → String
  | .general => "LAUNCHPAD_ERROR"
  | .config => "LAUNCHPAD_CONFIG_ERROR"
  | .amount => "LAUNCHPAD_INVALID_AMOUNT"
  | .status => "LAUNCHPAD_INVALID_STATUS"
  | .participant => "LAUNCHPAD_UNKNOWN_PARTICIPANT"
  | .unauthorized => "LAUNCHPAD_UNAUTHORIZED"
  | .nothingToDistribute => "LAUNCHPAD_NOTHING_TO_DISTRIBUTE"
  | .overflow => "LAUNCHPAD_ARITHMETIC_OVERFLOW"
  | .divisionByZero => "LAUNCHPAD_DIVISION_BY_ZERO"
  | .invariant => "LAUNCHPAD_INVARIANT_VIOLATION"
  | .stale => "LAUNCHPAD_STALE_TRANSITION"

def message : Kind → String
  | .config => "invalid sale configuration"
  | .amount => "invalid amount"
  | .status => "operation not permitted in current status"
  | .participant => "unknown participant"
  | .stale => "transition was computed against a stale snapshot"
  | _ => ""

def isArithmetic : Kind → Bool
  | .overflow | .divisionByZero => true
  | _ => false

def all : List Kind :=
  [.general, .config, .amount, .status, .participant, .unauthorized, .nothingToDistribute,
    .overflow, .divisionByZero, .invariant, .stale]

end Report.Kind

abbrev Details := List (String × Datum)

def Details.put (ds : Details) (k : String) (v : Datum) : Details :=
  ds.filter (fun d => d.1 != k) ++ [(k, v)]

def Details.putNew (ds : Details) (k : String) (v : Datum) : Details :=
  if ds.any (fun d => d.1 == k) then ds else ds ++ [(k, v)]

structure Report where
  kind : Report.Kind
  message : String
  details : Details

namespace Report

/-- A report; an empty message becomes the name of the kind. -/
def make (kind : Kind) (message : String) (details : Details) : Report :=
  ⟨kind, if message.isEmpty then kind.name else message, details⟩

def config (message : String) (field? : Option Datum) (details : Details) : Report :=
  make .config message (match field? with
    | some f => details.putNew "field" f
    | none => details)

def amount (message : String) (amount? : Option Int) (details : Details) : Report :=
  make .amount message (match amount? with
    | some n => details.putNew "amount" (.int n)
    | none => details)

def status (message : String) (operation status : Datum) (details : Details) : Report :=
  make .status message ((details.put "operation" operation).put "status" status)

def participant (message : String) (who : Datum) (details : Details) : Report :=
  make .participant message (details.put "participant" who)

def stale (message : String) (expected actual : Int) (details : Details) : Report :=
  make .stale message ((details.put "expected_revision" (.int expected)).put "actual_revision"
    (.int actual))

def code (r : Report) : String := r.kind.code

def render (r : Report) : String :=
  r.code ++ ": " ++ r.message ++
    (if r.details.isEmpty then ""
      else " [" ++ Datum.Json.compact (.record r.details) ++ "]")

def toDatum (r : Report) : Datum :=
  .record [("code", .text r.code), ("message", .text r.message), ("details", .record r.details)]

end Report

end TokenSale
