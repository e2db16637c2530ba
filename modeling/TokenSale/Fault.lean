import TokenSale.Malformed
import TokenSale.Report
import TokenSale.Status
import TokenSale.Transfer

/-!
The errors of the sale itself, each a cause, and the report of every cause.
-/

namespace TokenSale

open TokenSale.Text

inductive Fault where
  -- arithmetic
  | outsideU128 (name : String) (x : Int)
  | zeroDenominator
  | quotientOutsideU128 (x num den : Int)
  | basisPoints (bps : Int)
  -- reading a configuration
  | missingField (name : String)
  | malformedSale (reason : Malformed)
  | badTime (v : Datum)
  | badTimeText (s : String)
  | unknownMechanic (d : Datum)
  | badLimitVariable (name value : String)
  | badSwitchVariable (name value : String)
  | noFile
  | notMapping (path : String)
  -- checking a configuration
  | missingToken
  | fieldOutsideU128 (name : String) (v : Datum)
  | saleWindow (start stop : Int)
  | emptySale
  | earlyTge (tge : Datum) (saleEnd : Int)
  | unitNotPositive (name : String) (v : Datum)
  | discountPercentage (p : Datum)
  | discountWindow (start stop : Int)
  | discountOverlap (pairs : List (Nat × Nat))
  | negativeCliff
  | shortVesting (cliff period : Int)
  | instantShare (bps : Int)
  | missingSolver
  | negativeSolverAllocation
  | negativeAllocation (account : String)
  | repeatedRecipient (account : String)
  | splitShare (name : String) (bps : Int)
  | splitTotal (solver fee : Int)
  | reservedMismatch (total expected : Int)
  | batchLimit (limit : Int)
  -- operations
  | depositNotPositive (amount : Int)
  | withdrawalNotPositive (amount : Int)
  | adminWithdrawalNotPositive (amount : Int)
  | limitNotPositive (limit : Int)
  | fundingRefused (depositor : String)
  | fundingAmount (amount total : Int)
  | wrongStatus (action : Action) (status : Status) (allowed : List Status)
  | withdrawalClosed (status : Status)
  | notLocked
  | wrongDepositToken (token expected : String)
  | belowMinimum (amount least : Int)
  | partialFixedWithdrawal (amount available : Int)
  | excessiveWithdrawal (amount available : Int)
  | unknownParticipant (who : String)
  | noIndividualVesting (who : String)
  | nothingToDistribute
  | depositsDistributed
  | unknownToken (token : String)
  | stale (expected actual : Int)
  -- broken invariants
  | refundMismatch (amount refund accepted : Int)
  | excessiveRefund (amount refund excess : Int)
  | excessiveInstantShare
  | participantCount (count investments : Int)
  | totalsDrift (deposited sumAmount sold sumWeight : Int)
  | soldOverCap (sold cap : Int)
  | negativeInvestment (who : String)
  | negativeIndividualClaim (who : String)
  | negativeTotal
  | unsettledTransfers (action : Action) (reasons : List Reason)

namespace Fault

def report : Fault → Report
  | outsideU128 name x => .make .overflow s!"{name} outside the u128 range" [(name, .int x)]
  | zeroDenominator => .make .divisionByZero "denominator must be positive" []
  | quotientOutsideU128 x num den =>
    .make .overflow "result outside the u128 range"
      [("x", .int x), ("num", .int num), ("den", .int den)]
  | basisPoints bps =>
    .make .overflow "basis points must be within [0, 10000]" [("bps", .int bps)]
  | missingField name =>
    .config ("missing required field " ++ Quoted.quote name) (some (.text name)) []
  | malformedSale reason => .config ("malformed sale configuration: " ++ reason.message) none []
  | badTime v => .config ("invalid time value " ++ v.display) none []
  | badTimeText s => .config ("invalid ISO-8601 time " ++ Quoted.quote s) none []
  | unknownMechanic d => .config ("unknown mechanic " ++ d.display) (some (.text "mechanic")) []
  | badLimitVariable name value =>
    .config (s!"Invalid int for {name}: " ++ Quoted.quote value) none []
  | badSwitchVariable name value =>
    .config (s!"Invalid bool for {name}: " ++ Quoted.quote value) none []
  | noFile => .config "no sale configuration file given (set LAUNCHPAD_CONFIG_FILE)" none []
  | notMapping path => .config s!"{path} must contain a mapping at the top level" none []
  | missingToken =>
    .config "deposit_token and sale_token are required" (some (.text "deposit_token")) []
  | fieldOutsideU128 name v =>
    .config s!"{name} must be a non-negative u128 integer" (some (.text name)) [(name, v)]
  | saleWindow start stop =>
    .config "start_time must be before end_time" (some (.text "start_time"))
      [("start_time", .int start), ("end_time", .int stop)]
  | emptySale => .config "sale_amount must be positive" (some (.text "sale_amount")) []
  | earlyTge tge saleEnd =>
    .config "tge must be after end_time" (some (.text "tge"))
      [("tge", tge), ("end_time", .int saleEnd)]
  | unitNotPositive name v =>
    .config s!"{name} must be a positive integer" (some (.text name)) [(name, v)]
  | discountPercentage p =>
    .config "discount percentage must be within 1..10000" (some (.text "percentage"))
      [("percentage", p)]
  | discountWindow start stop =>
    .config "discount start_time must be before end_time" (some (.text "start_time"))
      [("start_time", .int start), ("end_time", .int stop)]
  | discountOverlap pairs =>
    .config "discount windows must not overlap" (some (.text "discounts"))
      [("overlapping", .list (pairs.map fun p => .list [.int p.1, .int p.2]))]
  | negativeCliff =>
    .config "cliff_period must be non-negative" (some (.text "cliff_period")) []
  | shortVesting cliff period =>
    .config "vesting_period must be greater than cliff_period" (some (.text "vesting_period"))
      [("cliff_period", .int cliff), ("vesting_period", .int period)]
  | instantShare bps =>
    .config "instant_claim_percentage must be within 0..10000"
      (some (.text "instant_claim_percentage")) [("instant_claim_percentage", .int bps)]
  | missingSolver => .config "solver_account is required" (some (.text "solver_account")) []
  | negativeSolverAllocation =>
    .config "solver_allocation must be non-negative" (some (.text "solver_allocation")) []
  | negativeAllocation account =>
    .config "stakeholder allocation must be non-negative" (some (.text "stakeholders"))
      [("account", .text account)]
  | repeatedRecipient account =>
    .config "distribution recipients must be distinct" (some (.text "stakeholders"))
      [("account", .text account)]
  | splitShare name bps =>
    .config s!"{name} must be within 0..10000" (some (.text name)) [(name, .int bps)]
  | splitTotal solver fee =>
    .config "solver_percentage + fee_percentage must not exceed 10000" (some (.text "deposits"))
      [("solver_percentage", .int solver), ("fee_percentage", .int fee)]
  | reservedMismatch total expected =>
    .config "total_sale_amount must equal sale_amount plus all reserved allocations"
      (some (.text "total_sale_amount"))
      [("total_sale_amount", .int total), ("expected", .int expected)]
  | batchLimit limit =>
    .config "distribution_batch_limit must be positive" (some (.text "distribution_batch_limit"))
      [("distribution_batch_limit", .int limit)]
  | depositNotPositive amount => .amount "deposit amount must be positive" (some amount) []
  | withdrawalNotPositive amount => .amount "withdraw amount must be positive" (some amount) []
  | adminWithdrawalNotPositive amount =>
    .amount "admin withdraw amount must be positive" (some amount) []
  | limitNotPositive limit => .amount "distribution batch limit must be positive" (some limit) []
  | fundingRefused depositor =>
    .status "only the sale token can fund an uninitialized sale" (.text Action.deposit.name)
      (.text Status.notInitialized.name) [("depositor", .text depositor)]
  | fundingAmount amount total =>
    .amount "funding deposit must equal total_sale_amount" (some amount)
      [("total_sale_amount", .int total)]
  | wrongStatus action status allowed =>
    .status Report.Kind.status.message (.text action.name) (.text status.name)
      [("allowed", .texts (allowed.map Status.name))]
  | withdrawalClosed status =>
    .status Report.Kind.status.message (.text Action.withdraw.name) (.text status.name) []
  | notLocked =>
    .status Report.Kind.status.message (.text Action.unlock.name) (.text "not_locked") []
  | wrongDepositToken token expected =>
    .make .unauthorized "unexpected deposit token"
      [("token", .text token), ("expected", .text expected)]
  | belowMinimum amount least =>
    .amount "deposit below min_deposit" (some amount) [("min_deposit", .int least)]
  | partialFixedWithdrawal amount available =>
    .amount "fixed-price withdrawals must take the full amount" (some amount)
      [("available", .int available)]
  | excessiveWithdrawal amount available =>
    .amount "withdraw amount exceeds the deposited amount" (some amount)
      [("available", .int available)]
  | unknownParticipant who => .participant Report.Kind.participant.message (.text who) []
  | noIndividualVesting who => .participant "no individual vesting for account" (.text who) []
  | nothingToDistribute =>
    .make .nothingToDistribute "sale tokens have already been distributed" []
  | depositsDistributed =>
    .make .nothingToDistribute
      "deposit tokens have already been distributed or no split is configured" []
  | unknownToken token => .make .unauthorized "unknown token" [("token", .text token)]
  | stale expected actual => .stale Report.Kind.stale.message expected actual []
  | refundMismatch amount refund accepted =>
    .make .invariant "refund exceeds the deposit"
      [("amount", .int amount), ("refund", .int refund), ("accepted", .int accepted)]
  | excessiveRefund amount refund excess =>
    .make .invariant "refund exceeds the deposit"
      [("amount", .int amount), ("refund", .int refund), ("excess", .int excess)]
  | excessiveInstantShare => .make .invariant "instant share exceeds allocation" []
  | participantCount count investments =>
    .make .invariant "participants_count does not match investments"
      [("participants_count", .int count), ("investments", .int investments)]
  | totalsDrift deposited sumAmount sold sumWeight =>
    .make .invariant "totals do not match investments"
      [("total_deposited", .int deposited), ("sum_amount", .int sumAmount),
        ("total_sold_tokens", .int sold), ("sum_weight", .int sumWeight)]
  | soldOverCap sold cap =>
    .make .invariant "total_sold_tokens exceeds sale_amount"
      [("total_sold_tokens", .int sold), ("sale_amount", .int cap)]
  | negativeInvestment who =>
    .make .invariant "delta would make an investment negative" [("participant", .text who)]
  | negativeIndividualClaim who =>
    .make .invariant "delta would make an individual claim negative" [("participant", .text who)]
  | negativeTotal => .make .invariant "delta would make a total negative" []
  | unsettledTransfers action reasons =>
    .make .invariant "transition cannot be partially settled"
      [("operation", .text action.name), ("pending", .texts (reasons.map Reason.name))]

def kind (f : Fault) : Report.Kind := f.report.kind

/-- The data that the text of a fault shows. -/
def shown : Fault → List Datum
  | badTime v => [v]
  | unknownMechanic d => [d]
  | f => f.report.details.map Prod.snd

end Fault

/-- Everything that can go wrong: a fault of the sale, a malformed datum, a file that is missing or
cannot be read, and a transfer that its issuer refused. -/
inductive Failure where
  | fault (f : Fault)
  | malformed (m : Malformed)
  | missingFile (path : String)
  | unreadableJson
  | unreadableYaml
  | refusedTransfer (recipient : String)

def Failure.message : Failure → String
  | .fault f => f.report.render
  | .malformed m => m.message
  | .missingFile path => path
  | .unreadableJson | .unreadableYaml => ""
  | .refusedTransfer recipient => s!"issuer failed for {recipient}"

/-- A fault is raised with its text. An integer that is too long for a text fails in its place. -/
def Fault.raised (f : Fault) : Failure :=
  if f.shown.all Datum.isShowable then .fault f else .malformed .longInteger

theorem Fault.raised_eq_fault {f g : Fault} (h : f.raised = .fault g) : f = g := by
  unfold raised at h
  split at h <;> cases h
  rfl

instance : Coe Fault Failure := ⟨.fault⟩
instance : Coe Malformed Failure := ⟨.malformed⟩

def liftFault (r : Except Fault α) : Except Failure α := r.mapError Fault.raised

@[simp] theorem liftFault_ok (a : α) : liftFault (.ok a) = .ok a := rfl

@[simp] theorem liftFault_error (f : Fault) :
    liftFault (.error f : Except Fault α) = .error f.raised := rfl

def liftMalformed (r : Except Malformed α) : Except Failure α := r.mapError .malformed

@[simp] theorem liftMalformed_ok (a : α) : liftMalformed (.ok a) = .ok a := rfl

@[simp] theorem liftMalformed_error (m : Malformed) :
    liftMalformed (.error m : Except Malformed α) = .error (.malformed m) := rfl

end TokenSale
