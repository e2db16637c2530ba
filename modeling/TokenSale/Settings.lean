import TokenSale.Demand
import TokenSale.Fault
import TokenSale.Text.Blank
import TokenSale.Text.LowerCase

/-!
Settings of a sale desk, and their reading from environment variables on top of given ones.
-/

namespace TokenSale

open TokenSale.Text

/-- How many recipients a batch pays at most, all of them if none is given, and whether the desk
keeps metrics. -/
structure Settings where
  batchLimit : Option Int := none
  metricsEnabled : Bool := true
deriving DecidableEq, Repr

abbrev Environment := List (String × String)

namespace Settings

def validate (s : Settings) : Except Fault Unit :=
  match s.batchLimit with
  | none => .ok ()
  | some n => demand (0 < n) (.batchLimit n)

def toDatum (s : Settings) : Datum :=
  .record [("distribution_batch_limit", .ofOption .int s.batchLimit),
    ("metrics_enabled", .bool s.metricsEnabled)]

def variableIn (env : Environment) (name : String) : Option String :=
  (env.lookup name).filter fun v => v != ""

/-- The batch limit of a variable; underscores in it do not count. -/
def readLimit (env : Environment) (name : String) (default : Option Int) :
    Except Fault (Option Int) :=
  match variableIn env name with
  | none => .ok default
  | some v =>
    match Numeral.readChars (v.toList.filter (· != '_')) with
    | .ok n => .ok (some n)
    | .error _ => .error (.badLimitVariable name v)

def switchWord? (s : String) : Option Bool :=
  if s ∈ ["1", "true", "yes", "on"] then some true
  else if s ∈ ["0", "false", "no", "off"] then some false
  else none

def readSwitch (env : Environment) (name : String) (default : Bool) : Except Fault Bool :=
  match variableIn env name with
  | none => .ok default
  | some v =>
    match switchWord? (lower (String.ofList (trim v.toList))) with
    | some b => .ok b
    | none => .error (.badSwitchVariable name v)

def standardStem : String := "LAUNCHPAD_"

def ofEnvironment (env : Environment) (base : Settings) (stem : String) :
    Except Fault Settings := do
  let batchLimit ← readLimit env (stem ++ "DISTRIBUTION_BATCH_LIMIT") base.batchLimit
  let metricsEnabled ← readSwitch env (stem ++ "METRICS_ENABLED") base.metricsEnabled
  let s : Settings := { batchLimit, metricsEnabled }
  s.validate
  return s

end Settings

end TokenSale
