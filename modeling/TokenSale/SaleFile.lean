import TokenSale.Datum.Json.Reader
import TokenSale.Datum.Yaml.Reader
import TokenSale.Sale.Reader

/-!
Sale files: a sale and the settings of its desk in a JSON or YAML file.
-/

namespace TokenSale

open TokenSale.Text

structure SaleFile where
  sale : Sale
  settings : Settings
deriving DecidableEq

abbrev Files := List (String × String)

namespace SaleFile

def parts : List Char → List (List Char)
  | [] => [[]]
  | c :: cs => if c = '/' then [] :: parts cs else (parts cs).modifyHead (c :: ·)

/-- The slashes in front of a path count as one, but two of them as two. -/
def root (path : List Char) : List Char :=
  match path.takeWhile (· == '/') with
  | [] => []
  | ['/', '/'] => ['/', '/']
  | _ => ['/']

/-- A path without empty parts and parts that stay where they are. -/
def normalPath (path : String) : String :=
  let kept := (parts path.toList).filter fun p => p != [] && p != ['.']
  let whole := root path.toList ++ ['/'].intercalate kept
  if whole.isEmpty then "." else String.ofList whole

/-- The suffix of a file name: from the last point on, if something stands before and after it. -/
def suffix (name : List Char) : List Char :=
  let after := (name.reverse.takeWhile (· != '.')).reverse
  let before := name.take (name.length - after.length - 1)
  if before.isEmpty || after.isEmpty || after.length == name.length then [] else '.' :: after

def isYaml (path : String) : Bool :=
  let name := (path.toList.reverse.takeWhile (· != '/')).reverse
  lower (String.ofList (suffix name)) ∈ [".yaml", ".yml"]

def joinLines : List Char → List Char
  | '\r' :: '\n' :: cs => '\n' :: joinLines cs
  | '\r' :: cs => '\n' :: joinLines cs
  | c :: cs => c :: joinLines cs
  | [] => []

def readJson (text : String) : Except Failure Datum :=
  if text.isEmpty then .ok (.map [])
  else
    match Datum.Json.read? text with
    | some d => .ok d
    | none => .error .unreadableJson

/-- The datum of a YAML text; one that counts as absent is an empty mapping. -/
def readYaml (text : String) : Except Failure Datum := do
  let d ← Datum.Yaml.read text
  return if d.isPresent then d else .map []

def readMapping (files : Files) (path : String) : Except Failure Datum := do
  let path := normalPath path
  match files.lookup path with
  | none => .error (.missingFile path)
  | some text =>
    let text := String.ofList (joinLines text.toList)
    let d ← if isYaml path then readYaml text else readJson text
    match d with
    | .map es => return .map es
    | _ => .error (.fault (.notMapping path))

def deskPart (d : Datum) : Except Failure Datum := do
  return (Datum.present? (← liftMalformed (d.field? "engine"))).getD (.map [])

def ofDatum (d : Datum) : Except Failure SaleFile := do
  let desk ← deskPart d
  let limit ← liftMalformed (desk.field? "distribution_batch_limit")
  let sale ← Sale.ofDatum d
  let batchLimit ← liftMalformed (Datum.optionalInt limit)
  let enabled ← liftMalformed (desk.field? "metrics_enabled")
  let metricsEnabled := (enabled.map Datum.isPresent).getD true
  let settings : Settings := { batchLimit, metricsEnabled }
  liftFault settings.validate
  return { sale, settings }

def read (files : Files) (path : String) : Except Failure SaleFile := do
  ofDatum (← readMapping files path)

def pathVariable : String := "LAUNCHPAD_CONFIG_FILE"

/-- Reads the file of a path, or of a variable if the path is empty, and puts the settings of the
environment on top of those of the file. -/
def load (files : Files) (env : Environment) (path : String) : Except Failure SaleFile := do
  let path := if path.isEmpty then (env.lookup pathVariable).getD "" else path
  if path.isEmpty then .error (.fault .noFile)
  else
    let f ← read files path
    let settings ← liftFault (Settings.ofEnvironment env f.settings Settings.standardStem)
    return { f with settings }

def toDatum (f : SaleFile) : Datum :=
  .record [("sale", f.sale.toDatum), ("engine", f.settings.toDatum)]

end SaleFile

end TokenSale
