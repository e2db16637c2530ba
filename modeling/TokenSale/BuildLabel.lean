import TokenSale.Settings
import TokenSale.Text.Blank
import TokenSale.Text.Digit

/-!
The version of a build: the base version, with a label made of a description of the revision. A
label holds ASCII letters, digits and single dots between them.
-/

namespace TokenSale.BuildLabel

open TokenSale.Text

def baseVersion : String := "0.1.0"

def variableName : String := "LAUNCHPAD_VERSION"

def isWordChar (c : Char) : Bool :=
  decide (('a' ≤ c ∧ c ≤ 'z') ∨ ('A' ≤ c ∧ c ≤ 'Z') ∨ ('0' ≤ c ∧ c ≤ '9'))

def dotSeparators (s : List Char) : List Char :=
  s.map fun c => if c = '-' ∨ c = '+' then '.' else c

/-- A `v` before a digit is dropped. -/
def dropMark : List Char → List Char
  | 'v' :: c :: s => if isDigit c then c :: s else 'v' :: c :: s
  | s => s

/-- Each run of characters that satisfy `p` becomes one dot; `inside` says if a run goes on. -/
def dotRuns (p : Char → Bool) : Bool → List Char → List Char
  | _, [] => []
  | inside, c :: s =>
    if p c then (if inside then dotRuns p true s else '.' :: dotRuns p true s)
    else c :: dotRuns p false s

def ofDescription (s : List Char) : List Char :=
  let s := dropMark (dotSeparators s)
  let s := dotRuns (fun c => !isWordChar c && c != '.') false s
  trimBy (· == '.') (dotRuns (· == '.') false s)

def version (env : Environment) (description : Option String) : String :=
  match Settings.variableIn env variableName with
  | some v => v
  | none =>
    match description.filter fun d => d != "" with
    | none => baseVersion
    | some d => baseVersion ++ "+" ++ String.ofList (ofDescription d.toList)

end TokenSale.BuildLabel
