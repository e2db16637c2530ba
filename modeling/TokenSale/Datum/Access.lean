import TokenSale.Calendar.Iso
import TokenSale.Fault
import TokenSale.Text.LowerCase

/-!
Taking data apart: entries of mappings, elements of lists, integers and instants. Each access names
why it is refused.
-/

namespace TokenSale.Datum

open TokenSale.Text

def field? (d : Datum) (key : String) : Except Malformed (Option Datum) :=
  match d with
  | map es => .ok (lookup key es)
  | d => .error (.noFields d.kind)

def entry (d : Datum) (key : String) : Except Malformed Datum :=
  match d with
  | map es =>
    match lookup key es with
    | some v => .ok v
    | none => .error (.missing key)
  | d => .error (.noEntries d.kind)

/-- The elements of a list, the characters of a text, or the keys of a mapping. -/
def elements (d : Datum) : Except Malformed (List Datum) :=
  match d with
  | list xs => .ok xs
  | text s => .ok (s.toList.map fun c => text (String.ofList [c]))
  | map es => .ok (es.map fun e => scalar e.1)
  | d => .error (.noElements d.kind)

/-- A datum that is absent or counts as absent is none. -/
def present? (d : Option Datum) : Option Datum := d.filter isPresent

def numeralToInt (s : String) : Except Malformed Int :=
  match Numeral.read s with
  | .ok n => .ok n
  | .error .malformed => .error (.badNumeral 10 s)
  | .error (.tooLong n) => .error (.longNumeral n)

def name (d : Datum) : Except Malformed String :=
  if d.isShowable then .ok d.toName else .error .longInteger

@[simp] theorem name_text (s : String) : (text s).name = .ok s := rfl

/-- The integer that a datum stands for; floats are truncated toward zero. -/
def toInt (d : Datum) : Except Malformed Int :=
  match d with
  | bool b => .ok b.toNat
  | int n => .ok n
  | float .nan => .error .notANumber
  | float x =>
    match x.truncate? with
    | some n => .ok n
    | none => .error .infinite
  | text s => numeralToInt s
  | d => .error (.notNumeric d.kind)

@[simp] theorem toInt_int (n : Int) : (int n).toInt = .ok n := rfl

def intOr (d : Datum) (key : String) (default : Int) : Except Malformed Int := do
  match ← d.field? key with
  | some v => v.toInt
  | none => return default

def isDigitText (s : List Char) : Bool :=
  let ds := s.dropWhile (· == '-')
  !ds.isEmpty && ds.all isDigit

def expandZulu (s : List Char) : List Char :=
  if s.getLast? = some 'Z' then s.dropLast ++ "+00:00".toList else s

/-- The instant that a text stands for: seconds since 1970-01-01T00:00:00Z, or an ISO 8601 time. -/
def textToInstant (s : String) : Except Failure Int :=
  let cs := trim s.toList
  if isDigitText cs then liftMalformed (numeralToInt (String.ofList cs))
  else
    match Moment.readIso? (expandZulu cs) with
    | some m => .ok m.seconds
    | none => .error (.fault (.badTimeText s))

def toInstant (d : Datum) : Except Failure Int :=
  match d with
  | int n => .ok n
  | moment m => .ok m.seconds
  | text s => textToInstant s
  | d => .error (Fault.badTime d).raised

@[simp] theorem toInstant_int (n : Int) : (int n).toInstant = .ok n := rfl

end TokenSale.Datum
