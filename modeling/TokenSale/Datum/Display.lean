import TokenSale.Datum
import TokenSale.Binary64.Shortest
import TokenSale.Text.Numeral
import TokenSale.Text.Quoted

/-!
The display form of data in messages, and the plain form that stands for an account or a token.
-/

namespace TokenSale

open TokenSale.Text

def Binary64.display : Binary64 → String
  | .finite s m e => finiteText s m e
  | .infinite true => "-inf"
  | .infinite false => "inf"
  | .nan => "nan"

def padded (width n : Nat) : String :=
  let ds := Nat.toDigits 10 n
  String.ofList (List.replicate (width - ds.length) '0' ++ ds)

namespace Date

def display (d : Date) : String :=
  s!"datetime.date({d.year}, {d.month}, {d.day})"

def iso (d : Date) : String :=
  padded 4 d.year ++ "-" ++ padded 2 d.month ++ "-" ++ padded 2 d.day

end Date

namespace Moment

def spanDisplay (micros : Int) : String :=
  let days := micros.fdiv dayMicros
  let rest := (micros.fmod dayMicros).toNat
  let parts :=
    (if days = 0 then [] else ["days=" ++ Numeral.text days]) ++
    (if rest / 1000000 = 0 then [] else ["seconds=" ++ toString (rest / 1000000)]) ++
    (if rest % 1000000 = 0 then [] else ["microseconds=" ++ toString (rest % 1000000)])
  "datetime.timedelta(" ++ (if parts.isEmpty then "0" else ", ".intercalate parts) ++ ")"

def zoneDisplay (offset : Int) : String :=
  if offset = 0 then "datetime.timezone.utc" else "datetime.timezone(" ++ spanDisplay offset ++ ")"

def display (m : Moment) : String :=
  let t := m.time
  let fields := [m.date.year, m.date.month, m.date.day, t.hour, t.minute] ++
    (if t.second = 0 ∧ t.micro = 0 then [] else [t.second]) ++
    (if t.micro = 0 then [] else [t.micro])
  let zone := match m.offset with
    | none => []
    | some o => ["tzinfo=" ++ zoneDisplay o]
  "datetime.datetime(" ++ ", ".intercalate (fields.map toString ++ zone) ++ ")"

def offsetIso (offset : Int) : String :=
  let size := offset.natAbs
  let seconds := size / 1000000
  (if offset < 0 then "-" else "+") ++ padded 2 (seconds / 3600) ++ ":" ++
    padded 2 (seconds / 60 % 60) ++
    (if seconds % 60 = 0 ∧ size % 1000000 = 0 then "" else ":" ++ padded 2 (seconds % 60)) ++
    (if size % 1000000 = 0 then "" else "." ++ padded 6 (size % 1000000))

def iso (m : Moment) : String :=
  let t := m.time
  m.date.iso ++ " " ++ padded 2 t.hour ++ ":" ++ padded 2 t.minute ++ ":" ++ padded 2 t.second ++
    (if t.micro = 0 then "" else "." ++ padded 6 t.micro) ++
    (match m.offset with
      | none => ""
      | some o => offsetIso o)

end Moment

def Scalar.display : Scalar → String
  | .null => "None"
  | .bool true => "True"
  | .bool false => "False"
  | .int n => Numeral.text n
  | .float x => x.display
  | .text s => Quoted.quote s
  | .date d => d.display
  | .moment m => m.display

def Scalar.isShowable : Scalar → Bool
  | .int n => !Numeral.isLong n
  | _ => true

namespace Datum

mutual

def display : Datum → String
  | .scalar s => s.display
  | .list xs => "[" ++ ", ".intercalate (displayAll xs) ++ "]"
  | .map es => "\x7b" ++ ", ".intercalate (displayEntries es) ++ "\x7d"

def displayAll : List Datum → List String
  | [] => []
  | x :: xs => display x :: displayAll xs

def displayEntries : List (Scalar × Datum) → List String
  | [] => []
  | (k, v) :: es => (k.display ++ ": " ++ display v) :: displayEntries es

end

/-! Whether all integers are short enough to be displayed. -/

mutual

def isShowable : Datum → Bool
  | .scalar s => s.isShowable
  | .list xs => allShowable xs
  | .map es => entriesShowable es

def allShowable : List Datum → Bool
  | [] => true
  | x :: xs => isShowable x && allShowable xs

def entriesShowable : List (Scalar × Datum) → Bool
  | [] => true
  | (k, v) :: es => k.isShowable && isShowable v && entriesShowable es

end

/-- A datum taken as a name: a text is itself, dates are in ISO form, the rest is displayed. -/
def toName : Datum → String
  | text s => s
  | date d => d.iso
  | moment m => m.iso
  | d => d.display

@[simp] theorem toName_text (s : String) : (text s).toName = s := rfl

end Datum

end TokenSale
