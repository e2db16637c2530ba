import TokenSale.Datum.Display

/-!
Why a datum cannot be taken as the value it stands for.
-/

namespace TokenSale

open TokenSale.Text

inductive Malformed where
  | missing (key : String)
  | notInteger (name : String) (kind : Datum.Kind)
  | notNumeric (kind : Datum.Kind)
  | noEntries (kind : Datum.Kind)
  | noElements (kind : Datum.Kind)
  | noFields (kind : Datum.Kind)
  | badNumeral (base : Nat) (s : String)
  | longNumeral (digits : Nat)
  | longInteger
  | notANumber
  | infinite
  | unknownScheme (s : String)
  | calendar (f : CalendarFlaw)
  | negativeIncrement
  | beyondFloats
deriving DecidableEq, Repr

namespace Malformed

inductive Class where
  | key
  | type
  | value
  | overflow
  | field
deriving DecidableEq, Repr

def category : Malformed → Class
  | .missing _ => .key
  | .notInteger _ _ | .notNumeric _ | .noEntries _ | .noElements _ => .type
  | .badNumeral _ _ | .longNumeral _ | .longInteger | .notANumber | .unknownScheme _
  | .calendar _ | .negativeIncrement => .value
  | .infinite | .beyondFloats => .overflow
  | .noFields _ => .field

def entryText : Datum.Kind → String
  | .text => "string indices must be integers, not 'str'"
  | .list => "list indices must be integers or slices, not str"
  | k => s!"'{k.name}' object is not subscriptable"

def calendarText : CalendarFlaw → String
  | .year n => s!"year {n} is out of range"
  | .month => "month must be in 1..12"
  | .day => "day is out of range for month"
  | .hour => "hour must be in 0..23"
  | .minute => "minute must be in 0..59"
  | .second => "second must be in 0..59"
  | .offset o =>
    "offset must be a timedelta strictly between " ++
      "-timedelta(hours=24) and timedelta(hours=24), not " ++
      Moment.spanDisplay o ++ "."

/-- The text of a reason. A missing key is quoted; an absent field has no text; of a bad numeral
the first 200 characters are shown. -/
def message : Malformed → String
  | .missing key => Quoted.quote key
  | .notInteger name kind => s!"{name} must be int, got <class '{kind.name}'>"
  | .notNumeric kind =>
    s!"int() argument must be a string, a bytes-like object or a real number, not '{kind.name}'"
  | .noEntries kind => entryText kind
  | .noElements kind => s!"'{kind.name}' object is not iterable"
  | .noFields _ => ""
  | .badNumeral base s =>
    s!"invalid literal for int() with base {base}: " ++
      String.ofList ((Quoted.encode s.toList).take 200)
  | .longNumeral digits =>
    s!"Exceeds the limit ({Numeral.maxDigits} digits) for integer string conversion: " ++
      s!"value has {digits} digits; use sys.set_int_max_str_digits() to increase the limit"
  | .longInteger =>
    s!"Exceeds the limit ({Numeral.maxDigits} digits) for integer string conversion; " ++
      "use sys.set_int_max_str_digits() to increase the limit"
  | .notANumber => "cannot convert float NaN to integer"
  | .infinite => "cannot convert float infinity to integer"
  | .unknownScheme s => Quoted.quote s ++ " is not a valid VestingScheme"
  | .calendar f => calendarText f
  | .beyondFloats => "int too large to convert to float"
  | .negativeIncrement => "Counters can only be incremented by non-negative amounts."

end Malformed

end TokenSale
