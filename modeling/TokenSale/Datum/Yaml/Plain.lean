import TokenSale.Malformed
import TokenSale.Text.Digit

/-!
The values of plain scalars in YAML 1.1: words for nothing and for truth values, integers in four
bases and in base sixty, floats, dates and moments. Any other plain scalar is text.
-/

namespace TokenSale.Datum.Yaml.Plain

open TokenSale.Text

def nullWords : List String := ["", "~", "null", "Null", "NULL"]

def trueWords : List String :=
  ["yes", "Yes", "YES", "true", "True", "TRUE", "on", "On", "ON"]

def falseWords : List String :=
  ["no", "No", "NO", "false", "False", "FALSE", "off", "Off", "OFF"]

def infinityWords : List String := [".inf", ".Inf", ".INF"]

def nanWords : List String := [".nan", ".NaN", ".NAN"]

def digitIn? (base : Nat) (c : Char) : Option Nat := do
  let d ← if 'a' ≤ c ∧ c ≤ 'f' then some (c.toNat - 'a'.toNat + 10)
    else if 'A' ≤ c ∧ c ≤ 'F' then some (c.toNat - 'A'.toNat + 10)
    else asciiDigit? c
  if d < base then some d else none

def areDigits (base : Nat) (s : List Char) : Bool :=
  s.all fun c => c == '_' || (digitIn? base c).isSome

/-- The number of digits of a base, underscores left out; none if there is no digit. -/
def number? (base : Nat) (s : List Char) : Option Nat :=
  let ds := s.filterMap (digitIn? base)
  if ds.isEmpty then none else some (ds.foldl (fun n d => base * n + d) 0)

def sign (s : List Char) : Bool × List Char :=
  match s with
  | '-' :: s => (true, s)
  | '+' :: s => (false, s)
  | s => (false, s)

def sixtieth? (s : List Char) : Option Nat :=
  match s with
  | [a] => asciiDigit? a
  | [a, b] => if '6' ≤ a then none else do return 10 * (← asciiDigit? a) + (← asciiDigit? b)
  | _ => none

def colonParts (s : List Char) : List (List Char) :=
  s.foldr (fun c parts =>
    match parts with
    | p :: rest => if c == ':' then [] :: p :: rest else (c :: p) :: rest
    | [] => [[c]]) [[]]

def startsWithDigit (s : List Char) : Bool := s.head?.any fun c => (asciiDigit? c).isSome

def sexagesimal? (s : List Char) : Option Nat :=
  match colonParts s with
  | first :: second :: rest =>
    if startsWithDigit first && first.head? != some '0' && areDigits 10 first then do
      let n ← number? 10 first
      let parts ← (second :: rest).mapM sixtieth?
      return parts.foldl (fun n d => 60 * n + d) n
    else none
  | _ => none

/-- The digits of a base after its mark; a mark without digits is refused as a numeral. -/
def inBase (base : Nat) (s : List Char) : Except Malformed Nat :=
  match number? base s with
  | some n => .ok n
  | none => .error (.badNumeral base "")

def natural? (s : List Char) : Option (Except Malformed Nat) :=
  match s with
  | '0' :: 'b' :: ds =>
    if ds.isEmpty || !areDigits 2 ds then none else some (inBase 2 ds)
  | '0' :: 'x' :: ds =>
    if ds.isEmpty || !areDigits 16 ds then none else some (inBase 16 ds)
  | ['0'] => some (.ok 0)
  | '0' :: ds => if areDigits 8 ds then some (.ok ((number? 8 ('0' :: ds)).getD 0)) else none
  | s =>
    if startsWithDigit s && areDigits 10 s then (number? 10 s).map .ok
    else (sexagesimal? s).map .ok

def integer? (s : List Char) : Option (Except Malformed Int) :=
  let (negative, body) := sign s
  (natural? body).map fun r => r.map fun n => if negative then -(n : Int) else n

def exponent? (s : List Char) : Option Int :=
  match s with
  | [] => some 0
  | e :: sgn :: ds =>
    if (e == 'e' || e == 'E') && (sgn == '-' || sgn == '+') && !ds.isEmpty &&
        ds.all fun c => (asciiDigit? c).isSome then
      let n : Int := (number? 10 ds).getD 0
      some (if sgn == '-' then -n else n)
    else none
  | _ => none

def isGrouped (c : Char) : Bool := c == '_' || (asciiDigit? c).isSome

def pointed? (negative : Bool) (whole rest : List Char) : Option Binary64 :=
  match rest with
  | '.' :: rest => do
    let (fraction, tail) := rest.span isGrouped
    let x ← exponent? tail
    let ds := (whole ++ fraction).filter (· != '_')
    let places := (fraction.filter (· != '_')).length
    return .ofDecimal negative ((number? 10 ds).getD 0) (x - places)
  | _ => none

/-- A float in base sixty: the last part has a point. -/
def sexagesimalFloat? (negative : Bool) (s : List Char) : Option Binary64 :=
  let (whole, rest) := s.span (· != '.')
  match rest with
  | '.' :: fraction =>
    if !fraction.all isGrouped then none
    else
      match colonParts whole with
      | first :: second :: more =>
        if startsWithDigit first && areDigits 10 first then do
          let n ← number? 10 first
          let parts ← (second :: more).mapM sixtieth?
          let n := parts.foldl (fun n d => 60 * n + d) n
          let ds := fraction.filter (· != '_')
          let scale := Nat.pow 10 ds.length
          return .ofRatio negative (n * scale + (number? 10 ds).getD 0) scale
        else none
      | _ => none
  | _ => none

def float? (s : List Char) : Option Binary64 :=
  let (negative, body) := sign s
  let text := String.ofList body
  if text ∈ infinityWords then some (.infinite negative)
  else if String.ofList s ∈ nanWords then some .nan
  else
    match body with
    | '.' :: d :: _ =>
      if body.length = s.length && (asciiDigit? d).isSome then pointed? negative [] body else none
    | _ =>
      let (whole, rest) := body.span isGrouped
      if !startsWithDigit whole then none
      else
        match pointed? negative whole rest with
        | some x => some x
        | none => sexagesimalFloat? negative body

def digits? (least most : Nat) (s : List Char) : Option (Nat × List Char) :=
  let ds := (s.take most).takeWhile fun c => (asciiDigit? c).isSome
  if ds.length < least then none else some ((number? 10 ds).getD 0, s.drop ds.length)

def mark? (c : Char) (s : List Char) : Option (List Char) :=
  match s with
  | x :: s => if x = c then some s else none
  | [] => none

def isSpace (c : Char) : Bool := c == ' ' || c == '\t'

def timeMark? (s : List Char) : Option (List Char) :=
  match s with
  | 'T' :: s | 't' :: s => some s
  | c :: s => if isSpace c then some (s.dropWhile isSpace) else none
  | [] => none

def zoneSize? (s : List Char) : Option Int := do
  let (hours, s) ← digits? 1 2 s
  match s with
  | [] => return (hours * 3600000000 : Nat)
  | s =>
    let (minutes, s) ← digits? 2 2 (← mark? ':' s)
    if s.isEmpty then return (hours * 3600000000 + minutes * 60000000 : Nat) else none

def zone? (s : List Char) : Option (Option Int) :=
  match s with
  | [] => some none
  | s =>
    match s.dropWhile isSpace with
    | ['Z'] => some (some 0)
    | '+' :: s => (zoneSize? s).map some
    | '-' :: s => (zoneSize? s).map fun n => some (-n)
    | _ => none

def fraction (s : List Char) : Nat × List Char :=
  match s with
  | '.' :: s =>
    let (ds, rest) := s.span fun c => (asciiDigit? c).isSome
    let six := ds.take 6
    ((number? 10 six).getD 0 * Nat.pow 10 (6 - six.length), rest)
  | s => (0, s)

def momentOn? (date : Date) (s : List Char) : Option Moment := do
  let (hour, s) ← digits? 1 2 (← timeMark? s)
  let (minute, s) ← digits? 2 2 (← mark? ':' s)
  let (second, s) ← digits? 2 2 (← mark? ':' s)
  let (micro, s) := fraction s
  let offset ← zone? s
  return ⟨date, ⟨hour, minute, second, micro⟩, offset⟩

def momentFlaw? (m : Moment) : Option CalendarFlaw :=
  match m.offset with
  | some o =>
    if o ≤ -Moment.dayMicros ∨ Moment.dayMicros ≤ o then some (.offset o) else m.flaw?
  | none => m.flaw?

def checked (flaw : Option CalendarFlaw) (s : Scalar) : Except Malformed Scalar :=
  match flaw with
  | some f => .error (.calendar f)
  | none => .ok s

def timestamp? (s : List Char) : Option (Except Malformed Scalar) := do
  let (year, rest) ← digits? 4 4 s
  let (month, rest) ← digits? 1 2 (← mark? '-' rest)
  let (day, rest) ← digits? 1 2 (← mark? '-' rest)
  let date : Date := ⟨year, month, day⟩
  match rest with
  | [] => if s.length = 10 then some (checked date.flaw? (.date date)) else none
  | rest =>
    let m ← momentOn? date rest
    some (checked (momentFlaw? m) (.moment m))

def read (s : String) : Except Malformed Scalar :=
  let cs := s.toList
  if s ∈ nullWords then .ok .null
  else if s ∈ trueWords then .ok (.bool true)
  else if s ∈ falseWords then .ok (.bool false)
  else
    match float? cs, integer? cs, timestamp? cs with
    | some x, _, _ => .ok (.float x)
    | none, some r, _ => r.map .int
    | none, none, some r => r
    | none, none, none => .ok (.text s)

end TokenSale.Datum.Yaml.Plain
