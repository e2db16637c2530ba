import TokenSale.Calendar.Moment
import TokenSale.Text.Digit

/-!
Reading ISO 8601 dates and times: calendar dates and week dates, extended or basic, then any one
character, a time of day with an optional fraction, and an offset.
-/

namespace TokenSale.Moment

open TokenSale.Text

def fixedDigits? (n : Nat) (s : List Char) : Option (Nat × List Char) :=
  let ds := s.take n
  if ds.length < n then none
  else do
    let values ← ds.mapM asciiDigit?
    return (values.foldl (fun v d => 10 * v + d) 0, s.drop n)

def isPlainDigit (c : Char) : Bool := (asciiDigit? c).isSome

/-- The length of the date. A week date of which the tenth position may be a digit of the time ends
after its week; the basic week date has a day when an even number of digits ends there. -/
def dateLength (s : List Char) : Nat :=
  let n := s.length
  if n = 7 then 7
  else if s[4]? = some '-' then
    if s[5]? = some 'W' ∧ (n ≤ 8 ∨ s[8]? ≠ some '-' ∨ s[10]?.any isPlainDigit) then 8 else 10
  else if s[4]? = some 'W' then
    let stop := 7 + ((s.drop 7).takeWhile isPlainDigit).length
    if stop < 9 then stop else if stop % 2 = 0 then 7 else 8
  else 8

def hyphen? : List Char → Option (List Char)
  | '-' :: rest => some rest
  | _ => none

def readWeekday? (extended : Bool) (s : List Char) : Option Nat := do
  if s.isEmpty then return 1
  let s ← if extended then hyphen? s else some s
  let (day, _) ← fixedDigits? 1 s
  return day

def readDate? (s : List Char) : Option Date := do
  let (year, s) ← fixedDigits? 4 s
  let extended := s.head? == some '-'
  let s := if extended then s.drop 1 else s
  match s with
  | 'W' :: s =>
    let (week, s) ← fixedDigits? 2 s
    let day ← readWeekday? extended s
    Date.ofWeek? year week day
  | s =>
    let (month, s) ← fixedDigits? 2 s
    let s ← if extended then hyphen? s else some s
    let (day, s) ← fixedDigits? 2 s
    if s.isEmpty then some ⟨year, month, day⟩ else none

def atEnd : List Char → Bool
  | [] => true
  | c :: _ => c == '\x00'

/-- A fraction of a second in microseconds: six digits count and further ones are skipped. Tells
whether it fills the text. -/
def readFraction? (s : List Char) : Option (Nat × Bool) := do
  let n := min 6 s.length
  let (v, rest) ← fixedDigits? n s
  return (v * Nat.pow 10 (6 - n), atEnd (rest.dropWhile isPlainDigit))

/-- Up to `n` more fields of two digits, of which the first decides whether colons separate them,
then a fraction. Tells whether they fill the text. -/
def readFields? (colons : Option Bool) : Nat → List Char → Option (List Nat × Nat × Bool)
  | 0, s => do
    let (micro, filled) ← readFraction? s
    return ([], micro, filled)
  | n + 1, s => do
    let (v, rest) ← fixedDigits? 2 s
    match rest with
    | [] => return ([v], 0, true)
    | [c] => return ([v], 0, c == '\x00')
    | c :: more =>
      let separated := colons.getD (c == ':')
      if separated && c == ':' then
        let (vs, micro, filled) ← readFields? (some separated) n more
        return (v :: vs, micro, filled)
      else if c == '.' || c == ',' then
        let (micro, filled) ← readFraction? more
        return ([v], micro, filled)
      else if !separated then
        let (vs, micro, filled) ← readFields? (some separated) n rest
        return (v :: vs, micro, filled)
      else none

def readTime? (s : List Char) : Option (TimeOfDay × Bool) := do
  let (vs, micro, filled) ← readFields? none 3 s
  return (⟨vs[0]?.getD 0, vs[1]?.getD 0, vs[2]?.getD 0, micro⟩, filled)

def startsOffset (c : Char) : Bool := c == '+' || c == '-' || c == 'Z'

/-- An offset in microseconds. One of zero seconds is UTC. -/
def readOffset? : List Char → Option Int
  | 'Z' :: rest => if atEnd rest then some 0 else none
  | c :: rest => do
    let (t, filled) ← readTime? rest
    if !filled then none
    else
      let size : Int := t.micros
      return if size < 1000000 then 0 else if c == '-' then -size else size
  | [] => none

def readTail? (s : List Char) : Option (TimeOfDay × Option Int) := do
  let body := s.takeWhile fun c => !startsOffset c
  let (time, filled) ← readTime? body
  match s.drop body.length with
  | [] => if filled then return (time, none) else none
  | tail => return (time, some (← readOffset? tail))

def readIso? (s : List Char) : Option Moment := do
  if s.length < 7 then none
  else
    let n := dateLength s
    let date ← readDate? (s.take n)
    let (time, offset) ← match s.drop n with
      | [] => some (⟨0, 0, 0, 0⟩, none)
      | _ :: tail => readTail? tail
    let m : Moment := ⟨date, time, offset⟩
    if m.flaw?.isSome then none else return m

end TokenSale.Moment
