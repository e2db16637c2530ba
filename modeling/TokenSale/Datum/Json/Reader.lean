import TokenSale.Datum
import TokenSale.Text.Digit

/-!
Reading JSON text. The last of several entries under one key counts; `NaN` and the infinities are
numbers; a number with a fraction or an exponent is binary64, any other an integer.
-/

namespace TokenSale.Datum.Json

open TokenSale.Text

def isBlank (c : Char) : Bool := c == ' ' || c == '\t' || c == '\n' || c == '\r'

def skipBlanks (s : List Char) : List Char := s.dropWhile isBlank

def word? (w : String) (s : List Char) : Option (List Char) :=
  if w.toList.isPrefixOf s then some (s.drop w.length) else none

def hexDigit? (c : Char) : Option Nat :=
  if '0' ≤ c ∧ c ≤ '9' then some (c.toNat - '0'.toNat)
  else if 'a' ≤ c ∧ c ≤ 'f' then some (c.toNat - 'a'.toNat + 10)
  else if 'A' ≤ c ∧ c ≤ 'F' then some (c.toNat - 'A'.toNat + 10)
  else none

def unit? : List Char → Option (Nat × List Char)
  | a :: b :: c :: d :: rest => do
    let n := ((← hexDigit? a) * 16 + (← hexDigit? b)) * 256 + (← hexDigit? c) * 16 + (← hexDigit? d)
    return (n, rest)
  | _ => none

def isHigh (n : Nat) : Bool := decide (0xd800 ≤ n ∧ n < 0xdc00)

def isLow (n : Nat) : Bool := decide (0xdc00 ≤ n ∧ n < 0xe000)

/-- The low half of a pair, if an escape for one comes next. -/
def lowUnit? : List Char → Option (Nat × List Char)
  | '\\' :: 'u' :: rest =>
    match unit? rest with
    | some (n, rest) => if isLow n then some (n, rest) else none
    | none => none
  | _ => none

/-- The character after the letter of a Unicode escape. A lone surrogate, which is no character,
becomes U+FFFD. -/
def unicodeEscape? (s : List Char) : Option (Char × List Char) := do
  let (n, rest) ← unit? s
  if isHigh n then
    match lowUnit? rest with
    | some (m, rest) => return (Char.ofNat (0x10000 + (n - 0xd800) * 0x400 + (m - 0xdc00)), rest)
    | none => return ('\ufffd', rest)
  else if isLow n then return ('\ufffd', rest)
  else return (Char.ofNat n, rest)

def letterEscape? : Char → Option Char
  | '"' => some '"'
  | '\\' => some '\\'
  | '/' => some '/'
  | 'b' => some '\x08'
  | 'f' => some '\x0c'
  | 'n' => some '\n'
  | 'r' => some '\r'
  | 't' => some '\t'
  | _ => none

def stringBody? : Nat → List Char → List Char → Option (String × List Char)
  | 0, _, _ => none
  | fuel + 1, acc, s =>
    match s with
    | [] => none
    | '"' :: rest => some (String.ofList acc.reverse, rest)
    | '\\' :: 'u' :: rest => do
      let (c, rest) ← unicodeEscape? rest
      stringBody? fuel (c :: acc) rest
    | '\\' :: c :: rest => do
      let c ← letterEscape? c
      stringBody? fuel (c :: acc) rest
    | c :: rest => if c < ' ' ∨ c = '\\' then none else stringBody? fuel (c :: acc) rest

def digitsOf (s : List Char) : List Char × List Char := s.span fun c => (asciiDigit? c).isSome

def natOf (ds : List Char) : Nat := Nat.ofDigitChars 10 ds 0

def fraction? : List Char → Option (List Char × List Char)
  | '.' :: s =>
    let (ds, rest) := digitsOf s
    if ds.isEmpty then none else some (ds, rest)
  | _ => none

def exponentDigits? (negative : Bool) (s : List Char) : Option (Int × List Char) :=
  let (ds, rest) := digitsOf s
  if ds.isEmpty then none
  else some (if negative then -(natOf ds : Int) else natOf ds, rest)

def exponent? : List Char → Option (Int × List Char)
  | c :: s =>
    if c = 'e' ∨ c = 'E' then
      match s with
      | '-' :: s => exponentDigits? true s
      | '+' :: s => exponentDigits? false s
      | s => exponentDigits? false s
    else none
  | [] => none

def wholePart? : List Char → Option (List Char × List Char)
  | '0' :: rest => some (['0'], rest)
  | s =>
    let (ds, rest) := digitsOf s
    if ds.isEmpty then none else some (ds, rest)

def unsigned? (negative : Bool) (s : List Char) : Option (Datum × List Char) := do
  let (whole, s) ← wholePart? s
  let (fraction, s') := (fraction? s).getD ([], s)
  let (exponent, s'') := match exponent? s' with
    | some (x, rest) => (some x, rest)
    | none => (none, s')
  if fraction.isEmpty && exponent.isNone then
    let n := natOf whole
    return (.int (if negative then -(n : Int) else n), s'')
  else
    let x := exponent.getD 0 - fraction.length
    return (.float (.ofDecimal negative (natOf (whole ++ fraction)) x), s'')

mutual

/-- A value and what follows it; `fuel` bounds the number of characters. -/
def value? : Nat → List Char → Option (Datum × List Char)
  | 0, _ => none
  | fuel + 1, s =>
    match s with
    | '"' :: rest => do
      let (t, rest) ← stringBody? (rest.length + 1) [] rest
      return (.text t, rest)
    | '[' :: rest =>
      match skipBlanks rest with
      | ']' :: rest => some (.list [], rest)
      | rest => do
        let (xs, rest) ← elements? fuel rest
        return (.list xs, rest)
    | '\x7b' :: rest =>
      match skipBlanks rest with
      | '\x7d' :: rest => some (.map [], rest)
      | rest => do
        let (es, rest) ← members? fuel [] rest
        return (.map es, rest)
    | '-' :: 'I' :: rest => (word? "nfinity" rest).map ((.float (.infinite true)), ·)
    | '-' :: rest => unsigned? true rest
    | 'I' :: rest => (word? "nfinity" rest).map ((.float (.infinite false)), ·)
    | 'N' :: rest => (word? "aN" rest).map ((.float .nan), ·)
    | 'n' :: rest => (word? "ull" rest).map (Datum.null, ·)
    | 't' :: rest => (word? "rue" rest).map ((.bool true), ·)
    | 'f' :: rest => (word? "alse" rest).map ((.bool false), ·)
    | s => unsigned? false s

def elements? : Nat → List Char → Option (List Datum × List Char)
  | 0, _ => none
  | fuel + 1, s => do
    let (x, rest) ← value? fuel (skipBlanks s)
    match skipBlanks rest with
    | ']' :: rest => return ([x], rest)
    | ',' :: rest =>
      let (xs, rest) ← elements? fuel rest
      return (x :: xs, rest)
    | _ => none

def members? : Nat → List (Scalar × Datum) → List Char → Option (List (Scalar × Datum) × List Char)
  | 0, _, _ => none
  | fuel + 1, es, s =>
    match skipBlanks s with
    | '"' :: rest => do
      let (k, rest) ← stringBody? (rest.length + 1) [] rest
      match skipBlanks rest with
      | ':' :: rest =>
        let (v, rest) ← value? fuel (skipBlanks rest)
        let es := insert (.text k) v es
        match skipBlanks rest with
        | '\x7d' :: rest => return (es, rest)
        | ',' :: rest => members? fuel es rest
        | _ => none
      | _ => none
    | _ => none

end

def read? (s : String) : Option Datum := do
  let cs := skipBlanks s.toList
  let (d, rest) ← value? (cs.length + 1) cs
  if (skipBlanks rest).isEmpty then return d else none

end TokenSale.Datum.Json
