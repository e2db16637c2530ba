import TokenSale.Text.Blank
import TokenSale.Text.Digit

/-!
Decimal numerals: writing an integer, and reading one as people type it, with blanks around it, a
sign, single underscores between digits and the decimal digits of any script.
-/

namespace TokenSale.Text.Numeral

def text (n : Int) : String :=
  if n < 0 then String.ofList ('-' :: Nat.toDigits 10 n.natAbs)
  else String.ofList (Nat.toDigits 10 n.natAbs)

inductive Flaw where
  | malformed
  | tooLong (digits : Nat)
deriving DecidableEq, Repr

def maxDigits : Nat := 4300

/-- Integers of more digits are neither written in messages nor read. -/
def isLong (n : Int) : Bool := decide (maxDigits < (Nat.toDigits 10 n.natAbs).length)

/-- Blanks become spaces and decimal digits their ASCII forms; other characters beyond ASCII
cannot occur in a numeral. -/
def plain (c : Char) : Char :=
  if c.toNat < 127 then c
  else if isBlank c then ' '
  else
    match decimalValue? c with
    | some d => Nat.digitChar d
    | none => '?'

def isMargin (c : Char) : Bool := c == ' ' || decide (0x9 ≤ c.toNat ∧ c.toNat ≤ 0xd)

/-- The values of digits that single underscores may separate. -/
def digits? : List Char → Option (List Nat)
  | [] => none
  | [c] => (asciiDigit? c).map ([·])
  | c :: '_' :: rest => do return (← asciiDigit? c) :: (← digits? rest)
  | c :: rest => do return (← asciiDigit? c) :: (← digits? rest)

def ofDigits (ds : List Nat) : Nat := ds.foldl (fun n d => 10 * n + d) 0

def sign : List Char → Bool × List Char
  | '-' :: rest => (true, rest)
  | '+' :: rest => (false, rest)
  | cs => (false, cs)

def readChars (cs : List Char) : Except Flaw Int :=
  let (negative, body) := sign (trimBy isMargin (cs.map plain))
  match digits? body with
  | none => .error .malformed
  | some ds =>
    if maxDigits < ds.length then .error (.tooLong ds.length)
    else .ok (if negative then -(ofDigits ds : Int) else ofDigits ds)

def read (s : String) : Except Flaw Int := readChars s.toList

end TokenSale.Text.Numeral
