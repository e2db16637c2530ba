import TokenSale.Binary64

/-!
The shortest decimal that reads back as a given binary64 number, and its layout.

The numbers that round to `m * 2 ^ e` form an interval whose ends belong to it exactly when `m` is
even. A decimal of `n` digits is found by testing the two neighbours of the number on the grid of
`n` digits, for `n` from 1 to 17; all comparisons are exact.
-/

namespace TokenSale.Binary64

structure Decimal where
  digits : Nat
  exponent : Int
deriving DecidableEq, Repr

def crossScale (a : Nat) (x : Int) (b : Nat) (y : Int) : Nat × Nat :=
  (a * Nat.pow 10 x.toNat * Nat.pow 2 (-y).toNat,
    b * Nat.pow 2 y.toNat * Nat.pow 10 (-x).toNat)

structure Interval where
  low : Nat
  high : Nat
  closed : Bool

/-- Half a unit on each side; a quarter below the least mantissa of a binade. -/
def interval (m : Nat) (e : Int) : Interval where
  low := if m = mantissaBound / 2 ∧ leastExponent < e then 4 * m - 1 else 4 * m - 2
  high := 4 * m + 2
  closed := m % 2 == 0

def readsBack (m : Nat) (e : Int) (c : Nat) (x : Int) : Bool :=
  let i := interval m e
  let (cl, l) := crossScale c x i.low (e - 2)
  let (ch, h) := crossScale c x i.high (e - 2)
  if i.closed then decide (l ≤ cl ∧ ch ≤ h) else decide (l < cl ∧ ch < h)

def digitCount (n : Nat) : Nat := (Nat.toDigits 10 n).length

def leadingExponent (m : Nat) (e : Int) : Int :=
  let scaled := m * Nat.pow 10 400 * Nat.pow 2 e.toNat / Nat.pow 2 (-e).toNat
  (digitCount scaled : Int) - 401

/-- The nearer of the two neighbours on the grid of `10 ^ x`, among those that read back. -/
def onGrid? (m : Nat) (e x : Int) : Option Nat :=
  let below :=
    m * Nat.pow 2 e.toNat * Nat.pow 10 (-x).toNat / (Nat.pow 10 x.toNat * Nat.pow 2 (-e).toNat)
  let above := below + 1
  match readsBack m e below x, readsBack m e above x with
  | true, true =>
    let (mid, v) := crossScale (below + above) x (2 * m) e
    if v < mid then some below
    else if mid < v then some above
    else if below % 2 = 0 then some below else some above
  | true, false => some below
  | false, true => some above
  | false, false => none

def search (m : Nat) (e lead : Int) : Nat → Nat → Decimal
  | 0, n => ⟨m * Nat.pow 2 e.toNat, n⟩
  | fuel + 1, n =>
    let x := lead - (n : Int)
    match onGrid? m e x with
    | some c => ⟨c, x⟩
    | none => search m e lead fuel (n + 1)

def Decimal.strip : Nat → Decimal → Decimal
  | 0, d => d
  | fuel + 1, d =>
    if d.digits ≠ 0 ∧ d.digits % 10 = 0 then
      Decimal.strip fuel ⟨d.digits / 10, d.exponent + 1⟩
    else d

/-- The shortest decimal of a positive number, the nearest one of that length. -/
def shortest (m : Nat) (e : Int) : Decimal :=
  (search m e (leadingExponent m e) 17 0).strip 20

/-- How decimals are laid out: the point positions that are written without an exponent, counted
from the first digit, and the least width of a written exponent. -/
structure Layout where
  leastPoint : Int
  greatestPoint : Int
  exponentWidth : Nat

def Layout.standard : Layout := ⟨-3, 16, 2⟩

def Layout.exponentText (l : Layout) (x : Int) : String :=
  let digits := toString x.natAbs
  (if x < 0 then "e-" else "e+") ++
    String.ofList (List.replicate (l.exponentWidth - digits.length) '0') ++
    digits

def Layout.text (l : Layout) (d : Decimal) : String :=
  let ds := Nat.toDigits 10 d.digits
  let point : Int := ds.length + d.exponent
  if point < l.leastPoint ∨ l.greatestPoint < point then
    match ds with
    | [] => ""
    | [c] => String.ofList [c] ++ l.exponentText (point - 1)
    | c :: rest => String.ofList (c :: '.' :: rest) ++ l.exponentText (point - 1)
  else if point ≤ 0 then
    "0." ++ String.ofList (List.replicate (-point).toNat '0' ++ ds)
  else
    let whole := ds.take point.toNat
    let padding := List.replicate (point.toNat - ds.length) '0'
    let fraction := ds.drop point.toNat
    String.ofList (whole ++ padding) ++ "." ++
      (if fraction.isEmpty then "0" else String.ofList fraction)

def finiteText (negative : Bool) (m : Nat) (e : Int) : String :=
  (if negative then "-" else "") ++ (if m = 0 then "0.0" else Layout.standard.text (shortest m e))

end TokenSale.Binary64
