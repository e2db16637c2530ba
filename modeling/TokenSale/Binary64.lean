/-!
Binary64 numbers held exactly, as a sign, a whole mantissa and a power of two.

A number enters by rounding a ratio of whole numbers to the nearest member, ties to the even
mantissa, and leaves by truncation; both are exact arithmetic on `Nat`.
-/

namespace TokenSale

/-- A binary64 datum: `finite s m e` is `m * 2 ^ e`, negated when `s` holds. -/
inductive Binary64 where
  | finite (negative : Bool) (mantissa : Nat) (exponent : Int)
  | infinite (negative : Bool)
  | nan
deriving DecidableEq, Repr, Inhabited

namespace Binary64

def leastExponent : Int := -1074

def greatestExponent : Int := 971

def mantissaBound : Nat := 0x20000000000000

def roundQuotient (num den : Nat) : Nat :=
  let q := num / den
  let r := num % den
  if 2 * r < den then q
  else if den < 2 * r then q + 1
  else if q % 2 = 0 then q else q + 1

def inUnits (num den : Nat) (e : Int) : Nat × Nat :=
  if 0 ≤ e then (num, den * Nat.pow 2 e.toNat) else (num * Nat.pow 2 (-e).toNat, den)

/-- The exponent whose units give a positive ratio a mantissa of 53 bits, or the least exponent. -/
def unitExponent (num den : Nat) : Int :=
  let guess : Int := (num.log2 : Int) - (den.log2 : Int) - 53
  let (n, d) := inUnits num den guess
  let exact := if n / d < mantissaBound then guess else guess + 1
  max leastExponent exact

/-- A mantissa that rounded up to the bound moves to the next exponent; past the last one it is
infinite. -/
def ofMantissa (negative : Bool) (m : Nat) (e : Int) : Binary64 :=
  let (m, e) := if m = mantissaBound then (m / 2, e + 1) else (m, e)
  if greatestExponent < e then .infinite negative else .finite negative m e

def zero (negative : Bool) : Binary64 := .finite negative 0 leastExponent

def ofRatio (negative : Bool) (num den : Nat) : Binary64 :=
  if num = 0 then zero negative
  else
    let e := unitExponent num den
    let (n, d) := inUnits num den e
    ofMantissa negative (roundQuotient n d) e

def ofInt (n : Int) : Binary64 := ofRatio (decide (n < 0)) n.natAbs 1

/-- The member nearest to `digits * 10 ^ exponent`. Exponents far outside the range are settled
without forming the power. -/
def ofDecimal (negative : Bool) (digits : Nat) (exponent : Int) : Binary64 :=
  let size : Int := ((digits.log2 + 1) * 3 / 10 : Nat)
  if digits = 0 then zero negative
  else if 400 < size + exponent then .infinite negative
  else if size + exponent < -400 then zero negative
  else if 0 ≤ exponent then ofRatio negative (digits * Nat.pow 10 exponent.toNat) 1
  else ofRatio negative digits (Nat.pow 10 (-exponent).toNat)

def wholePart (m : Nat) (e : Int) : Nat :=
  if 0 ≤ e then m * Nat.pow 2 e.toNat else m / Nat.pow 2 (-e).toNat

def truncate? : Binary64 → Option Int
  | .finite s m e => some (if s then -(wholePart m e : Int) else wholePart m e)
  | _ => none

def toInt? : Binary64 → Option Int
  | .finite s m e =>
    if 0 ≤ e ∨ m % Nat.pow 2 (-e).toNat = 0 then (Binary64.finite s m e).truncate? else none
  | _ => none

def isZero : Binary64 → Bool
  | .finite _ m _ => m == 0
  | _ => false

def roundNat (n : Nat) : Nat :=
  if n < mantissaBound then n
  else
    let e := n.log2 - 52
    roundQuotient n (Nat.pow 2 e) * Nat.pow 2 e

theorem roundNat_eq_self {n : Nat} (h : n < mantissaBound) : roundNat n = n := by
  simp [roundNat, h]

end Binary64

end TokenSale
