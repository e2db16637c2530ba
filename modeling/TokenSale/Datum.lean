import TokenSale.Binary64
import TokenSale.Calendar.Moment

/-!
Data of no particular shape: what a sale file holds before it is read as a sale, and what an error
shows of it.
-/

namespace TokenSale

inductive Scalar where
  | null
  | bool (b : Bool)
  | int (n : Int)
  | float (x : Binary64)
  | text (s : String)
  | date (d : Date)
  | moment (m : Moment)
deriving DecidableEq, Repr, Inhabited

/-- A datum: a scalar, a list, or a mapping in order of insertion. -/
inductive Datum where
  | scalar (s : Scalar)
  | list (xs : List Datum)
  | map (es : List (Scalar × Datum))
deriving Repr, Inhabited

namespace Scalar

/-- The integer that a scalar compares equal to; truth values count as one and zero. -/
def toInt? : Scalar → Option Int
  | .bool b => some b.toNat
  | .int n => some n
  | .float x => x.toInt?
  | _ => none

/-- Whether two scalars are one key: numbers by value, moments with offsets by instant. -/
def sameKey (a b : Scalar) : Bool :=
  match a.toInt?, b.toInt? with
  | some m, some n => m == n
  | none, none =>
    match a, b with
    | .float .nan, _ => false
    | .moment m, .moment n =>
      m.offset.isSome == n.offset.isSome && m.epochMicros == n.epochMicros
    | _, _ => a == b
  | _, _ => false

end Scalar

namespace Datum

@[match_pattern] abbrev null : Datum := .scalar .null
@[match_pattern] abbrev bool (b : Bool) : Datum := .scalar (.bool b)
@[match_pattern] abbrev int (n : Int) : Datum := .scalar (.int n)
@[match_pattern] abbrev float (x : Binary64) : Datum := .scalar (.float x)
@[match_pattern] abbrev text (s : String) : Datum := .scalar (.text s)
@[match_pattern] abbrev date (d : Date) : Datum := .scalar (.date d)
@[match_pattern] abbrev moment (m : Moment) : Datum := .scalar (.moment m)

def record (fields : List (String × Datum)) : Datum :=
  .map (fields.map fun f => (.text f.1, f.2))

def texts (xs : List String) : Datum := .list (xs.map .text)

def ofOption (f : α → Datum) : Option α → Datum
  | some a => f a
  | none => null

inductive Kind where
  | null
  | bool
  | int
  | float
  | text
  | date
  | moment
  | list
  | map
deriving DecidableEq, Repr

def kind : Datum → Kind
  | null => .null
  | bool _ => .bool
  | int _ => .int
  | float _ => .float
  | text _ => .text
  | date _ => .date
  | moment _ => .moment
  | list _ => .list
  | map _ => .map

def Kind.name : Kind → String
  | .null => "NoneType"
  | .bool => "bool"
  | .int => "int"
  | .float => "float"
  | .text => "str"
  | .date => "datetime.date"
  | .moment => "datetime.datetime"
  | .list => "list"
  | .map => "dict"

def isPresent : Datum → Bool
  | null => false
  | bool b => b
  | int n => n != 0
  | float x => !x.isZero
  | text s => !s.isEmpty
  | date _ => true
  | moment _ => true
  | list xs => !xs.isEmpty
  | map es => !es.isEmpty

def whole? : Datum → Option Int
  | bool b => some b.toNat
  | int n => some n
  | _ => none

@[simp] theorem whole?_int (n : Int) : (int n).whole? = some n := rfl

def lookup (key : String) : List (Scalar × Datum) → Option Datum
  | [] => none
  | (.text k, v) :: es => if k = key then some v else lookup key es
  | _ :: es => lookup key es

/-- Puts an entry into a mapping; a key that is there keeps its place. -/
def insert (k : Scalar) (v : Datum) : List (Scalar × Datum) → List (Scalar × Datum)
  | [] => [(k, v)]
  | (k', v') :: es => if k'.sameKey k then (k', v) :: es else (k', v') :: insert k v es

end Datum

end TokenSale
