import TokenSale.Datum.Display

/-!
JSON text of data in ASCII, with the keys of every mapping in code point order: a compact form for
the details of errors, and an indented form for people.
-/

namespace TokenSale.Datum.Json

open TokenSale.Text

def unitEscape (n : Nat) : List Char := '\\' :: 'u' :: Quoted.hex 4 n

/-- One character of a JSON string; beyond U+FFFF it is a surrogate pair. -/
def escape (c : Char) : List Char :=
  match c with
  | '"' => ['\\', '"']
  | '\\' => ['\\', '\\']
  | '\n' => ['\\', 'n']
  | '\r' => ['\\', 'r']
  | '\t' => ['\\', 't']
  | '\x08' => ['\\', 'b']
  | '\x0c' => ['\\', 'f']
  | c =>
    if ' ' ≤ c ∧ c ≤ '~' then [c]
    else if c.toNat < 0x10000 then unitEscape c.toNat
    else
      let n := c.toNat - 0x10000
      unitEscape (0xd800 + n / 0x400) ++ unitEscape (0xdc00 + n % 0x400)

def string (s : String) : String :=
  String.ofList ('"' :: s.toList.flatMap escape ++ ['"'])

/-- A JSON number; the values that are no numbers have names. -/
def number : Binary64 → String
  | .finite s m e => Binary64.finiteText s m e
  | .infinite true => "-Infinity"
  | .infinite false => "Infinity"
  | .nan => "NaN"

def scalar : Scalar → String
  | .null => "null"
  | .bool true => "true"
  | .bool false => "false"
  | .int n => Numeral.text n
  | .float x => number x
  | .text s => string s
  | .date d => string d.iso
  | .moment m => string m.iso

def keyText : Scalar → String
  | .text s => s
  | s => scalar s

def sortEntries (es : List (String × α)) : List (String × α) :=
  es.mergeSort fun a b => !decide (b.1 < a.1)

def object (es : List (String × String)) : String :=
  "\x7b" ++ ",".intercalate ((sortEntries es).map fun e => string e.1 ++ ":" ++ e.2) ++ "\x7d"

mutual

def compact : Datum → String
  | .scalar s => scalar s
  | .list xs => "[" ++ ",".intercalate (compactAll xs) ++ "]"
  | .map es => object (compactEntries es)

def compactAll : List Datum → List String
  | [] => []
  | x :: xs => compact x :: compactAll xs

def compactEntries : List (Scalar × Datum) → List (String × String)
  | [] => []
  | (k, v) :: es => (keyText k, compact v) :: compactEntries es

end

def newline (depth : Nat) : String := String.ofList ('\n' :: List.replicate (2 * depth) ' ')

def block (openMark closeMark : String) (depth : Nat) (parts : List String) : String :=
  if parts.isEmpty then openMark ++ closeMark
  else
    openMark ++ newline (depth + 1) ++ ("," ++ newline (depth + 1)).intercalate parts ++
      newline depth ++ closeMark

mutual

def indentedAt (depth : Nat) : Datum → String
  | .scalar s => scalar s
  | .list xs => block "[" "]" depth (indentedAll (depth + 1) xs)
  | .map es =>
    block "\x7b" "\x7d" depth
      ((sortEntries (indentedEntries (depth + 1) es)).map fun e => string e.1 ++ ": " ++ e.2)

def indentedAll (depth : Nat) : List Datum → List String
  | [] => []
  | x :: xs => indentedAt depth x :: indentedAll depth xs

def indentedEntries (depth : Nat) : List (Scalar × Datum) → List (String × String)
  | [] => []
  | (k, v) :: es => (keyText k, indentedAt depth v) :: indentedEntries depth es

end

def indented (d : Datum) : String := indentedAt 0 d

end TokenSale.Datum.Json
