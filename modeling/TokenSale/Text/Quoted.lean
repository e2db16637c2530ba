import TokenSale.Text.Printable

/-!
Quoted text, as messages show it: single quotes, or double quotes around a text that holds a single
quote and no double one; what cannot be shown is escaped.
-/

namespace TokenSale.Text.Quoted

def hex (width n : Nat) : List Char :=
  let ds := Nat.toDigits 16 n
  List.replicate (width - ds.length) '0' ++ ds

def mark (s : List Char) : Char :=
  if s.contains '\'' && !s.contains '"' then '"' else '\''

def escape (q c : Char) : List Char :=
  if c = '\\' ∨ c = q then ['\\', c]
  else if c = '\t' then ['\\', 't']
  else if c = '\n' then ['\\', 'n']
  else if c = '\r' then ['\\', 'r']
  else if ' ' ≤ c ∧ c < '\x7f' then [c]
  else if isPrintable c then [c]
  else if c.toNat < 0x100 then '\\' :: 'x' :: hex 2 c.toNat
  else if c.toNat < 0x10000 then '\\' :: 'u' :: hex 4 c.toNat
  else '\\' :: 'U' :: hex 8 c.toNat

def encode (s : List Char) : List Char :=
  let q := mark s
  q :: s.flatMap (escape q) ++ [q]

def quote (s : String) : String := String.ofList (encode s.toList)

end TokenSale.Text.Quoted
