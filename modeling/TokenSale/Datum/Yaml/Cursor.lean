/-!
A place in a YAML text: the characters that follow, and the line and column.
-/

namespace TokenSale.Datum.Yaml

def isBreak (c : Char) : Bool :=
  c == '\n' || c == '\r' || c == '\x85' || c == '\u2028' || c == '\u2029'

def isGap (c : Char) : Bool := c == '\x00' || c == ' ' || c == '\t' || isBreak c

structure Cursor where
  rest : List Char
  index : Nat
  line : Nat
  column : Nat

namespace Cursor

def start (s : List Char) : Cursor := ⟨s, 0, 0, 0⟩

/-- The `n`-th character that follows; past the end it is the null character. -/
def peek (c : Cursor) (n : Nat) : Char := (c.rest[n]?).getD '\x00'

/-- Passes one character. A byte order mark has no width. -/
def next (c : Cursor) : Cursor :=
  match c.rest with
  | [] => c
  | x :: rest =>
    if isBreak x && !(x == '\r' && rest.head? == some '\n') then ⟨rest, c.index + 1, c.line + 1, 0⟩
    else ⟨rest, c.index + 1, c.line, if x == '\ufeff' then c.column else c.column + 1⟩

def skip : Nat → Cursor → Cursor
  | 0, c => c
  | n + 1, c => skip n c.next

def takeWhile (p : Char → Bool) (c : Cursor) : List Char × Cursor :=
  let taken := c.rest.takeWhile p
  (taken, c.skip taken.length)

def dropWhile (p : Char → Bool) (c : Cursor) : Cursor := (c.takeWhile p).2

def lineBreak? (c : Cursor) : Option (Char × Cursor) :=
  match c.peek 0 with
  | '\r' => some ('\n', if c.peek 1 == '\n' then c.skip 2 else c.next)
  | '\n' | '\x85' => some ('\n', c.next)
  | '\u2028' => some ('\u2028', c.next)
  | '\u2029' => some ('\u2029', c.next)
  | _ => none

def atTriple (c : Cursor) (x : Char) : Bool :=
  c.peek 0 == x && c.peek 1 == x && c.peek 2 == x && isGap (c.peek 3)

def atMarker (c : Cursor) : Bool := c.atTriple '-' || c.atTriple '.'

end Cursor

end TokenSale.Datum.Yaml
