import TokenSale.Datum.Yaml.Cursor

/-!
The contents of YAML scalars: plain ones, quoted ones, and literal or folded blocks. Line ends
inside are folded: one becomes a space, of several the first is dropped.
-/

namespace TokenSale.Datum.Yaml

def folded (first : Char) (breaks : List Char) : List Char :=
  (if first != '\n' then [first] else if breaks.isEmpty then [' '] else []) ++ breaks

def isFlowMark (c : Char) : Bool := c == ',' || c == '[' || c == ']' || c == '\x7b' || c == '\x7d'

/-- The length of the run of a plain scalar: up to a gap, a colon before a gap, or a mark of the
flow collection around it. -/
def plainRun (inFlow : Bool) : List Char → Nat
  | [] => 0
  | c :: rest =>
    let n := rest.head?.getD '\x00'
    if isGap c || (c == ':' && (isGap n || (inFlow && isFlowMark n))) ||
      (inFlow && (isFlowMark c || c == '?')) then 0
    else plainRun inFlow rest + 1

def plainBreaks : Nat → Cursor → List Char → Option (List Char) × Cursor
  | 0, c, acc => (some acc.reverse, c)
  | fuel + 1, c, acc =>
    if c.peek 0 == ' ' then plainBreaks fuel c.next acc
    else
      match c.lineBreak? with
      | none => (some acc.reverse, c)
      | some (b, c) => if c.atMarker then (none, c) else plainBreaks fuel c (b :: acc)

/-- What stands between two runs of a plain scalar, the place after it, and whether it has a line
end. -/
def plainSpaces (c : Cursor) : List Char × Cursor × Bool :=
  let (blanks, c) := c.takeWhile (· == ' ')
  match c.lineBreak? with
  | none => (blanks, c, false)
  | some (b, c) =>
    if c.atMarker then ([], c, true)
    else
      match plainBreaks c.rest.length c [] with
      | (some breaks, c) => (folded b breaks, c, true)
      | (none, c) => ([], c, true)

/-- A plain scalar after what is read of it, whose lines have to start at `indent` or further
right outside flow collections; also whether a line end follows. -/
def plainScalar (inFlow : Bool) (indent : Int) :
    Nat → List Char → Cursor → Bool → List Char × Cursor × Bool
  | 0, acc, c, crossed => (acc, c, crossed)
  | fuel + 1, acc, c, crossed =>
    let n := if c.peek 0 == '#' then 0 else plainRun inFlow c.rest
    if n = 0 then (acc, c, crossed)
    else
      let (run, rest) := c.rest.splitAt n
      let acc := acc ++ run
      let (spaces, c', crossed) := plainSpaces { c.skip n with rest }
      if spaces.isEmpty || c'.peek 0 == '#' || (!inFlow && decide ((c'.column : Int) < indent)) then
        (acc, c', crossed)
      else
        match plainScalar inFlow indent fuel (acc ++ spaces) c' crossed with
        | (acc', c'', crossed') =>
          if c''.index = c'.index then (acc, c'', crossed') else (acc', c'', crossed')

def letterEscape? : Char → Option Char
  | '0' => some '\x00'
  | 'a' => some '\x07'
  | 'b' => some '\x08'
  | 't' | '\t' => some '\t'
  | 'n' => some '\n'
  | 'v' => some '\x0b'
  | 'f' => some '\x0c'
  | 'r' => some '\r'
  | 'e' => some '\x1b'
  | ' ' => some ' '
  | '"' => some '"'
  | '\\' => some '\\'
  | '/' => some '/'
  | 'N' => some '\x85'
  | '_' => some '\xa0'
  | 'L' => some '\u2028'
  | 'P' => some '\u2029'
  | _ => none

def codeEscape? : Char → Option Nat
  | 'x' => some 2
  | 'u' => some 4
  | 'U' => some 8
  | _ => none

def hexDigit? (c : Char) : Option Nat :=
  if '0' ≤ c ∧ c ≤ '9' then some (c.toNat - '0'.toNat)
  else if 'a' ≤ c ∧ c ≤ 'f' then some (c.toNat - 'a'.toNat + 10)
  else if 'A' ≤ c ∧ c ≤ 'F' then some (c.toNat - 'A'.toNat + 10)
  else none

/-- The character of a code point; one that is no character becomes U+FFFD. -/
def charOf (n : Nat) : Char := if n.isValidChar then Char.ofNat n else '\ufffd'

def codePoint? (n : Nat) (c : Cursor) : Option (Char × Cursor) := do
  let ds ← (c.rest.take n).mapM hexDigit?
  if ds.length < n then none
  else
    let v := ds.foldl (fun v d => 16 * v + d) 0
    if 0x110000 ≤ v then none else return (charOf v, c.skip n)

def quotedBreaks : Nat → Cursor → List Char → Option (List Char × Cursor)
  | 0, c, acc => some (acc.reverse, c)
  | fuel + 1, c, acc =>
    if c.atMarker then none
    else
      let c := c.dropWhile fun x => x == ' ' || x == '\t'
      match c.lineBreak? with
      | none => some (acc.reverse, c)
      | some (b, c) => quotedBreaks fuel c (b :: acc)

def quotedEscape? (c : Cursor) : Option (List Char × Cursor) :=
  let x := c.peek 0
  match letterEscape? x, codeEscape? x, c.lineBreak? with
  | some y, _, _ => some ([y], c.next)
  | none, some n, _ => (codePoint? n c.next).map fun (y, c) => ([y], c)
  | none, none, some (_, c) => quotedBreaks (c.rest.length + 1) c []
  | none, none, none => none

def quotedSpaces? (c : Cursor) : Option (List Char × Cursor) :=
  let (blanks, c) := c.takeWhile fun x => x == ' ' || x == '\t'
  match c.lineBreak? with
  | some (b, c) => (quotedBreaks (c.rest.length + 1) c []).map fun (bs, c) => (folded b bs, c)
  | none => if c.rest.isEmpty then none else some (blanks, c)

/-- The rest of a quoted scalar after what is read of it. In single quotes a quote is written
twice; in double quotes a backslash escapes. -/
def quotedScalar (double : Bool) : Nat → List Char → Cursor → Option (String × Cursor)
  | 0, _, _ => none
  | fuel + 1, acc, c =>
    let x := c.peek 0
    if c.rest.isEmpty then none
    else if !double && x == '\'' && c.peek 1 == '\'' then
      quotedScalar double fuel (acc ++ ['\'']) (c.skip 2)
    else if x == (if double then '"' else '\'') then some (String.ofList acc, c.next)
    else if double && x == '\\' then do
      let (cs, c) ← quotedEscape? c.next
      quotedScalar double fuel (acc ++ cs) c
    else if isGap x then do
      let (cs, c) ← quotedSpaces? c
      quotedScalar double fuel (acc ++ cs) c
    else quotedScalar double fuel (acc ++ [x]) c.next

/-- How the line ends after a block scalar are kept: one of them, none or all. -/
inductive Chomping where
  | clip
  | strip
  | keep
deriving DecidableEq

def chomping? (c : Char) : Option Chomping :=
  if c = '+' then some .keep else if c = '-' then some .strip else none

def indentMark? (c : Char) : Option Nat :=
  if '1' ≤ c ∧ c ≤ '9' then some (c.toNat - '0'.toNat) else none

def blockMarks (c : Cursor) : Chomping × Option Nat × Cursor :=
  match chomping? (c.peek 0), indentMark? (c.peek 0) with
  | some ch, _ =>
    match indentMark? (c.peek 1) with
    | some n => (ch, some n, c.skip 2)
    | none => (ch, none, c.next)
  | none, some n =>
    match chomping? (c.peek 1) with
    | some ch => (ch, some n, c.skip 2)
    | none => (.clip, some n, c.next)
  | none, none => (.clip, none, c)

def blockLead : Nat → Cursor → List Char → Nat → List Char × Nat × Cursor
  | 0, c, acc, widest => (acc.reverse, widest, c)
  | fuel + 1, c, acc, widest =>
    match c.lineBreak? with
    | some (b, c) => blockLead fuel c (b :: acc) widest
    | none =>
      if c.peek 0 == ' ' then blockLead fuel c.next acc (max widest c.next.column)
      else (acc.reverse, widest, c)

def blockMargin : Nat → Nat → Cursor → Cursor
  | 0, _, c => c
  | fuel + 1, indent, c =>
    if c.column < indent ∧ c.peek 0 = ' ' then blockMargin fuel indent c.next else c

def blockBreaks (indent : Nat) : Nat → Cursor → List Char → List Char × Cursor
  | 0, c, acc => (acc.reverse, c)
  | fuel + 1, c, acc =>
    let c := blockMargin indent indent c
    match c.lineBreak? with
    | some (b, c) => blockBreaks indent fuel c (b :: acc)
    | none => (acc.reverse, c)

/-- The lines of a block scalar, given the empty lines before the next one. -/
def blockLines (fold : Bool) (ch : Chomping) (indent : Nat) :
    Nat → List Char → List Char → List Char → Cursor → String × Cursor
  | 0, acc, _, _, c => (String.ofList acc, c)
  | fuel + 1, acc, lineEnd, breaks, c =>
    if c.column = indent ∧ !c.rest.isEmpty then
      let indented := c.peek 0 == ' ' || c.peek 0 == '\t'
      let (line, c) := c.takeWhile fun x => !isBreak x
      let (lineEnd, c) := match c.lineBreak? with
        | some (b, c) => ([b], c)
        | none => ([], c)
      let acc := acc ++ breaks ++ line
      let (breaks, c) := blockBreaks indent (c.rest.length + 1) c []
      if c.column = indent ∧ !c.rest.isEmpty then
        let joined :=
          if fold && lineEnd == ['\n'] && !indented && c.peek 0 != ' ' && c.peek 0 != '\t' then
            (if breaks.isEmpty then [' '] else [])
          else lineEnd
        blockLines fold ch indent fuel (acc ++ joined) lineEnd breaks c
      else
        (String.ofList (acc ++ (if ch = .strip then [] else lineEnd) ++
          (if ch = .keep then breaks else [])), c)
    else
      (String.ofList (acc ++ (if ch = .strip then [] else lineEnd) ++
        (if ch = .keep then breaks else [])), c)

def blockScalar? (fold : Bool) (parent : Int) (c : Cursor) : Option (String × Cursor) :=
  let (ch, mark, c) := blockMarks c
  if !(c.peek 0 == ' ' || c.peek 0 == '\x00' || isBreak (c.peek 0)) then none
  else
    let c := c.dropWhile (· == ' ')
    let c := if c.peek 0 == '#' then c.dropWhile fun x => !isBreak x else c
    match c.rest, c.lineBreak? with
    | [], _ => some (blockLines fold ch 0 0 [] [] [] c)
    | _, none => none
    | _, some (_, c) =>
      let least := (max 1 (parent + 1)).toNat
      match mark with
      | some n =>
        let indent := least + n - 1
        let (breaks, c) := blockBreaks indent (c.rest.length + 1) c []
        some (blockLines fold ch indent (c.rest.length + 1) [] [] breaks c)
      | none =>
        let (breaks, widest, c) := blockLead (c.rest.length + 1) c [] 0
        some (blockLines fold ch (max least widest) (c.rest.length + 1) [] [] breaks c)

end TokenSale.Datum.Yaml
