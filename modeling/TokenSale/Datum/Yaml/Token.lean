import TokenSale.Datum.Yaml.Scalar

/-!
The tokens of a YAML text without anchors, tags and directives. Indentation becomes tokens too, and
a key token is put before a key once the colon after it is seen; such a key lies on one line.
-/

namespace TokenSale.Datum.Yaml

inductive Token where
  | documentStart
  | documentEnd
  | blockSequence
  | blockMapping
  | blockEnd
  | flowSequence
  | flowSequenceEnd
  | flowMapping
  | flowMappingEnd
  | item
  | separator
  | key
  | value
  | scalar (s : String) (plain : Bool)
deriving DecidableEq, Repr

/-- A token that may turn out to be a key: its number, its place, and whether it has to be one. -/
structure KeyCandidate where
  number : Nat
  required : Bool
  index : Nat
  line : Nat
  column : Nat

/-- The state of reading tokens. `candidates` has one entry for the block level and one for each
flow collection that is open, the innermost first. -/
structure Scanner where
  cursor : Cursor
  tokens : Array Token
  indent : Int
  indents : List Int
  keysAllowed : Bool
  candidates : List (Option KeyCandidate)

namespace Scanner

def start (s : List Char) : Scanner := ⟨.start s, #[], -1, [], true, [none]⟩

def inFlow (s : Scanner) : Bool := decide (1 < s.candidates.length)

def emit (s : Scanner) (t : Token) (n : Nat) : Scanner :=
  { s with tokens := s.tokens.push t, cursor := s.cursor.skip n }

def skipGaps : Nat → Scanner → Scanner
  | 0, s => s
  | fuel + 1, s =>
    let c := s.cursor.dropWhile (· == ' ')
    let c := if c.peek 0 == '#' then c.dropWhile fun x => !isBreak x else c
    match c.lineBreak? with
    | some (_, c) => skipGaps fuel { s with cursor := c, keysAllowed := s.keysAllowed || !s.inFlow }
    | none => { s with cursor := c }

def isStale (c : Cursor) (k : KeyCandidate) : Bool :=
  k.line != c.line || decide (1024 < c.index - k.index)

/-- Drops candidates that are too old; one that had to be a key is refused. -/
def dropStale (s : Scanner) : Option Scanner :=
  if s.candidates.any fun k => k.any fun k => isStale s.cursor k && k.required then none
  else some { s with candidates := s.candidates.map fun k => k.filter fun k => !isStale s.cursor k }

def candidate? (s : Scanner) : Option KeyCandidate := s.candidates.head?.join

def setCandidate (s : Scanner) (k : Option KeyCandidate) : Scanner :=
  { s with candidates := k :: s.candidates.drop 1 }

def dropCandidate (s : Scanner) : Option Scanner :=
  if s.candidate?.any (·.required) then none else some (s.setCandidate none)

def saveCandidate (s : Scanner) : Option Scanner := do
  if !s.keysAllowed then return s
  let required := !s.inFlow && s.indent == (s.cursor.column : Int)
  let s ← s.dropCandidate
  let c := s.cursor
  return s.setCandidate (some ⟨s.tokens.size, required, c.index, c.line, c.column⟩)

def endBlocks (column : Int) : Int → List Int → Array Token → Int × List Int × Array Token
  | indent, [], tokens => (indent, [], tokens)
  | indent, outer :: indents, tokens =>
    if column < indent then endBlocks column outer indents (tokens.push .blockEnd)
    else (indent, outer :: indents, tokens)

def unwind (s : Scanner) (column : Int) : Scanner :=
  if s.inFlow then s
  else
    let (indent, indents, tokens) := endBlocks column s.indent s.indents s.tokens
    { s with indent, indents, tokens }

def startBlock (s : Scanner) (column place : Nat) (t : Token) : Scanner :=
  if s.indent < (column : Int) then
    { s with
      indents := s.indent :: s.indents
      indent := column
      tokens := s.tokens.insertIdxIfInBounds place t }
  else s

def readMarker (s : Scanner) (t : Token) : Option Scanner := do
  let s ← (s.unwind (-1)).dropCandidate
  return { s with keysAllowed := false }.emit t 3

def openFlow (s : Scanner) (t : Token) : Option Scanner := do
  let s ← s.saveCandidate
  return { s with candidates := none :: s.candidates, keysAllowed := true }.emit t 1

def closeFlow (s : Scanner) (t : Token) : Option Scanner := do
  let s ← s.dropCandidate
  if !s.inFlow then none
  else return { s with candidates := s.candidates.drop 1, keysAllowed := false }.emit t 1

def readSeparator (s : Scanner) : Option Scanner := do
  let s ← s.dropCandidate
  return { s with keysAllowed := true }.emit .separator 1

/-- The hyphen of an item or the question mark of a key; outside flow collections it may start a
block collection, where keys may start. -/
def readIndicator (s : Scanner) (block t : Token) (keysAllowed : Bool) : Option Scanner := do
  if !s.inFlow && !s.keysAllowed then none
  let s := if s.inFlow then s else s.startBlock s.cursor.column s.tokens.size block
  let s ← s.dropCandidate
  return { s with keysAllowed }.emit t 1

def readValueAfter (s : Scanner) (k : KeyCandidate) : Scanner :=
  let s := (s.setCandidate none)
  let s := { s with tokens := s.tokens.insertIdxIfInBounds k.number .key, keysAllowed := false }
  (if s.inFlow then s else s.startBlock k.column k.number .blockMapping).emit .value 1

def readValue (s : Scanner) : Option Scanner :=
  match s.candidate? with
  | some k => some (s.readValueAfter k)
  | none => s.readIndicator .blockMapping .value (!s.inFlow)

def readBlock (s : Scanner) (fold : Bool) : Option Scanner := do
  let s ← s.dropCandidate
  let (content, c) ← blockScalar? fold s.indent s.cursor.next
  return { s with keysAllowed := true, cursor := c }.emit (.scalar content false) 0

def readQuoted (s : Scanner) (double : Bool) : Option Scanner := do
  let s ← s.saveCandidate
  let c := s.cursor.next
  let (content, c) ← quotedScalar double (c.rest.length + 1) [] c
  return { s with keysAllowed := false, cursor := c }.emit (.scalar content false) 0

def readPlain (s : Scanner) : Option Scanner := do
  let s ← s.saveCandidate
  let (content, c, crossed) :=
    plainScalar s.inFlow (s.indent + 1) (s.cursor.rest.length + 1) [] s.cursor false
  return { s with keysAllowed := crossed, cursor := c }.emit
    (.scalar (String.ofList content) true) 0

def isIndicator (c : Char) : Bool := "-?:,[]\x7b\x7d#&*!|>'\"%@\x60".toList.contains c

def atPlain (s : Scanner) : Bool :=
  let x := s.cursor.peek 0
  !(isGap x || isIndicator x) ||
    (!isGap (s.cursor.peek 1) && (x == '-' || (!s.inFlow && (x == '?' || x == ':'))))

def atWord (s : Scanner) : Bool := isGap (s.cursor.peek 1)

/-- The next token, after the gaps before it. Anchors, tags and directives are refused. -/
def readToken (s : Scanner) : Option Scanner :=
  let x := s.cursor.peek 0
  let atColumn0 := s.cursor.column == 0
  if atColumn0 && s.cursor.atTriple '-' then s.readMarker .documentStart
  else if atColumn0 && s.cursor.atTriple '.' then s.readMarker .documentEnd
  else if x == '[' then s.openFlow .flowSequence
  else if x == '\x7b' then s.openFlow .flowMapping
  else if x == ']' then s.closeFlow .flowSequenceEnd
  else if x == '\x7d' then s.closeFlow .flowMappingEnd
  else if x == ',' then s.readSeparator
  else if x == '-' && s.atWord then s.readIndicator .blockSequence .item true
  else if x == '?' && (s.inFlow || s.atWord) then s.readIndicator .blockMapping .key (!s.inFlow)
  else if x == ':' && (s.inFlow || s.atWord) then s.readValue
  else if x == '|' && !s.inFlow then s.readBlock false
  else if x == '>' && !s.inFlow then s.readBlock true
  else if x == '\'' then s.readQuoted false
  else if x == '"' then s.readQuoted true
  else if s.atPlain then s.readPlain
  else none

def readAll : Nat → Scanner → Option (List Token)
  | 0, _ => none
  | fuel + 1, s => do
    let s := s.skipGaps (s.cursor.rest.length + 1)
    let s ← s.dropStale
    let s := s.unwind s.cursor.column
    if s.cursor.rest.isEmpty then
      let s ← (s.unwind (-1)).dropCandidate
      return s.tokens.toList
    else readAll fuel (← s.readToken)

end Scanner

def isAllowed (c : Char) : Bool :=
  let n := c.toNat
  n == 0x9 || n == 0xa || n == 0xd || n == 0x85 || decide (0x20 ≤ n ∧ n ≤ 0x7e) ||
    decide (0xa0 ≤ n ∧ n ≤ 0xfffd) || decide (0x10000 ≤ n)

def tokens? (s : List Char) : Option (List Token) :=
  if !s.all isAllowed then none
  else
    let s := Scanner.start s
    let s := if s.cursor.peek 0 == '\ufeff' then { s with cursor := s.cursor.next } else s
    s.readAll (s.cursor.rest.length + 1)

end TokenSale.Datum.Yaml
