import TokenSale.Datum.Yaml.Token

/-!
The tree of a YAML document: scalars, sequences and mappings, whose keys may be trees too.
-/

namespace TokenSale.Datum.Yaml

/-- A tree. A missing part is an empty plain scalar. -/
inductive Node where
  | scalar (s : String) (plain : Bool)
  | sequence (xs : List Node)
  | mapping (es : List (Node × Node))
deriving Repr, Inhabited

namespace Node

def empty : Node := .scalar "" true

def startsWith (stops : List Token) (ts : List Token) : Bool :=
  match ts with
  | [] => true
  | t :: _ => stops.contains t

mutual

/-- A tree. In a block it may be a block collection; where `indentless` holds, also a sequence that
is not indented. -/
def read? (block indentless : Bool) : Nat → List Token → Option (Node × List Token)
  | 0, _ => none
  | fuel + 1, ts =>
    match ts with
    | .scalar s plain :: ts => some (.scalar s plain, ts)
    | .flowSequence :: ts => do
      let (xs, ts) ← flowItems? fuel true [] ts
      return (.sequence xs, ts)
    | .flowMapping :: ts => do
      let (es, ts) ← flowEntries? fuel true [] ts
      return (.mapping es, ts)
    | .blockSequence :: ts => do
      if !block then none
      let (xs, ts) ← blockItems? fuel [] ts
      return (.sequence xs, ts)
    | .blockMapping :: ts => do
      if !block then none
      let (es, ts) ← blockEntries? fuel [] ts
      return (.mapping es, ts)
    | .item :: _ => do
      if !indentless then none
      let (xs, ts) ← looseItems? fuel [] ts
      return (.sequence xs, ts)
    | _ => none

def part? (block indentless : Bool) (stops : List Token) :
    Nat → List Token → Option (Node × List Token)
  | 0, _ => none
  | fuel + 1, ts =>
    if startsWith stops ts then some (empty, ts) else read? block indentless fuel ts

def value? (block : Bool) (stops : List Token) : Nat → List Token → Option (Node × List Token)
  | 0, _ => none
  | fuel + 1, ts =>
    match ts with
    | .value :: ts => part? block block stops fuel ts
    | ts => some (empty, ts)

def blockItems? : Nat → List Node → List Token → Option (List Node × List Token)
  | 0, _, _ => none
  | fuel + 1, xs, ts =>
    match ts with
    | .item :: ts => do
      let (x, ts) ← part? true false [.item, .blockEnd] fuel ts
      blockItems? fuel (x :: xs) ts
    | .blockEnd :: ts => some (xs.reverse, ts)
    | _ => none

def looseItems? : Nat → List Node → List Token → Option (List Node × List Token)
  | 0, _, _ => none
  | fuel + 1, xs, ts =>
    match ts with
    | .item :: ts => do
      let (x, ts) ← part? true false [.item, .key, .value, .blockEnd] fuel ts
      looseItems? fuel (x :: xs) ts
    | ts => some (xs.reverse, ts)

def blockEntries? : Nat → List (Node × Node) → List Token → Option (List (Node × Node) × List Token)
  | 0, _, _ => none
  | fuel + 1, es, ts =>
    match ts with
    | .key :: ts => do
      let (k, ts) ← part? true true [.key, .value, .blockEnd] fuel ts
      let (v, ts) ← value? true [.key, .value, .blockEnd] fuel ts
      blockEntries? fuel ((k, v) :: es) ts
    | .blockEnd :: ts => some (es.reverse, ts)
    | _ => none

/-- The items of a flow sequence; an entry with a key is a mapping of one entry. -/
def flowItems? : Nat → Bool → List Node → List Token → Option (List Node × List Token)
  | 0, _, _, _ => none
  | fuel + 1, first, xs, ts =>
    match ts with
    | .flowSequenceEnd :: ts => some (xs.reverse, ts)
    | ts => do
      let ts ← if first then some ts else separator? ts
      match ts with
      | .flowSequenceEnd :: ts => return (xs.reverse, ts)
      | .key :: ts =>
        let (k, ts) ← part? false false [.value, .separator, .flowSequenceEnd] fuel ts
        let (v, ts) ← value? false [.separator, .flowSequenceEnd] fuel ts
        flowItems? fuel false (.mapping [(k, v)] :: xs) ts
      | ts =>
        let (x, ts) ← read? false false fuel ts
        flowItems? fuel false (x :: xs) ts

def flowEntries? :
    Nat → Bool → List (Node × Node) → List Token → Option (List (Node × Node) × List Token)
  | 0, _, _, _ => none
  | fuel + 1, first, es, ts =>
    match ts with
    | .flowMappingEnd :: ts => some (es.reverse, ts)
    | ts => do
      let ts ← if first then some ts else separator? ts
      match ts with
      | .flowMappingEnd :: ts => return (es.reverse, ts)
      | .key :: ts =>
        let (k, ts) ← part? false false [.value, .separator, .flowMappingEnd] fuel ts
        let (v, ts) ← value? false [.separator, .flowMappingEnd] fuel ts
        flowEntries? fuel false ((k, v) :: es) ts
      | ts =>
        let (k, ts) ← read? false false fuel ts
        flowEntries? fuel false ((k, empty) :: es) ts

def separator? : List Token → Option (List Token)
  | .separator :: ts => some ts
  | _ => none

end

/-- The tree of a text of one document; none for a text without a document. -/
def ofTokens? (ts : List Token) : Option (Option Node) := do
  if ts.isEmpty then return none
  let fuel := 4 * ts.length + 4
  let (node, ts) ← match ts with
    | .documentStart :: ts => part? true false [.documentStart, .documentEnd] fuel ts
    | ts => read? true false fuel ts
  if (ts.dropWhile (· == .documentEnd)).isEmpty then return some node else none

end Node

end TokenSale.Datum.Yaml
