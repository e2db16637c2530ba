import TokenSale.Datum.Yaml.Merge
import TokenSale.Datum.Yaml.Plain
import TokenSale.Fault

/-!
Reading YAML text of one document. A key is a scalar; of entries under one key the last counts. The
marks for merging and for a default value have no value. Of several flaws the first one on the
least depth is reported.
-/

namespace TokenSale.Datum.Yaml

def isMark (s : String) : Bool := s == "<<" || s == "="

def scalarOf (s : String) (plain : Bool) : Except Failure Scalar :=
  if !plain then .ok (.text s)
  else if isMark s then .error .unreadableYaml
  else liftMalformed (Plain.read s)

/-- The value of a key; the mark of a default value is a key like any other. -/
def keyOf (n : Node) : Except Failure Scalar :=
  match n with
  | .scalar s plain => if plain && s == "=" then .ok (.text s) else scalarOf s plain
  | _ => .error .unreadableYaml

mutual

def datumOf : Node → Except Failure Datum
  | .scalar s plain => do return .scalar (← scalarOf s plain)
  | .sequence xs => do return .list (← dataOf xs)
  | .mapping es => do return .map (← entriesOf [] es)

def dataOf : List Node → Except Failure (List Datum)
  | [] => .ok []
  | x :: xs => do return (← datumOf x) :: (← dataOf xs)

def entriesOf (acc : List (Scalar × Datum)) :
    List (Node × Node) → Except Failure (List (Scalar × Datum))
  | [] => .ok acc
  | (k, v) :: es => do
    let key ← keyOf k
    let value ← datumOf v
    entriesOf (insert key value acc) es

end

def joinLevels : List (List α) → List (List α) → List (List α)
  | [], ys => ys
  | xs, [] => xs
  | x :: xs, y :: ys => (x ++ y) :: joinLevels xs ys

def flawOf : Except Failure α → List Failure
  | .ok _ => []
  | .error e => [e]

mutual

/-- The flaws of a part by depth below the tree that it is a part of. -/
def flaws : Node → List (List Failure)
  | .scalar s plain => [flawOf (scalarOf s plain)]
  | .sequence xs => [] :: itemFlaws xs
  | .mapping es => [] :: entryFlaws es

def itemFlaws : List Node → List (List Failure)
  | [] => []
  | x :: xs => joinLevels (flaws x) (itemFlaws xs)

def entryFlaws : List (Node × Node) → List (List Failure)
  | [] => []
  | (k, v) :: es => joinLevels [flawOf (keyOf k)] (joinLevels (flaws v) (entryFlaws es))

end

def ofNode (n : Node) : Except Failure Datum :=
  let n := n.merge
  match (flaws n).flatten with
  | [] => datumOf n
  | e :: _ => .error e

def read (s : String) : Except Failure Datum :=
  match (tokens? s.toList).bind Node.ofTokens? with
  | none => .error .unreadableYaml
  | some none => .ok null
  | some (some n) => ofNode n

end TokenSale.Datum.Yaml
