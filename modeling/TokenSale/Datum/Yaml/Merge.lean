import TokenSale.Datum.Yaml.Node

/-!
Merging of mappings: under the plain key `<<` a mapping takes over the entries of another mapping,
or of several ones in a sequence. Own entries count more than merged ones, and earlier mappings of
a sequence more than later ones.
-/

namespace TokenSale.Datum.Yaml.Node

def mergeMark : Node := .scalar "<<" true

def isMergeMark : Node → Bool
  | .scalar s plain => plain && s == "<<"
  | _ => false

def mergedEntries? : Node → Option (List (Node × Node))
  | .mapping es => if es.any (fun e => isMergeMark e.1) then none else some es
  | _ => none

/-- The entries that a tree under the mark brings in; those of later mappings come first. -/
def broughtIn? : Node → Option (List (Node × Node))
  | .sequence xs => do return (← xs.reverse.mapM mergedEntries?).flatten
  | n => mergedEntries? n

mutual

/-- The tree with all merging done. A mapping that merges anything but mappings is left with the
mark alone. -/
def merge : Node → Node
  | .scalar s plain => .scalar s plain
  | .sequence xs => .sequence (mergeItems xs)
  | .mapping es =>
    let parts := mergeEntries es
    match (parts.1.mapM broughtIn?).map List.flatten with
    | some brought => .mapping (brought ++ parts.2)
    | none => .mapping [(mergeMark, empty)]

def mergeItems : List Node → List Node
  | [] => []
  | x :: xs => merge x :: mergeItems xs

def mergeEntries : List (Node × Node) → List Node × List (Node × Node)
  | [] => ([], [])
  | (k, v) :: es =>
    let rest := mergeEntries es
    if isMergeMark k then (merge v :: rest.1, rest.2) else (rest.1, (k, merge v) :: rest.2)

end

end TokenSale.Datum.Yaml.Node
