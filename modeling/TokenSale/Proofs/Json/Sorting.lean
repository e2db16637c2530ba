import TokenSale.Datum.Json.Printer
import TokenSale.Proofs.Record

/-!
The order of keys in JSON text. Entries are sorted by their keys whatever the values, and a record
with distinct keys is only rearranged by it.
-/

namespace TokenSale.Datum.Json

mutual

/-- A datum with the entries of every mapping in the order of the texts of their keys. -/
def sorted : Datum → Datum
  | .scalar s => .scalar s
  | .list xs => .list (sortedAll xs)
  | .map es => .record (sortEntries (sortedEntries es))

def sortedAll : List Datum → List Datum
  | [] => []
  | x :: xs => sorted x :: sortedAll xs

def sortedEntries : List (Scalar × Datum) → List (String × Datum)
  | [] => []
  | (k, v) :: es => (keyText k, sorted v) :: sortedEntries es

end

@[simp] theorem sortedAll_eq (xs : List Datum) : sortedAll xs = xs.map sorted := by
  induction xs with
  | nil => rfl
  | cons x xs ih => simp [sortedAll, ih]

theorem sortedEntries_texts (fields : List (String × Datum)) :
    sortedEntries (fields.map fun e => (.text e.1, e.2)) =
      fields.map fun e => (e.1, sorted e.2) := by
  induction fields with
  | nil => rfl
  | cons e fields ih => simp [sortedEntries, keyText, ih]

theorem sortEntries_map (g : α → β) (es : List (String × α)) :
    sortEntries (es.map fun e => (e.1, g e.2)) = (sortEntries es).map fun e => (e.1, g e.2) := by
  refine Eq.symm (List.map_mergeSort (f := fun e : String × α => (e.1, g e.2)) ?_)
  exact fun _ _ _ _ => rfl

theorem sortEntries_perm (es : List (String × α)) : (sortEntries es).Perm es :=
  List.mergeSort_perm es _

theorem sorted_record (fields : List (String × Datum)) :
    sorted (.record fields) = .record ((sortEntries fields).map fun e => (e.1, sorted e.2)) := by
  rw [Datum.record, sorted, sortedEntries_texts, sortEntries_map]

theorem lookup_map (g : α → β) (fields : List (String × α)) (key : String) :
    (fields.map fun e => (e.1, g e.2)).lookup key = (fields.lookup key).map g := by
  induction fields with
  | nil => rfl
  | cons e fields ih =>
    obtain ⟨k, v⟩ := e
    simp only [List.map_cons, List.lookup_cons, ih]
    cases key == k <;> rfl

theorem lookup_perm {fields fields' : List (String × α)} (h : fields.Perm fields')
    (hnodup : (fields.map Prod.fst).Nodup) (key : String) :
    fields.lookup key = fields'.lookup key := by
  induction h with
  | nil => rfl
  | cons e h ih =>
    obtain ⟨k, v⟩ := e
    rw [List.map_cons, List.nodup_cons] at hnodup
    simp only [List.lookup_cons, ih hnodup.2]
  | swap a b fields =>
    obtain ⟨j, v⟩ := a
    obtain ⟨k, w⟩ := b
    have hne : k ≠ j := by
      simp only [List.map_cons, List.nodup_cons, List.mem_cons, not_or] at hnodup
      exact hnodup.1.1
    by_cases hj : key = j
    · simp [List.lookup_cons, hj, beq_false_of_ne hne.symm]
    · simp [List.lookup_cons, beq_false_of_ne hj]
  | trans h h' ih ih' =>
    rw [ih hnodup, ih' ((h.map Prod.fst).nodup_iff.mp hnodup)]

theorem rearranges_sorted : Rearranges sorted where
  scalar := fun _ => rfl
  list := fun xs => by rw [sorted, sortedAll_eq]
  record := fun fields hnodup => by
    refine ⟨_, sorted_record fields, ?_, fun key => ?_⟩
    · rw [List.map_eq_nil_iff, List.map_eq_nil_iff]
      exact ⟨fun h => List.nil_perm.mp (h ▸ sortEntries_perm fields),
        fun h => List.perm_nil.mp (h ▸ sortEntries_perm fields)⟩
    · rw [lookup_record, lookup_map, ← lookup_perm (sortEntries_perm fields).symm hnodup]

end TokenSale.Datum.Json
