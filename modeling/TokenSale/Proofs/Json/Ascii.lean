import TokenSale.Proofs.Json.Value

/-!
The characters of indented JSON text. It consists of printable ASCII and line feeds, so a file that
holds it is not changed by the joining of line ends.
-/

namespace TokenSale.Datum.Json

open TokenSale.Text

def Ascii (s : List Char) : Prop := ∀ c ∈ s, c = '\n' ∨ ' ' ≤ c ∧ c ≤ '~'

instance (s : List Char) : Decidable (Ascii s) := List.decidableBAll _ s

theorem ascii_nil : Ascii [] := by simp [Ascii]

@[simp] theorem ascii_cons {c : Char} {s : List Char} :
    Ascii (c :: s) ↔ (c = '\n' ∨ ' ' ≤ c ∧ c ≤ '~') ∧ Ascii s := by
  simp [Ascii]

@[simp] theorem ascii_append {s s' : List Char} : Ascii (s ++ s') ↔ Ascii s ∧ Ascii s' := by
  simp [Ascii, or_imp, forall_and]

theorem ascii_flatMap {g : Char → List Char} (h : ∀ c, Ascii (g c)) (s : List Char) :
    Ascii (s.flatMap g) := by
  intro c hc
  obtain ⟨b, -, hb⟩ := List.mem_flatMap.mp hc
  exact h b c hb

theorem ascii_intercalate {sep : List Char} (hsep : Ascii sep) {texts : List (List Char)}
    (h : ∀ text ∈ texts, Ascii text) : Ascii (sep.intercalate texts) := by
  induction texts with
  | nil => exact ascii_nil
  | cons text texts ih =>
    cases texts with
    | nil => simpa using h
    | cons text' texts =>
      rw [List.forall_mem_cons] at h
      rw [List.intercalate_cons_cons, ascii_append, ascii_append]
      exact ⟨⟨h.1, hsep⟩, ih h.2⟩

theorem ascii_digitChar {d : Nat} (h : d < 16) :
    ' ' ≤ Nat.digitChar d ∧ Nat.digitChar d ≤ '~' := by
  interval_cases d <;> decide

theorem ascii_unitEscape {n : Nat} (h : n < 0x10000) : Ascii (unitEscape n) := by
  simp only [unitEscape, hex_four h, ascii_cons]
  exact ⟨by decide, by decide, .inr (ascii_digitChar (by omega)), .inr (ascii_digitChar (by omega)),
    .inr (ascii_digitChar (by omega)), .inr (ascii_digitChar (by omega)), ascii_nil⟩

theorem ascii_escape (c : Char) : Ascii (escape c) := by
  rcases escape_cases c with ⟨letter, hesc, hle, hge, -⟩ | ⟨hesc, -, -, hascii⟩ |
    ⟨hesc, hunit⟩ | ⟨m, n, hesc, hhigh, hlow, -⟩
  · simp [hesc, hle, hge, ascii_nil]
  · simp [hesc, hascii, ascii_nil]
  · exact hesc ▸ ascii_unitEscape hunit
  · simp only [isHigh, isLow, decide_eq_true_eq] at hhigh hlow
    rw [hesc, ascii_append]
    exact ⟨ascii_unitEscape (by omega), ascii_unitEscape (by omega)⟩

theorem ascii_string (s : String) : Ascii (string s).toList := by
  rw [toList_string, ascii_cons, ascii_append]
  exact ⟨by decide, ascii_flatMap ascii_escape _, by decide⟩

theorem ascii_numeral (n : Int) : Ascii (Numeral.text n).toList := fun c hc => by
  have hvisible := Numeral.visible_text n c hc
  exact .inr ⟨Nat.le_of_lt hvisible.1, Nat.lt_succ_iff.mp hvisible.2⟩

theorem ascii_margin (depth : Nat) : Ascii (margin depth) := by
  intro c hc
  rw [margin_eq, List.mem_cons, List.mem_replicate] at hc
  rcases hc with rfl | ⟨-, rfl⟩ <;> decide

theorem ascii_block {openMark closeMark : String} (hopen : Ascii openMark.toList)
    (hclose : Ascii closeMark.toList) (depth : Nat) {parts : List String}
    (h : ∀ part ∈ parts, Ascii part.toList) :
    Ascii (block openMark closeMark depth parts).toList := by
  by_cases hparts : parts = []
  · rw [hparts, toList_block_nil, ascii_append]
    exact ⟨hopen, hclose⟩
  · have hmargin := ascii_margin (depth + 1)
    have hsep : Ascii (',' :: margin (depth + 1)) := ascii_cons.mpr ⟨by decide, hmargin⟩
    simp only [toList_block _ _ _ hparts, ascii_append]
    refine ⟨hopen, hmargin, ascii_intercalate hsep ?_, ascii_margin depth, hclose⟩
    simpa using h

theorem ascii_indentedAt {d : Datum} (h : Plain d) :
    ∀ depth, Ascii (indentedAt depth d).toList := by
  induction h with
  | null =>
    intro depth
    rw [indentedAt]
    decide
  | bool b =>
    intro depth
    rw [indentedAt]
    cases b <;> decide
  | int n => exact fun _ => ascii_numeral n
  | text s => exact fun _ => ascii_string s
  | list xs _ ih =>
    intro depth
    rw [indentedAt, indentedAll_eq]
    refine ascii_block (by decide) (by decide) depth fun part hpart => ?_
    obtain ⟨x, hx, rfl⟩ := List.mem_map.mp hpart
    exact ih x hx (depth + 1)
  | record fields _ _ ih =>
    intro depth
    rw [indentedAt_record]
    refine ascii_block (by decide) (by decide) depth fun part hpart => ?_
    obtain ⟨e, he, rfl⟩ := List.mem_map.mp hpart
    simp only [String.toList_append, ascii_append]
    exact ⟨⟨ascii_string e.1, by decide⟩,
      ih e ((sortEntries_perm fields).mem_iff.mp he) (depth + 1)⟩

end TokenSale.Datum.Json
