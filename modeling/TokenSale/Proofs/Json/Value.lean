import TokenSale.Proofs.Json.Sorting
import TokenSale.Proofs.Json.Token

/-!
Plain data in indented JSON text, and back. Reading the text gives the data with the entries of
every mapping in the order of their keys.
-/

namespace TokenSale.Datum

open TokenSale.Text

/-- Data that JSON text can hold: without floats and times, and with distinct texts as keys. -/
inductive Plain : Datum → Prop
  | null : Plain null
  | bool (b : Bool) : Plain (bool b)
  | int (n : Int) : Plain (int n)
  | text (s : String) : Plain (text s)
  | list (xs : List Datum) (h : ∀ x ∈ xs, Plain x) : Plain (list xs)
  | record (fields : List (String × Datum)) (hnodup : (fields.map Prod.fst).Nodup)
      (h : ∀ e ∈ fields, Plain e.2) : Plain (record fields)

namespace Json

@[simp] theorem indentedAll_eq (depth : Nat) (xs : List Datum) :
    indentedAll depth xs = xs.map (indentedAt depth) := by
  induction xs with
  | nil => rfl
  | cons x xs ih => simp [indentedAll, ih]

theorem indentedEntries_texts (depth : Nat) (fields : List (String × Datum)) :
    indentedEntries depth (fields.map fun e => (.text e.1, e.2)) =
      fields.map fun e => (e.1, indentedAt depth e.2) := by
  induction fields with
  | nil => rfl
  | cons e fields ih => simp [indentedEntries, keyText, ih]

theorem indentedAt_record (depth : Nat) (fields : List (String × Datum)) :
    indentedAt depth (.record fields) = block "\x7b" "\x7d" depth
      ((sortEntries fields).map fun e => string e.1 ++ ": " ++ indentedAt (depth + 1) e.2) := by
  rw [Datum.record, indentedAt, indentedEntries_texts, sortEntries_map, List.map_map]
  rfl

/-! What surrounds a value. -/

def Blank (s : List Char) : Prop := ∀ c ∈ s, isBlank c = true

theorem blank_nil : Blank [] := by simp [Blank]

def margin (depth : Nat) : List Char := (newline depth).toList

theorem margin_eq (depth : Nat) : margin depth = '\n' :: List.replicate (2 * depth) ' ' := by
  simp [margin, newline]

theorem blank_margin (depth : Nat) : Blank (margin depth) := by
  intro c hc
  rw [margin_eq, List.mem_cons, List.mem_replicate] at hc
  rcases hc with rfl | ⟨-, rfl⟩ <;> rfl

theorem delimited_margin (depth : Nat) (rest : List Char) : Delimited (margin depth ++ rest) := by
  rw [margin_eq]
  exact delimited_newline _

theorem skipBlanks_append {s : List Char} (h : Blank s) (rest : List Char) :
    skipBlanks (s ++ rest) = skipBlanks rest :=
  List.dropWhile_append_of_pos h

theorem skipBlanks_cons {c : Char} (h : isBlank c = false) (rest : List Char) :
    skipBlanks (c :: rest) = c :: rest := by
  simp [skipBlanks, h]

theorem toList_block (openMark closeMark : String) (depth : Nat) {parts : List String}
    (h : parts ≠ []) :
    (block openMark closeMark depth parts).toList =
      openMark.toList ++ (margin (depth + 1) ++
        ((',' :: margin (depth + 1)).intercalate (parts.map String.toList) ++
          (margin depth ++ closeMark.toList))) := by
  simp [block, h, margin, String.toList_append, String.toList_intercalate]

/-- The text of a value: it is read as the value in front of a delimiter, and starts neither with
a blank nor with the end of a list. -/
structure Writes (text : List Char) (d : Datum) : Prop where
  starts : ∃ c cs, text = c :: cs ∧ isBlank c = false ∧ c ≠ ']'
  reads : ∀ fuel rest, text.length ≤ fuel → Delimited rest →
    value? fuel (text ++ rest) = some (d, rest)

variable {text : List Char} {d : Datum}

theorem Writes.length_pos (h : Writes text d) : 0 < text.length := by
  obtain ⟨c, cs, rfl, -⟩ := h.starts
  simp

theorem Writes.skipBlanks_eq (h : Writes text d) (rest : List Char) :
    skipBlanks (text ++ rest) = text ++ rest := by
  obtain ⟨c, cs, rfl, hblank, -⟩ := h.starts
  exact skipBlanks_cons hblank _

/-- The length of a text that is not empty leaves fuel for its first character. -/
theorem writes_cons {c : Char} {cs : List Char} (hblank : isBlank c = false) (hclose : c ≠ ']')
    (h : ∀ fuel rest, cs.length ≤ fuel → Delimited rest →
      value? (fuel + 1) (c :: (cs ++ rest)) = some (d, rest)) : Writes (c :: cs) d where
  starts := ⟨c, cs, rfl, hblank, hclose⟩
  reads := fun fuel rest hfuel hrest => by
    rw [List.length_cons] at hfuel
    obtain ⟨fuel, rfl⟩ := Nat.exists_eq_add_one.mpr (Nat.lt_of_lt_of_le (Nat.succ_pos _) hfuel)
    exact h fuel rest (Nat.le_of_succ_le_succ hfuel) hrest

/-! Scalars. -/

theorem writes_null : Writes "null".toList null :=
  writes_cons (by decide) (by decide) fun _ _ _ _ => rfl

theorem writes_bool (b : Bool) : Writes (scalar (.bool b)).toList (.bool b) := by
  cases b <;> exact writes_cons (by decide) (by decide) fun _ _ _ _ => rfl

theorem writes_text (s : String) : Writes (string s).toList (.text s) := by
  rw [toList_string]
  refine writes_cons (by decide) (by decide) fun fuel rest _ _ => ?_
  rw [List.append_assoc, List.singleton_append, value?, stringBody?_string s rest]
  rfl

theorem value?_digit (fuel : Nat) {d : Nat} (h : d < 10) (cs : List Char) :
    value? (fuel + 1) (Nat.digitChar d :: cs) = unsigned? false (Nat.digitChar d :: cs) := by
  interval_cases d <;> rfl

theorem value?_negative (fuel : Nat) {d : Nat} (h : d < 10) (cs : List Char) :
    value? (fuel + 1) ('-' :: Nat.digitChar d :: cs) = unsigned? true (Nat.digitChar d :: cs) := by
  interval_cases d <;> rfl

theorem writes_int (n : Int) : Writes (Numeral.text n).toList (.int n) := by
  obtain ⟨d, cs, hd, hcs, -⟩ := toDigits_head n.natAbs
  by_cases hneg : n < 0
  · have htext : (Numeral.text n).toList = '-' :: Nat.toDigits 10 n.natAbs := by
      simp [Numeral.text, hneg]
    have hn : -(n.natAbs : Int) = n := by omega
    rw [htext]
    refine writes_cons (by decide) (by decide) fun fuel rest _ hrest => ?_
    have hread := unsigned?_toDigits true n.natAbs hrest
    rw [hcs, List.cons_append] at hread ⊢
    rw [value?_negative fuel hd, hread, if_pos rfl, hn]
  · have htext : (Numeral.text n).toList = Nat.toDigits 10 n.natAbs := by
      simp [Numeral.text, hneg]
    have hn : (n.natAbs : Int) = n := by omega
    have hblank : isBlank (Nat.digitChar d) = false := by interval_cases d <;> rfl
    have hclose : Nat.digitChar d ≠ ']' := by interval_cases d <;> decide
    rw [htext, hcs]
    refine writes_cons hblank hclose fun fuel rest _ hrest => ?_
    have hread := unsigned?_toDigits false n.natAbs hrest
    rw [hcs, List.cons_append] at hread
    rw [value?_digit fuel hd, hread, if_neg Bool.false_ne_true, hn]

/-! Brackets. -/

theorem value?_elements {fuel : Nat} {s cs rest : List Char} {c : Char} {xs : List Datum}
    (hs : skipBlanks s = c :: cs) (hc : c ≠ ']')
    (h : elements? fuel (c :: cs) = some (xs, rest)) :
    value? (fuel + 1) ('[' :: s) = some (.list xs, rest) := by
  rw [value?, hs]
  split
  · rename_i heq
    exact absurd (List.cons.inj heq).1 hc
  · rw [h]
    rfl

theorem value?_members {fuel : Nat} {s cs rest : List Char} {c : Char}
    {es : List (Scalar × Datum)} (hs : skipBlanks s = c :: cs) (hc : c ≠ '\x7d')
    (h : members? fuel [] (c :: cs) = some (es, rest)) :
    value? (fuel + 1) ('\x7b' :: s) = some (.map es, rest) := by
  rw [value?, hs]
  split
  · rename_i heq
    exact absurd (List.cons.inj heq).1 hc
  · rw [h]
    rfl

theorem intercalate_head (sep : List Char) (c : Char) (cs : List Char)
    (texts : List (List Char)) : ∃ cs', sep.intercalate ((c :: cs) :: texts) = c :: cs' := by
  cases texts with
  | nil => exact ⟨cs, List.intercalate_singleton⟩
  | cons text texts => exact ⟨_, List.intercalate_cons_cons⟩

/-! Lists. -/

section Parts

variable {t : α → List Char} {g : α → Datum} {pre sep close : List Char}

theorem elements?_intercalate (hsep : Blank sep) (hclose : Blank close)
    (hdelimited : ∀ rest, Delimited (close ++ rest)) {x : α} {xs : List α}
    (h : ∀ y ∈ x :: xs, Writes (t y) (g y)) (hpre : Blank pre) {fuel : Nat}
    (hfuel : ((',' :: sep).intercalate ((x :: xs).map t)).length < fuel) (rest : List Char) :
    elements? fuel (pre ++ ((',' :: sep).intercalate ((x :: xs).map t) ++
      (close ++ ']' :: rest))) = some ((x :: xs).map g, rest) := by
  induction xs generalizing x pre fuel with
  | nil =>
    have hx := h x List.mem_cons_self
    obtain ⟨fuel, rfl⟩ := Nat.exists_eq_add_one.mpr (Nat.zero_lt_of_lt hfuel)
    rw [List.map_singleton, List.intercalate_singleton] at hfuel ⊢
    rw [elements?, skipBlanks_append hpre, hx.skipBlanks_eq,
      hx.reads fuel _ (Nat.le_of_lt_succ hfuel) (hdelimited _)]
    simp only [bind, Option.bind_some, skipBlanks_append hclose,
      skipBlanks_cons (show isBlank ']' = false by rfl)]
    rfl
  | cons y ys ih =>
    have hx := h x List.mem_cons_self
    have hlt := hx.length_pos
    obtain ⟨fuel, rfl⟩ := Nat.exists_eq_add_one.mpr (Nat.zero_lt_of_lt hfuel)
    simp only [List.map_cons, List.intercalate_cons_cons, List.length_append, List.length_cons]
      at hfuel
    -- an element has a character at least, so there is fuel left for the others
    have hlen : ((',' :: sep).intercalate ((y :: ys).map t)).length < fuel := by
      rw [List.map_cons]
      omega
    have hrest := ih (fun z hz => h z (List.mem_cons_of_mem x hz)) hsep hlen
    rw [List.map_cons, List.map_cons] at hrest
    simp only [List.map_cons, List.intercalate_cons_cons, List.append_assoc, List.cons_append]
    rw [elements?, skipBlanks_append hpre, hx.skipBlanks_eq,
      hx.reads fuel _ (by omega) (delimited_comma _)]
    simp only [bind, Option.bind_some, skipBlanks_cons (show isBlank ',' = false by rfl), hrest]
    rfl

theorem writes_elements (hpre : Blank pre) (hsep : Blank sep) (hclose : Blank close)
    (hdelimited : ∀ rest, Delimited (close ++ rest)) {x : α} {xs : List α}
    (h : ∀ y ∈ x :: xs, Writes (t y) (g y)) :
    Writes ('[' :: (pre ++ ((',' :: sep).intercalate ((x :: xs).map t) ++ (close ++ [']']))))
      (.list ((x :: xs).map g)) := by
  refine writes_cons (by decide) (by decide) fun fuel rest hfuel _ => ?_
  obtain ⟨c, cs, hc, hblank, hmark⟩ := (h x List.mem_cons_self).starts
  obtain ⟨cs', hcs'⟩ := intercalate_head (',' :: sep) c cs (xs.map t)
  have htexts : (',' :: sep).intercalate ((x :: xs).map t) = c :: cs' := by
    rw [List.map_cons, hc, hcs']
  have hlen : ((',' :: sep).intercalate ((x :: xs).map t)).length < fuel := by
    simp only [List.length_cons, List.length_append] at hfuel
    omega
  have hread := elements?_intercalate hsep hclose hdelimited h blank_nil hlen rest
  simp only [htexts, List.nil_append, List.cons_append, List.append_assoc] at hread ⊢
  refine value?_elements ?_ hmark hread
  rw [skipBlanks_append hpre, skipBlanks_cons hblank]

/-! Mappings. -/

def entryText (key : String) (text : List Char) : List Char :=
  '"' :: (key.toList.flatMap escape ++ '"' :: ':' :: ' ' :: text)

/-- An entry is put into the mapping; a bracket ends the mapping then, and a comma does not. -/
theorem members?_entry {key : String} (h : Writes text d) (hpre : Blank pre) {fuel : Nat}
    (hfuel : text.length ≤ fuel) (es : List (Scalar × Datum)) {rest rest' : List Char}
    (hrest : Delimited rest) :
    (skipBlanks rest = '\x7d' :: rest' →
      members? (fuel + 1) es (pre ++ (entryText key text ++ rest)) =
        some (insert (.text key) d es, rest')) ∧
    (skipBlanks rest = ',' :: rest' →
      members? (fuel + 1) es (pre ++ (entryText key text ++ rest)) =
        members? fuel (insert (.text key) d es) rest') := by
  have hkey := stringBody?_string key (':' :: ' ' :: (text ++ rest))
  have hblank : skipBlanks (' ' :: (text ++ rest)) = text ++ rest := h.skipBlanks_eq rest
  rw [members?, skipBlanks_append hpre, entryText, List.cons_append, List.append_assoc,
    skipBlanks_cons (by rfl)]
  constructor <;> intro hmark <;>
    simp only [List.cons_append, hkey, bind, Option.bind_some, pure,
      skipBlanks_cons (show isBlank ':' = false by rfl), hblank, h.reads fuel rest hfuel hrest,
      hmark]

variable {fields : List (String × α)}

theorem members?_intercalate (hsep : Blank sep) (hclose : Blank close)
    (hdelimited : ∀ rest, Delimited (close ++ rest)) {e : String × α}
    (h : ∀ e' ∈ e :: fields, Writes (t e'.2) (g e'.2)) (hpre : Blank pre) {fuel : Nat}
    (hfuel : ((',' :: sep).intercalate
      ((e :: fields).map fun e' => entryText e'.1 (t e'.2))).length < fuel)
    (es : List (Scalar × Datum)) (rest : List Char) :
    members? fuel es (pre ++ ((',' :: sep).intercalate
      ((e :: fields).map fun e' => entryText e'.1 (t e'.2)) ++ (close ++ '\x7d' :: rest))) =
      some ((e :: fields).foldl (fun es e' => insert (.text e'.1) (g e'.2) es) es, rest) := by
  induction fields generalizing e pre fuel es with
  | nil =>
    have he := h e List.mem_cons_self
    obtain ⟨fuel, rfl⟩ := Nat.exists_eq_add_one.mpr (Nat.zero_lt_of_lt hfuel)
    rw [List.map_singleton, List.intercalate_singleton] at hfuel ⊢
    have hlen : (t e.2).length ≤ fuel := by
      simp only [entryText, List.length_cons, List.length_append] at hfuel
      omega
    refine (members?_entry he hpre hlen es (hdelimited _)).1 ?_
    rw [skipBlanks_append hclose, skipBlanks_cons (by rfl)]
  | cons e' fields ih =>
    have he := h e List.mem_cons_self
    obtain ⟨fuel, rfl⟩ := Nat.exists_eq_add_one.mpr (Nat.zero_lt_of_lt hfuel)
    simp only [List.map_cons, List.intercalate_cons_cons, List.length_append, List.length_cons,
      entryText] at hfuel
    -- and so has an entry
    have hlen : ((',' :: sep).intercalate
        ((e' :: fields).map fun e' => entryText e'.1 (t e'.2))).length < fuel := by
      rw [List.map_cons]
      simp only [entryText]
      omega
    have hrest := ih (fun z hz => h z (List.mem_cons_of_mem e hz)) hsep hlen
      (insert (.text e.1) (g e.2) es)
    rw [List.map_cons] at hrest
    simp only [List.map_cons, List.intercalate_cons_cons, List.append_assoc, List.cons_append]
    rw [(members?_entry he hpre (by omega) es (delimited_comma _)).2 (skipBlanks_cons (by rfl) _)]
    exact hrest

theorem writes_members (hpre : Blank pre) (hsep : Blank sep) (hclose : Blank close)
    (hdelimited : ∀ rest, Delimited (close ++ rest)) {e : String × α}
    (h : ∀ e' ∈ e :: fields, Writes (t e'.2) (g e'.2)) :
    Writes ('\x7b' :: (pre ++ ((',' :: sep).intercalate
        ((e :: fields).map fun e' => entryText e'.1 (t e'.2)) ++ (close ++ ['\x7d']))))
      (.map ((e :: fields).foldl (fun es e' => insert (.text e'.1) (g e'.2) es) [])) := by
  refine writes_cons (by decide) (by decide) fun fuel rest hfuel _ => ?_
  obtain ⟨cs', hcs'⟩ := intercalate_head (',' :: sep) '"'
    (e.1.toList.flatMap escape ++ '"' :: ':' :: ' ' :: t e.2)
    (fields.map fun e' => entryText e'.1 (t e'.2))
  have htexts : (',' :: sep).intercalate
      ((e :: fields).map fun e' => entryText e'.1 (t e'.2)) = '"' :: cs' := hcs'
  have hlen : ((',' :: sep).intercalate
      ((e :: fields).map fun e' => entryText e'.1 (t e'.2))).length < fuel := by
    simp only [List.length_cons, List.length_append] at hfuel
    omega
  have hread := members?_intercalate hsep hclose hdelimited h blank_nil hlen [] rest
  simp only [htexts, List.nil_append, List.cons_append, List.append_assoc] at hread ⊢
  refine value?_members ?_ (by decide) hread
  rw [skipBlanks_append hpre, skipBlanks_cons (by rfl)]

end Parts

theorem insert_text {key : String} {fields : List (String × Datum)}
    (h : key ∉ fields.map Prod.fst) (v : Datum) :
    insert (.text key) v (fields.map fun e => (.text e.1, e.2)) =
      (fields ++ [(key, v)]).map fun e => (.text e.1, e.2) := by
  induction fields with
  | nil => rfl
  | cons e fields ih =>
    rw [List.map_cons, List.mem_cons, not_or] at h
    have hne : (Scalar.text e.1).sameKey (.text key) = false := by
      simp [Scalar.sameKey, Scalar.toInt?, Ne.symm h.1]
    simp [insert, hne, ih h.2]

theorem foldl_insert (g : α → Datum) (fields : List (String × α)) (acc : List (String × Datum))
    (hnodup : (acc.map Prod.fst ++ fields.map Prod.fst).Nodup) :
    fields.foldl (fun es e => insert (.text e.1) (g e.2) es)
        (acc.map fun e => (.text e.1, e.2)) =
      (acc ++ fields.map fun e => (e.1, g e.2)).map fun e => (.text e.1, e.2) := by
  induction fields generalizing acc with
  | nil => simp
  | cons e fields ih =>
    have hfresh : e.1 ∉ acc.map Prod.fst := fun hmem =>
      (List.nodup_append.mp hnodup).2.2 e.1 hmem e.1 List.mem_cons_self rfl
    rw [List.foldl_cons, insert_text hfresh, ih (acc ++ [(e.1, g e.2)]) (by simpa using hnodup)]
    simp

/-! Values. -/

theorem toList_block_nil (openMark closeMark : String) (depth : Nat) :
    (block openMark closeMark depth []).toList = openMark.toList ++ closeMark.toList := by
  simp [block]

theorem writes_list {xs : List Datum} {depth : Nat}
    (h : ∀ x ∈ xs, Writes (indentedAt (depth + 1) x).toList (sorted x)) :
    Writes (indentedAt depth (.list xs)).toList (.list (xs.map sorted)) := by
  rw [indentedAt, indentedAll_eq]
  cases xs with
  | nil =>
    rw [List.map_nil, toList_block_nil]
    exact writes_cons (by decide) (by decide) fun _ _ _ _ => rfl
  | cons x xs =>
    rw [toList_block _ _ _ (by simp), List.map_map]
    exact writes_elements (blank_margin (depth + 1)) (blank_margin (depth + 1))
      (blank_margin depth) (delimited_margin depth) h

theorem writes_record {fields : List (String × Datum)} (hnodup : (fields.map Prod.fst).Nodup)
    {depth : Nat} (h : ∀ e ∈ fields, Writes (indentedAt (depth + 1) e.2).toList (sorted e.2)) :
    Writes (block "\x7b" "\x7d" depth
        (fields.map fun e => string e.1 ++ ": " ++ indentedAt (depth + 1) e.2)).toList
      (.record (fields.map fun e => (e.1, sorted e.2))) := by
  cases fields with
  | nil =>
    rw [List.map_nil, toList_block_nil]
    exact writes_cons (by decide) (by decide) fun _ _ _ _ => rfl
  | cons e fields =>
    have hentry : ∀ e' : String × Datum,
        (string e'.1 ++ ": " ++ indentedAt (depth + 1) e'.2).toList =
          entryText e'.1 (indentedAt (depth + 1) e'.2).toList := fun e' => by
      simp [entryText, String.toList_append, toList_string]
    have hwrites := writes_members (t := fun x => (indentedAt (depth + 1) x).toList) (g := sorted)
      (blank_margin (depth + 1)) (blank_margin (depth + 1)) (blank_margin depth)
      (delimited_margin depth) h
    have hfields := foldl_insert sorted (e :: fields) [] hnodup
    rw [List.map_nil, List.nil_append] at hfields
    rw [hfields] at hwrites
    rw [toList_block _ _ _ (by simp), List.map_map]
    simp only [Function.comp_def, hentry]
    exact hwrites

theorem writes_indentedAt (h : Plain d) :
    ∀ depth, Writes (indentedAt depth d).toList (sorted d) := by
  induction h with
  | null => exact fun _ => writes_null
  | bool b => exact fun _ => writes_bool b
  | int n => exact fun _ => writes_int n
  | text s => exact fun _ => writes_text s
  | list xs _ ih =>
    intro depth
    rw [sorted, sortedAll_eq]
    exact writes_list fun x hx => ih x hx (depth + 1)
  | record fields hnodup _ ih =>
    intro depth
    have hperm := sortEntries_perm fields
    rw [indentedAt_record, sorted_record]
    exact writes_record ((hperm.map Prod.fst).nodup_iff.mpr hnodup) fun e he =>
      ih e (hperm.mem_iff.mp he) (depth + 1)

/-- Decoding undoes encoding, up to the order of keys. -/
theorem read?_indented (h : Plain d) : read? (indented d) = some (sorted d) := by
  have hwrites := writes_indentedAt h 0
  have hskip := hwrites.skipBlanks_eq []
  have hread := hwrites.reads ((indentedAt 0 d).toList.length + 1) [] (Nat.le_succ _) delimited_nil
  rw [List.append_nil] at hskip hread
  rw [read?, indented, hskip]
  simp only [hread, bind, Option.bind_some, pure]
  rfl

end Json

end TokenSale.Datum
