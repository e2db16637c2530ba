import Mathlib.Data.List.Chain
import TokenSale.BuildLabel

/-!
What a build label says. A label is the words of the description, which are its longest runs of
ASCII letters and digits, in order and with one dot between any two. Each pass over the description
keeps its words, and the last ones leave single dots between them.
-/

namespace TokenSale.BuildLabel

open TokenSale.Text

/-- The words of a text: its runs of word characters that no word character touches, in order. -/
inductive Words : List Char → List (List Char) → Prop
  | nil : Words [] []
  | gap {c : Char} {s : List Char} {ws : List (List Char)} (hc : isWordChar c = false)
      (h : Words s ws) : Words (c :: s) ws
  | word {w s : List Char} {ws : List (List Char)} (hne : w ≠ [])
      (hw : ∀ c ∈ w, isWordChar c = true) (hs : ∀ c ∈ s.head?, isWordChar c = false)
      (h : Words s ws) : Words (w ++ s) (w :: ws)

def join (ws : List (List Char)) : List Char := ['.'].intercalate ws

structure Dotted (t : List Char) : Prop where
  chars : ∀ c ∈ t, isWordChar c = true ∨ c = '.'
  single : t.IsChain fun a b => ¬(a = '.' ∧ b = '.')

/-- The form of a label: such a text that no dot starts or ends. -/
structure Tidy (t : List Char) : Prop extends Dotted t where
  head_ne : t.head? ≠ some '.'
  last_ne : t.getLast? ≠ some '.'

variable {p : Char → Bool} {s t w : List Char} {ws : List (List Char)} {c : Char}

/-! Every text has its words. -/

theorem Words.one (hc : isWordChar c = true) (hs : ∀ d ∈ s.head?, isWordChar d = false)
    (h : Words s ws) : Words (c :: s) ([c] :: ws) :=
  .word (List.cons_ne_nil c []) (List.forall_mem_singleton.mpr hc) hs h

theorem exists_words (s : List Char) : ∃ ws, Words s ws := by
  induction s with
  | nil => exact ⟨[], .nil⟩
  | cons c s ih =>
    obtain ⟨ws, h⟩ := ih
    cases hc : isWordChar c with
    | false => exact ⟨ws, .gap hc h⟩
    | true =>
      -- The character starts a word of its own unless the rest starts with one.
      cases h with
      | nil => exact ⟨[[c]], .one hc (by simp) .nil⟩
      | gap hd h => exact ⟨[c] :: ws, .one hc (by simpa using hd) (.gap hd h)⟩
      | @word w _ _ _ hw hs h =>
        exact ⟨_, .word (List.cons_ne_nil c w) (List.forall_mem_cons.mpr ⟨hc, hw⟩) hs h⟩

theorem Words.mem (h : Words s ws) : ∀ w ∈ ws, w ≠ [] ∧ ∀ c ∈ w, isWordChar c = true := by
  induction h with
  | nil => simp
  | gap _ _ ih => exact ih
  | word hne hw _ _ ih => exact List.forall_mem_cons.mpr ⟨⟨hne, hw⟩, ih⟩

theorem Words.filter_eq (h : Words s ws) : s.filter isWordChar = ws.flatten := by
  induction h with
  | nil => rfl
  | gap hc _ ih => rw [List.filter_cons_of_neg (by simp [hc]), ih]
  | word _ hw _ _ ih =>
    rw [List.filter_append, List.filter_eq_self.mpr hw, ih, List.flatten_cons]

/-! Each pass keeps the words. -/

def dotSeparator (c : Char) : Char := if c = '-' ∨ c = '+' then '.' else c

theorem dotSeparator_of_wordChar (h : isWordChar c = true) : dotSeparator c = c := by
  refine if_neg ?_
  rintro (rfl | rfl) <;> exact absurd h (by decide)

theorem isWordChar_dotSeparator (h : isWordChar c = false) :
    isWordChar (dotSeparator c) = false := by
  unfold dotSeparator
  split
  · decide
  · exact h

theorem Words.dotSeparators (h : Words s ws) : Words (dotSeparators s) ws := by
  change Words (s.map dotSeparator) ws
  induction h with
  | nil => exact .nil
  | gap hc _ ih => exact .gap (isWordChar_dotSeparator hc) ih
  | @word w s _ hne hw hs _ ih =>
    have hsame : w.map dotSeparator = w := by
      rw [List.map_congr_left fun c hc => dotSeparator_of_wordChar (hw c hc), List.map_id']
    rw [List.map_append, hsame]
    refine .word hne hw (fun c hc => ?_) ih
    rw [List.head?_map] at hc
    obtain ⟨d, hd, rfl⟩ := Option.map_eq_some_iff.mp hc
    exact isWordChar_dotSeparator (hs d hd)

theorem dotRuns_append (hw : ∀ c ∈ w, p c = false) :
    dotRuns p false (w ++ s) = w ++ dotRuns p false s := by
  induction w with
  | nil => rfl
  | cons c w ih =>
    obtain ⟨hc, hw⟩ := List.forall_mem_cons.mp hw
    rw [List.cons_append, dotRuns, if_neg (by simp [hc]), ih hw, List.cons_append]

theorem dotRuns_word (inside : Bool) (hne : w ≠ []) (hw : ∀ c ∈ w, p c = false) :
    dotRuns p inside (w ++ s) = w ++ dotRuns p false s := by
  obtain ⟨c, w, rfl⟩ := List.exists_cons_of_ne_nil hne
  obtain ⟨hc, hw⟩ := List.forall_mem_cons.mp hw
  rw [List.cons_append, dotRuns, if_neg (by simp [hc]), dotRuns_append hw, List.cons_append]

theorem head_dotRuns (hs : ∀ c ∈ s.head?, isWordChar c = false) :
    ∀ c ∈ (dotRuns p false s).head?, isWordChar c = false := by
  cases s with
  | nil => simp [dotRuns]
  | cons d s =>
    have hd : isWordChar d = false := hs d rfl
    rw [dotRuns]
    split
    · simpa using (by decide : isWordChar '.' = false)
    · simpa using hd

theorem Words.dotRuns (hp : ∀ c, p c = true → isWordChar c = false) (h : Words s ws)
    (inside : Bool) : Words (dotRuns p inside s) ws := by
  induction h generalizing inside with
  | nil => exact .nil
  | gap hc _ ih =>
    rw [BuildLabel.dotRuns]
    split
    · split
      · exact ih true
      · exact .gap (by decide) (ih true)
    · exact .gap hc (ih false)
  | word hne hw hs _ ih =>
    have hnone : ∀ c ∈ _, p c = false := fun c hc =>
      Bool.eq_false_iff.mpr fun htrue => absurd (hw c hc) (by simp [hp c htrue])
    rw [dotRuns_word inside hne hnone]
    exact .word hne hw (head_dotRuns hs) (ih false)

/-! The last pass leaves single dots. -/

theorem mem_dotRuns {inside : Bool} (h : c ∈ dotRuns p inside s) :
    c = '.' ∨ c ∈ s ∧ p c = false := by
  fun_induction dotRuns p inside s with
  | case1 => simp at h
  | case2 d s _ ih => exact (ih h).imp_right fun h => ⟨List.mem_cons_of_mem d h.1, h.2⟩
  | case3 inside d s _ _ ih =>
    rcases List.mem_cons.mp h with rfl | h
    · exact .inl rfl
    · exact (ih h).imp_right fun h => ⟨List.mem_cons_of_mem d h.1, h.2⟩
  | case4 inside d s hd ih =>
    rcases List.mem_cons.mp h with rfl | h
    · exact .inr ⟨List.mem_cons_self .., by simpa using hd⟩
    · exact (ih h).imp_right fun h => ⟨List.mem_cons_of_mem d h.1, h.2⟩

theorem dotRuns_dots (inside : Bool) (s : List Char) :
    (dotRuns (· == '.') inside s).IsChain (fun a b => ¬(a = '.' ∧ b = '.')) ∧
      (inside = true → ∀ c ∈ (dotRuns (· == '.') inside s).head?, c ≠ '.') := by
  fun_induction dotRuns (· == '.') inside s with
  | case1 => simp
  | case2 d s _ ih => exact ih
  | case3 inside d s _ hinside ih =>
    refine ⟨List.isChain_cons.mpr ⟨fun c hc hdots => ih.2 rfl c hc hdots.2, ih.1⟩, ?_⟩
    exact fun htrue => absurd htrue hinside
  | case4 inside d s hd ih =>
    have hd : d ≠ '.' := by simpa using hd
    refine ⟨List.isChain_cons.mpr ⟨fun c _ hdots => hd hdots.1, ih.1⟩, ?_⟩
    simpa using fun _ => hd

theorem dotted_dotRuns (inside : Bool) (s : List Char) :
    Dotted (dotRuns (· == '.') false
      (dotRuns (fun c => !isWordChar c && c != '.') inside s)) where
  chars := fun c hc => by
    rcases mem_dotRuns hc with rfl | ⟨hc, hne⟩
    · exact .inr rfl
    rcases mem_dotRuns hc with rfl | ⟨_, hkeep⟩
    · exact .inr rfl
    · exact (Bool.eq_false_or_eq_true (isWordChar c)).imp_right fun h => by simpa [h] using hkeep
  single := (dotRuns_dots false _).1

/-! Dotted texts are their words, but for dots at the ends. -/

theorem Dotted.of_append (h : Dotted (s ++ t)) : Dotted s ∧ Dotted t := by
  obtain ⟨hs, ht, -⟩ := List.isChain_append.mp h.single
  exact ⟨⟨fun c hc => h.chars c (List.mem_append_left t hc), hs⟩,
    ⟨fun c hc => h.chars c (List.mem_append_right s hc), ht⟩⟩

theorem join_cons_cons (w v : List Char) (ws : List (List Char)) :
    join (w :: v :: ws) = w ++ '.' :: join (v :: ws) := by
  simp [join, List.intercalate_cons_cons]

theorem join_cons (w : List Char) (ws : List (List Char)) : ∃ r, join (w :: ws) = w ++ r := by
  cases ws with
  | nil => exact ⟨[], by simp [join]⟩
  | cons v ws => exact ⟨_, join_cons_cons w v ws⟩

theorem join_ne_nil (hws : ∀ w ∈ ws, w ≠ [] ∧ ∀ c ∈ w, isWordChar c = true) (hne : ws ≠ []) :
    join ws ≠ [] := by
  obtain ⟨w, ws, rfl⟩ := List.exists_cons_of_ne_nil hne
  obtain ⟨r, hr⟩ := join_cons w ws
  simp [hr, (hws w (by simp)).1]

theorem head_join (hws : ∀ w ∈ ws, w ≠ [] ∧ ∀ c ∈ w, isWordChar c = true) :
    ∀ c ∈ (join ws).head?, isWordChar c = true := by
  cases ws with
  | nil => simp [join]
  | cons w ws =>
    obtain ⟨⟨hne, hw⟩, -⟩ := List.forall_mem_cons.mp hws
    obtain ⟨r, hr⟩ := join_cons w ws
    rw [hr, List.head?_append_of_ne_nil w hne]
    exact fun c hc => hw c (List.mem_of_mem_head? hc)

theorem last_join (hws : ∀ w ∈ ws, w ≠ [] ∧ ∀ c ∈ w, isWordChar c = true) :
    ∀ c ∈ (join ws).getLast?, isWordChar c = true := by
  induction ws with
  | nil => simp [join]
  | cons w ws ih =>
    obtain ⟨⟨hne, hw⟩, hws⟩ := List.forall_mem_cons.mp hws
    cases ws with
    | nil => simpa [join] using fun c hc => hw c (List.mem_of_mem_getLast? hc)
    | cons v ws =>
      have hrest : join (v :: ws) ≠ [] := join_ne_nil hws (List.cons_ne_nil v ws)
      rw [join_cons_cons, List.getLast?_append_of_ne_nil _ (List.cons_ne_nil '.' _),
        List.getLast?_cons_of_ne_nil hrest]
      exact ih hws

theorem filter_join (hws : ∀ w ∈ ws, w ≠ [] ∧ ∀ c ∈ w, isWordChar c = true) :
    (join ws).filter isWordChar = ws.flatten := by
  induction ws with
  | nil => rfl
  | cons w ws ih =>
    obtain ⟨⟨-, hw⟩, hws⟩ := List.forall_mem_cons.mp hws
    have hkeep : w.filter isWordChar = w := List.filter_eq_self.mpr hw
    cases ws with
    | nil => simpa [join] using hkeep
    | cons v ws =>
      have hrest := ih hws
      rw [join_cons_cons, List.filter_append, hkeep, List.filter_cons_of_neg (by decide), hrest]
      exact List.flatten_cons.symm

theorem join_eq_nil (hws : ∀ w ∈ ws, w ≠ [] ∧ ∀ c ∈ w, isWordChar c = true) :
    join ws = [] ↔ ws.flatten = [] := by
  cases ws with
  | nil => simp [join]
  | cons w ws =>
    have hjoin : join (w :: ws) ≠ [] := join_ne_nil hws (List.cons_ne_nil w ws)
    have hflatten : (w :: ws).flatten ≠ [] := by simp [(hws w (by simp)).1]
    simp only [hjoin, hflatten]

/-- Between two words stands a dot, since the first one ends there, and only one. -/
theorem Dotted.eq_dot {l : List Char} (hd : Dotted (l ++ t)) (hl : ∀ c ∈ l, c = '.')
    (ht : ∀ c ∈ t.head?, isWordChar c = true) (hne : t ≠ [])
    (hs : ∀ c ∈ (l ++ t).head?, isWordChar c = false) : l = ['.'] := by
  match l with
  | [] =>
    obtain ⟨c, t, rfl⟩ := List.exists_cons_of_ne_nil hne
    exact absurd (ht c rfl) (by simp [hs c rfl])
  | [c] => rw [hl c (by simp)]
  | c :: d :: l =>
    have hpair : ¬(c = '.' ∧ d = '.') := (List.isChain_cons_cons.mp hd.single).1
    exact absurd ⟨hl c (by simp), hl d (by simp)⟩ hpair

theorem Words.eq_join (h : Words t ws) (hd : Dotted t) :
    ∃ l r, t = l ++ join ws ++ r ∧ (∀ c ∈ l, c = '.') ∧ ∀ c ∈ r, c = '.' := by
  induction h with
  | nil => exact ⟨[], [], rfl, by simp, by simp⟩
  | @gap c s ws hc h ih =>
    obtain ⟨l, r, rfl, hl, hr⟩ := ih (hd.of_append (s := [c])).2
    have hdot : c = '.' := (hd.chars c (by simp)).resolve_left (by simp [hc])
    exact ⟨c :: l, r, by simp, List.forall_mem_cons.mpr ⟨hdot, hl⟩, hr⟩
  | @word w s ws hne hw hs h ih =>
    obtain ⟨l, r, rfl, hl, hr⟩ := ih hd.of_append.2
    cases ws with
    | nil =>
      refine ⟨[], l ++ r, by simp [join], by simp, fun c hc => ?_⟩
      exact (List.mem_append.mp hc).elim (hl c) (hr c)
    | cons v ws =>
      have hjoin : join (v :: ws) ≠ [] := join_ne_nil h.mem (List.cons_ne_nil v ws)
      rw [List.append_assoc] at hd hs
      have hhead : ∀ c ∈ (join (v :: ws) ++ r).head?, isWordChar c = true := by
        rw [List.head?_append_of_ne_nil _ hjoin]
        exact head_join h.mem
      have hdot : l = ['.'] := hd.of_append.2.eq_dot hl hhead (by simp [hjoin]) hs
      exact ⟨[], r, by simp [join_cons_cons, hdot], by simp, hr⟩

/-! The whole. -/

theorem isDigit_dotSeparator (c : Char) : isDigit (dotSeparator c) = isDigit c := by
  unfold dotSeparator
  split
  · rename_i h
    rcases h with rfl | rfl <;> decide
  · rfl

theorem dotSeparator_eq_v : dotSeparator c = 'v' ↔ c = 'v' := by
  unfold dotSeparator
  split
  · rename_i h
    rcases h with rfl | rfl <;> decide
  · rfl

theorem dropMark_cons (c d : Char) (s : List Char) :
    dropMark (c :: d :: s) = if c = 'v' ∧ isDigit d = true then d :: s else c :: d :: s := by
  by_cases hc : c = 'v'
  · subst hc
    by_cases hd : isDigit d = true <;> simp [dropMark, hd]
  · rw [if_neg (by simp [hc]), dropMark]
    simp [hc]

theorem dropMark_dotSeparators (s : List Char) :
    dropMark (dotSeparators s) = dotSeparators (dropMark s) := by
  change dropMark (s.map dotSeparator) = (dropMark s).map dotSeparator
  match s with
  | [] => rfl
  | [c] => simp [dropMark]
  | c :: d :: s =>
    simp only [List.map_cons, dropMark_cons, dotSeparator_eq_v, isDigit_dotSeparator]
    split <;> rfl

theorem ofDescription_eq_join {desc : List Char} (h : Words (dropMark desc) ws) :
    ofDescription desc = join ws ∧ Dotted (join ws) := by
  have hwords : Words (dotRuns (· == '.') false
      (dotRuns (fun c => !isWordChar c && c != '.') false
        (dropMark (BuildLabel.dotSeparators desc)))) ws := by
    rw [dropMark_dotSeparators]
    refine (h.dotSeparators.dotRuns (fun c hc => ?_) false).dotRuns (fun c hc => ?_) false
    · simp only [Bool.and_eq_true, Bool.not_eq_true'] at hc
      exact hc.1
    · rw [eq_of_beq hc]
      decide
  have hdotted := dotted_dotRuns false (dropMark (BuildLabel.dotSeparators desc))
  obtain ⟨l, r, heq, hl, hr⟩ := hwords.eq_join hdotted
  have hdot : ∀ c, isWordChar c = true → (c == '.') = false := by
    rintro c hc
    refine beq_eq_false_iff_ne.mpr ?_
    rintro rfl
    exact absurd hc (by decide)
  constructor
  · simp only [ofDescription, heq]
    exact trimBy_append (fun c hc => by simp [hl c hc]) (fun c hc => hdot c (head_join h.mem c hc))
      (fun c hc => hdot c (last_join h.mem c hc)) fun c hc => by simp [hr c hc]
  · rw [heq] at hdotted
    exact hdotted.of_append.1.of_append.2

theorem Words.tidy_join (h : Words s ws) (hd : Dotted (join ws)) : Tidy (join ws) where
  toDotted := hd
  head_ne := fun hdot => absurd (head_join h.mem '.' hdot) (by decide)
  last_ne := fun hdot => absurd (last_join h.mem '.' hdot) (by decide)

/-- The label of a description is its words, without a mark in front of them, and single dots
between them. So it has the form of a label, keeps all word characters in order, and is empty only
if there are none. -/
theorem ofDescription_eq_words (desc : List Char) :
    (∃ ws, Words (dropMark desc) ws) ∧
    (∀ ws, Words (dropMark desc) ws → ofDescription desc = join ws) ∧
    Tidy (ofDescription desc) ∧
    (ofDescription desc).filter isWordChar = (dropMark desc).filter isWordChar ∧
    (ofDescription desc = [] ↔ ∀ c ∈ dropMark desc, isWordChar c = false) := by
  obtain ⟨ws, h⟩ := exists_words (dropMark desc)
  obtain ⟨heq, hdotted⟩ := ofDescription_eq_join h
  have hnone : (∀ c ∈ dropMark desc, isWordChar c = false) ↔ ws.flatten = [] := by
    simp [← h.filter_eq]
  refine ⟨⟨ws, h⟩, fun ws h => (ofDescription_eq_join h).1, ?_, ?_, ?_⟩
  · rw [heq]
    exact h.tidy_join hdotted
  · rw [heq, filter_join h.mem, h.filter_eq]
  · rw [heq, hnone, join_eq_nil h.mem]

/-- A mark in front, and gaps of several characters, dots among them. -/
theorem ofDescription_eq_words_sample :
    let desc := "v1.2-+3..é_x-".toList
    let ws := ["1".toList, "2".toList, "3".toList, "x".toList]
    Words (dropMark desc) ws ∧ ofDescription desc = join ws ∧ join ws = "1.2.3.x".toList := by
  intro desc ws
  have hwords : Words (dropMark desc) ws :=
    .one (by decide) (by simp; decide) <| .gap (by decide) <|
    .one (by decide) (by simp; decide) <| .gap (by decide) <| .gap (by decide) <|
    .one (by decide) (by simp; decide) <| .gap (by decide) <| .gap (by decide) <|
      .gap (by decide) <| .gap (by decide) <|
    .one (by decide) (by simp; decide) <| .gap (by decide) .nil
  exact ⟨hwords, (ofDescription_eq_words desc).2.1 ws hwords, by decide⟩

end TokenSale.BuildLabel
