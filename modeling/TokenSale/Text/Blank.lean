import TokenSale.Text.Range

/-!
Blank characters: the Unicode white space, and the four information separators.
-/

namespace TokenSale.Text

def blankTable : RangeTable :=
  [(0x9, 0xd), (0x1c, 0x20), (0x85, 0x85), (0xa0, 0xa0), (0x1680, 0x1680), (0x2000, 0x200a),
    (0x2028, 0x2029), (0x202f, 0x202f), (0x205f, 0x205f), (0x3000, 0x3000)]

def isBlank (c : Char) : Bool := blankTable.has c.toNat

def trimBy (p : Char → Bool) (s : List Char) : List Char :=
  ((s.dropWhile p).reverse.dropWhile p).reverse

def trim (s : List Char) : List Char := trimBy isBlank s

theorem trimBy_append {p : Char → Bool} {l s r : List Char} (hl : ∀ c ∈ l, p c = true)
    (hhead : ∀ c ∈ s.head?, p c = false) (hlast : ∀ c ∈ s.getLast?, p c = false)
    (hr : ∀ c ∈ r, p c = true) : trimBy p (l ++ s ++ r) = s := by
  rw [trimBy, List.append_assoc, List.dropWhile_append_of_pos hl]
  cases s with
  | nil =>
    have hnone : r.dropWhile p = [] := by
      rw [← List.append_nil r, List.dropWhile_append_of_pos hr, List.dropWhile_nil]
    simp [hnone]
  | cons a s =>
    have hstart : (a :: s ++ r).dropWhile p = a :: s ++ r :=
      List.dropWhile_cons_of_neg (by simp [hhead a rfl])
    obtain ⟨z, zs, hz⟩ := List.exists_cons_of_ne_nil
      (List.reverse_ne_nil_iff.mpr (List.cons_ne_nil a s))
    have hend : p z = false := hlast z (by rw [← List.head?_reverse, hz]; rfl)
    rw [hstart, List.reverse_append,
      List.dropWhile_append_of_pos fun c hc => hr c (List.mem_reverse.mp hc), hz,
      List.dropWhile_cons_of_neg (by simp [hend]), ← hz, List.reverse_reverse]

end TokenSale.Text
