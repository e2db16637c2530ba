/-!
Sums of integers over lists.
-/

namespace TokenSale

def sumOf (f : α → Int) : List α → Int
  | [] => 0
  | a :: as => f a + sumOf f as

@[simp] theorem sumOf_nil (f : α → Int) : sumOf f [] = 0 := rfl

@[simp] theorem sumOf_cons (f : α → Int) (a : α) (as : List α) :
    sumOf f (a :: as) = f a + sumOf f as := rfl

@[simp] theorem sumOf_append (f : α → Int) (as bs : List α) :
    sumOf f (as ++ bs) = sumOf f as + sumOf f bs := by
  induction as with
  | nil => simp
  | cons a as ih => simp [ih, Int.add_assoc]

theorem sumOf_one (as : List α) : sumOf (fun _ => 1) as = as.length := by
  induction as with
  | nil => rfl
  | cons a as ih =>
    rw [sumOf_cons, ih, List.length_cons]
    omega

theorem sumOf_perm {f : α → Int} {as bs : List α} (h : as.Perm bs) : sumOf f as = sumOf f bs := by
  induction h with
  | nil => rfl
  | cons a _ ih => rw [sumOf_cons, sumOf_cons, ih]
  | swap a b as => exact Int.add_left_comm ..
  | trans _ _ ih ih' => exact ih.trans ih'

theorem sumOf_nonneg {f : α → Int} {as : List α} (h : ∀ a ∈ as, 0 ≤ f a) : 0 ≤ sumOf f as := by
  induction as with
  | nil => simp
  | cons a as ih =>
    have ha := h a (by simp)
    have has := ih fun b hb => h b (by simp [hb])
    simp only [sumOf_cons]
    omega

theorem sumOf_le_sumOf {f g : α → Int} {as : List α} (h : ∀ a ∈ as, f a ≤ g a) :
    sumOf f as ≤ sumOf g as := by
  induction as with
  | nil => simp
  | cons a as ih =>
    have ha := h a (by simp)
    have has := ih fun b hb => h b (by simp [hb])
    simp only [sumOf_cons]
    omega

theorem sumOf_congr {f g : α → Int} {as : List α} (h : ∀ a ∈ as, f a = g a) :
    sumOf f as = sumOf g as := by
  induction as with
  | nil => rfl
  | cons a as ih =>
    rw [sumOf_cons, sumOf_cons, h a (by simp), ih fun b hb => h b (by simp [hb])]

theorem sumOf_eq_zero {f : α → Int} {as : List α} (h : ∀ a ∈ as, f a = 0) : sumOf f as = 0 := by
  induction as with
  | nil => rfl
  | cons a as ih =>
    rw [sumOf_cons, h a (by simp), ih fun b hb => h b (by simp [hb])]
    rfl

theorem le_sumOf {f : α → Int} {a : α} {as : List α} (h : ∀ b ∈ as, 0 ≤ f b) (ha : a ∈ as) :
    f a ≤ sumOf f as := by
  induction as with
  | nil => simp at ha
  | cons b as ih =>
    have hb := h b (by simp)
    have has := sumOf_nonneg fun c hc => h c (List.mem_cons_of_mem b hc)
    simp only [sumOf_cons]
    rcases List.mem_cons.mp ha with rfl | ha
    · omega
    · have := ih (fun c hc => h c (List.mem_cons_of_mem b hc)) ha
      omega

theorem sumOf_mul_right (f : α → Int) (c : Int) (as : List α) :
    sumOf (fun a => f a * c) as = sumOf f as * c := by
  induction as with
  | nil => simp
  | cons a as ih => rw [sumOf_cons, sumOf_cons, ih, Int.add_mul]

theorem sumOf_map (f : β → Int) (g : α → β) (as : List α) :
    sumOf f (as.map g) = sumOf (fun a => f (g a)) as := by
  induction as with
  | nil => rfl
  | cons a as ih => rw [List.map_cons, sumOf_cons, sumOf_cons, ih]

theorem sumOf_filter_add (f : α → Int) (p : α → Bool) (as : List α) :
    sumOf f (as.filter p) + sumOf f (as.filter fun a => !p a) = sumOf f as := by
  induction as with
  | nil => rfl
  | cons a as ih =>
    by_cases hp : p a
    · rw [List.filter_cons_of_pos hp, List.filter_cons_of_neg (by simp [hp])]
      simp only [sumOf_cons]
      omega
    · rw [List.filter_cons_of_neg hp, List.filter_cons_of_pos (by simpa using hp)]
      simp only [sumOf_cons]
      omega

theorem sumOf_add_at [DecidableEq β] {key : α → β} {as : List α} (hnodup : (as.map key).Nodup)
    {a : α} (ha : a ∈ as) (f : α → Int) (c : Int) :
    sumOf (fun b => f b + if key a = key b then c else 0) as = sumOf f as + c := by
  induction as with
  | nil => simp at ha
  | cons b as ih =>
    obtain ⟨hfresh, hrest⟩ := List.nodup_cons.mp hnodup
    simp only [sumOf_cons]
    rcases List.mem_cons.mp ha with rfl | ha
    · have hsame : sumOf (fun b => f b + if key a = key b then c else 0) as = sumOf f as := by
        refine sumOf_congr fun b hb => ?_
        have hne : key a ≠ key b := fun heq => hfresh (heq ▸ List.mem_map_of_mem hb)
        rw [if_neg hne, Int.add_zero]
      rw [hsame, if_pos rfl]
      omega
    · have hne : key a ≠ key b := fun heq => hfresh (heq ▸ List.mem_map_of_mem ha)
      rw [ih hrest ha, if_neg hne]
      omega

end TokenSale
