import TokenSale.Sum

/-!
Books: values under names, held in the order of the names. The order makes a book a normal form, so
two books with the same lookups are equal.
-/

namespace TokenSale

structure Book (α : Type) where
  entries : List (String × α)
  sorted : entries.Pairwise fun a b => a.1 < b.1

namespace Book

def insertEntry (k : String) (v : α) : List (String × α) → List (String × α)
  | [] => [(k, v)]
  | (k', v') :: es =>
    if k < k' then (k, v) :: (k', v') :: es
    else if k = k' then (k, v) :: es
    else (k', v') :: insertEntry k v es

def lookupEntry (k : String) : List (String × α) → Option α
  | [] => none
  | (k', v) :: es => if k' = k then some v else lookupEntry k es

def eraseEntry (k : String) (es : List (String × α)) : List (String × α) :=
  es.filter fun e => e.1 != k

theorem mem_insertEntry {k : String} {v : α} {e : String × α} {es : List (String × α)}
    (h : e ∈ insertEntry k v es) : e = (k, v) ∨ e ∈ es := by
  induction es with
  | nil => simpa [insertEntry] using h
  | cons head es ih =>
    obtain ⟨k', v'⟩ := head
    simp only [insertEntry] at h
    split at h
    · simpa using h
    · split at h <;> grind

theorem sorted_insertEntry {k : String} {v : α} {es : List (String × α)}
    (h : es.Pairwise fun a b => a.1 < b.1) :
    (insertEntry k v es).Pairwise fun a b => a.1 < b.1 := by
  induction es with
  | nil => simp [insertEntry]
  | cons head es ih =>
    obtain ⟨k', v'⟩ := head
    obtain ⟨hhead, htail⟩ := List.pairwise_cons.mp h
    simp only [insertEntry]
    split
    · rename_i hlt
      refine List.pairwise_cons.mpr ⟨fun e he => ?_, h⟩
      rcases List.mem_cons.mp he with rfl | he
      · exact hlt
      · exact String.lt_trans hlt (hhead e he)
    · rename_i hlt
      split
      · rename_i heq
        exact List.pairwise_cons.mpr ⟨fun e he => heq ▸ hhead e he, htail⟩
      · rename_i hne
        refine List.pairwise_cons.mpr ⟨fun e he => ?_, ih htail⟩
        rcases mem_insertEntry he with rfl | he
        · rcases Decidable.em (k' < k) with hgt | hgt
          · exact hgt
          · exact absurd (String.le_antisymm (String.not_lt.mp hgt) (String.not_lt.mp hlt)) hne
        · exact hhead e he

def empty : Book α := ⟨[], List.Pairwise.nil⟩

def get? (b : Book α) (k : String) : Option α := lookupEntry k b.entries

def insert (b : Book α) (k : String) (v : α) : Book α :=
  ⟨insertEntry k v b.entries, sorted_insertEntry b.sorted⟩

def erase (b : Book α) (k : String) : Book α :=
  ⟨eraseEntry k b.entries, b.sorted.filter _⟩

/-- The book of entries; of two under one name the later counts. -/
def ofList (es : List (String × α)) : Book α := es.foldl (fun b e => b.insert e.1 e.2) empty

def size (b : Book α) : Nat := b.entries.length

def total (f : α → Int) (b : Book α) : Int := sumOf (fun e => f e.2) b.entries

instance : Inhabited (Book α) := ⟨empty⟩

instance [DecidableEq α] : DecidableEq (Book α) := fun a b =>
  decidable_of_iff (a.entries = b.entries) (by cases a; cases b; simp)

@[simp] theorem get?_empty (k : String) : (empty : Book α).get? k = none := rfl

@[simp] theorem get?_insert_self (b : Book α) (k : String) (v : α) :
    (b.insert k v).get? k = some v := by
  simp only [get?, insert]
  induction b.entries with
  | nil => simp [insertEntry, lookupEntry]
  | cons head es ih =>
    simp only [insertEntry]
    split
    · simp [lookupEntry]
    · split
      · simp [lookupEntry]
      · rename_i hne
        simp [lookupEntry, Ne.symm hne, ih]

theorem get?_insert_of_ne (b : Book α) {k k' : String} (h : k' ≠ k) (v : α) :
    (b.insert k v).get? k' = b.get? k' := by
  simp only [get?, insert]
  induction b.entries with
  | nil => simp [insertEntry, lookupEntry, Ne.symm h]
  | cons head es ih =>
    simp only [insertEntry]
    split
    · simp [lookupEntry, Ne.symm h]
    · split
      · rename_i heq
        subst heq
        simp [lookupEntry, Ne.symm h]
      · simp [lookupEntry, ih]

theorem get?_insert (b : Book α) (k k' : String) (v : α) :
    (b.insert k v).get? k' = if k' = k then some v else b.get? k' := by
  split
  · rename_i heq
    rw [heq, get?_insert_self]
  · rename_i hne
    exact get?_insert_of_ne b hne v

theorem lookupEntry_eq_none {k : String} {es : List (String × α)} :
    lookupEntry k es = none ↔ ∀ e ∈ es, e.1 ≠ k := by
  induction es with
  | nil => simp [lookupEntry]
  | cons head es ih =>
    simp only [lookupEntry]
    split <;> simp_all

@[simp] theorem get?_erase_self (b : Book α) (k : String) : (b.erase k).get? k = none := by
  simp [get?, erase, eraseEntry, lookupEntry_eq_none]

theorem get?_erase_of_ne (b : Book α) {k k' : String} (h : k' ≠ k) :
    (b.erase k).get? k' = b.get? k' := by
  simp only [get?, erase, eraseEntry]
  induction b.entries with
  | nil => rfl
  | cons head es ih =>
    rcases Decidable.em (head.1 = k) with heq | hne
    · simp [lookupEntry, heq, ih, Ne.symm h]
    · simp [lookupEntry, hne, ih]

theorem lookupEntry_eq_none_of_lt {k : String} {head : String × α} {es : List (String × α)}
    (hhead : ∀ e ∈ es, head.1 < e.1) (h : k < head.1) : lookupEntry k (head :: es) = none := by
  refine lookupEntry_eq_none.mpr fun e he heq => ?_
  rcases List.mem_cons.mp he with rfl | he
  · exact String.lt_irrefl _ (heq ▸ h)
  · exact String.lt_irrefl _ (heq ▸ String.lt_trans h (hhead e he))

theorem ext_get? {a b : Book α} (h : ∀ k, a.get? k = b.get? k) : a = b := by
  obtain ⟨xs, hx⟩ := a
  obtain ⟨ys, hy⟩ := b
  simp only [get?] at h
  suffices xs = ys by subst this; rfl
  induction xs generalizing ys with
  | nil =>
    cases ys with
    | nil => rfl
    | cons y ys => simpa [lookupEntry] using h y.1
  | cons x xs ih =>
    cases ys with
    | nil => simpa [lookupEntry] using h x.1
    | cons y ys =>
      obtain ⟨hx1, hx2⟩ := List.pairwise_cons.mp hx
      obtain ⟨hy1, hy2⟩ := List.pairwise_cons.mp hy
      -- of two different heads the smaller one is missing from the other book
      have hkey : x.1 = y.1 := by
        refine String.le_antisymm (String.not_lt.mp fun hlt => ?_) (String.not_lt.mp fun hlt => ?_)
        · have := h y.1
          rw [lookupEntry_eq_none_of_lt hx1 hlt] at this
          simp [lookupEntry] at this
        · have := h x.1
          rw [lookupEntry_eq_none_of_lt hy1 hlt] at this
          simp [lookupEntry] at this
      have hval : x.2 = y.2 := by
        have := h x.1
        simpa [lookupEntry, hkey] using this
      have hrest : xs = ys := by
        refine ih hx2 ys hy2 fun k => ?_
        rcases Decidable.em (k = x.1) with rfl | hne
        · rw [lookupEntry_eq_none.mpr fun e he heq => String.lt_irrefl _ (heq ▸ hx1 e he)]
          rw [lookupEntry_eq_none.mpr fun e he heq =>
            String.lt_irrefl _ (hkey ▸ heq ▸ hy1 e he)]
        · have := h k
          simpa [lookupEntry, Ne.symm hne, hkey ▸ Ne.symm hne] using this
      obtain ⟨k, v⟩ := x
      obtain ⟨k', v'⟩ := y
      simp_all

theorem insert_insert_self (b : Book α) (k : String) (v w : α) :
    (b.insert k v).insert k w = b.insert k w := by
  refine ext_get? fun k' => ?_
  by_cases h : k' = k
  · rw [h, get?_insert_self, get?_insert_self]
  · simp only [get?_insert_of_ne _ h]

theorem insert_comm (b : Book α) {k k' : String} (h : k ≠ k') (v v' : α) :
    (b.insert k v).insert k' v' = (b.insert k' v').insert k v := by
  refine ext_get? fun j => ?_
  by_cases hk : j = k
  · rw [hk, get?_insert_of_ne _ h, get?_insert_self, get?_insert_self]
  · rw [get?_insert_of_ne _ hk]
    by_cases hk' : j = k'
    · rw [hk', get?_insert_self, get?_insert_self]
    · rw [get?_insert_of_ne _ hk', get?_insert_of_ne _ hk', get?_insert_of_ne _ hk]

theorem insert_of_get? {b : Book α} {k : String} {v : α} (h : b.get? k = some v) :
    b.insert k v = b := by
  refine ext_get? fun k' => ?_
  by_cases hk : k' = k
  · rw [hk, get?_insert_self, h]
  · rw [get?_insert_of_ne _ hk]

theorem erase_insert_self {b : Book α} {k : String} (h : b.get? k = none) (v : α) :
    (b.insert k v).erase k = b := by
  refine ext_get? fun k' => ?_
  by_cases hk : k' = k
  · rw [hk, get?_erase_self, h]
  · rw [get?_erase_of_ne _ hk, get?_insert_of_ne _ hk]

theorem insert_erase_self (b : Book α) (k : String) (v : α) :
    (b.erase k).insert k v = b.insert k v := by
  refine ext_get? fun k' => ?_
  by_cases hk : k' = k
  · rw [hk, get?_insert_self, get?_insert_self]
  · rw [get?_insert_of_ne _ hk, get?_insert_of_ne _ hk, get?_erase_of_ne _ hk]

theorem lookupEntry_eq_some {k : String} {v : α} {es : List (String × α)}
    (hsorted : es.Pairwise fun a b => a.1 < b.1) : lookupEntry k es = some v ↔ (k, v) ∈ es := by
  induction es with
  | nil => simp [lookupEntry]
  | cons head es ih =>
    obtain ⟨k', v'⟩ := head
    obtain ⟨hhead, htail⟩ := List.pairwise_cons.mp hsorted
    simp only [lookupEntry]
    split
    · rename_i heq
      subst heq
      have hnot : (k', v) ∉ es := fun hmem => String.lt_irrefl k' (hhead (k', v) hmem)
      simp [hnot, eq_comm]
    · rename_i hne
      rw [ih htail]
      simp [Ne.symm hne]

theorem get?_eq_some {b : Book α} {k : String} {v : α} : b.get? k = some v ↔ (k, v) ∈ b.entries :=
  lookupEntry_eq_some b.sorted

def Forall (p : α → Prop) (b : Book α) : Prop := ∀ k v, b.get? k = some v → p v

theorem forall_empty (p : α → Prop) : (empty : Book α).Forall p := by
  intro k v h
  simp at h

theorem Forall.insert {p : α → Prop} {b : Book α} (h : b.Forall p) (k : String) {v : α}
    (hv : p v) : (b.insert k v).Forall p := by
  intro k' v' h'
  by_cases heq : k' = k
  · rw [heq, get?_insert_self] at h'
    exact Option.some.inj h' ▸ hv
  · rw [get?_insert_of_ne b heq] at h'
    exact h k' v' h'

theorem Forall.erase {p : α → Prop} {b : Book α} (h : b.Forall p) (k : String) :
    (b.erase k).Forall p := by
  intro k' v' h'
  by_cases heq : k' = k
  · rw [heq, get?_erase_self] at h'
    cases h'
  · rw [get?_erase_of_ne b heq] at h'
    exact h k' v' h'

theorem total_nonneg {f : α → Int} {b : Book α} (h : b.Forall fun v => 0 ≤ f v) : 0 ≤ b.total f :=
  sumOf_nonneg fun e he => h e.1 e.2 (get?_eq_some.mpr he)

theorem total_eq_zero {f : α → Int} {b : Book α} (h : b.Forall fun v => f v = 0) :
    b.total f = 0 :=
  sumOf_eq_zero fun e he => h e.1 e.2 (get?_eq_some.mpr he)

theorem total_le_total {f g : α → Int} {b : Book α} (h : b.Forall fun v => f v ≤ g v) :
    b.total f ≤ b.total g :=
  sumOf_le_sumOf fun e he => h e.1 e.2 (get?_eq_some.mpr he)

theorem le_total {f : α → Int} {b : Book α} {k : String} {v : α}
    (hf : b.Forall fun v => 0 ≤ f v) (h : b.get? k = some v) : f v ≤ b.total f :=
  le_sumOf (f := fun e : String × α => f e.2) (fun e he => hf e.1 e.2 (get?_eq_some.mpr he))
    (get?_eq_some.mp h)

theorem total_insert (f : α → Int) (b : Book α) (k : String) (v : α) :
    (b.insert k v).total f = b.total f + f v - ((b.get? k).map f).getD 0 := by
  obtain ⟨es, hsorted⟩ := b
  simp only [total, insert, get?]
  induction es with
  | nil => simp [insertEntry, lookupEntry]
  | cons head es ih =>
    obtain ⟨hhead, htail⟩ := List.pairwise_cons.mp hsorted
    simp only [insertEntry]
    split
    · rename_i hlt
      rw [lookupEntry_eq_none_of_lt hhead hlt]
      simp
      omega
    · split
      · rename_i heq
        subst heq
        simp [lookupEntry]
        omega
      · rename_i hne
        simp only [lookupEntry, Ne.symm hne, if_false, sumOf_cons, ih htail]
        omega

theorem size_insert (b : Book α) (k : String) (v : α) :
    (b.insert k v).size = b.size + if (b.get? k).isSome then 0 else 1 := by
  obtain ⟨es, hsorted⟩ := b
  simp only [size, insert, get?]
  induction es with
  | nil => simp [insertEntry, lookupEntry]
  | cons head es ih =>
    obtain ⟨hhead, htail⟩ := List.pairwise_cons.mp hsorted
    simp only [insertEntry]
    split
    · rename_i hlt
      simp [lookupEntry_eq_none_of_lt hhead hlt]
    · split
      · rename_i heq
        simp [lookupEntry, heq]
      · rename_i hne
        simp only [lookupEntry, Ne.symm hne, if_false, List.length_cons, ih htail]
        exact Nat.add_right_comm ..

theorem total_erase (f : α → Int) (b : Book α) (k : String) :
    (b.erase k).total f = b.total f - ((b.get? k).map f).getD 0 := by
  obtain ⟨es, hsorted⟩ := b
  simp only [total, erase, eraseEntry, get?]
  induction es with
  | nil => rfl
  | cons head es ih =>
    obtain ⟨hhead, htail⟩ := List.pairwise_cons.mp hsorted
    have hrest := ih htail
    by_cases heq : head.1 = k
    · have hnone : lookupEntry k es = none :=
        lookupEntry_eq_none.mpr fun e he h => String.lt_irrefl k (by simpa [h, heq] using hhead e he)
      rw [hnone] at hrest
      simp only [lookupEntry, heq, List.filter_cons, bne_self_eq_false, Bool.false_eq_true, if_false,
        if_true, sumOf_cons, hrest, Option.map_some, Option.map_none, Option.getD_some,
        Option.getD_none]
      omega
    · simp only [lookupEntry, heq, List.filter_cons, bne_iff_ne, ne_eq, not_false_eq_true, if_true,
        if_false, sumOf_cons, hrest]
      omega

theorem size_eq_total (b : Book α) : (b.size : Int) = b.total fun _ => 1 :=
  (sumOf_one b.entries).symm

theorem size_erase (b : Book α) (k : String) :
    ((b.erase k).size : Int) = b.size - if (b.get? k).isSome then 1 else 0 := by
  rw [size_eq_total, size_eq_total, total_erase]
  cases b.get? k <;> rfl

end Book

end TokenSale
