import TokenSale.Proofs.Refusal
import TokenSale.Sale.Reader

/-!
What escapes when a sale is read: an infinite number in the place of an integer, and data that are
no mapping in the place of a part. Each reader of a part has its hazards, and each access to data
fails with a reason that does not escape or meets a hazard.
-/

namespace TokenSale

/-- Reading a sale passes these reasons on as they are. -/
def Malformed.Escapes (m : Malformed) : Prop := m.category = .overflow ∨ m.category = .field

/-! What escapes, by the places where it stands. -/

namespace Datum

def InfiniteUnder (d : Datum) (key : String) : Prop :=
  ∃ negative, d.entry key = .ok (.float (.infinite negative))

/-- The part under a key, unless it counts as absent. -/
def HasPart (d : Datum) (key : String) (part : Datum) : Prop :=
  d.entry key = .ok part ∧ part.isPresent = true

def HasElement (d : Datum) (key : String) (x : Datum) : Prop :=
  ∃ part xs, d.HasPart key part ∧ part.elements = .ok xs ∧ x ∈ xs

end Datum

inductive Price.Hazard (d : Datum) : Malformed → Prop
  | number {key : String} (hkey : key ∈ ["deposit_unit", "sale_unit"])
      (h : d.InfiniteUnder key) : Hazard d .infinite

inductive Vesting.Hazard (d : Datum) : Malformed → Prop
  | fields (h : d.kind ≠ .map) : Hazard d (.noFields d.kind)
  | number {key : String}
      (hkey : key ∈ ["cliff_period", "vesting_period", "instant_claim_percentage"])
      (h : d.InfiniteUnder key) : Hazard d .infinite

inductive Split.Hazard (d : Datum) : Malformed → Prop
  | fields (h : d.kind ≠ .map) : Hazard d (.noFields d.kind)
  | number {key : String} (hkey : key ∈ ["solver_percentage", "fee_percentage"])
      (h : d.InfiniteUnder key) : Hazard d .infinite

inductive Stakeholder.Hazard (d : Datum) : Malformed → Prop
  | fields (h : d.kind ≠ .map) : Hazard d (.noFields d.kind)
  | number (h : d.InfiniteUnder "allocation") : Hazard d .infinite
  | vesting {part : Datum} {m : Malformed} (hpart : d.HasPart "vesting" part)
      (h : Vesting.Hazard part m) : Hazard d m

inductive Plan.Hazard (d : Datum) : Malformed → Prop
  | fields (h : d.kind ≠ .map) : Hazard d (.noFields d.kind)
  | number (h : d.InfiniteUnder "solver_allocation") : Hazard d .infinite
  | stakeholder {x : Datum} {m : Malformed} (hx : d.HasElement "stakeholders" x)
      (h : Stakeholder.Hazard x m) : Hazard d m
  | split {part : Datum} {m : Malformed} (hpart : d.HasPart "deposits" part)
      (h : Split.Hazard part m) : Hazard d m

namespace Sale

def numberKeys : List String := ["soft_cap", "sale_amount", "total_sale_amount", "min_deposit"]

/-- Where the data of a sale holds what escapes with a reason. -/
inductive Hazard (d : Datum) : Malformed → Prop
  | fields (h : d.kind ≠ .map) : Hazard d (.noFields d.kind)
  | number {key : String} (hkey : key ∈ numberKeys) (h : d.InfiniteUnder key) : Hazard d .infinite
  | discount {x : Datum} (hx : d.HasElement "discounts" x) (h : x.InfiniteUnder "percentage") :
      Hazard d .infinite
  | price {part price : Datum} {m : Malformed} (hpart : d.entry "mechanic" = .ok part)
      (hprice : part.entry "fixed_price" = .ok price) (h : Price.Hazard price m) : Hazard d m
  | vesting {part : Datum} {m : Malformed} (hpart : d.HasPart "vesting" part)
      (h : Vesting.Hazard part m) : Hazard d m
  | plan {part : Datum} {m : Malformed} (hpart : d.HasPart "distribution" part)
      (h : Plan.Hazard part m) : Hazard d m

end Sale

/-! Accesses. -/

/-- Of the reasons that a reader can fail with, all that escape are known. -/
abbrev EscapesOnly (H : Malformed → Prop) (x : Except Malformed α) : Prop :=
  FailsOnly (fun m => m.Escapes → H m) x

theorem EscapesOnly.safe {H : Malformed → Prop} {m : Malformed}
    (h : m.category = .key ∨ m.category = .type ∨ m.category = .value) :
    EscapesOnly H (.error m : Except Malformed α) :=
  .error fun hescapes => by rcases h with h | h | h <;> simp [Malformed.Escapes, h] at hescapes

theorem EscapesOnly.mono {H H' : Malformed → Prop} {x : Except Malformed α}
    (h : EscapesOnly H x) (hle : ∀ m, H m → H' m) : EscapesOnly H' x :=
  FailsOnly.mono h fun m hm hescapes => hle m (hm hescapes)

namespace Datum

variable {d v : Datum} {o : Option Datum} {key : String} {H : Malformed → Prop}

theorem field?_eq_ok : d.field? key = .ok o ↔ ∃ es, d = .map es ∧ lookup key es = o := by
  cases d <;> simp [field?]

theorem entry_eq_ok : d.entry key = .ok v ↔ ∃ es, d = .map es ∧ lookup key es = some v := by
  unfold entry
  split
  · rename_i es
    cases hes : lookup key es <;> simp [hes]
  · rename_i hne
    simp only [reduceCtorEq, false_iff, not_exists, not_and]
    exact fun es heq => absurd heq (hne es)

theorem kind_of_field? (h : d.field? key = .ok o) : d.kind = .map := by
  obtain ⟨es, rfl, -⟩ := field?_eq_ok.mp h
  rfl

theorem entry_of_field? (h : d.field? key = .ok o) : d.entry key = .ok v ↔ o = some v := by
  obtain ⟨es, rfl, rfl⟩ := field?_eq_ok.mp h
  cases hes : lookup key es <;> simp [entry, hes]

theorem hasPart_iff (h : d.field? key = .ok o) : d.HasPart key v ↔ present? o = some v := by
  simp only [HasPart, entry_of_field? h, present?, Option.filter_eq_some_iff]

theorem field?_escapes (h : d.kind ≠ .map → H (.noFields d.kind)) :
    EscapesOnly H (d.field? key) := by
  unfold field?
  split
  · exact .ok _
  · rename_i hne
    exact .error fun _ => h fun hkind => by
      cases d with
      | scalar s => cases s <;> cases hkind
      | list xs => cases hkind
      | map es => exact hne es rfl

theorem entry_escapes : EscapesOnly H (d.entry key) := by
  unfold entry
  split
  · split
    · exact .ok _
    · exact .safe (.inl rfl)
  · exact .safe (.inr (.inl rfl))

theorem elements_escapes : EscapesOnly H d.elements := by
  unfold elements
  split
  case h_4 => exact .safe (.inr (.inl rfl))
  all_goals exact .ok _

theorem name_escapes : EscapesOnly H d.name := by
  unfold name
  split
  · exact .ok _
  · exact .safe (.inr (.inr rfl))

theorem numeralToInt_escapes (s : String) : EscapesOnly H (numeralToInt s) := by
  unfold numeralToInt
  split
  · exact .ok _
  all_goals exact .safe (.inr (.inr rfl))

theorem toInt_escapes (h : ∀ negative, d = .float (.infinite negative) → H .infinite) :
    EscapesOnly H d.toInt := by
  unfold toInt
  split
  case h_3 => exact .safe (.inr (.inr rfl))
  case h_4 x hx =>
    cases x with
    | finite => exact .ok _
    | infinite negative => exact .error fun _ => h negative rfl
    | nan => exact absurd rfl hx
  case h_5 s => exact numeralToInt_escapes s
  case h_6 => exact .safe (.inr (.inl rfl))
  all_goals exact .ok _

theorem toInt_of_entry (hv : d.entry key = .ok v) (h : d.InfiniteUnder key → H .infinite) :
    EscapesOnly H v.toInt :=
  toInt_escapes fun negative hinfinite => h ⟨negative, hinfinite ▸ hv⟩

theorem intEntry_escapes (h : d.InfiniteUnder key → H .infinite) :
    EscapesOnly H (do (← d.entry key).toInt) :=
  .bind entry_escapes fun _ hv => toInt_of_entry hv h

theorem intOr_escapes (hfields : d.kind ≠ .map → H (.noFields d.kind))
    (h : d.InfiniteUnder key → H .infinite) (default : Int) :
    EscapesOnly H (d.intOr key default) := by
  refine .bind (field?_escapes hfields) fun o ho => ?_
  cases o with
  | none => exact .pure _
  | some v => exact toInt_of_entry ((entry_of_field? ho).mpr rfl) h

theorem optionalInt_escapes (ho : d.field? key = .ok o) (h : d.InfiniteUnder key → H .infinite) :
    EscapesOnly H (optionalInt o) := by
  unfold optionalInt
  split
  · exact .ok _
  · exact .ok _
  · exact .bind (toInt_of_entry ((entry_of_field? ho).mpr rfl) h) fun _ _ => .pure _

theorem optionally_escapes {read : Datum → Except Malformed α} {P : Datum → Malformed → Prop}
    (ho : d.field? key = .ok o) (hread : ∀ part, EscapesOnly (P part) (read part))
    (hle : ∀ part m, d.HasPart key part → P part m → H m) :
    EscapesOnly H (optionally read o) := by
  unfold optionally
  split
  · exact .ok _
  · rename_i part hpart
    have hpart := (hasPart_iff ho).mpr hpart
    exact .bind ((hread part).mono fun m => hle part m hpart) fun _ _ => .pure _

theorem elementsOr_escapes : EscapesOnly H (elementsOr o) := by
  unfold elementsOr
  split
  · exact .ok _
  · exact elements_escapes

theorem hasElement_of_elementsOr {xs : List Datum} {x : Datum} (ho : d.field? key = .ok o)
    (h : elementsOr o = .ok xs) (hx : x ∈ xs) : d.HasElement key x := by
  unfold elementsOr at h
  split at h
  · cases h
    cases hx
  · rename_i part hpart
    exact ⟨part, xs, (hasPart_iff ho).mpr hpart, h, hx⟩

/-! What escapes is not read. -/

theorem not_infiniteUnder {n : Int} (hv : d.entry key = .ok v) (hn : v.toInt = .ok n) :
    ¬d.InfiniteUnder key := by
  rintro ⟨negative, h⟩
  cases hv.symm.trans h
  cases hn

theorem not_infiniteUnder_intOr {default n : Int} (h : d.intOr key default = .ok n) :
    ¬d.InfiniteUnder key := by
  rintro ⟨negative, hentry⟩
  simp only [intOr, bind_eq_ok] at h
  obtain ⟨o, ho, h⟩ := h
  rw [(entry_of_field? ho).mp hentry] at h
  cases h

theorem kind_of_intOr {default n : Int} (h : d.intOr key default = .ok n) : d.kind = .map := by
  simp only [intOr, bind_eq_ok] at h
  obtain ⟨o, ho, -⟩ := h
  exact kind_of_field? ho

theorem not_infiniteUnder_optionalInt {n : Option Int} (ho : d.field? key = .ok o)
    (h : optionalInt o = .ok n) : ¬d.InfiniteUnder key := by
  rintro ⟨negative, hentry⟩
  rw [(entry_of_field? ho).mp hentry] at h
  cases h

theorem isPresent_of_entry (h : d.entry key = .ok v) : d.isPresent = true := by
  obtain ⟨es, rfl, hes⟩ := entry_eq_ok.mp h
  cases es with
  | nil => cases hes
  | cons e es => rfl

theorem read_of_optionally {read : Datum → Except Malformed α} {a : Option α} {part : Datum}
    (ho : d.field? key = .ok o) (h : optionally read o = .ok a) (hpart : d.HasPart key part) :
    ∃ b, read part = .ok b := by
  simp only [optionally, (hasPart_iff ho).mp hpart, bind_eq_ok] at h
  obtain ⟨b, hb, -⟩ := h
  exact ⟨b, hb⟩

theorem mem_of_elementsOr {xs : List Datum} {x : Datum} (ho : d.field? key = .ok o)
    (h : elementsOr o = .ok xs) (hx : d.HasElement key x) : x ∈ xs := by
  obtain ⟨part, ys, hpart, hys, hx⟩ := hx
  simp only [elementsOr, (hasPart_iff ho).mp hpart] at h
  cases hys.symm.trans h
  exact hx

end Datum

end TokenSale
