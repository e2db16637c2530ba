import TokenSale.Sale.Reader

/-!
A sale as data, and back. What is read from a record depends on the entries under its keys only, so
a sale is read back from its data in whatever order the entries stand, as it does from a text that
sorts them.
-/

namespace TokenSale

/-- A rearrangement of data: scalars and the order of lists stay, and what a record holds under a
key is found there, rearranged. -/
structure Datum.Rearranges (f : Datum → Datum) : Prop where
  scalar : ∀ s, f (.scalar s) = .scalar s
  list : ∀ xs, f (.list xs) = .list (xs.map f)
  record : ∀ fields : List (String × Datum), (fields.map Prod.fst).Nodup →
    ∃ es, f (.record fields) = .map es ∧ (es = [] ↔ fields = []) ∧
      ∀ key, lookup key es = (fields.lookup key).map f

namespace Datum

theorem lookup_record (key : String) (fields : List (String × Datum)) :
    lookup key (fields.map fun e => (.text e.1, e.2)) = fields.lookup key := by
  induction fields with
  | nil => rfl
  | cons e fields ih =>
    obtain ⟨k, v⟩ := e
    simp only [List.map_cons, lookup, ih, List.lookup_cons]
    by_cases h : k = key
    · simp [h]
    · have hne : (key == k) = false := by simpa using Ne.symm h
      simp [h, hne]

theorem rearranges_id : Rearranges id where
  scalar := fun _ => rfl
  list := fun xs => by simp
  record := fun fields _ => ⟨_, rfl, by simp, fun key => by simp [lookup_record]⟩

theorem present?_of_isPresent {d : Datum} (h : d.isPresent = true) :
    present? (some d) = some d := by
  simp [present?, h]

theorem present?_null : present? (some null) = none := rfl

theorem present?_nil : present? (some (.list [])) = none := rfl

end Datum

namespace Datum.Rearranges

variable {f : Datum → Datum} {fields : List (String × Datum)}

theorem entries (h : Rearranges f) {d : Datum} (hd : d = .record fields)
    (hnodup : (fields.map Prod.fst).Nodup) :
    ∃ es, f d = .map es ∧ ∀ key, lookup key es = (fields.lookup key).map f := by
  obtain ⟨es, hes, -, hlookup⟩ := h.record fields hnodup
  exact ⟨es, hd ▸ hes, hlookup⟩

theorem isPresent_record (h : Rearranges f) {d : Datum} (hd : d = .record fields)
    (hnodup : (fields.map Prod.fst).Nodup) (hne : fields ≠ []) : (f d).isPresent = true := by
  obtain ⟨es, hes, hempty, -⟩ := h.record fields hnodup
  have : es ≠ [] := fun heq => hne (hempty.mp heq)
  simp [hd, hes, isPresent, this]

theorem optionally_eq (h : Rearranges f) {read : Datum → Except Malformed α} {g : α → Datum}
    (hpresent : ∀ a, (f (g a)).isPresent = true) (hread : ∀ a, read (f (g a)) = .ok a)
    (o : Option α) : optionally read (some (f (ofOption g o))) = .ok o := by
  cases o with
  | none => rw [ofOption, h.scalar, optionally, present?_null]
  | some a => simp only [optionally, ofOption, present?_of_isPresent (hpresent a), hread a]; rfl

theorem elementsOr_eq (h : Rearranges f) (xs : List Datum) :
    elementsOr (some (f (.list xs))) = .ok (xs.map f) := by
  rw [h.list, elementsOr]
  cases xs with
  | nil => rw [List.map_nil, present?_nil]
  | cons x xs => rw [present?_of_isPresent (by rfl)]; rfl

end Datum.Rearranges

@[simp] theorem ok_bind (a : α) (f : α → Except ε β) : (Except.ok a >>= f) = f a := rfl

@[simp] theorem map_ok (f : α → β) (a : α) : f <$> (Except.ok a : Except ε α) = .ok (f a) := rfl

theorem mapError_ok (f : ε → ε') (a : α) : (Except.ok a : Except ε α).mapError f = .ok a := rfl

theorem mapError_error (f : ε → ε') (e : ε) :
    (Except.error e : Except ε α).mapError f = .error (f e) := rfl

section Parts

variable {f : Datum → Datum}

theorem mapM_eq_ok {read : Datum → Except ε α} {g : α → Datum} (hread : ∀ a, read (f (g a)) = .ok a)
    (as : List α) : ((as.map g).map f).mapM read = .ok as := by
  induction as with
  | nil => rfl
  | cons a as ih =>
    simp only [List.map_cons, List.mapM_cons, hread a, ih]
    rfl

theorem Vesting.ofDatum_toDatum (hf : Datum.Rearranges f) (v : Vesting) :
    Vesting.ofDatum (f v.toDatum) = .ok v := by
  obtain ⟨es, hes, hlookup⟩ := hf.entries (d := v.toDatum) rfl (by simp)
  have hshare : Datum.optionalInt (some (f (.ofOption .int v.instantShare))) =
      .ok v.instantShare := by
    cases v.instantShare <;> simp [Datum.ofOption, Datum.optionalInt, hf.scalar]
  have hscheme : Scheme.ofDatum (.text v.scheme.name) = .ok v.scheme := by
    cases v.scheme <;> rfl
  simp [ofDatum, hes, Datum.field?, Datum.entry, hlookup, List.lookup_cons, hf.scalar, hshare,
    hscheme]

theorem Vesting.isPresent_toDatum (hf : Datum.Rearranges f) (v : Vesting) :
    (f v.toDatum).isPresent = true :=
  hf.isPresent_record rfl (by simp) (by simp)

theorem Stakeholder.ofDatum_toDatum (hf : Datum.Rearranges f) (h : Stakeholder) :
    Stakeholder.ofDatum (f h.toDatum) = .ok h := by
  obtain ⟨es, hes, hlookup⟩ := hf.entries (d := h.toDatum) rfl (by simp)
  have hvesting := hf.optionally_eq (Vesting.isPresent_toDatum hf) (Vesting.ofDatum_toDatum hf)
    h.vesting
  simp [ofDatum, hes, Datum.field?, Datum.entry, hlookup, List.lookup_cons, hf.scalar, hvesting]

theorem Split.ofDatum_toDatum (hf : Datum.Rearranges f) (s : Split) :
    Split.ofDatum (f s.toDatum) = .ok s := by
  obtain ⟨es, hes, hlookup⟩ := hf.entries (d := s.toDatum) rfl (by simp)
  simp [ofDatum, hes, Datum.intOr, Datum.field?, Datum.entry, hlookup, List.lookup_cons, hf.scalar]

theorem Split.isPresent_toDatum (hf : Datum.Rearranges f) (s : Split) :
    (f s.toDatum).isPresent = true :=
  hf.isPresent_record rfl (by simp) (by simp)

theorem Plan.ofDatum_toDatum (hf : Datum.Rearranges f) (p : Plan) :
    Plan.ofDatum (f p.toDatum) = .ok p := by
  obtain ⟨es, hes, hlookup⟩ := hf.entries (d := p.toDatum) rfl (by simp)
  have hdeposits := hf.optionally_eq (Split.isPresent_toDatum hf) (Split.ofDatum_toDatum hf)
    p.deposits
  have hstakeholders := mapM_eq_ok (Stakeholder.ofDatum_toDatum hf) p.stakeholders
  simp [ofDatum, hes, Datum.intOr, Datum.field?, Datum.entry, hlookup, List.lookup_cons, hf.scalar,
    hdeposits, hf.elementsOr_eq, hstakeholders, -List.map_map, -List.mapM_map]

theorem Plan.isPresent_toDatum (hf : Datum.Rearranges f) (p : Plan) :
    (f p.toDatum).isPresent = true :=
  hf.isPresent_record rfl (by simp) (by simp)

theorem Price.ofDatum_record (hf : Datum.Rearranges f) (p : Price) :
    Price.ofDatum (f (.record [("deposit_unit", .int p.depositUnit),
      ("sale_unit", .int p.saleUnit)])) = .ok p := by
  obtain ⟨es, hes, hlookup⟩ := hf.entries (d := .record [("deposit_unit", .int p.depositUnit),
    ("sale_unit", .int p.saleUnit)]) rfl (by simp)
  have hpresent := hf.isPresent_record (d := .record [("deposit_unit", .int p.depositUnit),
    ("sale_unit", .int p.saleUnit)]) rfl (by simp) (by simp)
  rw [hes] at hpresent
  simp [ofDatum, hes, hpresent, Datum.entry, hlookup, List.lookup_cons, hf.scalar]

theorem Mechanic.ofDatum_toDatum (hf : Datum.Rearranges f) (m : Mechanic) :
    Mechanic.ofDatum (f m.toDatum) = .ok m := by
  obtain ⟨p⟩ | _ := m
  · obtain ⟨es, hes, hlookup⟩ := hf.entries (d := (fixedPrice p).toDatum) rfl (by simp)
    simp [ofDatum, hes, hlookup, Price.ofDatum_record hf]
  · obtain ⟨es, hes, hlookup⟩ := hf.entries (d := priceDiscovery.toDatum) rfl (by simp)
    simp [ofDatum, hes, hlookup, List.lookup_cons]

theorem Discount.ofTimedDatum_toDatum (hf : Datum.Rearranges f) (d : Discount) :
    Discount.ofTimedDatum (f d.toDatum) = .ok d := by
  obtain ⟨es, hes, hlookup⟩ := hf.entries (d := d.toDatum) rfl (by simp)
  simp [ofTimedDatum, hes, Datum.entry, hlookup, List.lookup_cons, hf.scalar, draft]

namespace Sale

theorem readTge_eq (hf : Datum.Rearranges f) (tge : Option Int) :
    readTge (some (f (.ofOption id (tge.map .int)))) = .ok tge := by
  cases tge <;> simp [Datum.ofOption, hf.scalar, readTge]

theorem readFields_toDatum (hf : Datum.Rearranges f) (s : Sale) :
    readFields (f s.toDatum) = .ok s := by
  obtain ⟨es, hes, hlookup⟩ := hf.entries (d := s.toDatum) rfl (by simp)
  have hvesting := hf.optionally_eq (Vesting.isPresent_toDatum hf) (Vesting.ofDatum_toDatum hf)
    s.vesting
  have hplan := hf.optionally_eq (Plan.isPresent_toDatum hf) (Plan.ofDatum_toDatum hf) s.plan
  have hdiscounts : (((s.discounts.map Discount.draft).map Discount.Draft.toDatum).map f).mapM
      Discount.ofTimedDatum = .ok s.discounts := by
    rw [List.map_map (f := Discount.draft)]
    exact mapM_eq_ok (Discount.ofTimedDatum_toDatum hf) s.discounts
  have hmechanic : Mechanic.ofDatum (f s.mechanic.draft.toDatum) = .ok s.mechanic :=
    Mechanic.ofDatum_toDatum hf s.mechanic
  simp [readFields, hes, Datum.intOr, Datum.field?, Datum.entry, hlookup, List.lookup_cons,
    hf.scalar, hvesting, hplan, hf.elementsOr_eq, hdiscounts, hmechanic, readTge_eq hf, draft,
    -List.map_map, -List.mapM_map]

theorem ofDatum_toDatum (hf : Datum.Rearranges f) {s : Sale} (h : s.validate = .ok ()) :
    ofDatum (f s.toDatum) = .ok s := by
  rw [ofDatum, readFields_toDatum hf, mapError_ok]
  simp only [bind, Except.bind, h, liftFault_ok]
  rfl

theorem validate_of_ofDatum {d : Datum} {s : Sale} (h : ofDatum d = .ok s) :
    s.validate = .ok () := by
  simp only [ofDatum, bind_eq_ok, pure_eq_ok] at h
  obtain ⟨r, -, _, hvalid, rfl⟩ := h
  cases hr : r.validate with
  | ok => rfl
  | error e =>
    rw [hr] at hvalid
    cases hvalid

end Sale

end Parts

end TokenSale
