import TokenSale.Proofs.Reading.Hazard

/-!
Readers of the parts of a sale and of its fields. Their failures that escape are hazards of the
data, and data with a hazard are not read.
-/

namespace TokenSale

open Datum

/-! Parts. -/

section Parts

variable {d : Datum}

theorem Price.ofDatum_escapes (d : Datum) : EscapesOnly (Price.Hazard d) (Price.ofDatum d) := by
  have hpresent : ∀ key, (if d.isPresent then d else .map []).InfiniteUnder key →
      d.InfiniteUnder key := by
    rintro key ⟨negative, h⟩
    split at h
    · exact ⟨negative, h⟩
    · cases h
  unfold ofDatum
  refine .bind entry_escapes fun deposit hdeposit => ?_
  refine .bind (toInt_of_entry hdeposit fun h => .number (by simp) (hpresent _ h)) fun _ _ => ?_
  refine .bind entry_escapes fun sale hsale => ?_
  exact .bind (toInt_of_entry hsale fun h => .number (by simp) (hpresent _ h)) fun _ _ => .pure _

theorem Price.not_hazard {p : Price} (h : Price.ofDatum d = .ok p) (m : Malformed) :
    ¬Price.Hazard d m := by
  rintro ⟨hkey, negative, hinfinite⟩
  have hpresent := isPresent_of_entry hinfinite
  simp only [ofDatum, hpresent, ↓reduceIte, bind_eq_ok, pure_eq_ok] at h
  obtain ⟨deposit, hdeposit, _, hd, sale, hsale, _, hs, -⟩ := h
  simp only [List.mem_cons, List.not_mem_nil, or_false] at hkey
  rcases hkey with rfl | rfl
  · exact not_infiniteUnder hdeposit hd ⟨negative, hinfinite⟩
  · exact not_infiniteUnder hsale hs ⟨negative, hinfinite⟩

theorem Vesting.Scheme.ofDatum_escapes {H : Malformed → Prop} (d : Datum) :
    EscapesOnly H (Scheme.ofDatum d) := by
  refine .bind name_escapes fun name _ => ?_
  dsimp only
  split
  · exact .ok _
  · exact EscapesOnly.safe (.inr (.inr rfl))

theorem Vesting.ofDatum_escapes (d : Datum) :
    EscapesOnly (Vesting.Hazard d) (Vesting.ofDatum d) := by
  unfold ofDatum
  refine .bind (field?_escapes .fields) fun share hshare => ?_
  refine .bind entry_escapes fun cliff hcliff => ?_
  refine .bind (toInt_of_entry hcliff (.number (by simp))) fun _ _ => ?_
  refine .bind entry_escapes fun period hperiod => ?_
  refine .bind (toInt_of_entry hperiod (.number (by simp))) fun _ _ => ?_
  refine .bind (optionalInt_escapes hshare (.number (by simp))) fun _ _ => ?_
  refine .bind (field?_escapes .fields) fun scheme _ => ?_
  exact .bind (Scheme.ofDatum_escapes _) fun _ _ => .pure _

theorem Vesting.not_hazard {v : Vesting} (h : Vesting.ofDatum d = .ok v) (m : Malformed) :
    ¬Vesting.Hazard d m := by
  simp only [ofDatum, bind_eq_ok, pure_eq_ok] at h
  obtain ⟨share, hshare, cliff, hcliff, _, hc, period, hperiod, _, hp, _, hs, -⟩ := h
  intro hm
  cases hm with
  | fields hkind => exact hkind (kind_of_field? hshare)
  | number hkey hinfinite =>
    simp only [List.mem_cons, List.not_mem_nil, or_false] at hkey
    rcases hkey with rfl | rfl | rfl
    · exact not_infiniteUnder hcliff hc hinfinite
    · exact not_infiniteUnder hperiod hp hinfinite
    · exact not_infiniteUnder_optionalInt hshare hs hinfinite

theorem Stakeholder.ofDatum_escapes (d : Datum) :
    EscapesOnly (Stakeholder.Hazard d) (Stakeholder.ofDatum d) := by
  unfold ofDatum
  refine .bind (field?_escapes .fields) fun vesting hvesting => ?_
  refine .bind entry_escapes fun account _ => .bind name_escapes fun _ _ => ?_
  refine .bind entry_escapes fun allocation hallocation => ?_
  refine .bind (toInt_of_entry hallocation .number) fun _ _ => ?_
  exact .bind (optionally_escapes hvesting Vesting.ofDatum_escapes fun _ _ => .vesting) fun _ _ =>
    .pure _

theorem Stakeholder.not_hazard {h : Stakeholder} (hread : Stakeholder.ofDatum d = .ok h)
    (m : Malformed) : ¬Stakeholder.Hazard d m := by
  simp only [ofDatum, bind_eq_ok, pure_eq_ok] at hread
  obtain ⟨vesting, hvesting, _, _, _, _, allocation, hallocation, _, ha, _, hv, -⟩ := hread
  intro hm
  cases hm with
  | fields hkind => exact hkind (kind_of_field? hvesting)
  | number hinfinite => exact not_infiniteUnder hallocation ha hinfinite
  | vesting hpart hm =>
    obtain ⟨v, hpart⟩ := read_of_optionally hvesting hv hpart
    exact Vesting.not_hazard hpart m hm

theorem Split.ofDatum_escapes (d : Datum) : EscapesOnly (Split.Hazard d) (Split.ofDatum d) := by
  unfold ofDatum
  refine .bind (intOr_escapes .fields (.number (by simp)) 0) fun _ _ => ?_
  refine .bind entry_escapes fun account _ => .bind name_escapes fun _ _ => ?_
  exact .bind (intOr_escapes .fields (.number (by simp)) 0) fun _ _ => .pure _

theorem Split.not_hazard {s : Split} (h : Split.ofDatum d = .ok s) (m : Malformed) :
    ¬Split.Hazard d m := by
  simp only [ofDatum, bind_eq_ok, pure_eq_ok] at h
  obtain ⟨_, hsolver, _, _, _, _, _, hfee, -⟩ := h
  intro hm
  cases hm with
  | fields hkind => exact hkind (kind_of_intOr hsolver)
  | number hkey hinfinite =>
    simp only [List.mem_cons, List.not_mem_nil, or_false] at hkey
    rcases hkey with rfl | rfl
    · exact not_infiniteUnder_intOr hsolver hinfinite
    · exact not_infiniteUnder_intOr hfee hinfinite

theorem Plan.ofDatum_escapes (d : Datum) : EscapesOnly (Plan.Hazard d) (Plan.ofDatum d) := by
  unfold ofDatum
  refine .bind (field?_escapes .fields) fun deposits hdeposits => ?_
  refine .bind entry_escapes fun solver _ => .bind name_escapes fun _ _ => ?_
  refine .bind (intOr_escapes .fields .number 0) fun _ _ => ?_
  refine .bind (field?_escapes .fields) fun stakeholders hstakeholders => ?_
  refine .bind elementsOr_escapes fun xs hxs => ?_
  refine .bind (.mapM fun x hx => ?_) fun _ _ => ?_
  · have helement := hasElement_of_elementsOr hstakeholders hxs hx
    exact (Stakeholder.ofDatum_escapes x).mono fun _ => .stakeholder helement
  exact .bind (optionally_escapes hdeposits Split.ofDatum_escapes fun _ _ => .split) fun _ _ =>
    .pure _

theorem Plan.not_hazard {p : Plan} (h : Plan.ofDatum d = .ok p) (m : Malformed) :
    ¬Plan.Hazard d m := by
  simp only [ofDatum, bind_eq_ok, pure_eq_ok] at h
  obtain ⟨deposits, hdeposits, _, _, _, _, _, hallocation, stakeholders, hstakeholders, xs, hxs, _,
    hread, _, hsplit, -⟩ := h
  intro hm
  cases hm with
  | fields hkind => exact hkind (kind_of_field? hdeposits)
  | number hinfinite => exact not_infiniteUnder_intOr hallocation hinfinite
  | stakeholder hx hm =>
    obtain ⟨h, -, hx⟩ := (exists_of_mapM hread).1 _ (mem_of_elementsOr hstakeholders hxs hx)
    exact Stakeholder.not_hazard hx m hm
  | split hpart hm =>
    obtain ⟨s, hpart⟩ := read_of_optionally hdeposits hsplit hpart
    exact Split.not_hazard hpart m hm

end Parts

/-! Fields. -/

/-- A fault of the configuration, or a reason that is known if it escapes. -/
def Failure.Expected (H : Malformed → Prop) (f : Failure) : Prop :=
  (∃ g, f = .fault g ∧ g.kind = .config) ∨ ∃ m, f = .malformed m ∧ (m.Escapes → H m)

section Fields

variable {d : Datum} {H : Malformed → Prop}

theorem liftMalformed_eq_ok {x : Except Malformed α} {a : α} :
    liftMalformed x = .ok a ↔ x = .ok a := by
  cases x <;> simp

theorem EscapesOnly.lift {x : Except Malformed α} (h : EscapesOnly H x) :
    FailsOnly (Failure.Expected H) (liftMalformed x) :=
  FailsOnly.mapError h fun m hm => .inr ⟨m, rfl, hm⟩

theorem Fault.raised_cases (f : Fault) :
    f.raised = .fault f ∨ f.raised = .malformed .longInteger ∧
      ¬ ∀ v ∈ f.shown, v.isShowable = true := by
  unfold raised
  split
  · exact .inl rfl
  · rename_i h
    exact .inr ⟨rfl, by simpa using h⟩

theorem Fault.raised_expected {f : Fault} (h : f.kind = .config) : f.raised.Expected H := by
  rcases f.raised_cases with heq | ⟨heq, -⟩
  · exact .inl ⟨f, heq, h⟩
  · exact .inr ⟨.longInteger, heq, fun hescapes => by
      simp [Malformed.Escapes, Malformed.category] at hescapes⟩

theorem Datum.toInstant_fails : FailsOnly (Failure.Expected H) d.toInstant := by
  unfold toInstant
  split
  case h_3 s =>
    unfold textToInstant
    dsimp only
    split
    · exact (numeralToInt_escapes _).lift
    split
    · exact .ok _
    · exact .error (.inl ⟨_, rfl, rfl⟩)
  case h_4 => exact .error (Fault.raised_expected rfl)
  all_goals exact .ok _

theorem Discount.ofTimedDatum_fails (h : d.InfiniteUnder "percentage" → H .infinite) :
    FailsOnly (Failure.Expected H) (Discount.ofTimedDatum d) := by
  unfold ofTimedDatum
  refine .bind entry_escapes.lift fun _ _ => .bind toInstant_fails fun _ _ => ?_
  refine .bind entry_escapes.lift fun _ _ => .bind toInstant_fails fun _ _ => ?_
  exact .bind (intEntry_escapes h).lift fun _ _ => .pure _

theorem Discount.not_infiniteUnder {r : Discount} (h : Discount.ofTimedDatum d = .ok r) :
    ¬d.InfiniteUnder "percentage" := by
  simp only [ofTimedDatum, liftMalformed_eq_ok, bind_eq_ok, pure_eq_ok] at h
  obtain ⟨_, -, _, -, _, -, _, -, _, ⟨_, hpercentage, hp⟩, -⟩ := h
  exact Datum.not_infiniteUnder hpercentage hp

theorem Mechanic.ofDatum_fails
    (h : ∀ price m, d.entry "fixed_price" = .ok price → Price.Hazard price m → H m) :
    FailsOnly (Failure.Expected H) (Mechanic.ofDatum d) := by
  unfold ofDatum
  split
  · split
    · exact .ok _
    · exact .error (.inl ⟨_, rfl, rfl⟩)
  · split
    · rename_i es _ price hprice
      have hentry : entry (.map es) "fixed_price" = .ok price := by simp [entry, hprice]
      refine .bind (EscapesOnly.lift ?_) fun _ _ => .pure _
      exact (Price.ofDatum_escapes price).mono fun m => h price m hentry
    split
    · exact .ok _
    · exact .error (Fault.raised_expected rfl)
  · exact .error (Fault.raised_expected rfl)

theorem Mechanic.price_of_ofDatum {mechanic : Mechanic} {price : Datum}
    (h : Mechanic.ofDatum d = .ok mechanic) (hentry : d.entry "fixed_price" = .ok price) :
    ∃ p, Price.ofDatum price = .ok p := by
  obtain ⟨es, rfl, hes⟩ := entry_eq_ok.mp hentry
  simp only [ofDatum, hes, bind_eq_ok, liftMalformed_eq_ok] at h
  obtain ⟨p, hp, -⟩ := h
  exact ⟨p, hp⟩

theorem Sale.readTge_fails (tge : Option Datum) :
    FailsOnly (Failure.Expected H) (Sale.readTge tge) := by
  unfold readTge
  split
  · exact .ok _
  · exact .ok _
  · exact .bind toInstant_fails fun _ _ => .pure _

theorem Sale.readFields_fails (d : Datum) :
    FailsOnly (Failure.Expected (Sale.Hazard d)) (Sale.readFields d) := by
  have hentry {key : String} :
      FailsOnly (Failure.Expected (Hazard d)) (liftMalformed (d.entry key)) :=
    entry_escapes.lift
  have hfield {key : String} :
      FailsOnly (Failure.Expected (Hazard d)) (liftMalformed (d.field? key)) :=
    (field?_escapes .fields).lift
  unfold readFields
  refine .bind hfield fun vesting hvesting => .bind hfield fun plan hplan => ?_
  refine .bind hfield fun tge _ => ?_
  refine .bind (EscapesOnly.lift (.bind (field?_escapes .fields) fun _ _ => elementsOr_escapes))
    fun xs hxs => .bind (.mapM fun x hx => ?_) fun discounts _ => ?_
  · simp only [liftMalformed_eq_ok, bind_eq_ok] at hxs
    obtain ⟨o, ho, hxs⟩ := hxs
    exact Discount.ofTimedDatum_fails (.discount (hasElement_of_elementsOr ho hxs hx))
  rw [liftMalformed_eq_ok] at hvesting hplan
  refine .bind (EscapesOnly.lift (.bind entry_escapes fun _ _ => name_escapes)) fun _ _ => ?_
  refine .bind (EscapesOnly.lift (.bind entry_escapes fun _ _ => name_escapes)) fun _ _ => ?_
  refine .bind hentry fun _ _ => .bind toInstant_fails fun _ _ => ?_
  refine .bind hentry fun _ _ => .bind toInstant_fails fun _ _ => ?_
  refine .bind (intOr_escapes .fields (.number (by simp [numberKeys])) 0).lift fun _ _ => ?_
  refine .bind hentry fun mechanic hmechanic => .bind (Mechanic.ofDatum_fails ?_) fun _ _ => ?_
  · exact fun price m hprice h => .price (liftMalformed_eq_ok.mp hmechanic) hprice h
  refine .bind (intEntry_escapes (.number (by simp [numberKeys]))).lift fun _ _ => ?_
  refine .bind (intEntry_escapes (.number (by simp [numberKeys]))).lift fun _ _ => ?_
  refine .bind (optionally_escapes hvesting Vesting.ofDatum_escapes
    fun _ _ => .vesting).lift fun _ _ => ?_
  refine .bind (optionally_escapes hplan Plan.ofDatum_escapes
    fun _ _ => .plan).lift fun _ _ => ?_
  refine .bind (intOr_escapes .fields (.number (by simp [numberKeys])) 0).lift fun _ _ => ?_
  exact .bind (readTge_fails tge) fun _ _ => .pure _

theorem Sale.not_hazard {s : Sale} (h : Sale.readFields d = .ok s) (m : Malformed) :
    ¬Sale.Hazard d m := by
  simp only [readFields, liftMalformed_eq_ok, bind_eq_ok, pure_eq_ok] at h
  obtain ⟨vesting, hvesting, plan, hplan, tge, -, xs, ⟨o, ho, hxs⟩, _, hdiscounts, _, -, _, -, _, -,
    _, -, _, -, _, -, _, hsoftCap, mechanic, hmechanic, _, hprice, _, ⟨_, hamount, ha⟩, _,
    ⟨_, htotal, ht⟩, _, hv, _, hp, _, hleast, -⟩ := h
  intro hm
  cases hm with
  | fields hkind => exact hkind (kind_of_field? hvesting)
  | number hkey hinfinite =>
    simp only [numberKeys, List.mem_cons, List.not_mem_nil, or_false] at hkey
    rcases hkey with rfl | rfl | rfl | rfl
    · exact not_infiniteUnder_intOr hsoftCap hinfinite
    · exact not_infiniteUnder hamount ha hinfinite
    · exact not_infiniteUnder htotal ht hinfinite
    · exact not_infiniteUnder_intOr hleast hinfinite
  | discount hx hinfinite =>
    obtain ⟨_, -, hx⟩ := (exists_of_mapM hdiscounts).1 _ (mem_of_elementsOr ho hxs hx)
    exact Discount.not_infiniteUnder hx hinfinite
  | price hpart hentry hm =>
    cases hmechanic.symm.trans hpart
    obtain ⟨p, hp⟩ := Mechanic.price_of_ofDatum hprice hentry
    exact Price.not_hazard hp m hm
  | vesting hpart hm =>
    obtain ⟨v, hpart⟩ := read_of_optionally hvesting hv hpart
    exact Vesting.not_hazard hpart m hm
  | plan hpart hm =>
    obtain ⟨p, hpart⟩ := read_of_optionally hplan hp hpart
    exact Plan.not_hazard hpart m hm

end Fields

end TokenSale
