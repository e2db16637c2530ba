import TokenSale.Proofs.Checking
import TokenSale.Proofs.Reading.Fields
import TokenSale.Proofs.Record

/-!
How reading a sale ends. Whatever the mapping, it is read as a valid sale or refused with a fault of
the configuration, unless a hazard escapes or the report of the check holds an integer that is too
long to be written.
-/

namespace TokenSale

open Datum

namespace Sale

theorem asFault_escapes {m : Malformed} (h : m.Escapes) :
    asFault (.malformed m) = .malformed m := by
  unfold asFault
  split
  · rename_i heq
    cases heq
    simp [Malformed.Escapes, Malformed.category] at h
  · rename_i heq
    cases heq
    rcases h with h | h <;> simp [h]
  · rfl

theorem asFault_safe {m : Malformed} (h : ¬m.Escapes) :
    ∃ f, asFault (.malformed m) = .fault f ∧ f.kind = .config := by
  cases m <;> first
    | exact ⟨_, rfl, rfl⟩
    | exact absurd (by simp [Malformed.Escapes, Malformed.category]) h

/-- How reading a sale can end. Hazards escape as an infinite number or a lack of fields. -/
inductive Outcome (d : Datum) : Except Failure Sale → Prop
  | read {s : Sale} (hvalid : s.validate = .ok ()) : Outcome d (.ok s)
  | refused {f : Fault} (hf : f.kind = .config) : Outcome d (.error (.fault f))
  | escaped {m : Malformed} (h : Hazard d m) : Outcome d (.error (.malformed m))
  | unwritten {s : Sale} {f : Fault} (hs : readFields d = .ok s) (hf : s.validate = .error f)
      (hlong : ¬ ∀ v ∈ f.shown, v.isShowable = true) :
      Outcome d (.error (.malformed .longInteger))

theorem outcome (d : Datum) : Outcome d (ofDatum d) := by
  unfold ofDatum
  cases hread : readFields d with
  | error e =>
    rcases readFields_fails d e hread with ⟨f, rfl, hf⟩ | ⟨m, rfl, hm⟩
    · exact .refused hf
    by_cases hescapes : m.Escapes
    · rw [mapError_error, asFault_escapes hescapes]
      exact .escaped (hm hescapes)
    · obtain ⟨f, heq, hf⟩ := asFault_safe hescapes
      rw [mapError_error, heq]
      exact .refused hf
  | ok s =>
    simp only [mapError_ok, ok_bind]
    cases hvalid : s.validate with
    | ok => exact .read hvalid
    | error f =>
      have hf := s.validate_configures f hvalid
      rw [liftFault_error]
      rcases f.raised_cases with heq | ⟨heq, hlong⟩
      · rw [heq]
        exact .refused hf
      · rw [heq]
        exact .unwritten hread hvalid hlong

end Sale

/-! What escapes from one field of a sale that can be read otherwise. -/

namespace Datum

variable {k key : String} {v : Datum} {es : List (Scalar × Datum)}

theorem sameKey_text {a : Scalar} : a.sameKey (.text k) = true ↔ a = .text k := by
  cases a with
  | float x =>
    cases x with
    | finite s m e =>
      simp only [Scalar.sameKey, Scalar.toInt?]
      split <;> simp_all
    | _ => simp [Scalar.sameKey, Scalar.toInt?, Binary64.toInt?]
  | _ => simp [Scalar.sameKey, Scalar.toInt?]

theorem lookup_insert :
    lookup key (insert (.text k) v es) = if k = key then some v else lookup key es := by
  induction es with
  | nil => simp [insert, lookup]
  | cons e es ih =>
    obtain ⟨k', v'⟩ := e
    rw [insert]
    split
    · rename_i hsame
      cases sameKey_text.mp hsame
      simp only [lookup]
      split <;> rfl
    · rename_i hother
      cases k' with
      | text k' =>
        have hne : k' ≠ k := fun heq => hother (by simp [Scalar.sameKey, Scalar.toInt?, heq])
        simp only [lookup, ih]
        split <;> split <;> simp_all
      | _ => simp only [lookup, ih]

theorem field?_insert_self : (map (insert (.text key) v es)).field? key = .ok (some v) := by
  simp [field?, lookup_insert]

theorem entry_insert_self : (map (insert (.text key) v es)).entry key = .ok v := by
  simp [entry, lookup_insert]

theorem field?_insert_of_ne (h : k ≠ key) :
    (map (insert (.text k) v es)).field? key = (map es).field? key := by
  simp [field?, lookup_insert, h]

theorem entry_insert_of_ne (h : k ≠ key) :
    (map (insert (.text k) v es)).entry key = (map es).entry key := by
  simp [entry, lookup_insert, h]

theorem optionally_error {read : Datum → Except Malformed α} {m : Malformed}
    (hpresent : v.isPresent = true) (h : read v = .error m) :
    optionally read (some v) = .error m := by
  simp only [optionally, present?_of_isPresent hpresent, h]
  rfl

theorem intOr_insert_of_ne (h : k ≠ key) (default : Int) :
    (map (insert (.text k) v es)).intOr key default = (map es).intOr key default := by
  simp [intOr, field?_insert_of_ne h]

end Datum

namespace Sale

inductive Spoils : String → Datum → Malformed → Prop
  | number {key : String} (hkey : key ∈ numberKeys) (negative : Bool) :
      Spoils key (.float (.infinite negative)) .infinite
  | discounts {v : Datum} {xs : List Datum} {m : Malformed} (hpresent : v.isPresent = true)
      (hxs : v.elements = .ok xs)
      (h : xs.mapM Discount.ofTimedDatum = .error (.malformed m)) (hm : m.Escapes) :
      Spoils "discounts" v m
  | mechanic {v : Datum} {m : Malformed} (h : Mechanic.ofDatum v = .error (.malformed m))
      (hm : m.Escapes) : Spoils "mechanic" v m
  | vesting {v : Datum} {m : Malformed} (hpresent : v.isPresent = true)
      (h : Vesting.ofDatum v = .error m) (hm : m.Escapes) : Spoils "vesting" v m
  | plan {v : Datum} {m : Malformed} (hpresent : v.isPresent = true)
      (h : Plan.ofDatum v = .error m) (hm : m.Escapes) : Spoils "distribution" v m

theorem Spoils.escapes {key : String} {v : Datum} {m : Malformed} (h : Spoils key v m) :
    m.Escapes := by
  cases h with
  | number => exact .inl rfl
  | discounts _ _ _ hm => exact hm
  | mechanic _ hm => exact hm
  | vesting _ _ hm => exact hm
  | plan _ _ hm => exact hm

theorem readFields_spoilt {es : List (Scalar × Datum)} {s : Sale} {key : String} {v : Datum}
    {m : Malformed} (hread : readFields (.map es) = .ok s) (h : Spoils key v m) :
    readFields (.map (Datum.insert (.text key) v es)) = .error (.malformed m) := by
  -- all fields could be read, so those before the one that is replaced still can
  simp only [readFields, bind_eq_ok, pure_eq_ok] at hread
  obtain ⟨vesting, hvesting, plan, hplan, tge, htge, xs, hxs, _, hdiscounts, _, hdeposit, _, hsale,
    _, hstart, _, hstart', _, hend, _, hend', _, hsoftCap, mechanic, hmechanic, _, hprice, _,
    hamount, _, htotal, _, hv, _, hp, _, hleast, -⟩ := hread
  cases h with
  | number hkey negative =>
    simp only [numberKeys, List.mem_cons, List.not_mem_nil, or_false] at hkey
    have hint (key : String) : (do (← (Datum.map (Datum.insert (.text key)
        (.float (.infinite negative)) es)).entry key).toInt) = .error .infinite := by
      rw [entry_insert_self]
      rfl
    have hintOr (key : String) : (Datum.map (Datum.insert (.text key)
        (.float (.infinite negative)) es)).intOr key 0 = .error .infinite := by
      rw [intOr, field?_insert_self]
      rfl
    rcases hkey with rfl | rfl | rfl | rfl
    all_goals simp [readFields, field?_insert_of_ne, entry_insert_of_ne, intOr_insert_of_ne, *]
  | discounts hpresent hread h hm =>
    have hpart : elementsOr (some v) = v.elements := by
      rw [elementsOr, present?_of_isPresent hpresent]
    simp [readFields, field?_insert_self, field?_insert_of_ne, *]
  | mechanic h hm =>
    simp [readFields, entry_insert_self, field?_insert_of_ne, entry_insert_of_ne,
      intOr_insert_of_ne, *]
  | vesting hpresent h hm =>
    have hpart := optionally_error hpresent h
    simp [readFields, field?_insert_self, field?_insert_of_ne, entry_insert_of_ne,
      intOr_insert_of_ne, *]
  | plan hpresent h hm =>
    have hpart := optionally_error hpresent h
    simp [readFields, field?_insert_self, field?_insert_of_ne, entry_insert_of_ne,
      intOr_insert_of_ne, *]

/-- Reading a mapping ends with a valid sale, a fault of the configuration, a hazard that escapes,
or a report that cannot be written. No sale is read from data with a hazard, and the hazard does
escape if the rest of the data can be read. -/
theorem ofDatum_outcome (es : List (Scalar × Datum)) :
    Outcome (.map es) (ofDatum (.map es)) ∧
    (∀ m s, Hazard (.map es) m → ofDatum (.map es) ≠ .ok s) ∧
    ∀ s key v m, readFields (.map es) = .ok s → Spoils key v m →
      Hazard (.map (Datum.insert (.text key) v es)) m ∧
      ofDatum (.map (Datum.insert (.text key) v es)) = .error (.malformed m) := by
  refine ⟨outcome _, fun m s hm h => ?_, fun s key v m hread h => ?_⟩
  · simp only [ofDatum, bind_eq_ok] at h
    obtain ⟨r, hr, -⟩ := h
    cases hread : readFields (.map es) with
    | ok s => exact Sale.not_hazard hread m hm
    | error e =>
      rw [hread] at hr
      cases hr
  · have hfail := readFields_spoilt hread h
    refine ⟨?_, by rw [ofDatum, hfail, mapError_error, asFault_escapes h.escapes]; rfl⟩
    rcases readFields_fails _ _ hfail with ⟨f, hf, -⟩ | ⟨m', hm', hhazard⟩
    · cases hf
    · cases hm'
      exact hhazard h.escapes

def plainEntries : List (Scalar × Datum) := [
  (.text "deposit_token", .text "usdc"), (.text "sale_token", .text "tok"),
  (.text "start_time", .int 1000), (.text "end_time", .int 2000),
  (.text "mechanic", .map [(.text "price_discovery", .map [])]),
  (.text "sale_amount", .int 100), (.text "total_sale_amount", .int 100)]

theorem ofDatum_outcome_infinite :
    (∃ s, readFields (.map plainEntries) = .ok s) ∧
    ofDatum (.map (Datum.insert (.text "soft_cap") (.float (.infinite false)) plainEntries)) =
      .error (.malformed .infinite) ∧
    ∀ s, ofDatum (.map (Datum.insert (.text "soft_cap") (.float (.infinite false)) plainEntries)) ≠
      .ok s := by
  have hread : ∃ s, readFields (.map plainEntries) = .ok s := ⟨_, rfl⟩
  obtain ⟨s, hs⟩ := hread
  obtain ⟨hhazard, hescapes⟩ := (ofDatum_outcome plainEntries).2.2 s "soft_cap"
    (.float (.infinite false)) .infinite hs (.number (by decide) false)
  exact ⟨⟨s, hs⟩, hescapes, fun s => (ofDatum_outcome _).2.1 _ s hhazard⟩

/-- A number in the place of the vesting. -/
theorem not_only_config :
    ¬ ∀ es, (∃ s, ofDatum (.map es) = .ok s ∧ s.validate = .ok ()) ∨
      ∃ f, ofDatum (.map es) = .error (.fault f) ∧ f.kind = .config := by
  intro h
  have hescapes : ofDatum (.map ((.text "vesting", .int 7) :: plainEntries)) =
      .error (.malformed (.noFields .int)) := rfl
  rcases h ((.text "vesting", .int 7) :: plainEntries) with ⟨s, hs, -⟩ | ⟨f, hf, -⟩
  · cases hescapes.symm.trans hs
  · cases hescapes.symm.trans hf

end Sale

end TokenSale
