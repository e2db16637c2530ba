import TokenSale.Discount

/-!
Schedules that are accepted. They are those of which every discount is in range and no time has two
active discounts, so a look at the order of a schedule never decides which discount applies.
-/

namespace TokenSale

structure Discount.Proper (d : Discount) : Prop where
  percentage_pos : 1 ≤ d.percentage
  percentage_le : d.percentage ≤ 10000
  opens : d.startTime < d.endTime

/-- No time has two active discounts. -/
def Schedule.Unambiguous (s : Schedule) : Prop :=
  ∀ (t : Int) (i j : Nat) (a b : Discount), s[i]? = some a → s[j]? = some b →
    a.IsActive t → b.IsActive t → i = j

namespace Discount

variable {a b d : Discount} {t : Int}

theorem Meets.of_active (ha : a.IsActive t) (hb : b.IsActive t) : a.Meets b :=
  ⟨Int.lt_of_le_of_lt ha.1 hb.2, Int.lt_of_le_of_lt hb.1 ha.2⟩

theorem meets_iff (ha : a.startTime < a.endTime) (hb : b.startTime < b.endTime) :
    a.Meets b ↔ ∃ t, a.IsActive t ∧ b.IsActive t := by
  constructor
  · rintro ⟨hab, hba⟩
    refine ⟨max a.startTime b.startTime, ⟨?_, ?_⟩, ⟨?_, ?_⟩⟩ <;> omega
  · rintro ⟨t, hat, hbt⟩
    exact .of_active hat hbt

theorem check_draft_eq_ok {r : Discount} : d.draft.check = .ok r ↔ d.Proper ∧ r = d := by
  simp only [Draft.check, draft, checkPercentage, Datum.whole?_int, bind_eq_ok, pure_eq_ok]
  constructor
  · rintro ⟨n, hn, _, hopens, rfl⟩
    split at hn
    · rename_i hrange
      cases hn
      exact ⟨⟨hrange.1, hrange.2, demand_eq_ok.mp hopens⟩, rfl⟩
    · cases hn
  · rintro ⟨hd, rfl⟩
    exact ⟨_, if_pos ⟨hd.percentage_pos, hd.percentage_le⟩, (), demand_eq_ok.mpr hd.opens, rfl⟩

theorem mapM_draft_eq_ok {s r : Schedule} :
    (s.map draft).mapM Draft.check = .ok r ↔ (∀ d ∈ s, d.Proper) ∧ r = s := by
  induction s generalizing r with
  | nil =>
    constructor
    · rintro ⟨⟩
      exact ⟨by simp, rfl⟩
    · rintro ⟨-, rfl⟩
      rfl
  | cons d s ih =>
    simp only [List.map_cons, List.mapM_cons, bind_eq_ok, pure_eq_ok, check_draft_eq_ok, ih,
      List.forall_mem_cons]
    constructor
    · rintro ⟨_, ⟨hd, rfl⟩, _, ⟨hs, rfl⟩, rfl⟩
      exact ⟨⟨hd, hs⟩, rfl⟩
    · rintro ⟨⟨hd, hs⟩, rfl⟩
      exact ⟨d, ⟨hd, rfl⟩, s, ⟨hs, rfl⟩, rfl⟩

end Discount

namespace Schedule

variable {s s' : Schedule} {t : Int} {d : Discount}

theorem validate_eq_ok : s.validate = .ok () ↔ (∀ d ∈ s, d.Proper) ∧ s.overlaps = [] := by
  simp only [validate, check, bind_eq_ok, demand_eq_ok, pure_eq_ok, Discount.mapM_draft_eq_ok]
  constructor
  · rintro ⟨_, ⟨_, ⟨hs, rfl⟩, -, hnone, -⟩, -⟩
    exact ⟨hs, hnone⟩
  · rintro ⟨hs, hnone⟩
    exact ⟨s, ⟨s, ⟨hs, rfl⟩, (), hnone, rfl⟩, trivial⟩

/-! The pairs of windows that meet. -/

theorem mem_overlaps {i j : Nat} :
    (i, j) ∈ s.overlaps ↔ i < j ∧ ∃ a b, s[i]? = some a ∧ s[j]? = some b ∧ a.Meets b := by
  simp only [overlaps, List.mem_flatMap, List.mem_map, List.mem_filter,
    List.mem_zipIdx_iff_getElem?, decide_eq_true_eq, Prod.mk.injEq, Prod.exists]
  constructor
  · rintro ⟨a, i, ha, b, j, ⟨hb, hij, hmeets⟩, rfl, rfl⟩
    exact ⟨hij, a, b, ha, hb, hmeets⟩
  · rintro ⟨hij, a, b, ha, hb, hmeets⟩
    exact ⟨a, i, ha, b, j, ⟨hb, hij, hmeets⟩, rfl, rfl⟩

theorem zipIdx_pairwise (s : Schedule) : s.zipIdx.Pairwise fun p q => p.2 < q.2 := by
  rw [← List.pairwise_map (R := fun i j => i < j), List.zipIdx_map_snd]
  exact List.pairwise_lt_range'

theorem overlaps_pairwise (s : Schedule) :
    s.overlaps.Pairwise fun p q => p.1 < q.1 ∨ p.1 = q.1 ∧ p.2 < q.2 := by
  rw [overlaps, List.pairwise_flatMap]
  constructor
  · rintro ⟨a, i⟩ -
    refine List.pairwise_map.mpr (((zipIdx_pairwise s).filter _).imp fun hlt => ?_)
    exact .inr ⟨rfl, hlt⟩
  · refine (zipIdx_pairwise s).imp fun {p q} hlt x hx y hy => ?_
    obtain ⟨_, -, rfl⟩ := List.mem_map.mp hx
    obtain ⟨_, -, rfl⟩ := List.mem_map.mp hy
    exact .inl hlt

theorem overlaps_eq_nil (hs : ∀ d ∈ s, d.startTime < d.endTime) :
    s.overlaps = [] ↔ s.Unambiguous := by
  rw [List.eq_nil_iff_forall_not_mem]
  constructor
  · intro hnone t i j a b ha hb hat hbt
    rcases Nat.lt_trichotomy i j with hij | hij | hij
    · exact absurd (mem_overlaps.mpr ⟨hij, a, b, ha, hb, .of_active hat hbt⟩) (hnone _)
    · exact hij
    · exact absurd (mem_overlaps.mpr ⟨hij, b, a, hb, ha, .of_active hbt hat⟩) (hnone _)
  · rintro hs' ⟨i, j⟩ hmem
    obtain ⟨hij, a, b, ha, hb, hmeets⟩ := mem_overlaps.mp hmem
    obtain ⟨t, hat, hbt⟩ := (Discount.meets_iff (hs a (List.mem_of_getElem? ha))
      (hs b (List.mem_of_getElem? hb))).mp hmeets
    exact absurd (hs' t i j a b ha hb hat hbt) (Nat.ne_of_lt hij)

/-! What is active. -/

theorem Unambiguous.eq_of_active (h : s.Unambiguous) {a b : Discount} (ha : a ∈ s) (hb : b ∈ s)
    (hat : a.IsActive t) (hbt : b.IsActive t) : a = b := by
  obtain ⟨i, hi⟩ := List.mem_iff_getElem?.mp ha
  obtain ⟨j, hj⟩ := List.mem_iff_getElem?.mp hb
  rw [h t i j a b hi hj hat hbt, hj] at hi
  exact (Option.some.inj hi).symm

theorem active?_eq_some (h : ∀ a ∈ s, ∀ b ∈ s, a.IsActive t → b.IsActive t → a = b) :
    s.active? t = some d ↔ d ∈ s ∧ d.IsActive t := by
  constructor
  · intro hd
    exact ⟨List.mem_of_find?_eq_some hd, by simpa using List.find?_some hd⟩
  · rintro ⟨hd, hdt⟩
    obtain ⟨a, ha⟩ : ∃ a, s.active? t = some a :=
      Option.isSome_iff_exists.mp (List.find?_isSome.mpr ⟨d, hd, by simpa using hdt⟩)
    have hat : a.IsActive t := by simpa using List.find?_some ha
    rw [ha, h a (List.mem_of_find?_eq_some ha) d hd hat hdt]

theorem Unambiguous.active?_perm (h : s.Unambiguous) (hperm : s'.Perm s) (t : Int) :
    s'.active? t = s.active? t := by
  have honly : ∀ a ∈ s, ∀ b ∈ s, a.IsActive t → b.IsActive t → a = b := fun a ha b hb =>
    h.eq_of_active ha hb
  have honly' : ∀ a ∈ s', ∀ b ∈ s', a.IsActive t → b.IsActive t → a = b := fun a ha b hb =>
    honly a (hperm.mem_iff.mp ha) b (hperm.mem_iff.mp hb)
  ext d
  rw [active?_eq_some honly, active?_eq_some honly', hperm.mem_iff]

/-- A schedule is accepted if its discounts are proper and it is unambiguous. The overlaps of
windows that open are the pairs of discounts that are active at one time, each once. In an accepted
schedule the order of the discounts does not matter for which of them is active, nor for what a
deposit weighs and a weight is worth. -/
theorem validate_iff_unambiguous :
    (∀ s : Schedule, s.validate = .ok () ↔ (∀ d ∈ s, d.Proper) ∧ s.Unambiguous) ∧
    (∀ s : Schedule, (∀ d ∈ s, d.startTime < d.endTime) →
      (∀ i j, (i, j) ∈ s.overlaps ↔
        i < j ∧ ∃ a b t, s[i]? = some a ∧ s[j]? = some b ∧ a.IsActive t ∧ b.IsActive t) ∧
      s.overlaps.Pairwise fun p q => p.1 < q.1 ∨ p.1 = q.1 ∧ p.2 < q.2) ∧
    ∀ s s' : Schedule, s.validate = .ok () → s'.Perm s → ∀ t,
      s'.active? t = s.active? t ∧ (∀ amount, s'.weigh amount t = s.weigh amount t) ∧
        ∀ weight, s'.unweigh weight t = s.unweigh weight t := by
  have hvalid : ∀ s : Schedule, s.validate = .ok () ↔ (∀ d ∈ s, d.Proper) ∧ s.Unambiguous := by
    intro s
    rw [validate_eq_ok]
    exact and_congr_right fun hs => overlaps_eq_nil fun d hd => (hs d hd).opens
  refine ⟨hvalid, fun s hs => ⟨fun i j => ?_, overlaps_pairwise s⟩, fun s s' h hperm t => ?_⟩
  · rw [mem_overlaps]
    refine and_congr_right fun _ => exists₂_congr fun a b => ?_
    constructor
    · rintro ⟨ha, hb, hmeets⟩
      obtain ⟨t, ht⟩ := (Discount.meets_iff (hs a (List.mem_of_getElem? ha))
        (hs b (List.mem_of_getElem? hb))).mp hmeets
      exact ⟨t, ha, hb, ht⟩
    · rintro ⟨t, ha, hb, hat, hbt⟩
      exact ⟨ha, hb, .of_active hat hbt⟩
  · have hactive := ((hvalid s).mp h).2.active?_perm hperm t
    exact ⟨hactive, fun amount => by rw [weigh, weigh, hactive],
      fun weight => by rw [unweigh, unweigh, hactive]⟩

/-- Two windows that touch, and one that holds the second. -/
theorem validate_iff_unambiguous_sample :
    let s : Schedule := [⟨20, 30, 500⟩, ⟨10, 20, 10000⟩]
    let clash : Schedule := [⟨20, 30, 500⟩, ⟨10, 20, 10000⟩, ⟨5, 30, 1⟩]
    s.Unambiguous ∧ weigh s.reverse 100 20 = s.weigh 100 20 ∧ s.weigh 100 20 = .ok 105 ∧
      ¬clash.Unambiguous ∧ (1, 2) ∈ clash.overlaps := by
  intro s clash
  obtain ⟨hvalid, hoverlaps, hperm⟩ := validate_iff_unambiguous
  have hs : s.validate = .ok () := rfl
  have hclash : ∀ d ∈ clash, d.Proper := by
    simp only [clash, List.forall_mem_cons, List.not_mem_nil, false_implies, implies_true, and_true]
    exact ⟨⟨by decide, by decide, by decide⟩, ⟨by decide, by decide, by decide⟩,
      ⟨by decide, by decide, by decide⟩⟩
  refine ⟨((hvalid s).mp hs).2, (hperm s _ hs (List.reverse_perm s) 20).2.1 100, rfl, fun h => ?_,
    ((hoverlaps clash fun d hd => (hclash d hd).opens).1 1 2).mpr ?_⟩
  · have hok := (hvalid clash).mpr ⟨hclash, h⟩
    cases hok
  · exact ⟨by decide, _, _, 10, rfl, rfl, by decide, by decide⟩

end Schedule

end TokenSale
