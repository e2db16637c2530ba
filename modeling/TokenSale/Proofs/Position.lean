import TokenSale.Position

/-!
What a deposit or a withdrawal that is not refused makes of a position and of the totals. Each law is
a record with a field for every part of the outcome, so that later arguments never open the
arithmetic of an outcome again.
-/

namespace TokenSale.Position

structure Nonneg (p : Position) : Prop where
  amount_nonneg : 0 ≤ p.amount
  weight_nonneg : 0 ≤ p.weight
  claimed_nonneg : 0 ≤ p.claimed

theorem zero_nonneg : zero.Nonneg := ⟨Int.le_refl 0, Int.le_refl 0, Int.le_refl 0⟩

/-- What is taken of a deposit: nothing negative, and at a fixed price never beyond the cap. -/
structure Fill.Fits (f : Fill) (m : Mechanic) (cap sold : Int) : Prop where
  weightAdded_nonneg : 0 ≤ f.weightAdded
  refund_nonneg : 0 ≤ f.refund
  capped : m.isFixedPrice = true → sold ≤ cap → sold + f.weightAdded ≤ cap

theorem fillFixed_fits {p : Price} {s : Schedule} {cap sold amount t : Int} {f : Fill}
    (hpos : 0 < amount) (h : fillFixed p s cap sold amount t = .ok f) :
    f.Fits (.fixedPrice p) cap sold := by
  unfold fillFixed at h
  split at h
  · cases h
    exact ⟨Int.le_refl 0, Int.le_of_lt hpos, fun _ hle => by simpa using hle⟩
  · rename_i hroom
    simp only [bind_eq_ok] at h
    obtain ⟨weight, -, assets, hassets, h⟩ := h
    have hnonneg : 0 ≤ assets := Amount.mulDiv_nonneg hassets
    split at h
    · rename_i hfits
      cases h
      exact ⟨hnonneg, Int.le_refl 0, fun _ _ => hfits⟩
    · simp only [bind_eq_ok, demand_eq_ok, pure_eq_ok] at h
      obtain ⟨remain, -, refund, hrefund, -, -, rfl⟩ := h
      refine ⟨?_, Schedule.unweigh_nonneg hrefund, fun _ _ => ?_⟩
      · show 0 ≤ cap - sold
        omega
      · show sold + (cap - sold) ≤ cap
        omega

theorem fill_fits {m : Mechanic} {s : Schedule} {cap sold amount t : Int} {f : Fill}
    (hpos : 0 < amount) (h : fill m s cap sold amount t = .ok f) : f.Fits m cap sold := by
  cases m with
  | fixedPrice p => exact fillFixed_fits hpos h
  | priceDiscovery =>
    simp only [fill, bind_eq_ok, pure_eq_ok] at h
    obtain ⟨w, hw, rfl⟩ := h
    exact ⟨Schedule.weigh_nonneg hw, Int.le_refl 0, fun hfixed => by simp [Mechanic.isFixedPrice] at hfixed⟩

structure Purchase.Law (q : Purchase) (m : Mechanic) (cap : Int) (p : Position)
    (totalDeposited totalSold amount : Int) : Prop where
  amount_pos : 0 < amount
  accepted_nonneg : 0 ≤ q.accepted
  weightAdded_nonneg : 0 ≤ q.weightAdded
  refund_nonneg : 0 ≤ q.refund
  accepted_add_refund : q.accepted + q.refund = amount
  position_eq : q.position = ⟨p.amount + q.accepted, p.weight + q.weightAdded, p.claimed⟩
  totalDeposited_eq : q.totalDeposited = totalDeposited + q.accepted
  totalSold_eq : q.totalSold = totalSold + q.weightAdded
  capped : m.isFixedPrice = true → totalSold ≤ cap → q.totalSold ≤ cap

theorem deposit_law {m : Mechanic} {s : Schedule} {cap : Int} {p : Position}
    {totalDeposited totalSold amount t : Int} {q : Purchase}
    (h : deposit m s cap p totalDeposited totalSold amount t = .ok q) :
    q.Law m cap p totalDeposited totalSold amount := by
  simp only [deposit, bind_eq_ok, demand_eq_ok, pure_eq_ok] at h
  obtain ⟨-, hpos, f, hf, -, ⟨hle, hsum⟩, rfl⟩ := h
  have hfits := fill_fits hpos hf
  exact {
    amount_pos := hpos
    accepted_nonneg := by
      show 0 ≤ f.accepted
      omega
    weightAdded_nonneg := hfits.weightAdded_nonneg
    refund_nonneg := hfits.refund_nonneg
    accepted_add_refund := hsum
    position_eq := rfl
    totalDeposited_eq := rfl
    totalSold_eq := rfl
    capped := hfits.capped }

theorem Purchase.Law.position_nonneg {q : Purchase} {m : Mechanic} {cap : Int} {p : Position}
    {totalDeposited totalSold amount : Int} (h : q.Law m cap p totalDeposited totalSold amount)
    (hp : p.Nonneg) : q.position.Nonneg := by
  rw [h.position_eq]
  exact ⟨Int.add_nonneg hp.amount_nonneg h.accepted_nonneg,
    Int.add_nonneg hp.weight_nonneg h.weightAdded_nonneg, hp.claimed_nonneg⟩

structure Withdrawal.Law (w : Withdrawal) (p : Position) (totalDeposited totalSold amount : Int) :
    Prop where
  amount_pos : 0 < amount
  amount_le : amount ≤ p.amount
  withdrawn_eq : w.withdrawn = amount
  amount_eq : w.position.amount = p.amount - amount
  claimed_eq : w.position.claimed = p.claimed
  weight_nonneg : 0 ≤ p.weight → 0 ≤ w.position.weight
  weight_le : 0 ≤ p.weight → w.position.weight ≤ p.weight
  totalDeposited_eq : w.totalDeposited = Amount.monus totalDeposited amount
  totalSold_eq : w.totalSold = Amount.monus totalSold (p.weight - w.position.weight)

theorem Withdrawal.Law.position_nonneg {w : Withdrawal} {p : Position}
    {totalDeposited totalSold amount : Int} (h : w.Law p totalDeposited totalSold amount)
    (hp : p.Nonneg) : w.position.Nonneg := by
  have hamount := h.amount_le
  refine ⟨?_, h.weight_nonneg hp.weight_nonneg, ?_⟩
  · rw [h.amount_eq]
    omega
  · rw [h.claimed_eq]
    exact hp.claimed_nonneg

theorem withdrawFixed_law {p : Position} {totalDeposited totalSold amount : Int} {w : Withdrawal}
    (hpos : 0 < amount) (h : withdrawFixed p totalDeposited totalSold amount = .ok w) :
    w.Law p totalDeposited totalSold amount := by
  simp only [withdrawFixed, bind_eq_ok, demand_eq_ok, pure_eq_ok] at h
  obtain ⟨-, rfl, rfl⟩ := h
  exact {
    amount_pos := hpos
    amount_le := Int.le_refl _
    withdrawn_eq := rfl
    amount_eq := (Int.sub_self _).symm
    claimed_eq := rfl
    weight_nonneg := fun _ => Int.le_refl 0
    weight_le := id
    totalDeposited_eq := rfl
    totalSold_eq := by simp }

theorem withdrawPart_law {s : Schedule} {p : Position} {totalDeposited totalSold amount t : Int}
    {w : Withdrawal} (hpos : 0 < amount)
    (h : withdrawPart s p totalDeposited totalSold amount t = .ok w) :
    w.Law p totalDeposited totalSold amount := by
  simp only [withdrawPart, bind_eq_ok, demand_eq_ok, pure_eq_ok] at h
  obtain ⟨-, hle, weighed, hweighed, rfl⟩ := h
  have hnonneg := Schedule.weigh_nonneg hweighed
  exact {
    amount_pos := hpos
    amount_le := hle
    withdrawn_eq := rfl
    amount_eq := rfl
    claimed_eq := rfl
    weight_nonneg := fun hw => by
      show 0 ≤ min weighed p.weight
      omega
    weight_le := fun _ => Int.min_le_right weighed p.weight
    totalDeposited_eq := rfl
    totalSold_eq := rfl }

theorem withdraw_law {m : Mechanic} {s : Schedule} {p : Position}
    {totalDeposited totalSold amount t : Int} {w : Withdrawal}
    (h : withdraw m s p totalDeposited totalSold amount t = .ok w) :
    w.Law p totalDeposited totalSold amount := by
  simp only [withdraw, bind_eq_ok, demand_eq_ok] at h
  obtain ⟨-, hpos, h⟩ := h
  cases m with
  | fixedPrice price => exact withdrawFixed_law hpos h
  | priceDiscovery => exact withdrawPart_law hpos h

/-! Under price discovery there is no cap, and deposits are taken whole. -/

theorem deposit_discovery_eq_ok {s : Schedule} {cap : Int} {p : Position}
    {totalDeposited totalSold amount now : Int} {q : Purchase} :
    deposit .priceDiscovery s cap p totalDeposited totalSold amount now = .ok q ↔
      0 < amount ∧ ∃ weight, s.weigh amount now = .ok weight ∧
        q = ⟨⟨p.amount + amount, p.weight + weight, p.claimed⟩, totalDeposited + amount,
          totalSold + weight, amount, weight, 0⟩ := by
  simp only [deposit, fill, bind_eq_ok, demand_eq_ok, pure_eq_ok]
  constructor
  · rintro ⟨-, hpos, f, ⟨weight, hweight, rfl⟩, -, -, rfl⟩
    exact ⟨hpos, weight, hweight, rfl⟩
  · rintro ⟨hpos, weight, hweight, rfl⟩
    refine ⟨(), hpos, _, ⟨weight, hweight, rfl⟩, (), ⟨?_, ?_⟩, rfl⟩
    · exact Int.le_of_lt hpos
    · exact Int.add_zero amount

theorem withdraw_discovery_eq_ok {s : Schedule} {p : Position}
    {totalDeposited totalSold amount now : Int} {w : Withdrawal} :
    withdraw .priceDiscovery s p totalDeposited totalSold amount now = .ok w ↔
      0 < amount ∧ amount ≤ p.amount ∧ ∃ weight, s.weigh (p.amount - amount) now = .ok weight ∧
        w = ⟨⟨p.amount - amount, min weight p.weight, p.claimed⟩,
          Amount.monus totalDeposited amount,
          Amount.monus totalSold (p.weight - min weight p.weight), amount,
          p.weight - min weight p.weight⟩ := by
  simp only [withdraw, withdrawPart, bind_eq_ok, demand_eq_ok, pure_eq_ok]
  constructor
  · rintro ⟨-, hpos, -, hle, weight, hweight, rfl⟩
    exact ⟨hpos, hle, weight, hweight, rfl⟩
  · rintro ⟨hpos, hle, weight, hweight, rfl⟩
    exact ⟨(), hpos, (), hle, weight, hweight, rfl⟩

end TokenSale.Position
