import TokenSale.Proofs.Ledger.Undo
import TokenSale.Proofs.Releasable

/-!
Fair shares under price discovery. The sale amount is divided by weight, each share rounded down, so
less than one unit for each participant with any weight stays undivided. Weight that a participant
gains takes from the shares of the others and never from its own, and weight that it gives up does
the opposite.
-/

namespace TokenSale

/-! What rounding leaves of an amount that is divided by weight. -/

theorem sumOf_add (f g : α → Int) (as : List α) :
    sumOf (fun a => f a + g a) as = sumOf f as + sumOf g as := by
  induction as with
  | nil => rfl
  | cons a as ih =>
    simp only [sumOf_cons, ih]
    omega

theorem sumOf_indicator (p : α → Bool) (as : List α) :
    sumOf (fun a => if p a then 1 else 0) as = as.countP p := by
  induction as with
  | nil => rfl
  | cons a as ih =>
    by_cases hp : p a <;> simp [hp, ih, Int.add_comm]

namespace Book

theorem total_add (f g : α → Int) (b : Book α) :
    b.total (fun v => f v + g v) = b.total f + b.total g := sumOf_add ..

theorem total_mul_right (f : α → Int) (c : Int) (b : Book α) :
    b.total (fun v => f v * c) = b.total f * c := sumOf_mul_right ..

def weighty (f : α → Int) (b : Book α) : Nat := b.entries.countP fun e => 0 < f e.2

variable {f : α → Int} {b : Book α}

theorem weighty_eq_total (f : α → Int) (b : Book α) :
    (b.weighty f : Int) = b.total fun v => if 0 < f v then 1 else 0 := by
  rw [weighty, ← sumOf_indicator]
  exact sumOf_congr fun e _ => by simp

/-- No measure exceeds the total, so a total that is not zero takes a positive one. -/
theorem weighty_pos (hf : b.Forall fun v => 0 ≤ f v) (hpos : 0 < b.total f) :
    0 < (b.weighty f : Int) := by
  have hle : b.total f ≤ b.weighty f * b.total f := by
    rw [weighty_eq_total, ← total_mul_right]
    refine total_le_total fun k v hv => ?_
    show f v ≤ _
    by_cases hweight : 0 < f v
    · simpa [hweight] using le_total hf hv
    · simp [hweight]
      omega
  rcases Int.lt_or_le 0 (b.weighty f : Int) with hlt | hnone
  · exact hlt
  · have := Int.mul_nonpos_of_nonpos_of_nonneg hnone (Int.le_of_lt hpos)
    omega

theorem lt_total_share {amount : Int} (hf : b.Forall fun v => 0 ≤ f v) (hpos : 0 < b.total f) :
    amount < b.total (fun v => f v * amount / b.total f) + b.weighty f := by
  have hsome := weighty_pos hf hpos
  refine Int.lt_of_mul_lt_mul_right ?_ (Int.le_of_lt hpos)
  calc amount * b.total f
      < b.total f * amount + b.weighty f := by rw [Int.mul_comm]; omega
    _ = b.total fun v => f v * amount + if 0 < f v then 1 else 0 := by
        rw [weighty_eq_total, total_add, total_mul_right]
    _ ≤ b.total fun v => (f v * amount / b.total f + if 0 < f v then 1 else 0) * b.total f := by
        refine total_le_total fun k v hv => ?_
        show f v * amount + _ ≤ _
        by_cases hweight : 0 < f v
        · simp only [hweight, if_true]
          exact Int.lt_ediv_add_one_mul_self _ hpos
        · have hzero : f v = 0 := Int.le_antisymm (Int.not_lt.mp hweight) (hf k v hv)
          simp [hzero]
    _ = (b.total (fun v => f v * amount / b.total f) + b.weighty f) * b.total f := by
        rw [weighty_eq_total, total_mul_right, total_add]

end Book

/-! How a share follows the weights. -/

theorem share_le_of_gain {weight total gain amount : Int} (hamount : 0 ≤ amount)
    (hweight : 0 ≤ weight) (hle : weight ≤ total) (hgain : 0 ≤ gain) :
    weight * amount / total ≤ (weight + gain) * amount / (total + gain) := by
  rcases Int.lt_or_eq_of_le (Int.le_trans hweight hle) with hpos | hzero
  · have hshare : weight * amount / total ≤ amount :=
      Int.ediv_le_of_le_mul hpos (by
        rw [Int.mul_comm]
        exact Int.mul_le_mul_of_nonneg_left hle hamount)
    have hfloor : weight * amount / total * total ≤ weight * amount :=
      Int.ediv_mul_le _ (Int.ne_of_gt hpos)
    refine (Int.le_ediv_iff_mul_le (by omega)).mpr ?_
    calc weight * amount / total * (total + gain)
        = weight * amount / total * total + weight * amount / total * gain := Int.mul_add ..
      _ ≤ weight * amount + amount * gain :=
          Int.add_le_add hfloor (Int.mul_le_mul_of_nonneg_right hshare hgain)
      _ = (weight + gain) * amount := by rw [Int.add_mul, Int.mul_comm amount]
  · rw [← hzero, Int.ediv_zero]
    exact Int.ediv_nonneg (Int.mul_nonneg (by omega) hamount) (by omega)

theorem share_le_of_total {weight total total' amount : Int} (hamount : 0 ≤ amount)
    (hweight : 0 ≤ weight) (hle : weight ≤ total) (htotal : total ≤ total') :
    weight * amount / total' ≤ weight * amount / total := by
  have hnum : 0 ≤ weight * amount := Int.mul_nonneg hweight hamount
  rcases Int.lt_or_eq_of_le (Int.le_trans hweight hle) with hpos | hzero
  · refine (Int.le_ediv_iff_mul_le hpos).mpr ?_
    calc weight * amount / total' * total
        ≤ weight * amount / total' * total' :=
          Int.mul_le_mul_of_nonneg_left htotal (Int.ediv_nonneg hnum (by omega))
      _ ≤ weight * amount := Int.ediv_mul_le _ (by omega)
  · have hnone : weight = 0 := by omega
    simp [hnone]

namespace Ledger

def share (l : Ledger) (who : String) : Int := l.sale.entitlement (l.held who) l.totalSold

def Shared (l : Ledger) : Prop := ∀ who, l.allocation who = .ok (l.share who)

/-- The sale amount is divided fairly: never more than there is, and short of it by less than one
unit for each participant with any weight. -/
structure FairlyShared (l : Ledger) : Prop where
  shared : l.Shared
  total_le : sumOf (fun e => l.share e.1) l.positions.entries ≤ l.sale.saleAmount
  lt_total : l.sale.saleAmount <
    sumOf (fun e => l.share e.1) l.positions.entries + l.positions.weighty Position.weight

/-- From `l` to `l'` the share of `who` does not fall, and that of nobody else rises. -/
structure Favours (l l' : Ledger) (who : String) : Prop where
  shared : l.Shared
  shared' : l'.Shared
  own_le : l.share who ≤ l'.share who
  other_le : ∀ other, other ≠ who → l'.share other ≤ l.share other

variable {l l' : Ledger} {who : String}

theorem Consistent.shared (h : l.Consistent) (hsold : l.totalSold ≤ Amount.maxU128) : l.Shared := by
  intro who
  cases hget : l.positions.get? who with
  | none =>
    have hzero : l.share who = 0 := by
      simp only [share, held, hget, Option.getD_none, Sale.entitlement, Position.zero]
      cases l.sale.mechanic <;> simp
    simp only [allocation, hget, hzero]
  | some p =>
    obtain ⟨a, ha⟩ := (h.allocation_overflowsUnless hget).returns fun _ _ => hsold
    simp only [allocation, hget, ha, share, held_of_get? hget, Sale.allocation_eq ha]

theorem share_of_discovery (h : l.sale.mechanic = .priceDiscovery) (who : String) :
    l.share who = (l.held who).weight * l.sale.saleAmount / l.totalSold := by
  simp only [share, Sale.entitlement, h]

theorem total_share (h : l.sale.mechanic = .priceDiscovery) :
    sumOf (fun e => l.share e.1) l.positions.entries =
      l.positions.total fun p => p.weight * l.sale.saleAmount / l.totalSold := by
  refine sumOf_congr fun e he => ?_
  rw [share_of_discovery h, held_of_get? (Book.get?_eq_some.mpr he)]

theorem Consistent.fairlyShared (h : l.Consistent) (hdiscovery : l.sale.mechanic = .priceDiscovery)
    (hpos : 0 < l.totalSold) (hsold : l.totalSold ≤ Amount.maxU128) : l.FairlyShared where
  shared := h.shared hsold
  total_le := by
    rw [total_share hdiscovery, h.balanced.totalSold_eq]
    exact Book.total_share_le (fun k v hv => (h.balanced.position_nonneg k v hv).weight_nonneg)
      (Int.le_of_lt h.sound.saleAmount_pos)
  lt_total := by
    rw [total_share hdiscovery, h.balanced.totalSold_eq]
    rw [h.balanced.totalSold_eq] at hpos
    exact Book.lt_total_share (fun k v hv => (h.balanced.position_nonneg k v hv).weight_nonneg) hpos

/-! Weight that is gained or given up. -/

theorem Tallied.held_weight_le (h : l.Tallied) (who : String) :
    (l.held who).weight ≤ l.totalSold := by
  cases hget : l.positions.get? who with
  | none =>
    simp only [held, hget, Option.getD_none]
    exact h.totalSold_nonneg
  | some p =>
    rw [held_of_get? hget]
    exact h.weight_le hget

/-- The ledgers differ at most in the weight of one participant, and in the total by as much. -/
structure Reweighs (l l' : Ledger) (who : String) : Prop where
  sale_eq : l'.sale = l.sale
  own_eq : (l'.held who).weight - (l.held who).weight = l'.totalSold - l.totalSold
  other_eq : ∀ other, other ≠ who → (l'.held other).weight = (l.held other).weight

theorem Reweighs.symm (h : Reweighs l l' who) : Reweighs l' l who where
  sale_eq := h.sale_eq.symm
  own_eq := by
    have hown := h.own_eq
    omega
  other_eq := fun other hother => (h.other_eq other hother).symm

theorem Reweighs.favours (h : Reweighs l l' who) (hl : l.Consistent)
    (hdiscovery : l.sale.mechanic = .priceDiscovery) (hle : l.totalSold ≤ l'.totalSold)
    (hshared : l.Shared) (hshared' : l'.Shared) : Favours l l' who where
  shared := hshared
  shared' := hshared'
  own_le := by
    obtain ⟨gain, hgain⟩ : ∃ gain, l'.totalSold = l.totalSold + gain :=
      ⟨l'.totalSold - l.totalSold, by omega⟩
    have hown : (l'.held who).weight = (l.held who).weight + gain := by
      have := h.own_eq
      omega
    rw [share_of_discovery hdiscovery, share_of_discovery (h.sale_eq ▸ hdiscovery), h.sale_eq, hown,
      hgain]
    exact share_le_of_gain (Int.le_of_lt hl.sound.saleAmount_pos)
      (held_nonneg hl.balanced.position_nonneg who).weight_nonneg
      (hl.balanced.tallied.held_weight_le who) (by omega)
  other_le := by
    intro other hother
    rw [share_of_discovery hdiscovery, share_of_discovery (h.sale_eq ▸ hdiscovery), h.sale_eq,
      h.other_eq other hother]
    exact share_le_of_total (Int.le_of_lt hl.sound.saleAmount_pos)
      (held_nonneg hl.balanced.position_nonneg other).weight_nonneg
      (hl.balanced.tallied.held_weight_le other) hle

theorem Step.reweighs {op : Operation} {t : Transition} (hstep : Step l op t) (h : l.Tallied)
    (hwho : op.participant? = some who) : Reweighs l t.ledger who := by
  have hsale := hstep.sale_eq
  cases hstep.posts h with
  | keeps hpositions hparticipants hdeposited hsold hdepositors =>
    refine ⟨hsale, ?_, fun other hother => ?_⟩
    · simp only [held, hpositions, hsold, Int.sub_self]
    · simp only [held, hpositions]
  | @writes who' q hop _ hnonneg hpositions hparticipants hdeposited hsold hcapped hdepositors =>
    obtain rfl : who = who' := Option.some.inj (hwho.symm.trans hop)
    refine ⟨hsale, ?_, fun other hother => ?_⟩
    · rw [held, hpositions, held_insert_self, hsold]
      omega
    · rw [held, hpositions, held_insert_of_ne l hother]

theorem Step.totalSold_le_of_deposit {depositor participant : String} {amount now : Int}
    {token : Option String} {t : Transition}
    (hstep : Step l (.deposit depositor amount participant now token) t) :
    l.totalSold ≤ t.ledger.totalSold := by
  cases hstep with
  | fund hfunded hamount => exact Int.le_refl _
  | deposit hfunded hstatus hmin hpurchase =>
    exact (take_totalSold (Position.deposit_law hpurchase)).1
  | disburse hstatus hpays => cases hpays

theorem Step.totalSold_le_of_withdraw {participant : String} {amount now : Int} {t : Transition}
    (hstep : Step l (.withdraw participant amount now) t) (h : l.Tallied) :
    t.ledger.totalSold ≤ l.totalSold := by
  cases hstep with
  | withdraw hopen hposition hwithdrawal =>
    exact (release_totalSold_le ⟨h.position_nonneg, h.totalSold_nonneg⟩ hposition
      (Position.withdraw_law hwithdrawal)).2
  | disburse hstatus hpays => cases hpays

theorem Consistent.step {op : Operation} {t : Transition} (h : l.Consistent)
    (hstep : Step l op t) : t.ledger.Consistent :=
  ⟨hstep.sale_eq ▸ h.sound, hstep.sale_eq ▸ h.bounded, h.balanced.step hstep⟩

theorem Consistent.deposit_favours {depositor participant : String} {amount now : Int}
    {token : Option String} {t : Transition} (h : l.Consistent)
    (hdiscovery : l.sale.mechanic = .priceDiscovery)
    (hstep : Step l (.deposit depositor amount participant now token) t)
    (hsold : l.totalSold ≤ Amount.maxU128) (hsold' : t.ledger.totalSold ≤ Amount.maxU128) :
    Favours l t.ledger participant :=
  (hstep.reweighs h.balanced.tallied rfl).favours h hdiscovery hstep.totalSold_le_of_deposit
    (h.shared hsold) ((h.step hstep).shared hsold')

theorem Consistent.withdraw_favours {participant : String} {amount now : Int} {t : Transition}
    (h : l.Consistent) (hdiscovery : l.sale.mechanic = .priceDiscovery)
    (hstep : Step l (.withdraw participant amount now) t)
    (hsold : l.totalSold ≤ Amount.maxU128) (hsold' : t.ledger.totalSold ≤ Amount.maxU128) :
    Favours t.ledger l participant :=
  (hstep.reweighs h.balanced.tallied rfl).symm.favours (h.step hstep) (hstep.sale_eq ▸ hdiscovery)
    (hstep.totalSold_le_of_withdraw h.balanced.tallied) ((h.step hstep).shared hsold')
    (h.shared hsold)

end Ledger

namespace History

/-- Along every history under price discovery, while the total is an amount: the shares add up to
the sale amount but for less than one unit each, a deposit lowers no share of its participant and
raises no other, and a withdrawal raises no share of its participant and lowers no other. -/
theorem run_fairly_shared {draft : Sale.Draft} {settings : Settings} {outbox : Outbox} {clock : Int}
    {d : Desk} (h : Desk.start draft settings outbox clock = .ok d)
    (hdiscovery : d.ledger.sale.mechanic = .priceDiscovery) (turns : List Turn)
    (hsold : (run d turns).ledger.totalSold ≤ Amount.maxU128) :
    (0 < (run d turns).ledger.totalSold → (run d turns).ledger.FairlyShared) ∧
    (∀ depositor amount participant now token t,
      (run d turns).ledger.perform (.deposit depositor amount participant now token) = .ok t →
      t.ledger.totalSold ≤ Amount.maxU128 →
      Ledger.Favours (run d turns).ledger t.ledger participant) ∧
    (∀ participant amount now t,
      (run d turns).ledger.perform (.withdraw participant amount now) = .ok t →
      t.ledger.totalSold ≤ Amount.maxU128 →
      Ledger.Favours t.ledger (run d turns).ledger participant) := by
  have hconsistent := run_consistent h turns
  have hmechanic : (run d turns).ledger.sale.mechanic = .priceDiscovery := by
    rw [run_sale_eq h, hdiscovery]
  refine ⟨fun hpos => hconsistent.fairlyShared hmechanic hpos hsold, ?_, ?_⟩
  · intro depositor amount participant now token t ht hsold'
    exact hconsistent.deposit_favours hmechanic (Ledger.step_of_perform ht) hsold hsold'
  · intro participant amount now t ht hsold'
    exact hconsistent.withdraw_favours hmechanic (Ledger.step_of_perform ht) hsold hsold'

def sharedTurns : List Turn := sampleTurns.take 3

theorem run_fairly_shared_sample :
    Desk.start sampleSale.draft {} (.kept []) 0 = .ok sampleDesk ∧
      sampleDesk.ledger.sale.mechanic = .priceDiscovery ∧
      (run sampleDesk sharedTurns).ledger.totalSold = 40 ∧
      (run sampleDesk sharedTurns).ledger.FairlyShared ∧
      (∃ t, (run sampleDesk sharedTurns).ledger.perform (.deposit "cid" 20 "cid" 25 none) = .ok t ∧
        t.ledger.totalSold = 60 ∧
        Ledger.Favours (run sampleDesk sharedTurns).ledger t.ledger "cid") ∧
      ∃ t, (run sampleDesk sharedTurns).ledger.perform (.withdraw "bob" 10 30) = .ok t ∧
        t.ledger.totalSold = 30 ∧
        Ledger.Favours t.ledger (run sampleDesk sharedTurns).ledger "bob" := by
  have hstart : Desk.start sampleSale.draft {} (.kept []) 0 = .ok sampleDesk := rfl
  have hsold : (run sampleDesk sharedTurns).ledger.totalSold = 40 := by decide +kernel
  obtain ⟨hshared, hdeposit, hwithdraw⟩ :=
    run_fairly_shared hstart rfl sharedTurns (by rw [hsold]; decide)
  obtain ⟨t, hdeposited, htotal⟩ := exists_ok_of_map
    (x := (run sampleDesk sharedTurns).ledger.perform (.deposit "cid" 20 "cid" 25 none))
    (f := fun t => t.ledger.totalSold) (b := 60) (by decide +kernel)
  obtain ⟨t', hwithdrawn, htotal'⟩ := exists_ok_of_map
    (x := (run sampleDesk sharedTurns).ledger.perform (.withdraw "bob" 10 30))
    (f := fun t => t.ledger.totalSold) (b := 30) (by decide +kernel)
  exact ⟨hstart, rfl, hsold, hshared (by rw [hsold]; decide),
    ⟨t, hdeposited, htotal, hdeposit _ _ _ _ _ t hdeposited (by rw [htotal]; decide)⟩,
    t', hwithdrawn, htotal', hwithdraw _ _ _ t' hwithdrawn (by rw [htotal']; decide)⟩

end History

end TokenSale
