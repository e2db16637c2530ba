import TokenSale.Proofs.Crediting

/-!
Deposits that come in one after the other. At a fixed price the order decides whose deposit crosses
the cap and who comes too late, but not what is sold: that is all the deposits buy, up to the cap.
Under price discovery the order decides nothing.
-/

namespace TokenSale

open Position

structure Bid where
  participant : String
  amount : Int
  time : Int
deriving DecidableEq, Repr

/-- The sale tokens that a bid buys while there is room. -/
def Bid.assets (b : Bid) (p : Price) (s : Schedule) : Except Fault Int := do
  p.assets (← s.weigh b.amount b.time)

def Bid.weight (s : Schedule) (b : Bid) : Int := (s.weigh b.amount b.time).toOption.getD 0

def Bid.Counts (b : Bid) (s : Schedule) : Prop :=
  0 < b.amount ∧ ∃ w, s.weigh b.amount b.time = .ok w

structure Intake where
  positions : Book Position
  totalDeposited : Int
  totalSold : Int

namespace Intake

/-- A bid, what was sold before it, and what came of it. -/
structure Receipt where
  bid : Bid
  soldBefore : Int
  purchase : Purchase

def held (i : Intake) (who : String) : Position := (i.positions.get? who).getD .zero

def take (m : Mechanic) (s : Schedule) (cap : Int) (i : Intake) (b : Bid) : Except Fault Purchase :=
  deposit m s cap (i.held b.participant) i.totalDeposited i.totalSold b.amount b.time

def after (i : Intake) (b : Bid) (r : Purchase) : Intake :=
  ⟨i.positions.insert b.participant r.position, r.totalDeposited, r.totalSold⟩

def takeAll (m : Mechanic) (s : Schedule) (cap : Int) :
    Intake → List Bid → Except Fault (Intake × List Receipt)
  | i, [] => .ok (i, [])
  | i, b :: bs => do
    let r ← i.take m s cap b
    let (j, rs) ← takeAll m s cap (i.after b r) bs
    return (j, ⟨b, i.totalSold, r⟩ :: rs)

variable {m : Mechanic} {p : Price} {s : Schedule} {cap : Int} {i j : Intake}

theorem takeAll_cons {b : Bid} {bs : List Bid} {rs : List Receipt} :
    takeAll m s cap i (b :: bs) = .ok (j, rs) ↔
      ∃ r rest, i.take m s cap b = .ok r ∧ takeAll m s cap (i.after b r) bs = .ok (j, rest) ∧
        rs = ⟨b, i.totalSold, r⟩ :: rest := by
  simp only [takeAll, bind_eq_ok, pure_eq_ok]
  constructor
  · rintro ⟨r, hr, ⟨_, rest⟩, hrest, heq⟩
    cases heq
    exact ⟨r, rest, hr, hrest, rfl⟩
  · rintro ⟨r, rest, hr, hrest, rfl⟩
    exact ⟨r, hr, (j, rest), hrest, rfl⟩

/-! At a fixed price. -/

/-- What comes of bids at a fixed price, of which each is worth some sale tokens. -/
structure Filled (cap : Int) (worth : Bid → Int) (i : Intake) (bids : List Bid) (j : Intake)
    (rs : List Receipt) : Prop where
  totalSold_eq : j.totalSold = min cap (i.totalSold + sumOf worth bids)
  refunded : ∀ r ∈ rs, r.soldBefore = cap →
    r.purchase.accepted = 0 ∧ r.purchase.weightAdded = 0 ∧ r.purchase.refund = r.bid.amount
  conserved : sumOf (fun r => r.purchase.accepted) rs + sumOf (fun r => r.purchase.refund) rs =
    sumOf Bid.amount bids

theorem Filled.of_perm {worth : Bid → Int} {order bids : List Bid} {rs : List Receipt}
    (h : Filled cap worth i order j rs) (horder : order.Perm bids) :
    Filled cap worth i bids j rs where
  totalSold_eq := by
    rw [← sumOf_perm horder]
    exact h.totalSold_eq
  refunded := h.refunded
  conserved := by
    rw [← sumOf_perm horder]
    exact h.conserved

theorem exists_of_assets {b : Bid} {worth : Int} (h : b.assets p s = .ok worth) :
    ∃ w, s.weigh b.amount b.time = .ok w ∧ p.assets w = .ok worth := by
  simpa only [Bid.assets, bind_eq_ok] using h

theorem take_fixed {b : Bid} {worth : Int} (hs : s.Sound) (hle : i.totalSold ≤ cap)
    (hpos : 0 < b.amount) (hworth : b.assets p s = .ok worth) :
    ∃ r, i.take (.fixedPrice p) s cap b = .ok r ∧ r.totalSold = min cap (i.totalSold + worth) ∧
      r.accepted + r.refund = b.amount ∧
      (i.totalSold = cap → r.accepted = 0 ∧ r.weightAdded = 0 ∧ r.refund = b.amount) := by
  obtain ⟨w, hw, hassets⟩ := exists_of_assets hworth
  obtain ⟨r, hr, hadded⟩ := exists_deposit cap (i.held b.participant) i.totalDeposited
    i.totalSold hs hpos hw hassets
  have hlaw := deposit_law hr
  refine ⟨r, hr, ?_, hlaw.accepted_add_refund, fun hfull => ?_⟩
  · rw [hlaw.totalSold_eq, hadded, Amount.monus_of_le hle]
    omega
  · cases (deposit_soldOut (Int.le_of_eq hfull.symm) hpos _ _).symm.trans hr
    exact ⟨rfl, rfl, rfl⟩

/-- Bids that are all worth something are all taken. What was sold may stand anywhere up to the cap
at the start; that it never exceeds the cap carries the induction. -/
theorem takeAll_fixed {worth : Bid → Int} {order : List Bid} (hs : s.Sound)
    (hle : i.totalSold ≤ cap)
    (hbids : ∀ b ∈ order, 0 < b.amount ∧ b.assets p s = .ok (worth b)) :
    ∃ j rs, takeAll (.fixedPrice p) s cap i order = .ok (j, rs) ∧ rs.map Receipt.bid = order ∧
      Filled cap worth i order j rs := by
  induction order generalizing i with
  | nil =>
    refine ⟨i, [], rfl, rfl, ?_, by simp, rfl⟩
    simp only [sumOf_nil]
    omega
  | cons b order ih =>
    obtain ⟨hpos, hworth⟩ := hbids b (by simp)
    obtain ⟨r, hr, hsold, hsum, hlate⟩ := take_fixed hs hle hpos hworth
    have hsold' : (i.after b r).totalSold = min cap (i.totalSold + worth b) := hsold
    obtain ⟨j, rest, hrest, hmap, hfilled⟩ := ih (i := i.after b r)
      (by omega) fun c hc => hbids c (List.mem_cons_of_mem b hc)
    refine ⟨j, _, takeAll_cons.mpr ⟨r, rest, hr, hrest, rfl⟩, by rw [List.map_cons, hmap], ?_⟩
    have hlater : 0 ≤ sumOf worth order := by
      refine sumOf_nonneg fun c hc => ?_
      obtain ⟨_, -, hc⟩ := exists_of_assets (hbids c (List.mem_cons_of_mem b hc)).2
      exact Amount.mulDiv_nonneg hc
    exact {
      totalSold_eq := by
        rw [hfilled.totalSold_eq, hsold', sumOf_cons]
        omega
      refunded := by
        intro r' hr'
        rcases List.mem_cons.mp hr' with rfl | hr'
        · exact hlate
        · exact hfilled.refunded r' hr'
      conserved := by
        have hconserved := hfilled.conserved
        simp only [sumOf_cons]
        omega }

/-! Under price discovery. -/

def credit (s : Schedule) (i : Intake) (b : Bid) : Intake where
  positions := i.positions.insert b.participant
    ⟨(i.held b.participant).amount + b.amount, (i.held b.participant).weight + b.weight s,
      (i.held b.participant).claimed⟩
  totalDeposited := i.totalDeposited + b.amount
  totalSold := i.totalSold + b.weight s

theorem take_discovery_eq_ok {b : Bid} {r : Purchase} (h : i.take .priceDiscovery s cap b = .ok r) :
    b.Counts s ∧ i.after b r = i.credit s b := by
  obtain ⟨hpos, w, hw, rfl⟩ := deposit_discovery_eq_ok.mp h
  have hweight : b.weight s = w := by
    rw [Bid.weight, hw]
    rfl
  refine ⟨⟨hpos, w, hw⟩, ?_⟩
  rw [credit, hweight]
  rfl

theorem takeAll_discovery {bids : List Bid} :
    (∃ rs, takeAll .priceDiscovery s cap i bids = .ok (j, rs)) ↔
      (∀ b ∈ bids, b.Counts s) ∧ j = bids.foldl (credit s) i := by
  induction bids generalizing i with
  | nil =>
    simp only [takeAll, List.not_mem_nil, false_implies, implies_true, List.foldl_nil, true_and]
    constructor
    · rintro ⟨rs, h⟩
      cases h
      rfl
    · rintro rfl
      exact ⟨[], rfl⟩
  | cons b bids ih =>
    simp only [List.forall_mem_cons, List.foldl_cons, takeAll_cons]
    constructor
    · rintro ⟨_, r, rest, hr, hrest, -⟩
      obtain ⟨hcounts, hafter⟩ := take_discovery_eq_ok hr
      obtain ⟨hbids, hj⟩ := ih.mp ⟨rest, hafter ▸ hrest⟩
      exact ⟨⟨hcounts, hbids⟩, hj⟩
    · rintro ⟨⟨⟨hpos, w, hw⟩, hbids⟩, hj⟩
      obtain ⟨r, hr⟩ : ∃ r, i.take .priceDiscovery s cap b = .ok r :=
        ⟨_, deposit_discovery_eq_ok.mpr ⟨hpos, w, hw, rfl⟩⟩
      obtain ⟨rest, hrest⟩ := ih.mpr ⟨hbids, hj⟩
      exact ⟨_, r, rest, hr, (take_discovery_eq_ok hr).2 ▸ hrest, rfl⟩

theorem credit_comm (s : Schedule) (i : Intake) (b c : Bid) :
    (i.credit s b).credit s c = (i.credit s c).credit s b := by
  by_cases hsame : b.participant = c.participant
  · simp only [credit, held, hsame, Book.get?_insert_self, Book.insert_insert_self,
      Option.getD_some, Intake.mk.injEq]
    refine ⟨?_, Int.add_right_comm .., Int.add_right_comm ..⟩
    congr 2
    · exact Int.add_right_comm ..
    · exact Int.add_right_comm ..
  · simp only [credit, held, Book.get?_insert_of_ne _ hsame,
      Book.get?_insert_of_ne _ (Ne.symm hsame), Intake.mk.injEq]
    exact ⟨Book.insert_comm _ hsame _ _, Int.add_right_comm .., Int.add_right_comm ..⟩

theorem foldl_credit_perm {order bids : List Bid} (h : order.Perm bids) :
    order.foldl (credit s) i = bids.foldl (credit s) i :=
  h.foldl_eq' (fun b _ c _ i => credit_comm s i b c) i

theorem held_credit_self (s : Schedule) (i : Intake) (b : Bid) :
    (i.credit s b).held b.participant =
      ⟨(i.held b.participant).amount + b.amount, (i.held b.participant).weight + b.weight s,
        (i.held b.participant).claimed⟩ := by
  simp [credit, held]

theorem held_credit_of_ne (s : Schedule) (i : Intake) {b : Bid} {who : String}
    (h : who ≠ b.participant) : (i.credit s b).held who = i.held who := by
  simp [credit, held, Book.get?_insert_of_ne _ h]

/-- What comes of bids under price discovery: everyone holds what all of their own bids add up to. -/
structure Credited (s : Schedule) (i : Intake) (bids : List Bid) (j : Intake) : Prop where
  totalDeposited_eq : j.totalDeposited = i.totalDeposited + sumOf Bid.amount bids
  totalSold_eq : j.totalSold = i.totalSold + sumOf (Bid.weight s) bids
  held_eq : ∀ who, j.held who =
    ⟨(i.held who).amount + sumOf Bid.amount (bids.filter fun b => b.participant = who),
      (i.held who).weight + sumOf (Bid.weight s) (bids.filter fun b => b.participant = who),
      (i.held who).claimed⟩

theorem credited_foldl (s : Schedule) (i : Intake) (bids : List Bid) :
    Credited s i bids (bids.foldl (credit s) i) := by
  induction bids generalizing i with
  | nil => exact ⟨(Int.add_zero _).symm, (Int.add_zero _).symm, fun who => by simp⟩
  | cons b bids ih =>
    have hrest := ih (i.credit s b)
    rw [List.foldl_cons]
    refine ⟨?_, ?_, fun who => ?_⟩
    · rw [hrest.totalDeposited_eq, sumOf_cons]
      exact Int.add_assoc ..
    · rw [hrest.totalSold_eq, sumOf_cons]
      exact Int.add_assoc ..
    · rw [hrest.held_eq]
      by_cases hwho : who = b.participant
      · subst hwho
        rw [held_credit_self, List.filter_cons_of_pos (by simp), sumOf_cons, sumOf_cons,
          Int.add_assoc, Int.add_assoc]
      · rw [held_credit_of_ne s i hwho, List.filter_cons_of_neg (by simpa using Ne.symm hwho)]

/-- The order of bids does not matter for what is sold. At a fixed price that is what they are
worth, up to the cap, and who comes to the cap gets all back; under price discovery no position and
no total depends on the order, nor does whether all bids are taken. -/
theorem takeAll_perm {bids order : List Bid} (horder : order.Perm bids) (s : Schedule) (cap : Int)
    (i : Intake) :
    (∀ (p : Price) (worth : Bid → Int), s.validate = .ok () → i.totalSold ≤ cap →
      (∀ b ∈ bids, 0 < b.amount ∧ b.assets p s = .ok (worth b)) →
      ∃ j rs, takeAll (.fixedPrice p) s cap i order = .ok (j, rs) ∧ rs.map Receipt.bid = order ∧
        Filled cap worth i bids j rs) ∧
    ((∀ b ∈ bids, b.Counts s) → ∃ j rs, takeAll .priceDiscovery s cap i order = .ok (j, rs) ∧
      Credited s i bids j) ∧
    ∀ j, (∃ rs, takeAll .priceDiscovery s cap i order = .ok (j, rs)) ↔
      ∃ rs, takeAll .priceDiscovery s cap i bids = .ok (j, rs) := by
  have hcounts : (∀ b ∈ order, b.Counts s) ↔ ∀ b ∈ bids, b.Counts s := by
    simp only [horder.mem_iff]
  refine ⟨?_, ?_, ?_⟩
  · intro p worth hvalid hle hbids
    obtain ⟨j, rs, htaken, hmap, hfilled⟩ := takeAll_fixed (Schedule.sound_of_validate hvalid) hle
      fun b hb => hbids b (horder.mem_iff.mp hb)
    exact ⟨j, rs, htaken, hmap, hfilled.of_perm horder⟩
  · intro hall
    obtain ⟨rs, htaken⟩ : ∃ rs, takeAll .priceDiscovery s cap i order =
        .ok (bids.foldl (credit s) i, rs) :=
      takeAll_discovery.mpr ⟨hcounts.mpr hall, (foldl_credit_perm horder).symm⟩
    exact ⟨_, rs, htaken, credited_foldl s i bids⟩
  · intro j
    rw [takeAll_discovery, takeAll_discovery, hcounts, foldl_credit_perm horder]

/-- Bids that are together worth more than the cap, two of them with a bonus. -/
def sampleBids : List Bid := [⟨"alice", 300, 1500⟩, ⟨"bob", 200, 2500⟩, ⟨"alice", 50, 1600⟩]

/-- With the first bid last, that one crosses the cap. -/
theorem takeAll_perm_sample :
    let s : Schedule := [⟨1000, 2000, 2500⟩]
    let worth : Bid → Int := fun b => (b.assets ⟨3, 7⟩ s).toOption.getD 0
    let i : Intake := ⟨.empty, 0, 0⟩
    sampleBids.reverse.Perm sampleBids ∧ s.validate = .ok () ∧ i.totalSold ≤ 1000 ∧
      sumOf worth sampleBids = 1485 ∧
      (∃ j rs, takeAll (.fixedPrice ⟨3, 7⟩) s 1000 i sampleBids.reverse = .ok (j, rs) ∧
        rs.map Receipt.bid = sampleBids.reverse ∧ Filled 1000 worth i sampleBids j rs) ∧
      ∃ j rs rs', takeAll .priceDiscovery s 1000 i sampleBids.reverse = .ok (j, rs) ∧
        takeAll .priceDiscovery s 1000 i sampleBids = .ok (j, rs') ∧
        Credited s i sampleBids j := by
  intro s worth i
  have horder : sampleBids.reverse.Perm sampleBids := List.reverse_perm _
  have hvalid : s.validate = .ok () := rfl
  have hle : i.totalSold ≤ 1000 := by decide
  have hworth : ∀ b ∈ sampleBids, 0 < b.amount ∧ b.assets ⟨3, 7⟩ s = .ok (worth b) := by
    simp only [sampleBids, List.forall_mem_cons, List.not_mem_nil, false_implies, implies_true]
    exact ⟨⟨by decide, rfl⟩, ⟨by decide, rfl⟩, ⟨by decide, rfl⟩, trivial⟩
  have hcounts : ∀ b ∈ sampleBids, b.Counts s := by
    simp only [sampleBids, List.forall_mem_cons, List.not_mem_nil, false_implies, implies_true]
    exact ⟨⟨by decide, _, rfl⟩, ⟨by decide, _, rfl⟩, ⟨by decide, _, rfl⟩, trivial⟩
  obtain ⟨hfixed, hreturns, hsame⟩ := takeAll_perm horder s 1000 i
  obtain ⟨j, rs, hj, hcredited⟩ := hreturns hcounts
  obtain ⟨rs', hj'⟩ := (hsame j).mp ⟨rs, hj⟩
  exact ⟨horder, hvalid, hle, rfl, hfixed ⟨3, 7⟩ worth hvalid hle hworth, j, rs, rs', hj, hj',
    hcredited⟩

end Intake

end TokenSale
