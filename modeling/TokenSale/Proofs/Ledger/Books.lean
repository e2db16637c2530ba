import TokenSale.Ledger.Undo
import TokenSale.Proofs.Ledger.Posting

/-!
What an applied change does to the books. The totals stay those of the positions whenever the change
moves both alike. The number of participants is kept by participants that enter and are struck, but
not by a position that appears because the change adds to one who is not there. Depositors stay
attached if those that come back find their participants, and none is left behind with a participant
who is struck.
-/

namespace TokenSale

namespace Change

def Moves (c : Change) : Prop := ¬(c.amount = 0 ∧ c.weight = 0 ∧ c.claimed = 0)

/-- The totals move as the position of the participant does, and nobody is taken out. -/
structure Accounted (c : Change) : Prop where
  amount_eq : c.amount = c.totalDeposited
  weight_eq : c.weight = c.totalSold
  owned : c.Moves → c.participant.isSome
  participantsRemoved_nil : c.participantsRemoved = []
  depositorsRemoved_nodup : (c.depositorsRemoved.map Prod.fst).Nodup

theorem moves_negate {c : Change} : c.negate.Moves ↔ c.Moves := by
  simp [Moves, negate]

end Change

namespace Ledger

variable {l l' : Ledger} {c : Change} {op : Operation} {t : Transition}

/-! The changes of steps. -/

theorem Step.change_eq (h : Step l op t) : t.change = l.changeTo t.ledger t.change.participant := by
  cases h with
  | disburse hstatus h => cases h <;> rfl
  | _ => rfl

theorem entriesBeyond_nodup (old new : Book String) :
    ((entriesBeyond old new).map Prod.fst).Nodup := by
  have hsorted : (entriesBeyond old new).Pairwise fun a b => a.1 < b.1 := new.sorted.filter _
  rw [List.Nodup, List.pairwise_map]
  refine hsorted.imp ?_
  intro a b hlt heq
  exact String.lt_irrefl b.1 (heq ▸ hlt)

theorem positionOf_of_ne (l : Ledger) {who : String} (h : who ≠ "") :
    l.positionOf (some who) = l.held who := by
  simp [positionOf, h, held]

theorem positionOf_congr (h : l'.positions = l.positions) (who : Option String) :
    l'.positionOf who = l.positionOf who := by
  unfold positionOf
  rw [h]

theorem Posts.change_eq (hposts : Posts l op t) (hnamed : op.Named)
    (hchange : t.change = l.changeTo t.ledger t.change.participant) :
    t.change.amount = t.change.totalDeposited ∧ t.change.weight = t.change.totalSold := by
  rw [hchange]
  show (t.ledger.positionOf _).amount - (l.positionOf _).amount =
      t.ledger.totalDeposited - l.totalDeposited ∧
    (t.ledger.positionOf _).weight - (l.positionOf _).weight = t.ledger.totalSold - l.totalSold
  cases hposts with
  | keeps hpositions hparticipants hdeposited hsold hdepositors =>
    rw [positionOf_congr hpositions, hdeposited, hsold]
    omega
  | @writes who q hop hwho hnonneg hpositions hparticipants hdeposited hsold hcapped hdepositors =>
    have hne : who ≠ "" := fun heq => hnamed (by rw [hop, heq])
    have hheld : t.ledger.held who = q := by
      unfold held
      rw [hpositions, held_insert_self]
    rw [hwho, positionOf_of_ne _ hne, positionOf_of_ne _ hne, hheld, hdeposited, hsold]
    omega

theorem Step.accounted (hstep : Step l op t) (h : l.Tallied) (hnamed : op.Named) :
    t.change.Accounted := by
  have hchange := hstep.change_eq
  obtain ⟨hamount, hweight⟩ := (hstep.posts h).change_eq hnamed hchange
  refine ⟨hamount, hweight, ?_, ?_, ?_⟩
  · intro hmoves
    cases hwho : t.change.participant with
    | some who => rfl
    | none =>
      refine absurd ?_ hmoves
      rw [hchange, hwho]
      exact ⟨rfl, rfl, rfl⟩
  · rw [hchange]
    rfl
  · rw [hchange]
    exact entriesBeyond_nodup _ _

/-! Totals and numbers of a roster. -/

/-- By how much a roster counts more participants than it has. -/
def Roster.surplus (r : Roster) : Int := r.2 - r.1.size

theorem enter_total {f : Position → Int} (hzero : f .zero = 0) (r : Roster) (names : List String) :
    (enter r names).1.total f = r.1.total f := by
  induction names generalizing r with
  | nil => rfl
  | cons a names ih =>
    rw [enter, ih]
    split
    · rfl
    · rename_i habsent
      rw [total_put hzero, Option.not_isSome_iff_eq_none.mp habsent]
      simp [hzero]

theorem strike_total {f : Position → Int} (hzero : f .zero = 0) (r : Roster)
    (names : List String) : (strike r names).1.total f = r.1.total f := by
  induction names generalizing r with
  | nil => rfl
  | cons a names ih =>
    rw [strike, ih]
    split
    · rename_i hthere
      rw [Book.total_erase, hthere]
      simp [hzero]
    · rfl

theorem strike_surplus (r : Roster) (names : List String) :
    (strike r names).surplus = r.surplus := by
  induction names generalizing r with
  | nil => rfl
  | cons a names ih =>
    rw [strike, ih]
    split
    · rename_i hthere
      simp only [Roster.surplus, Book.size_erase, hthere, Option.isSome_some, if_true]
      omega
    · rfl

theorem adjust_cases {b b' : Book Position} (h : adjust b c = .ok b') :
    b' = b ∧ (c.participant = none ∨ ¬c.Moves) ∨
      ∃ who q, c.participant = some who ∧ c.Moves ∧ q.Nonneg ∧
        q.amount = ((b.get? who).getD .zero).amount + c.amount ∧
        q.weight = ((b.get? who).getD .zero).weight + c.weight ∧ b' = b.insert who q := by
  unfold adjust at h
  split at h
  · rename_i hnone
    cases h
    exact .inl ⟨rfl, .inl hnone⟩
  · rename_i who hwho
    split at h
    · rename_i hzero
      cases h
      exact .inl ⟨rfl, .inr fun hmoves => hmoves hzero⟩
    · rename_i hmoves
      simp only [bind_eq_ok, demand_eq_ok, pure_eq_ok] at h
      obtain ⟨-, ⟨hamount, hweight, hclaimed⟩, rfl⟩ := h
      exact .inr ⟨who, _, hwho, hmoves, ⟨hamount, hweight, hclaimed⟩, rfl, rfl, rfl⟩

theorem adjust_totals {b b' : Book Position} (h : adjust b c = .ok b')
    (howned : c.Moves → c.participant.isSome) :
    b'.total Position.amount = b.total Position.amount + c.amount ∧
      b'.total Position.weight = b.total Position.weight + c.weight := by
  rcases adjust_cases h with ⟨rfl, hskip⟩ | ⟨who, q, hwho, hmoves, hnonneg, hamount, hweight, rfl⟩
  · have hstill : ¬c.Moves := by
      intro hmoves
      rcases hskip with hnone | hstill
      · simp [hnone] at howned
        exact howned hmoves
      · exact hstill hmoves
    obtain ⟨hamount, hweight, -⟩ := Classical.not_not.mp hstill
    omega
  · rw [total_put rfl, total_put rfl]
    omega

theorem enter_nonneg {r : Roster} (h : r.1.Forall Position.Nonneg) (names : List String) :
    (enter r names).1.Forall Position.Nonneg := by
  induction names generalizing r with
  | nil => exact h
  | cons a names ih =>
    unfold enter
    split
    · exact ih h
    · exact ih (h.insert a Position.zero_nonneg)

theorem strike_nonneg {r : Roster} (h : r.1.Forall Position.Nonneg) (names : List String) :
    (strike r names).1.Forall Position.Nonneg := by
  induction names generalizing r with
  | nil => exact h
  | cons a names ih =>
    unfold strike
    split
    · exact ih (h.erase a)
    · exact ih h

theorem adjust_nonneg {b b' : Book Position} (hb : b.Forall Position.Nonneg)
    (h : adjust b c = .ok b') : b'.Forall Position.Nonneg := by
  rcases adjust_cases h with ⟨rfl, -⟩ | ⟨who, q, hwho, hmoves, hnonneg, hamount, hweight, rfl⟩
  · exact hb
  · exact hb.insert who hnonneg

def Finds (b : Book Position) (c : Change) : Prop :=
  c.Moves → ∀ who, c.participant = some who → (b.get? who).isSome

theorem adjust_surplus_eq_iff {b b' : Book Position} {n : Int} (h : adjust b c = .ok b') :
    Roster.surplus (b', n) = Roster.surplus (b, n) ↔ Finds b c := by
  rcases adjust_cases h with ⟨rfl, hskip⟩ | ⟨who, q, hwho, hmoves, hnonneg, hamount, hweight, rfl⟩
  · refine iff_of_true rfl fun hmoves who hwho => ?_
    rcases hskip with hnone | hstill
    · rw [hnone] at hwho
      cases hwho
    · exact absurd hmoves hstill
  · simp only [Roster.surplus, Book.size_insert, Finds, hwho, hmoves, true_imp_iff,
      Option.some.injEq, forall_eq']
    by_cases hthere : (b.get? who).isSome = true
    · simp [hthere]
    · rw [if_neg hthere]
      refine iff_of_false ?_ hthere
      omega

/-! Depositors. -/

theorem detach_get? (positions : Book Position) (b : Book String) (es : List (String × String))
    {d who : String} : (detach positions b es).get? d = some who ↔
      b.get? d = some who ∧ ¬((d, who) ∈ es ∧ positions.get? who = none) := by
  induction es generalizing b with
  | nil => simp [detach]
  | cons e es ih =>
    obtain ⟨d', who'⟩ := e
    rw [detach, ih, List.mem_cons]
    split
    · rename_i hgone
      obtain ⟨hget, habsent⟩ := hgone
      by_cases heq : d = d'
      · subst heq
        rw [Book.get?_erase_self, hget]
        constructor
        · rintro ⟨hnone, -⟩
          cases hnone
        · rintro ⟨hsome, hstays⟩
          cases hsome
          exact absurd ⟨.inl rfl, by simpa using habsent⟩ hstays
      · rw [Book.get?_erase_of_ne _ heq]
        have hne : (d, who) ≠ (d', who') := fun h => heq (Prod.mk.inj h).1
        simp [hne]
    · rename_i hstays
      refine and_congr_right fun hget => not_congr (and_congr_left fun habsent => ?_)
      refine ⟨.inr, fun h => h.resolve_left fun heq => hstays ?_⟩
      cases heq
      exact ⟨hget, by simp [habsent]⟩

theorem attach_get?_of_not_mem (b : Book String) {es : List (String × String)} {d : String}
    (h : d ∉ es.map Prod.fst) : (attach b es).get? d = b.get? d := by
  induction es generalizing b with
  | nil => rfl
  | cons e es ih =>
    have hne : d ≠ e.1 := fun heq => h (heq ▸ List.mem_cons_self)
    have hrest : d ∉ es.map Prod.fst := fun hmem => h (List.mem_cons_of_mem _ hmem)
    rw [attach, ih _ hrest, Book.get?_insert_of_ne _ hne]

theorem attach_get?_of_mem (b : Book String) {es : List (String × String)}
    (hnodup : (es.map Prod.fst).Nodup) {d who : String} (h : (d, who) ∈ es) :
    (attach b es).get? d = some who := by
  induction es generalizing b with
  | nil => simp at h
  | cons e es ih =>
    obtain ⟨hfresh, hrest⟩ := List.nodup_cons.mp hnodup
    rw [attach]
    rcases List.mem_cons.mp h with rfl | h
    · rw [attach_get?_of_not_mem _ hfresh, Book.get?_insert_self]
    · exact ih _ hrest h

/-- Depositors that come back find their participants among `positions`, and every other one whose
participant is not there leaves. -/
structure Rejoins (l : Ledger) (c : Change) (positions : Book Position) : Prop where
  returned : ∀ e ∈ c.depositorsAdded, (positions.get? e.2).isSome
  left : ∀ d who, l.depositors.get? d = some who → positions.get? who = none →
    (d, who) ∈ c.depositorsRemoved ∨ d ∈ c.depositorsAdded.map Prod.fst

/-! Applied changes. -/

structure Applied (l : Ledger) (c : Change) (l' : Ledger) : Prop where
  sale_eq : l'.sale = l.sale
  revision_eq : l'.revision = l.revision + 1
  roster_eq : l.applyRoster c = .ok (l'.positions, l'.participants)
  individualClaims_eq : l.applyIndividual c = .ok l'.individualClaims
  depositors_eq : l'.depositors =
    attach (detach l'.positions l.depositors c.depositorsRemoved) c.depositorsAdded
  totalDeposited_eq : l'.totalDeposited = l.totalDeposited + c.totalDeposited
  totalSold_eq : l'.totalSold = l.totalSold + c.totalSold
  totalDeposited_nonneg : 0 ≤ l'.totalDeposited
  totalSold_nonneg : 0 ≤ l'.totalSold
  paid_eq : l'.paid =
    recordPaid (l.paid.filter fun a => !c.recipientsRemoved.contains a) c.recipientsAdded
  legsPaid_eq : l'.legsPaid = relist l.legsPaid c.legsAdded c.legsRemoved
  funded_eq : l'.funded = c.funded.getD l.funded
  locked_eq : l'.locked = c.locked.getD l.locked

theorem apply_eq_ok : l.apply c = .ok l' ↔ l.Applied c l' := by
  simp only [apply, bind_eq_ok, demand_eq_ok, pure_eq_ok]
  constructor
  · rintro ⟨⟨positions, participants⟩, hroster, claims, hclaims, -, ⟨hdeposited, hsold⟩, rfl⟩
    exact ⟨rfl, rfl, hroster, hclaims, rfl, rfl, rfl, hdeposited, hsold, rfl, rfl, rfl, rfl⟩
  · intro h
    refine ⟨_, h.roster_eq, _, h.individualClaims_eq, (), ?_, ?_⟩
    · rw [← h.totalDeposited_eq, ← h.totalSold_eq]
      exact ⟨h.totalDeposited_nonneg, h.totalSold_nonneg⟩
    · obtain ⟨hsale, hrevision, -, -, hdepositors, hdeposited, hsold, -, -, hpaid, hlegs, hfunded,
        hlocked⟩ := h
      cases l'
      simp_all

theorem apply_sale (h : l.apply c = .ok l') : l'.sale = l.sale := (apply_eq_ok.mp h).sale_eq

theorem apply_revision (h : l.apply c = .ok l') : l'.revision = l.revision + 1 :=
  (apply_eq_ok.mp h).revision_eq

theorem apply_books (h : l.apply c = .ok l') :
    ∃ b, adjust (enter (l.positions, l.participants) c.participantsAdded).1 c = .ok b ∧
      (l'.positions, l'.participants) =
        strike (b, (enter (l.positions, l.participants) c.participantsAdded).2)
          c.participantsRemoved ∧
      l'.depositors =
        attach (detach l'.positions l.depositors c.depositorsRemoved) c.depositorsAdded ∧
      l'.totalDeposited = l.totalDeposited + c.totalDeposited ∧
      l'.totalSold = l.totalSold + c.totalSold := by
  have happlied := apply_eq_ok.mp h
  have hroster := happlied.roster_eq
  simp only [applyRoster, bind_eq_ok, pure_eq_ok] at hroster
  obtain ⟨b, hb, hroster⟩ := hroster
  exact ⟨b, hb, hroster.symm, happlied.depositors_eq, happlied.totalDeposited_eq,
    happlied.totalSold_eq⟩

theorem Tallied.apply (h : l.Tallied) (hok : l.apply c = .ok l')
    (hamount : c.amount = c.totalDeposited) (hweight : c.weight = c.totalSold)
    (howned : c.Moves → c.participant.isSome) : l'.Tallied := by
  obtain ⟨b, hb, hroster, -, hdeposited, hsold⟩ := apply_books hok
  obtain ⟨hamounts, hweights⟩ := adjust_totals hb howned
  have hpositions : l'.positions = _ := congrArg Prod.fst hroster
  refine ⟨?_, ?_, ?_⟩
  · rw [hpositions, strike_total rfl, hamounts, enter_total rfl, hdeposited, h.totalDeposited_eq,
      hamount]
  · rw [hpositions, strike_total rfl, hweights, enter_total rfl, hsold, h.totalSold_eq, hweight]
  · rw [hpositions]
    exact strike_nonneg (adjust_nonneg (enter_nonneg h.position_nonneg _) hb) _

/-- A change that enters nobody keeps the number of participants right exactly if it finds its
participant. -/
theorem apply_counted_iff (h : l.Counted) (hok : l.apply c = .ok l')
    (hadded : c.participantsAdded = []) : l'.Counted ↔ Finds l.positions c := by
  obtain ⟨b, hb, hroster, -, -, -⟩ := apply_books hok
  simp only [hadded, enter] at hb hroster
  have hsurplus : Roster.surplus (l'.positions, l'.participants) =
      Roster.surplus (b, l.participants) := by
    rw [hroster, strike_surplus]
  have hzero : Roster.surplus (l.positions, l.participants) = 0 := by
    simp only [Roster.surplus]
    unfold Counted at h
    omega
  rw [← adjust_surplus_eq_iff hb (n := l.participants), hzero, ← hsurplus]
  simp only [Roster.surplus, Counted]
  omega

/-- An applied change keeps the depositors attached exactly if they rejoin what is left. -/
theorem apply_attached_iff (hok : l.apply c = .ok l')
    (hnodup : (c.depositorsAdded.map Prod.fst).Nodup) :
    l'.Attached ↔ Rejoins l c l'.positions := by
  obtain ⟨-, -, -, hdepositors, -, -⟩ := apply_books hok
  have hstays : ∀ d who, d ∉ c.depositorsAdded.map Prod.fst →
      (l'.depositors.get? d = some who ↔ l.depositors.get? d = some who ∧
        ¬((d, who) ∈ c.depositorsRemoved ∧ l'.positions.get? who = none)) := by
    intro d who hd
    rw [hdepositors, attach_get?_of_not_mem _ hd, detach_get?]
  constructor
  · intro hattached
    refine ⟨?_, ?_⟩
    · rintro ⟨d, who⟩ hmem
      refine hattached d who ?_
      rw [hdepositors]
      exact attach_get?_of_mem _ hnodup hmem
    · intro d who hd hgone
      by_cases hback : d ∈ c.depositorsAdded.map Prod.fst
      · exact .inr hback
      · refine .inl (Classical.byContradiction fun hkept => ?_)
        have hthere := hattached d who ((hstays d who hback).mpr ⟨hd, fun hout => hkept hout.1⟩)
        rw [hgone] at hthere
        cases hthere
  · intro hrejoins d who hd
    -- a depositor who is there has come back with the change, or was there and has stayed
    by_cases hback : d ∈ c.depositorsAdded.map Prod.fst
    · obtain ⟨⟨d', who'⟩, hmem, rfl⟩ := List.mem_map.mp hback
      have hget : l'.depositors.get? d' = some who' := by
        rw [hdepositors]
        exact attach_get?_of_mem _ hnodup hmem
      have heq : who' = who := Option.some.inj (hget.symm.trans hd)
      exact heq ▸ hrejoins.returned _ hmem
    · obtain ⟨hold, hkept⟩ := (hstays d who hback).mp hd
      cases hgone : l'.positions.get? who with
      | some p => rfl
      | none =>
        rcases hrejoins.left d who hold hgone with hout | hin
        · exact absurd ⟨hout, hgone⟩ hkept
        · exact absurd hin hback

/-! Undone changes. -/

theorem Tallied.compensate (h : l.Tallied) (ht : t.change.Accounted)
    (hok : l.compensate t = .ok l') : l'.Tallied := by
  refine h.apply hok (congrArg Int.neg ht.amount_eq) (congrArg Int.neg ht.weight_eq) ?_
  intro hmoves
  exact ht.owned (Change.moves_negate.mp hmoves)

theorem compensate_counted_iff (h : l.Counted) (ht : t.change.Accounted)
    (hok : l.compensate t = .ok l') : l'.Counted ↔ Finds l.positions t.change := by
  rw [apply_counted_iff h hok ht.participantsRemoved_nil]
  unfold Finds
  rw [Change.moves_negate]
  rfl

theorem compensate_attached_iff (ht : t.change.Accounted) (hok : l.compensate t = .ok l') :
    l'.Attached ↔ Rejoins l t.change.negate l'.positions :=
  apply_attached_iff hok ht.depositorsRemoved_nodup

end Ledger

end TokenSale
