import TokenSale.Proofs.Ledger.Books
import TokenSale.Proofs.Ledger.Settlement

/-!
The parts of an applied change, each with what it does when the change is the difference between two
ledgers: the roster, the individual claims, the depositors, the logs and the flags.
-/

namespace TokenSale.Ledger

variable {l l' : Ledger} {c : Change} {who? d? : Option String} {who d : String}

theorem adjust_to {b : Book Position} {p q : Position} (hwho : c.participant = some who)
    (hp : b.get? who = some p) (hq : q.Nonneg) (hamount : c.amount = q.amount - p.amount)
    (hweight : c.weight = q.weight - p.weight) (hclaimed : c.claimed = q.claimed - p.claimed) :
    adjust b c = .ok (b.insert who q) := by
  have hsum : (⟨p.amount + c.amount, p.weight + c.weight, p.claimed + c.claimed⟩ : Position) =
      q := by
    obtain ⟨amount, weight, claimed⟩ := q
    simp only [hamount, hweight, hclaimed, Position.mk.injEq]
    omega
  unfold adjust
  rw [hwho]
  dsimp only
  split
  · -- there is nothing to add, so the other position is the one that is there
    rename_i hstill
    obtain ⟨ha, hw, hc⟩ := hstill
    rw [ha, hw, hc, Int.add_zero, Int.add_zero, Int.add_zero] at hsum
    rw [← hsum, Book.insert_of_get? hp]
  · simp only [hp, Option.getD_some, bind_eq_ok, demand_eq_ok, pure_eq_ok, hsum]
    rw [hamount, hweight, hclaimed]
    have hamounts := hq.amount_nonneg
    have hweights := hq.weight_nonneg
    have hclaims := hq.claimed_nonneg
    refine ⟨(), ?_, trivial⟩
    omega

theorem adjust_of_not_moves {b : Book Position} (h : ¬c.Moves) : adjust b c = .ok b := by
  unfold adjust
  split
  · rfl
  · rw [if_pos (Classical.not_not.mp h)]

theorem enter_held (r : Roster) (names : List String) (who : String) :
    ((enter r names).1.get? who).getD .zero = (r.1.get? who).getD .zero := by
  induction names generalizing r with
  | nil => rfl
  | cons a names ih =>
    rw [enter, ih]
    split
    · rfl
    · rename_i habsent
      by_cases heq : who = a
      · subst heq
        simp [Option.not_isSome_iff_eq_none.mp habsent]
      · rw [Book.get?_insert_of_ne _ heq]

theorem enter_newcomer (b : Book Position) (n : Int) (who : String) :
    ∃ b', enter (b, n) (if (b.get? who).isNone then [who] else []) =
        (b', n + if (b.get? who).isSome then 0 else 1) ∧
      b'.get? who = some ((b.get? who).getD .zero) ∧
      ∀ q, b'.insert who q = b.insert who q := by
  cases hget : b.get? who with
  | none =>
    refine ⟨b.insert who .zero, ?_, ?_, fun q => Book.insert_insert_self b who _ q⟩
    · simp [enter, hget]
    · simp
  | some p => exact ⟨b, by simp [enter], by simpa using hget, fun q => rfl⟩

theorem strike_newcomer (b : Book Position) (n : Int) (who : String) :
    strike (b.insert who ((b.get? who).getD .zero), n + if (b.get? who).isSome then 0 else 1)
      (if (b.get? who).isNone then [who] else []) = (b, n) := by
  cases hget : b.get? who with
  | none => simp [strike, Book.erase_insert_self hget]
  | some p => simp [strike, Book.insert_of_get? hget]

theorem flagChange_getD (old new : Bool) : (flagChange old new).getD old = new := by
  cases old <;> cases new <;> rfl

theorem flagChange_not_getD (old new : Bool) :
    ((flagChange old new).map not).getD new = old := by
  cases old <;> cases new <;> rfl

/-! Individual claims. -/

theorem individualClaimOf_congr (h : l'.individualClaims = l.individualClaims)
    (who? : Option String) : l'.individualClaimOf who? = l.individualClaimOf who? := by
  cases who? with
  | none => rfl
  | some who => simp only [individualClaimOf, individualClaimed, h]

theorem applyIndividual_of_eq_zero (h : c.individualClaimed = 0) :
    l.applyIndividual c = .ok l.individualClaims := by
  unfold applyIndividual
  split
  · rfl
  · rw [if_pos h]

theorem applyIndividual_to {v : Int} (hwho : c.participant = some who)
    (hclaimed : c.individualClaimed = v - l.individualClaimed who)
    (hne : v ≠ l.individualClaimed who) (hv : 0 ≤ v) :
    l.applyIndividual c = .ok (l.individualClaims.insert who v) := by
  have hsum : l.individualClaimed who + c.individualClaimed = v := by omega
  have hmoves : c.individualClaimed ≠ 0 := by omega
  simp only [applyIndividual, hwho, if_neg hmoves, hsum, bind_eq_ok, demand_eq_ok, pure_eq_ok]
  exact ⟨(), hv, trivial⟩

/-! Depositors. -/

def note (b : Book String) : Option String → Option String → Book String
  | some d, some who => b.insert d who
  | _, _ => b

/-- The depositors once a deposit of `d?` for `who?` was undone. One who was not noted before leaves
only together with the participant. -/
def unnote (b : Book String) (positions : Book Position) : Option String → Option String →
    Book String
  | some d, some who =>
    if (b.get? d).isNone ∧ (positions.get? who).isSome then b.insert d who else b
  | _, _ => b

theorem mem_entriesBeyond {old new : Book String} :
    (d, who) ∈ entriesBeyond old new ↔ new.get? d = some who ∧ old.get? d ≠ some who := by
  simp only [entriesBeyond, List.mem_filter, bne_iff_ne, ne_eq, ← Book.get?_eq_some]

theorem entriesBeyond_eq_singleton {old new : Book String}
    (hagree : ∀ e, e ≠ d → new.get? e = old.get? e) (hnew : new.get? d = some who)
    (hold : old.get? d ≠ some who) : entriesBeyond old new = [(d, who)] := by
  refine List.perm_singleton.mp ((List.perm_ext_iff_of_nodup ?_ (by simp)).mpr ?_)
  · exact List.Pairwise.of_map Prod.fst (fun a b hne heq => hne (congrArg Prod.fst heq))
      (entriesBeyond_nodup old new)
  · rintro ⟨e, x⟩
    rw [mem_entriesBeyond, List.mem_singleton, Prod.mk.injEq]
    constructor
    · rintro ⟨hx, hne⟩
      by_cases he : e = d
      · subst he
        exact ⟨rfl, Option.some.inj (hx.symm.trans hnew)⟩
      · exact absurd ((hagree e he).symm.trans hx) hne
    · rintro ⟨rfl, rfl⟩
      exact ⟨hnew, hold⟩

theorem entriesBeyond_eq_nil {old new : Book String}
    (h : ∀ e x, new.get? e = some x → old.get? e = some x) : entriesBeyond old new = [] := by
  refine List.eq_nil_iff_forall_not_mem.mpr ?_
  rintro ⟨e, x⟩ hmem
  obtain ⟨hx, hne⟩ := mem_entriesBeyond.mp hmem
  exact hne (h e x hx)

theorem entriesBeyond_insert (b : Book String) (d who : String) :
    entriesBeyond b (b.insert d who) = (if b.get? d = some who then [] else [(d, who)]) ∧
      entriesBeyond (b.insert d who) b =
        match b.get? d with
        | none => []
        | some old => if old = who then [] else [(d, old)] := by
  have hagree : ∀ e, e ≠ d → (b.insert d who).get? e = b.get? e := fun e he =>
    Book.get?_insert_of_ne b he who
  have hself : (b.insert d who).get? d = some who := Book.get?_insert_self b d who
  cases hget : b.get? d with
  | none =>
    refine ⟨?_, ?_⟩
    · rw [if_neg (by simp)]
      exact entriesBeyond_eq_singleton hagree hself (by simp [hget])
    · refine entriesBeyond_eq_nil fun e x hx => ?_
      have he : e ≠ d := fun heq => by simp [heq, hget] at hx
      rw [hagree e he, hx]
  | some old =>
    by_cases hsame : old = who
    · subst hsame
      rw [Book.insert_of_get? hget]
      simp
    · have hother : some old ≠ some who := fun heq => hsame (Option.some.inj heq)
      refine ⟨?_, ?_⟩
      · rw [if_neg hother]
        exact entriesBeyond_eq_singleton hagree hself (hget ▸ hother)
      · rw [entriesBeyond_eq_singleton (fun e he => (hagree e he).symm) hget
          (hself ▸ Ne.symm hother)]
        exact (if_neg hsame).symm

theorem attach_note (b : Book String) (positions : Book Position) :
    attach (detach positions b (entriesBeyond (note b d? who?) b))
      (entriesBeyond b (note b d? who?)) = note b d? who? := by
  unfold note
  split
  · rename_i d who
    obtain ⟨hadded, hremoved⟩ := entriesBeyond_insert b d who
    rw [hadded, hremoved]
    cases hget : b.get? d with
    | none => simp [detach, attach]
    | some old =>
      by_cases hsame : old = who
      · subst hsame
        simp [detach, attach, Book.insert_of_get? hget]
      · -- whether the old entry was taken out or not, the new one stands in its place
        simp only [Option.some.injEq, hsame, if_false, detach, attach]
        split
        · exact Book.insert_erase_self b d who
        · rfl
  · simp [detach, attach]

/-- Taken back, a note leaves the book as it was, or the depositor is left behind. -/
theorem attach_unnote (b : Book String) (positions : Book Position) :
    attach (detach positions (note b d? who?) (entriesBeyond b (note b d? who?)))
      (entriesBeyond (note b d? who?) b) = unnote b positions d? who? := by
  unfold note unnote
  split
  · rename_i d who
    obtain ⟨hadded, hremoved⟩ := entriesBeyond_insert b d who
    rw [hadded, hremoved]
    cases hget : b.get? d with
    | none =>
      cases hthere : positions.get? who with
      | none => simp [detach, attach, hthere, Book.erase_insert_self hget]
      | some p => simp [detach, attach, hthere]
    | some old =>
      by_cases hsame : old = who
      · subst hsame
        simp [detach, attach, Book.insert_of_get? hget]
      · simp only [Option.some.injEq, hsame, if_false, detach, attach, Option.isNone_some,
          Bool.false_eq_true, false_and]
        split
        · rw [Book.insert_erase_self, Book.insert_insert_self, Book.insert_of_get? hget]
        · rw [Book.insert_insert_self, Book.insert_of_get? hget]
  · simp [detach, attach]

/-! Logs. -/

def Grown (old new : List String) : Prop :=
  ∃ names, names.Nodup ∧ (∀ a ∈ names, a ∉ old) ∧ new = old ++ names

theorem grown_refl (names : List String) : Grown names names :=
  ⟨[], List.nodup_nil, by simp, by simp⟩

theorem Grown.added {old new : List String} (h : Grown old new) :
    (new.filter fun a => !old.contains a).Nodup ∧
      (∀ a ∈ new.filter fun a => !old.contains a, a ∉ old) ∧
      old ++ (new.filter fun a => !old.contains a) = new := by
  obtain ⟨names, hnodup, hfresh, rfl⟩ := h
  rw [filter_new_append hfresh]
  exact ⟨hnodup, hfresh, rfl⟩

theorem Grown.filter_added {old new : List String} (h : Grown old new) :
    (new.filter fun a => !(new.filter fun a => !old.contains a).contains a) = old := by
  obtain ⟨names, -, hfresh, rfl⟩ := h
  rw [filter_new_append hfresh]
  exact filter_append_eq_left fun a ha hmem => hfresh a hmem ha

end TokenSale.Ledger
