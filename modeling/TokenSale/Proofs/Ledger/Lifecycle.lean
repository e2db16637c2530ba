import Mathlib.Tactic.SplitIfs
import TokenSale.Proofs.Ledger.Phase

/-!
The life of a sale goes one way. While a sale is funded and not locked, the clock takes it from one
rank to the next; at the end it has succeeded or failed, and no step at a later time leads from one to
the other or back. After a success nobody's stake changes any more.
-/

namespace TokenSale

/-- How far a sale has come. There is no telling before it is funded or while it is locked. -/
def Status.rank? : Status → Option Nat
  | .notInitialized | .locked => none
  | .notStarted => some 0
  | .ongoing => some 1
  | .preTge => some 2
  | .success | .failed => some 3

/-- How much of the window of a sale has passed: nothing, its start, its end. -/
def Sale.stage (s : Sale) (now : Int) : Nat :=
  if now < s.startTime then 0 else if now < s.endTime then 1 else 2

theorem Sale.stage_le {s : Sale} {a b : Int} (hs : s.Sound) (h : a ≤ b) : s.stage a ≤ s.stage b := by
  have hwindow := hs.window
  unfold stage
  repeat' split
  all_goals omega

def Position.stake (p : Position) : Int × Int := (p.amount, p.weight)

def Operation.movesDeposits : Operation → Bool
  | deposit .. | withdraw .. => true
  | _ => false

namespace Ledger

variable {l l' : Ledger} {op : Operation} {t : Transition}

theorem status_eq_ongoing {now : Int} :
    l.status now = .ongoing ↔ l.funded = true ∧ l.locked = false ∧ l.sale.startTime ≤ now ∧
      now < l.sale.endTime := by
  unfold status
  constructor
  · intro h
    repeat' split at h
    all_goals try cases h
    simp_all
  · rintro ⟨hfunded, hlocked, hstart, hend⟩
    rw [if_neg (by simp [hfunded]), if_neg (by simp [hlocked]), if_neg (by omega), if_pos hend]

theorem status_eq_failed {now : Int} :
    l.status now = .failed ↔ l.funded = true ∧ l.locked = false ∧ l.sale.startTime ≤ now ∧
      l.sale.endTime ≤ now ∧ l.totalDeposited < l.sale.softCap := by
  unfold status
  constructor
  · intro h
    repeat' split at h
    all_goals try cases h
    simp_all
  · rintro ⟨hfunded, hlocked, hstart, hend, hcap⟩
    rw [if_neg (by simp [hfunded]), if_neg (by simp [hlocked]), if_neg (by omega),
      if_neg (by omega), if_pos hcap]

theorem status_failed_later {s now : Int} (h : l.status s = .failed) (hle : s ≤ now) :
    l.status now = .failed := by
  obtain ⟨hfunded, hlocked, hstart, hend, hcap⟩ := status_eq_failed.mp h
  exact status_eq_failed.mpr ⟨hfunded, hlocked, by omega, by omega, hcap⟩

theorem exists_rank?_iff {now : Int} :
    (∃ r, (l.status now).rank? = some r) ↔ l.funded = true ∧ l.locked = false := by
  unfold status
  cases hfunded : l.funded <;> cases hlocked : l.locked
  case true.false =>
    simp only [Bool.not_true, Bool.false_eq_true, if_false, and_self, iff_true]
    split_ifs <;> exact ⟨_, rfl⟩
  all_goals simp [Status.rank?]

theorem rank?_status {now : Int} {r : Nat} (h : (l.status now).rank? = some r) :
    r = l.sale.stage now ∨
      r = 3 ∧ l.sale.stage now = 2 ∧ (l.status now = .success ∨ l.status now = .failed) := by
  obtain ⟨hfunded, hlocked⟩ := exists_rank?_iff.mp ⟨r, h⟩
  simp only [status, hfunded, hlocked, Bool.not_true, Bool.false_eq_true, if_false] at h ⊢
  unfold Sale.stage
  split_ifs at h ⊢ <;> simp_all [Status.rank?]

/-! After a success. -/

structure SameStakes (l l' : Ledger) : Prop where
  totalDeposited_eq : l'.totalDeposited = l.totalDeposited
  totalSold_eq : l'.totalSold = l.totalSold
  stake_eq : ∀ who, (l'.positions.get? who).map Position.stake =
    (l.positions.get? who).map Position.stake

theorem SameStakes.refl (l : Ledger) : l.SameStakes l := ⟨rfl, rfl, fun _ => rfl⟩

theorem SameStakes.trans {l'' : Ledger} (h : l.SameStakes l') (h' : l'.SameStakes l'') :
    l.SameStakes l'' where
  totalDeposited_eq := h'.totalDeposited_eq.trans h.totalDeposited_eq
  totalSold_eq := h'.totalSold_eq.trans h.totalSold_eq
  stake_eq := fun who => (h'.stake_eq who).trans (h.stake_eq who)

theorem payClaim_stake_eq {participant : String} {p : Position} (amount : Int)
    (hp : l.positions.get? participant = some p) (who : String) :
    ((l.payClaim participant p amount).positions.get? who).map Position.stake =
      (l.positions.get? who).map Position.stake := by
  unfold payClaim
  split
  · rfl
  · show ((l.positions.insert participant _).get? who).map Position.stake = _
    by_cases heq : who = participant
    · subst heq
      rw [Book.get?_insert_self, hp]
      rfl
    · rw [Book.get?_insert_of_ne _ heq]

theorem Disburses.sameStakes {now : Int} (h : l.Disburses now op t) : l.SameStakes t.ledger where
  totalDeposited_eq := h.keeps.totalDeposited_eq
  totalSold_eq := h.keeps.totalSold_eq
  stake_eq := by
    intro who
    have hpositions := h.positions_eq
    cases h with
    | claim hposition hreleased => exact payClaim_stake_eq _ hposition who
    | _ => rw [hpositions rfl]

theorem Step.success_later (h : Step l op t) {s : Int} (hs : l.status s = .success)
    (hle : ∀ now, op.now? = some now → s ≤ now) :
    t.ledger.status s = .success ∧ l.SameStakes t.ledger := by
  rcases h.of_success hs hle with ⟨now, -, hpays⟩ | ⟨-, -, hsame⟩
  · exact ⟨(hpays.keeps.status_eq s).trans hs, hpays.sameStakes⟩
  · rw [hsame]
    exact ⟨hs, rfl, rfl, fun _ => rfl⟩

theorem Step.movesDeposits_of_success (h : Step l op t) {s : Int} (hs : l.status s = .success)
    (hle : ∀ now, op.now? = some now → s ≤ now) : op.movesDeposits = false := by
  rcases h.of_success hs hle with ⟨now, -, hpays⟩ | ⟨⟨name, recipient, amount, now, rfl⟩, -⟩
  · cases hpays <;> rfl
  · rfl

theorem Step.success_of_pays {reason : Reason} (h : Step l op t) (hpays : op.pays reason = true) :
    ∃ now, op.now? = some now ∧ l.status now = .success := by
  rcases h.quiet_or_disburses with hquiet | ⟨now, hs, hdisburses⟩
  · rw [hquiet.operation reason] at hpays
    cases hpays
  · exact ⟨now, hdisburses.now?_eq, hs⟩

/-! After a failure. -/

/-- A step after a failure leaves it a failure: only withdrawals can follow, which lower the total
further. -/
theorem Step.failed_later (h : Step l op t) (htallied : l.Tallied) {s : Int}
    (hs : l.status s = .failed) (hle : ∀ now, op.now? = some now → s ≤ now) :
    t.ledger.status s = .failed := by
  have hlater : ∀ now, op.now? = some now → l.status now = .failed := fun now hnow =>
    status_failed_later hs (hle now hnow)
  obtain ⟨hfunded, hlocked, hstart, hend, hcap⟩ := status_eq_failed.mp hs
  cases h with
  | fund hunfunded hamount => simp [hfunded] at hunfunded
  | deposit _ hstatus hmin hpurchase => simp [hlater _ rfl] at hstatus
  | @withdraw participant amount now p w hopen hposition hwithdrawal =>
    have hlaw := Position.withdraw_law hwithdrawal
    have htotal := htallied.release_totalDeposited hposition hlaw
    have hpos := hlaw.amount_pos
    refine status_eq_failed.mpr ⟨hfunded, hlocked, hstart, hend, ?_⟩
    show (l.release participant w).totalDeposited < l.sale.softCap
    omega
  | disburse hstatus h => simp [hlater _ h.now?_eq] at hstatus
  | lock hstatus => simp [hlater _ rfl] at hstatus
  | unlock _ hlock => simp [hlocked] at hlock
  | adminWithdraw hpos htoken hstatus => exact hs

end Ledger

end TokenSale
