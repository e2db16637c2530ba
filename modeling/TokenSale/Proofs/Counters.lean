import TokenSale.Metrics
import TokenSale.Sum

/-!
Counters that count. Below `2 ^ 53` a counter in binary64 takes every increment as it is, so each
way of recording adds to the counters exactly what it is given, and leaves the others as they are.
-/

namespace TokenSale

/-! Values under labels. -/

namespace Tally

def total : Tally → Nat
  | [] => 0
  | e :: ts => e.2 + total ts

variable {f : Nat → Nat} {labels : List String} {ts : Tally}

theorem value_cons (e : List String × Nat) (ts : Tally) (labels : List String) :
    value labels (e :: ts) = if e.1 = labels then e.2 else value labels ts := by
  obtain ⟨k, v⟩ := e
  unfold value
  by_cases h : k = labels
  · simp [h]
  · simp [List.lookup_cons, h, beq_false_of_ne (Ne.symm h)]

theorem value_le_total (labels : List String) (ts : Tally) : ts.value labels ≤ ts.total := by
  induction ts with
  | nil => exact Nat.le_refl 0
  | cons e ts ih =>
    rw [value_cons]
    simp only [total] at ih ⊢
    split <;> omega

theorem value_update_self : (ts.update f labels).value labels = f (ts.value labels) := by
  induction ts with
  | nil => simp [update, value]
  | cons e ts ih =>
    obtain ⟨k, v⟩ := e
    simp only [update]
    split
    · rename_i heq
      simp [value_cons, heq]
    · rename_i hne
      simp [value_cons, hne, ih]

theorem value_update_of_ne {other : List String} (h : other ≠ labels) :
    (ts.update f labels).value other = ts.value other := by
  induction ts with
  | nil =>
    rw [update, value_cons, if_neg (Ne.symm h)]
  | cons e ts ih =>
    obtain ⟨k, v⟩ := e
    simp only [update]
    split
    · rename_i heq
      simp [value_cons, heq, Ne.symm h]
    · simp [value_cons, ih]

theorem total_update (f : Nat → Nat) (labels : List String) (ts : Tally) :
    (ts.update f labels).total + ts.value labels = ts.total + f (ts.value labels) := by
  induction ts with
  | nil => simp [update, total, value]
  | cons e ts ih =>
    obtain ⟨k, v⟩ := e
    simp only [update]
    split
    · rename_i heq
      simp only [total, value_cons, heq, if_true]
      omega
    · rename_i hne
      simp only [total, value_cons, hne, if_false]
      omega

end Tally

inductive Count where
  | deposited
  | refunded
  | withdrawn
  | claimed
  | individuallyClaimed
  | distributed
  | transitions
deriving DecidableEq

/-- Counts that binary64 holds, with all numbers below them. -/
def Countable (c : Count → Int) : Prop := ∀ k, c k < Binary64.mantissaBound

namespace Metrics

def count (m : Metrics) : Count → Int
  | .deposited => m.deposited
  | .refunded => m.refunded
  | .withdrawn => m.withdrawn
  | .claimed => m.claimed.value [participantKind]
  | .individuallyClaimed => m.claimed.value [individualKind]
  | .distributed => m.distributed
  | .transitions => m.transitions.total

/-- The metrics `m'` show `n` more for `k`, and the same for the others. -/
def Adds (m m' : Metrics) (k : Count) (n : Int) : Prop :=
  ∀ k', m'.count k' = m.count k' + if k' = k then n else 0

variable {m : Metrics} {n : Int} {k : Count}

theorem count_nonneg (m : Metrics) (k : Count) : 0 ≤ m.count k := by
  cases k <;> exact Int.natCast_nonneg _

theorem increment_eq {n v : Nat} (h : v + n < Binary64.mantissaBound) : increment n v = v + n := by
  rw [increment, Binary64.roundNat_eq_self (Nat.lt_of_le_of_lt (Nat.le_add_left n v) h),
    Binary64.roundNat_eq_self h]

theorem roundNat_lt_pow {a e : Nat} (h : a < Binary64.mantissaBound) (he : 53 ≤ e) :
    Binary64.roundNat a < Nat.pow 2 e := by
  rw [Binary64.roundNat_eq_self h]
  exact Nat.lt_of_lt_of_le h (Nat.pow_le_pow_right (by decide : 0 < 2) he)

theorem amount?_eq_ok (hnonneg : 0 ≤ n) (h : n < Binary64.mantissaBound) :
    amount? n = .ok n.toNat := by
  have hlt : n.toNat < Binary64.mantissaBound := by omega
  have he : 53 ≤ 1024 := by decide
  unfold amount?
  -- so that the power is never formed
  generalize 1024 = e at *
  rw [if_neg (Int.not_lt.mpr hnonneg), if_pos (roundNat_lt_pow hlt he)]

/-! What is recorded of refusals and of the status is none of these counts. -/

theorem recordRejection_count (m : Metrics) (operation code : String) :
    (m.recordRejection operation code).count = m.count := by
  funext k
  cases k <;> rfl

theorem recordStaleCommit_count (m : Metrics) : m.recordStaleCommit.count = m.count := by
  funext k
  cases k <;> rfl

theorem setStatus_count (m : Metrics) (status : String) (statuses : List String) :
    (m.setStatus status statuses).count = m.count := by
  funext k
  cases k <;> rfl

/-! Each way of recording adds to one count. -/

theorem adds_of_increment {m' : Metrics} {a v : Nat} (hold : m.count k = v)
    (hnew : m'.count k = increment a v) (h : m.count k + a < Binary64.mantissaBound)
    (hsame : ∀ k', k' ≠ k → m'.count k' = m.count k') : m.Adds m' k a := by
  intro k'
  by_cases hk : k' = k
  · rw [hk, if_pos rfl, hnew, increment_eq (by omega), hold]
    rfl
  · rw [if_neg hk, hsame k' hk, Int.add_zero]

theorem recordTransition_adds (operation : String)
    (h : m.count .transitions + 1 < Binary64.mantissaBound) :
    m.Adds (m.recordTransition operation) .transitions 1 := by
  have htotal : m.transitions.total + 1 < Binary64.mantissaBound := by
    simp only [count] at h
    omega
  have hle := Tally.value_le_total [operation] m.transitions
  have hone : increment 1 (m.transitions.value [operation]) =
      m.transitions.value [operation] + 1 := increment_eq (by omega)
  have hupdate := Tally.total_update (increment 1) [operation] m.transitions
  intro k'
  cases k' <;> simp only [recordTransition, count, reduceCtorEq, if_false, if_true, Int.add_zero]
  omega

theorem addPositive_adds (add : Metrics → Nat → Metrics) (hnonneg : 0 ≤ n)
    (h : m.count k + n < Binary64.mantissaBound)
    (hadd : ∀ a : Nat, m.count k + a < Binary64.mantissaBound → m.Adds (add m a) k a) :
    ∃ m', m.addPositive n add = (m', .ok ()) ∧ m.Adds m' k n := by
  have hcount := m.count_nonneg k
  unfold addPositive
  split
  · rw [addAmount, amount?_eq_ok hnonneg (by omega)]
    have hadds := hadd n.toNat (by omega)
    rw [Int.toNat_of_nonneg hnonneg] at hadds
    exact ⟨_, rfl, hadds⟩
  · have hzero : n = 0 := by omega
    refine ⟨m, rfl, fun k' => ?_⟩
    rw [hzero]
    split <;> omega

theorem recordDeposit_adds {accepted refund : Int} (haccepted : 0 ≤ accepted) (hrefund : 0 ≤ refund)
    (hdeposited : m.count .deposited + accepted < Binary64.mantissaBound)
    (hrefunded : m.count .refunded + refund < Binary64.mantissaBound) :
    ∃ m', m.Adds m' .deposited accepted ∧
      m'.Adds (m.recordDeposit accepted refund).1 .refunded refund := by
  obtain ⟨m₁, hfirst, hadds⟩ := addPositive_adds
    (fun m n => { m with deposited := increment n m.deposited }) haccepted hdeposited
    fun a ha => adds_of_increment rfl rfl ha fun k' hk => by
      cases k' <;> first | rfl | exact absurd rfl hk
  have hsame := hadds .refunded
  simp only [reduceCtorEq, if_false, Int.add_zero] at hsame
  obtain ⟨m₂, hsecond, hadds'⟩ := addPositive_adds (m := m₁)
    (fun m n => { m with refunded := increment n m.refunded }) hrefund (hsame ▸ hrefunded)
    fun a ha => adds_of_increment rfl rfl ha fun k' hk => by
      cases k' <;> first | rfl | exact absurd rfl hk
  refine ⟨m₁, hadds, ?_⟩
  rw [recordDeposit, hfirst]
  simp only [andThen]
  rw [hsecond]
  exact hadds'

theorem recordWithdraw_adds (hnonneg : 0 ≤ n)
    (h : m.count .withdrawn + n < Binary64.mantissaBound) :
    m.Adds (m.recordWithdraw n).1 .withdrawn n := by
  obtain ⟨m', hrecord, hadds⟩ := addPositive_adds
    (fun m n => { m with withdrawn := increment n m.withdrawn }) hnonneg h
    fun a ha => adds_of_increment rfl rfl ha fun k' hk => by
      cases k' <;> first | rfl | exact absurd rfl hk
  rw [recordWithdraw, hrecord]
  exact hadds

def claimCount (a : Action) : Count :=
  if a = .claimIndividual then .individuallyClaimed else .claimed

theorem count_claimCount (m : Metrics) (a : Action) :
    m.count (claimCount a) = m.claimed.value [claimKind a] := by
  by_cases h : a = .claimIndividual <;> simp [claimCount, claimKind, h, count]

theorem recordClaim_adds (a : Action) (hnonneg : 0 ≤ n)
    (h : m.count (claimCount a) + n < Binary64.mantissaBound) :
    m.Adds (m.recordClaim n (claimKind a)).1 (claimCount a) n := by
  obtain ⟨m', hrecord, hadds⟩ := addPositive_adds
    (fun m n => { m with claimed := m.claimed.update (increment n) [claimKind a] }) hnonneg h
    fun n hn => by
      refine adds_of_increment (count_claimCount m a) ?_ hn fun k' hk => ?_
      · rw [count_claimCount, Tally.value_update_self]
      · by_cases ha : a = .claimIndividual
        · simp only [claimCount, claimKind, ha, if_true] at hk ⊢
          cases k' with
          | claimed => exact congrArg _ (Tally.value_update_of_ne (by decide))
          | individuallyClaimed => exact absurd rfl hk
          | _ => rfl
        · simp only [claimCount, claimKind, ha, if_false] at hk ⊢
          cases k' with
          | claimed => exact absurd rfl hk
          | individuallyClaimed => exact congrArg _ (Tally.value_update_of_ne (by decide))
          | _ => rfl
  rw [recordClaim, hrecord]
  exact hadds

theorem recordDistribution_adds (recipients : Nat)
    (h : m.count .distributed + recipients < Binary64.mantissaBound) :
    m.Adds (m.recordDistribution recipients).1 .distributed recipients := by
  have hcount := m.count_nonneg .distributed
  rw [recordDistribution, addAmount, amount?_eq_ok (Int.natCast_nonneg _) (by omega)]
  exact adds_of_increment rfl rfl h fun k' hk => by
    cases k' <;> first | rfl | exact absurd rfl hk

end Metrics

end TokenSale
