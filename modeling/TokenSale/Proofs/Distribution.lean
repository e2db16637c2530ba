import TokenSale.Proofs.Sale

/-!
Batches of a sound plan: the payouts that are due have distinct recipients, none of whom is in the
log, and positive amounts, so that logging a batch appends exactly its recipients.
-/

namespace TokenSale

theorem eraseDups_eq_self {as : List String} (h : as.Nodup) : as.eraseDups = as := by
  induction as with
  | nil => rfl
  | cons a as ih =>
    obtain ⟨hfresh, hnodup⟩ := List.nodup_cons.mp h
    have hkeep : as.filter (fun b => !b == a) = as := by
      rw [List.filter_eq_self]
      intro b hb
      have hne : b ≠ a := fun heq => hfresh (heq ▸ hb)
      simpa using hne
    rw [List.eraseDups_cons, hkeep, ih hnodup]

/-! The log of those who were paid. -/

section Log

variable {log names : List String}

theorem recordPaid_append (log first second : List String) :
    recordPaid log (first ++ second) = recordPaid (recordPaid log first) second := by
  induction first generalizing log with
  | nil => rfl
  | cons a first ih => exact ih _

/-- What a log keeps with every new recipient, it keeps with all of them. -/
theorem recordPaid_induct {P : List String → Prop} (h : P log)
    (hstep : ∀ l, ∀ a ∈ names, a ∉ l → P l → P (l ++ [a])) : P (recordPaid log names) := by
  induction names generalizing log with
  | nil => exact h
  | cons a names ih =>
    refine ih ?_ fun l b hb => hstep l b (List.mem_cons_of_mem a hb)
    split
    · exact h
    · rename_i ha
      exact hstep log a List.mem_cons_self ha h

theorem prefix_recordPaid (log names : List String) : log <+: recordPaid log names := by
  apply recordPaid_induct (P := fun l => log <+: l)
  · exact List.prefix_refl log
  · intro l a _ _ hl
    exact hl.trans (List.prefix_append l [a])

theorem nodup_recordPaid (h : log.Nodup) : (recordPaid log names).Nodup := by
  apply recordPaid_induct h
  intro l a _ ha hl
  have hapart : ∀ b ∈ l, ∀ c ∈ [a], b ≠ c := by
    rintro b hb c hc rfl
    exact ha (List.mem_singleton.mp hc ▸ hb)
  exact List.nodup_append.mpr ⟨hl, by simp, hapart⟩

theorem subset_recordPaid (log names : List String) : names ⊆ recordPaid log names := by
  induction names generalizing log with
  | nil => exact List.nil_subset _
  | cons a names ih =>
    refine List.cons_subset.mpr ⟨?_, ih _⟩
    apply (prefix_recordPaid _ names).subset
    split
    · assumption
    · exact List.mem_append_right log (List.mem_singleton_self a)

theorem mem_recordPaid {a : String} : a ∈ recordPaid log names ↔ a ∈ log ∨ a ∈ names := by
  constructor
  · apply recordPaid_induct (P := fun l => a ∈ l → a ∈ log ∨ a ∈ names)
    · exact .inl
    · intro l b hb _ hl hmem
      rcases List.mem_append.mp hmem with hmem | hmem
      · exact hl hmem
      · exact .inr (List.mem_singleton.mp hmem ▸ hb)
  · rintro (hmem | hmem)
    · exact (prefix_recordPaid log names).subset hmem
    · exact subset_recordPaid log names hmem

theorem recordPaid_eq_self (h : names ⊆ log) : recordPaid log names = log := by
  induction names with
  | nil => rfl
  | cons a names ih =>
    obtain ⟨ha, hnames⟩ := List.cons_subset.mp h
    rw [recordPaid, if_pos ha, ih hnames]

theorem recordPaid_eq_append (hnodup : names.Nodup) (hfresh : ∀ a ∈ names, a ∉ log) :
    recordPaid log names = log ++ names := by
  induction names generalizing log with
  | nil => simp [recordPaid]
  | cons a names ih =>
    obtain ⟨ha, hnames⟩ := List.nodup_cons.mp hnodup
    have hrest : ∀ b ∈ names, b ∉ log ++ [a] := by
      intro b hb hmem
      rcases List.mem_append.mp hmem with hmem | hmem
      · exact hfresh b (List.mem_cons_of_mem _ hb) hmem
      · exact ha (List.mem_singleton.mp hmem ▸ hb)
    rw [recordPaid, if_neg (hfresh a List.mem_cons_self), ih hnames hrest, List.append_assoc]
    rfl

end Log

namespace Plan

variable {p : Plan} {log : List String} {batch : List Payout}

theorem payouts_accounts_sublist (p : Plan) : (p.payouts.map Prod.fst).Sublist p.accounts := by
  simp only [payouts, accounts, List.map_cons, List.map_map]
  exact List.Sublist.cons_cons _ (List.Sublist.map Stakeholder.account List.filter_sublist)

theorem Sound.payouts_nodup (h : p.Sound) : (p.payouts.map Prod.fst).Nodup :=
  (payouts_accounts_sublist p).nodup h.accounts_nodup

theorem Sound.payout_nonneg (h : p.Sound) : ∀ r ∈ p.payouts, 0 ≤ r.2 := by
  intro r hr
  simp only [payouts, List.mem_cons, List.mem_map, List.mem_filter] at hr
  rcases hr with rfl | ⟨s, ⟨hs, -⟩, rfl⟩
  · exact h.solverAllocation_nonneg
  · exact h.allocation_nonneg s hs

/-- The first payouts of those that are due. -/
def IsBatch (p : Plan) (log : List String) (batch : List Payout) : Prop := batch <+: p.pending log

theorem IsBatch.sublist (h : p.IsBatch log batch) : batch.Sublist p.payouts :=
  (List.IsPrefix.sublist h).trans List.filter_sublist

theorem IsBatch.take (h : p.IsBatch log batch) (n : Nat) : p.IsBatch log (batch.take n) :=
  (List.take_prefix n batch).trans h

theorem IsBatch.nodup (hp : p.Sound) (h : p.IsBatch log batch) : (batch.map Prod.fst).Nodup :=
  (h.sublist.map Prod.fst).nodup hp.payouts_nodup

theorem IsBatch.due (h : p.IsBatch log batch) : ∀ r ∈ batch, 0 < r.2 ∧ r.1 ∉ log := by
  intro r hr
  have hmem : r ∈ p.pending log := List.IsPrefix.subset h hr
  simpa [pending, List.mem_filter] using (List.mem_filter.mp hmem).2

theorem IsBatch.fresh (h : p.IsBatch log batch) : ∀ a ∈ batch.map Prod.fst, a ∉ log := by
  intro a ha
  obtain ⟨r, hr, rfl⟩ := List.mem_map.mp ha
  exact (h.due r hr).2

theorem IsBatch.recordPaid_eq (hp : p.Sound) (h : p.IsBatch log batch) :
    recordPaid log (batch.map Prod.fst) = log ++ batch.map Prod.fst :=
  recordPaid_eq_append (h.nodup hp) h.fresh

def upTo (limit : Option Int) (rs : List Payout) : List Payout :=
  limit.elim rs fun n => rs.take n.toNat

theorem nextBatch_eq_ok {limit : Option Int} :
    p.nextBatch log limit = .ok batch ↔
      (∀ n, limit = some n → 0 < n) ∧ batch = upTo limit (p.pending log) := by
  cases limit with
  | none => simp [nextBatch, upTo, eq_comm]
  | some n =>
    simp only [nextBatch, upTo, bind_eq_ok, demand_eq_ok, pure_eq_ok]
    simp [eq_comm]

theorem isBatch_of_nextBatch {limit : Option Int} (h : p.nextBatch log limit = .ok batch) : p.IsBatch log batch := by
  obtain ⟨-, rfl⟩ := nextBatch_eq_ok.mp h
  cases limit with
  | none => exact List.prefix_refl _
  | some n => exact List.take_prefix _ _

theorem pending_of_nextBatch_nil {limit : Option Int} (h : p.nextBatch log limit = .ok []) :
    p.pending log = [] := by
  obtain ⟨hlimit, hnil⟩ := nextBatch_eq_ok.mp h
  cases limit with
  | none => exact hnil.symm
  | some n =>
    have hpos : n.toNat ≠ 0 := by
      have := hlimit n rfl
      omega
    exact (List.take_eq_nil_iff.mp hnil.symm).resolve_left hpos

def vestedHolders (p : Plan) : List Stakeholder := p.stakeholders.filter fun s => s.vesting.isSome

theorem reserved_eq (p : Plan) :
    p.reserved = sumOf Prod.snd p.payouts + sumOf Stakeholder.allocation p.vestedHolders := by
  have hsplit := sumOf_filter_add Stakeholder.allocation (fun s => s.vesting.isNone) p.stakeholders
  have hsome : (p.stakeholders.filter fun s => !s.vesting.isNone) = p.vestedHolders := by
    unfold vestedHolders
    congr 1
    funext s
    cases s.vesting <;> rfl
  have hmap : sumOf Prod.snd ((p.stakeholders.filter fun s => s.vesting.isNone).map fun s =>
      (s.account, s.allocation)) =
      sumOf Stakeholder.allocation (p.stakeholders.filter fun s => s.vesting.isNone) :=
    sumOf_map ..
  rw [hsome] at hsplit
  simp only [reserved, payouts, sumOf_cons, hmap]
  omega

theorem Sound.vested_nodup (h : p.Sound) : (p.vestedHolders.map Stakeholder.account).Nodup :=
  (List.Sublist.map Stakeholder.account List.filter_sublist).nodup
    (List.nodup_cons.mp h.accounts_nodup).2

theorem mem_vestedHolders {account : String} {h : Stakeholder} (hvested : p.vested? account = some h) :
    h ∈ p.vestedHolders ∧ h.account = account := by
  have hmem := List.mem_of_find?_eq_some hvested
  have hfound := List.find?_some hvested
  simp only [Bool.and_eq_true, beq_iff_eq] at hfound
  exact ⟨List.mem_filter.mpr ⟨hmem, hfound.2⟩, hfound.1⟩

end Plan

def paidOut (payouts : List Payout) (log : List String) : Int :=
  sumOf (fun r => if r.1 ∈ log then r.2 else 0) payouts

theorem paidOut_le {payouts : List Payout} (h : ∀ r ∈ payouts, 0 ≤ r.2) (log : List String) :
    paidOut payouts log ≤ sumOf Prod.snd payouts := by
  refine sumOf_le_sumOf fun r hr => ?_
  split
  · exact Int.le_refl _
  · exact h r hr

theorem paidOut_batch {payouts batch : List Payout} (hbatch : batch.Sublist payouts)
    (hnodup : (payouts.map Prod.fst).Nodup) {log log' : List String}
    (hfresh : ∀ r ∈ batch, r.1 ∉ log)
    (hlog : ∀ r ∈ payouts, r.1 ∈ log' ↔ r.1 ∈ log ∨ r.1 ∈ batch.map Prod.fst) :
    paidOut payouts log' = paidOut payouts log + sumOf Prod.snd batch := by
  induction hbatch with
  | slnil => rfl
  | @cons batch payouts r hbatch ih =>
    obtain ⟨hr, hrest⟩ := List.nodup_cons.mp hnodup
    have hnot : r.1 ∉ batch.map Prod.fst := fun hmem => hr ((hbatch.map Prod.fst).subset hmem)
    have htail := ih hrest hfresh fun r' hr' => hlog r' (List.mem_cons_of_mem r hr')
    have hhead : r.1 ∈ log' ↔ r.1 ∈ log := by
      simpa [hnot] using hlog r List.mem_cons_self
    simp only [paidOut, sumOf_cons, hhead] at htail ⊢
    omega
  | @cons_cons batch payouts r hbatch ih =>
    obtain ⟨hr, hrest⟩ := List.nodup_cons.mp hnodup
    have htail := ih hrest (fun r' hr' => hfresh r' (List.mem_cons_of_mem r hr')) fun r' hr' => by
      have hne : r'.1 ≠ r.1 := fun heq => hr (heq ▸ List.mem_map_of_mem hr')
      simpa [hne] using hlog r' (List.mem_cons_of_mem r hr')
    have hold : r.1 ∉ log := hfresh r List.mem_cons_self
    have hnew : r.1 ∈ log' := (hlog r List.mem_cons_self).mpr (.inr (by simp))
    simp only [paidOut, sumOf_cons, hold, hnew, if_true, if_false] at htail ⊢
    omega

namespace Sale

def payouts (s : Sale) : List Payout := (s.plan.map Plan.payouts).getD []

def vestedHolders (s : Sale) : List Stakeholder := (s.plan.map Plan.vestedHolders).getD []

theorem reserved_eq (s : Sale) :
    reserved s.plan = sumOf Prod.snd s.payouts + sumOf Stakeholder.allocation s.vestedHolders := by
  cases hplan : s.plan with
  | none => simp [reserved, payouts, vestedHolders, hplan]
  | some p => simpa [reserved, payouts, vestedHolders, hplan] using p.reserved_eq

theorem payouts_of_plan {s : Sale} {p : Plan} (h : s.plan = some p) : s.payouts = p.payouts := by
  simp [payouts, h]

theorem Sound.payout_nonneg {s : Sale} (h : s.Sound) : ∀ r ∈ s.payouts, 0 ≤ r.2 := by
  cases hplan : s.plan with
  | none => simp [payouts, hplan]
  | some p => simpa [payouts, hplan] using (h.plan_sound p hplan).payout_nonneg

theorem Sound.payouts_nodup {s : Sale} (h : s.Sound) : (s.payouts.map Prod.fst).Nodup := by
  cases hplan : s.plan with
  | none => simp [payouts, hplan]
  | some p => simpa [payouts, hplan] using (h.plan_sound p hplan).payouts_nodup

theorem Sound.vested_nodup {s : Sale} (h : s.Sound) :
    (s.vestedHolders.map Stakeholder.account).Nodup := by
  cases hplan : s.plan with
  | none => simp [vestedHolders, hplan]
  | some p => simpa [vestedHolders, hplan] using (h.plan_sound p hplan).vested_nodup

theorem mem_vestedHolders {s : Sale} {account : String} {h : Stakeholder}
    (hvested : s.vested? account = some h) : h ∈ s.vestedHolders ∧ h.account = account := by
  obtain ⟨p, hplan, hp⟩ := Option.bind_eq_some_iff.mp hvested
  simpa [vestedHolders, hplan] using Plan.mem_vestedHolders hp

theorem Sound.vested_sound {s : Sale} (hs : s.Sound) {h : Stakeholder} (hh : h ∈ s.vestedHolders) :
    0 ≤ h.allocation ∧ ∀ v, h.vesting = some v → v.cliff < v.period := by
  cases hplan : s.plan with
  | none => simp [vestedHolders, hplan] at hh
  | some p =>
    have hmem : h ∈ p.stakeholders := by
      simp only [vestedHolders, hplan, Option.map_some, Option.getD_some] at hh
      exact (List.mem_filter.mp hh).1
    have hp := hs.plan_sound p hplan
    exact ⟨hp.allocation_nonneg h hmem, hp.cliff_lt h hmem⟩

end Sale

end TokenSale
