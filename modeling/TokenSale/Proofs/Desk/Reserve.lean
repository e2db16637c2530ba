import TokenSale.Proofs.Desk.Payouts

/-!
The reserve, once it is paid out whole. A batch that finds nothing due leaves all batches paid, and a
stakeholder who claims when its period is over has claimed its whole allocation; both stay so.
-/

namespace TokenSale

namespace Ledger

variable {l l' : Ledger} {e : Entry} {es : List Entry}

/-- All batches were paid: who has an allocation is in the log. -/
def Drained (l : Ledger) : Prop := ∀ r ∈ l.sale.payouts, 0 < r.2 → r.1 ∈ l.paid

theorem drained_of_nextBatch {limit : Option Int} (h : l.nextBatch limit = .ok []) : l.Drained := by
  intro r hr hpos
  cases hplan : l.sale.plan with
  | none => simp [Sale.payouts, hplan] at hr
  | some plan =>
    simp only [nextBatch, hplan] at h
    have hpending : plan.pending l.paid = [] := Plan.pending_of_nextBatch_nil h
    rw [Sale.payouts_of_plan hplan] at hr
    have hfilter := List.filter_eq_nil_iff.mp hpending r hr
    simpa [hpos] using hfilter

theorem nextBatch_ne_nothing {limit : Option Int} :
    l.nextBatch limit ≠ .error .nothingToDistribute := by
  unfold nextBatch Plan.nextBatch
  split
  · simp
  · split
    · simp
    · intro h
      simp only [bind_eq_error, demand_eq_error, pure_ne_error, and_false, exists_false,
        or_false] at h
      cases h.2

theorem drained_of_error {now : Int} {limit : Option Int}
    (h : l.distributeNext now limit = .error .nothingToDistribute) : l.Drained := by
  simp only [distributeNext, requireStatus, bind_eq_error, demand_eq_error, pure_ne_error, and_false,
    exists_false, or_false] at h
  rcases h with ⟨-, hstatus⟩ | ⟨-, -, hbatch | ⟨batch, hbatch, hempty, -⟩⟩
  · cases hstatus
  · exact absurd hbatch nextBatch_ne_nothing
  · exact drained_of_nextBatch ((Classical.not_not.mp hempty) ▸ hbatch)

theorem distributeNext_of_drained {now : Int} (hstatus : l.status now = .success)
    (h : l.Drained) : l.distributeNext now none = .error .nothingToDistribute := by
  have hbatch : l.nextBatch none = .ok [] := by
    unfold nextBatch
    split
    · rfl
    · rename_i plan hplan
      have hpending : plan.pending l.paid = [] := by
        rw [Plan.pending, List.filter_eq_nil_iff]
        intro r hr
        have hpaid := h r (Sale.payouts_of_plan hplan ▸ hr)
        simpa using hpaid
      exact congrArg Except.ok hpending
  have hopen : l.requireStatus .distribute now [.success] = .ok () :=
    requireStatus_eq_ok.mpr (List.mem_singleton.mpr hstatus)
  simp only [distributeNext, bind_eq_error, demand_eq_error, pure_ne_error]
  exact .inr ⟨(), hopen, .inr ⟨[], hbatch, .inl (by simp)⟩⟩

theorem Move.paid_subset (h : Move l e l') : ∀ a ∈ l.paid, a ∈ l'.paid := by
  intro a ha
  cases h.kind with
  | idle => exact ha
  | quiet hquiet hphase => exact hquiet.paid_eq ▸ ha
  | pays hpays =>
    have hpaid := hpays.paid_eq
    cases hpays with
    | distribute hplan hbatch hne =>
      exact (prefix_recordPaid l.paid _).subset ha
    | _ => exact hpaid rfl ▸ ha

theorem Move.drained (h : Move l e l') (hdrained : l.Drained) : l'.Drained := by
  intro r hr hpos
  rw [h.sale_eq] at hr
  exact h.paid_subset _ (hdrained r hr hpos)

theorem Move.individualClaimed_le (h : Move l e l') (who : String) :
    l.individualClaimed who ≤ l'.individualClaimed who := by
  have hsame : l'.individualClaims = l.individualClaims →
      l.individualClaimed who ≤ l'.individualClaimed who := fun heq => by
    simp [individualClaimed, heq]
  cases h.kind with
  | idle => exact Int.le_refl _
  | quiet hquiet hphase => exact hsame hquiet.individualClaims_eq
  | pays hpays =>
    have hindividual := hpays.individualClaims_eq
    cases hpays with
    | @claimIndividual stakeholder holder r hvested hreleased =>
      have hnonneg := claimable_nonneg r (l.individualClaimed stakeholder)
      show _ ≤ (l.payIndividual stakeholder _).individualClaimed who
      rw [payIndividual_claimed]
      split <;> omega
    | _ => exact hsame (hindividual rfl)

def Exhausted (l : Ledger) (h : Stakeholder) : Prop := h.allocation ≤ l.individualClaimed h.account

end Ledger

namespace Entry

def foundNothingDue (e : Entry) : Bool :=
  match e.op, e.prepared with
  | .distributeNext .., .error (.fault .nothingToDistribute) => true
  | _, _ => false

def claimedAtEnd (s : Sale) (h : Stakeholder) (e : Entry) : Bool :=
  match e.op, h.vesting with
  | .claimIndividual who now, some v =>
    who == h.account && decide (s.endTime + v.period ≤ now) && e.committed.isSome
  | _, _ => false

theorem foundNothingDue_eq {e : Entry} (h : e.foundNothingDue = true) :
    (∃ now limit, e.op = .distributeNext now limit) ∧
      e.prepared = .error (.fault .nothingToDistribute) := by
  unfold foundNothingDue at h
  split at h
  · rename_i hop hprepared
    exact ⟨⟨_, _, hop⟩, hprepared⟩
  · cases h

theorem claimedAtEnd_eq {s : Sale} {h : Stakeholder} {e : Entry}
    (hclaimed : e.claimedAtEnd s h = true) :
    ∃ now v, e.op = .claimIndividual h.account now ∧ h.vesting = some v ∧
      s.endTime + v.period ≤ now ∧ e.committed.isSome = true := by
  unfold claimedAtEnd at hclaimed
  split at hclaimed
  · rename_i who now v hop hvesting
    simp only [Bool.and_eq_true, beq_iff_eq, decide_eq_true_eq] at hclaimed
    obtain ⟨⟨rfl, hend⟩, hcommitted⟩ := hclaimed
    exact ⟨now, v, hop, hvesting, hend, hcommitted⟩
  · cases hclaimed

end Entry

namespace Ledger

variable {l l' : Ledger} {e : Entry} {es : List Entry}

theorem Move.drained_of_found (h : Move l e l') (hfound : e.foundNothingDue = true) : l'.Drained := by
  obtain ⟨⟨now, limit, hop⟩, hprepared⟩ := Entry.foundNothingDue_eq hfound
  have hperform := h.prepared_eq
  rw [hop, hprepared] at hperform
  cases hresult : l.perform (.distributeNext now limit) with
  | ok t =>
    rw [hresult] at hperform
    cases hperform
  | error f =>
    rw [hresult, liftFault_error] at hperform
    obtain rfl := Fault.raised_eq_fault (Except.error.inj hperform)
    exact h.drained (drained_of_error hresult)

theorem Move.exhausted_of_claimed (h : Move l e l') {holder : Stakeholder}
    (hholder : holder ∈ l.sale.vestedHolders) (hclaimed : e.claimedAtEnd l.sale holder = true) :
    l'.Exhausted holder := by
  obtain ⟨hsound, -, -, -, -, hkind⟩ := h
  obtain ⟨now, v, hop, hvesting, hend, hcommitted⟩ := Entry.claimedAtEnd_eq hclaimed
  cases hkind with
  | idle => cases hcommitted
  | quiet hquiet hphase =>
    have hnot := hquiet.operation .individualVesting
    cases hop
    cases hnot
  | pays hpays =>
    cases hop
    cases hpays with
    | claimIndividual hvested hreleased =>
      obtain ⟨hmem, haccount⟩ := Sale.mem_vestedHolders hvested
      have hsame := List.inj_on_of_nodup_map hsound.vested_nodup hmem hholder haccount
      subst hsame
      simp only [Stakeholder.releasedAt, hvesting] at hreleased
      have hall := Vesting.released_at_end ((hsound.vested_sound hmem).2 v hvesting) hend hreleased
      show _ ≤ (l.payIndividual _ _).individualClaimed _
      rw [payIndividual_claimed, if_pos rfl, hall]
      exact claimable_fills

/-- A batch that found nothing due leaves the batches paid, and a claim at the end leaves the
allocation claimed. -/
structure Settled (l : Ledger) (es : List Entry) : Prop where
  drained : (∃ e ∈ es, e.foundNothingDue = true) → l.Drained
  exhausted : ∀ h ∈ l.sale.vestedHolders,
    (∃ e ∈ es, e.claimedAtEnd l.sale h = true) → l.Exhausted h

theorem Move.settled (h : Move l e l') (hsettled : l.Settled es) : l'.Settled (es ++ [e]) where
  drained := by
    rintro ⟨e', he', hfound⟩
    rcases List.mem_append.mp he' with hold | hnew
    · exact h.drained (hsettled.drained ⟨e', hold, hfound⟩)
    · rw [List.mem_singleton.mp hnew] at hfound
      exact h.drained_of_found hfound
  exhausted := by
    rintro holder hholder ⟨e', he', hclaimed⟩
    rw [h.sale_eq] at hholder hclaimed
    rcases List.mem_append.mp he' with hold | hnew
    · exact Int.le_trans (hsettled.exhausted holder hholder ⟨e', hold, hclaimed⟩)
        (h.individualClaimed_le holder.account)
    · rw [List.mem_singleton.mp hnew] at hclaimed
      exact h.exhausted_of_claimed hholder hclaimed

theorem BatchesPaid.issued_of_drained (h : l.BatchesPaid es) (hsale : l.sale.Sound)
    (hdrained : l.Drained) :
    issued es (Transfer.isSaleFor .distribution) = sumOf Prod.snd l.sale.payouts := by
  rw [h]
  refine sumOf_congr fun r hr => ?_
  have hnonneg := hsale.payout_nonneg r hr
  have hpaid := hdrained r hr
  split
  · rfl
  · rename_i hnot
    have : ¬ 0 < r.2 := fun hpos => hnot (hpaid hpos)
    omega

theorem VestedPaid.issued_of_exhausted (h : l.VestedPaid es)
    (hexhausted : ∀ holder ∈ l.sale.vestedHolders, l.Exhausted holder) :
    issued es (Transfer.isSaleFor .individualVesting) =
      sumOf Stakeholder.allocation l.sale.vestedHolders := by
  rw [h.issued_eq]
  exact sumOf_congr fun holder hholder =>
    Int.le_antisymm (h.claimed_le holder hholder) (hexhausted holder hholder)

theorem settled_empty (s : Sale) : Settled { sale := s } [] where
  drained := by simp
  exhausted := by simp

end Ledger

end TokenSale
