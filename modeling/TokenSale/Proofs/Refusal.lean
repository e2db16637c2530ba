import TokenSale.Amount

/-!
Refusals: what a computation can fail with. A property of all its errors is built up along a
sequence, where the rest may use what the first part has returned.

A defect is an error that reports a mistake of the sale itself and not of a caller: a broken
invariant or a division by zero. An overflow is none, and some computations can only fail by one.
-/

namespace TokenSale

def FailsOnly (P : ε → Prop) (x : Except ε α) : Prop := ∀ e, x = .error e → P e

namespace FailsOnly

variable {P Q : ε → Prop}

theorem ok (a : α) : FailsOnly P (.ok a : Except ε α) := by
  intro e he
  cases he

protected theorem pure (a : α) : FailsOnly P (pure a : Except ε α) :=
  fun _ he => absurd he pure_ne_error

theorem error {e : ε} (h : P e) : FailsOnly P (.error e : Except ε α) := by
  intro e' he
  cases he
  exact h

protected theorem demand {p : Prop} [Decidable p] {e : ε} (h : ¬p → P e) :
    FailsOnly P (demand p e) := by
  intro e' he
  obtain ⟨hnot, rfl⟩ := demand_eq_error.mp he
  exact h hnot

theorem bind {x : Except ε α} {f : α → Except ε β} (hx : FailsOnly P x)
    (hf : ∀ a, x = .ok a → FailsOnly P (f a)) : FailsOnly P (x >>= f) := by
  intro e he
  rcases bind_eq_error.mp he with hfirst | ⟨a, ha, hrest⟩
  · exact hx e hfirst
  · exact hf a ha e hrest

theorem mapM {f : α → Except ε β} {as : List α} (h : ∀ a ∈ as, FailsOnly P (f a)) :
    FailsOnly P (as.mapM f) := by
  induction as with
  | nil => exact .pure _
  | cons a as ih =>
    rw [List.forall_mem_cons] at h
    rw [List.mapM_cons]
    exact .bind h.1 fun _ _ => .bind (ih h.2) fun _ _ => .pure _

theorem mapError {g : ε → ε'} {R : ε' → Prop} {x : Except ε α} (h : FailsOnly P x)
    (hle : ∀ e, P e → R (g e)) : FailsOnly R (x.mapError g) := by
  intro e he
  cases x with
  | ok a => cases he
  | error e' =>
    cases he
    exact hle e' (h e' rfl)

theorem mono {x : Except ε α} (h : FailsOnly P x) (hle : ∀ e, P e → Q e) : FailsOnly Q x :=
  fun e he => hle e (h e he)

theorem of_returns {x : Except ε α} (h : ∃ a, x = .ok a) : FailsOnly P x := by
  obtain ⟨a, rfl⟩ := h
  exact .ok a

end FailsOnly

namespace Fault

def IsDefect (f : Fault) : Prop := f.kind = .invariant ∨ f.kind = .divisionByZero

def IsOverflow (f : Fault) : Prop := f.kind = .overflow

theorem IsOverflow.not_defect {f : Fault} (h : f.IsOverflow) : ¬f.IsDefect := by
  have hkind : f.kind = .overflow := h
  simp [IsDefect, hkind]

theorem not_defect_not_overflow {f : Fault}
    (h : [Report.Kind.invariant, .divisionByZero, .overflow].contains f.kind = false) :
    ¬f.IsDefect ∧ ¬f.IsOverflow := by
  simp only [List.contains_eq_mem, List.mem_cons, List.not_mem_nil, or_false, not_or,
    decide_eq_false_iff_not] at h
  exact ⟨fun hf => hf.elim h.1 h.2.1, h.2.2⟩

end Fault

abbrev DefectFree (x : Except Fault α) : Prop := FailsOnly (fun f => ¬f.IsDefect) x

theorem FailsOnly.defectFree {x : Except Fault α} (h : FailsOnly Fault.IsOverflow x) :
    DefectFree x :=
  h.mono fun _ => Fault.IsOverflow.not_defect

/-- A computation that returns under a condition, and overflows without it. -/
structure OverflowsUnless (C : Prop) (x : Except Fault α) : Prop where
  returns : C → ∃ a, x = .ok a
  overflows : ¬C → ∃ f, x = .error f ∧ f.IsOverflow

namespace OverflowsUnless

variable {C D : Prop} {x : Except Fault α}

theorem intro (hfails : FailsOnly Fault.IsOverflow x) (holds : ∀ a, x = .ok a → C)
    (returns : C → ∃ a, x = .ok a) : OverflowsUnless C x where
  returns := returns
  overflows hnot := by
    cases x with
    | ok a => exact absurd (holds a rfl) hnot
    | error f => exact ⟨f, rfl, hfails f rfl⟩

theorem failsOnly (h : OverflowsUnless C x) : FailsOnly Fault.IsOverflow x := by
  intro f hf
  by_cases hC : C
  · obtain ⟨a, ha⟩ := h.returns hC
    rw [ha] at hf
    cases hf
  · obtain ⟨f', hf', hoverflow⟩ := h.overflows hC
    rw [hf'] at hf
    cases hf
    exact hoverflow

theorem holds (h : OverflowsUnless C x) {a : α} (hx : x = .ok a) : C := by
  by_cases hC : C
  · exact hC
  · obtain ⟨f, hf, -⟩ := h.overflows hC
    cases hx.symm.trans hf

theorem congr (h : OverflowsUnless C x) (hiff : C ↔ D) : OverflowsUnless D x :=
  ⟨fun hD => h.returns (hiff.mpr hD), fun hD => h.overflows fun hC => hD (hiff.mp hC)⟩

theorem of_ok {a : α} (h : x = .ok a) (hC : C) : OverflowsUnless C x :=
  ⟨fun _ => ⟨a, h⟩, fun hnot => absurd hC hnot⟩

theorem bind_ok {f : α → Except Fault β} {a : α} (hx : x = .ok a)
    (hf : OverflowsUnless C (f a)) : OverflowsUnless C (x >>= f) := by
  rw [hx]
  exact hf

theorem bind_demand {p : Prop} [Decidable p] {e : Fault} {f : Unit → Except Fault β} (hp : p)
    (hf : OverflowsUnless C (f ())) : OverflowsUnless C (demand p e >>= f) :=
  bind_ok (demand_eq_ok.mpr hp) hf

theorem bind {f : α → Except Fault β} (hx : OverflowsUnless C x)
    (hf : ∀ a, x = .ok a → OverflowsUnless D (f a)) : OverflowsUnless (C ∧ D) (x >>= f) := by
  by_cases hC : C
  · obtain ⟨a, ha⟩ := hx.returns hC
    exact (bind_ok ha (hf a ha)).congr (and_iff_right hC).symm
  · obtain ⟨e, he, hoverflow⟩ := hx.overflows hC
    rw [he]
    exact ⟨fun h => absurd h.1 hC, fun _ => ⟨e, rfl, hoverflow⟩⟩

theorem map (h : OverflowsUnless C x) (g : α → β) :
    OverflowsUnless C (x >>= fun a => pure (g a)) :=
  (h.bind fun a _ => of_ok (C := True) (a := g a) rfl trivial).congr (and_iff_left trivial)

end OverflowsUnless

namespace Amount

theorem requireU128_overflows (name : String) (x : Int) :
    FailsOnly Fault.IsOverflow (requireU128 name x) :=
  .demand fun _ => rfl

theorem mulDiv_overflows {x num den : Int} (hden : den ≠ 0) :
    FailsOnly Fault.IsOverflow (mulDiv x num den) := by
  unfold mulDiv
  refine .bind (requireU128_overflows _ _) fun _ _ => ?_
  refine .bind (requireU128_overflows _ _) fun _ _ => ?_
  refine .bind (requireU128_overflows _ _) fun _ _ => ?_
  refine .bind (.demand fun hzero => absurd hden hzero) fun _ _ => ?_
  exact .bind (.demand fun _ => rfl) fun _ _ => .pure _

theorem share_overflows (x bps : Int) : FailsOnly Fault.IsOverflow (share x bps) :=
  .bind (.demand fun _ => rfl) fun _ _ => mulDiv_overflows (by decide)

end Amount

end TokenSale
