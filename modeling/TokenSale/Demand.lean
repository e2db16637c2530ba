/-!
Preconditions: a demand passes when its condition holds and fails with an error otherwise.
-/

namespace TokenSale

def demand (p : Prop) [Decidable p] (e : ε) : Except ε Unit :=
  if p then .ok () else .error e

@[simp] theorem demand_eq_ok {p : Prop} [Decidable p] {e : ε} {u : Unit} :
    demand p e = .ok u ↔ p := by
  unfold demand
  split <;> simp_all

@[simp] theorem demand_eq_error {p : Prop} [Decidable p] {e e' : ε} :
    demand p e = .error e' ↔ ¬p ∧ e = e' := by
  unfold demand
  split <;> simp_all

@[simp] theorem bind_eq_ok {x : Except ε α} {f : α → Except ε β} {b : β} :
    (x >>= f) = .ok b ↔ ∃ a, x = .ok a ∧ f a = .ok b := by
  cases x with
  | error e => simp [bind, Except.bind]
  | ok a => simp [bind, Except.bind]

@[simp] theorem bind_eq_error {x : Except ε α} {f : α → Except ε β} {e : ε} :
    (x >>= f) = .error e ↔ x = .error e ∨ ∃ a, x = .ok a ∧ f a = .error e := by
  cases x with
  | error e => simp [bind, Except.bind]
  | ok a => simp [bind, Except.bind]

@[simp] theorem pure_ne_error {a : α} {e : ε} : (pure a : Except ε α) ≠ .error e := by
  simp [pure, Except.pure]

@[simp] theorem pure_eq_ok {a b : α} : (pure a : Except ε α) = .ok b ↔ a = b := by
  simp [pure, Except.pure]

theorem exists_of_mapM {f : α → Except ε β} {as : List α} {bs : List β} (h : as.mapM f = .ok bs) :
    (∀ a ∈ as, ∃ b ∈ bs, f a = .ok b) ∧ ∀ b ∈ bs, ∃ a ∈ as, f a = .ok b := by
  induction as generalizing bs with
  | nil =>
    cases h
    simp
  | cons a as ih =>
    simp only [List.mapM_cons, bind_eq_ok, pure_eq_ok] at h
    obtain ⟨b, hb, bs, hbs, rfl⟩ := h
    obtain ⟨hleft, hright⟩ := ih hbs
    simp only [List.forall_mem_cons]
    refine ⟨⟨⟨b, List.mem_cons_self, hb⟩, fun a ha => ?_⟩,
      ⟨a, List.mem_cons_self, hb⟩, fun b hb => ?_⟩
    · obtain ⟨b, hmem, hb⟩ := hleft a ha
      exact ⟨b, List.mem_cons_of_mem _ hmem, hb⟩
    · obtain ⟨a, hmem, ha⟩ := hright b hb
      exact ⟨a, List.mem_cons_of_mem _ hmem, ha⟩

theorem exists_eq_ok {x : Except ε α} (h : x.isOk = true) : ∃ a, x = .ok a := by
  cases x with
  | error e => cases h
  | ok a => exact ⟨a, rfl⟩

theorem exists_ok_of_map {x : Except ε α} {f : α → β} {b : β} (h : x.toOption.map f = some b) :
    ∃ a, x = .ok a ∧ f a = b := by
  cases x with
  | error e => cases h
  | ok a => exact ⟨a, rfl, Option.some.inj h⟩

end TokenSale
