import TokenSale.Proofs.Refusal
import TokenSale.Sale

/-!
Refusals of the check of a sale. Whichever rule is broken, the fault is one of the configuration.
-/

namespace TokenSale

abbrev Configures (x : Except Fault α) : Prop := FailsOnly (fun f => f.kind = .config) x

theorem Mechanic.checkUnit_configures (name : String) (v : Datum) :
    Configures (checkUnit name v) := by
  unfold checkUnit
  split
  · split
    · exact .ok _
    · exact .error rfl
  · exact .error rfl

theorem Mechanic.check_configures (d : Mechanic.Draft) : Configures d.check := by
  cases d with
  | fixedPrice depositUnit saleUnit =>
    refine .bind (checkUnit_configures _ _) fun _ _ => ?_
    exact .bind (checkUnit_configures _ _) fun _ _ => .pure _
  | priceDiscovery => exact .pure _

theorem Discount.check_configures (d : Discount.Draft) : Configures d.check := by
  refine .bind ?_ fun _ _ => .bind (.demand fun _ => rfl) fun _ _ => .pure _
  unfold checkPercentage
  split
  · split
    · exact .ok _
    · exact .error rfl
  · exact .error rfl

theorem Schedule.check_configures (ds : List Discount.Draft) : Configures (Schedule.check ds) := by
  refine .bind (.mapM fun d _ => Discount.check_configures d) fun _ _ => ?_
  exact .bind (.demand fun _ => rfl) fun _ _ => .pure _

theorem Vesting.validate_configures (v : Vesting) : Configures v.validate := by
  unfold validate
  refine .bind (.demand fun _ => rfl) fun _ _ => .bind (.demand fun _ => rfl) fun _ _ => ?_
  split
  · exact .pure _
  · exact .demand fun _ => rfl

theorem Split.validate_configures (s : Split) : Configures s.validate :=
  .bind (.demand fun _ => rfl) fun _ _ => .bind (.demand fun _ => rfl) fun _ _ =>
    .demand fun _ => rfl

theorem Plan.validateStakeholders_configures (seen : List String) (hs : List Stakeholder) :
    Configures (validateStakeholders seen hs) := by
  induction hs generalizing seen with
  | nil => exact .ok _
  | cons h hs ih =>
    obtain ⟨account, allocation, vesting⟩ := h
    refine .bind (.demand fun _ => rfl) fun _ _ => .bind (.demand fun _ => rfl) fun _ _ => ?_
    cases vesting with
    | none => exact ih _
    | some v => exact .bind v.validate_configures fun _ _ => ih _

theorem Plan.validate_configures (p : Plan) : Configures p.validate := by
  unfold validate
  refine .bind (.demand fun _ => rfl) fun _ _ => .bind (.demand fun _ => rfl) fun _ _ => ?_
  refine .bind (validateStakeholders_configures _ _) fun _ _ => ?_
  split
  · exact .pure _
  · exact Split.validate_configures _

namespace Sale

theorem Draft.checkField_configures (name : String) (v : Datum) :
    Configures (checkField name v) := by
  unfold checkField
  split
  · split
    · exact .ok _
    · exact .error rfl
  · exact .error rfl

theorem Draft.checkTge_configures (saleEnd : Int) (tge : Option Datum) :
    Configures (checkTge saleEnd tge) := by
  unfold checkTge
  split
  · exact .ok _
  · split
    · exact .ok _
    · exact .error rfl
  · exact .error rfl

theorem Draft.checkPart_configures {validate : α → Except Fault Unit}
    (h : ∀ a, Configures (validate a)) (o : Option α) : Configures (checkPart validate o) := by
  cases o with
  | none => exact .ok _
  | some a => exact h a

theorem Draft.check_configures (d : Draft) : Configures d.check := by
  have hfield := checkField_configures
  unfold check
  refine .bind (.demand fun _ => rfl) fun _ _ => ?_
  refine .bind (hfield _ _) fun _ _ => .bind (hfield _ _) fun _ _ => ?_
  refine .bind (hfield _ _) fun _ _ => .bind (hfield _ _) fun _ _ => ?_
  refine .bind (hfield _ _) fun _ _ => .bind (hfield _ _) fun _ _ => ?_
  refine .bind (.demand fun _ => rfl) fun _ _ => .bind (.demand fun _ => rfl) fun _ _ => ?_
  refine .bind (checkTge_configures _ _) fun _ _ => ?_
  refine .bind (Mechanic.check_configures _) fun _ _ => ?_
  refine .bind (Schedule.check_configures _) fun _ _ => ?_
  refine .bind (checkPart_configures Vesting.validate_configures _) fun _ _ => ?_
  refine .bind (checkPart_configures Plan.validate_configures _) fun _ _ => ?_
  exact .bind (.demand fun _ => rfl) fun _ _ => .pure _

theorem validate_configures (s : Sale) : Configures s.validate :=
  .bind s.draft.check_configures fun _ _ => .pure _

end Sale

end TokenSale
