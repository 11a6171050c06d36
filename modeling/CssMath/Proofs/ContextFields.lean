import CssMath.Proofs.BinaryOperators

/-! Which fields of a context an expression depends on. Each unit is resolved against one field or
against none, the four viewport units against the edges of the viewport if there is one, and a
percentage against the base; two contexts with the same values in the fields that the operands of a
calculation mention cannot be told apart by evaluating it. -/
namespace CssMath
universe v

def Mentions (xs : List Operand) (us : List DimensionUnit) : Prop :=
  ∃ x ∈ xs, ∃ u ∈ us, x.unit? = some u

instance (xs : List Operand) (us : List DimensionUnit) : Decidable (Mentions xs us) :=
  inferInstanceAs (Decidable (∃ x ∈ xs, ∃ u ∈ us, x.unit? = some u))

theorem Mentions.mono {xs : List Operand} {us vs : List DimensionUnit} (h : Mentions xs us)
    (hsub : us ⊆ vs) : Mentions xs vs := by
  obtain ⟨x, hx, u, hu, hunit⟩ := h
  exact ⟨x, hx, u, hsub hu, hunit⟩

namespace DimensionUnit

def viewportUnits : List DimensionUnit :=
  [viewportWidth, viewportHeight, viewportMin, viewportMax]

end DimensionUnit

namespace LengthContext
variable {ctx ctx' : LengthContext}

theorem scale?_of_viewportUnit {u : DimensionUnit} (hu : u ∈ DimensionUnit.viewportUnits) :
    ctx.scale? u = (ctx.viewport.bind (edge? · u)).map (·.toFloat / 100) := by
  simp only [DimensionUnit.viewportUnits, List.mem_cons, List.not_mem_nil, or_false] at hu
  rcases hu with rfl | rfl | rfl | rfl <;> rw [scale?] <;> cases ctx.viewport <;> rfl

/-- The contexts have the same values in the fields that the operands mention. Of the viewport that
is first whether there is one, and then the edges. -/
structure AgreeOn (ctx ctx' : LengthContext) (xs : List Operand) : Prop where
  fontSize : Mentions xs [.ems, .exs, .chs] → ctx.fontSize = ctx'.fontSize
  rootFontSize : Mentions xs [.rootEms] → ctx.rootFontSize = ctx'.rootFontSize
  percentBase : (∃ x ∈ xs, x.isPercentage) → ctx.percentBase = ctx'.percentBase
  viewport : Mentions xs DimensionUnit.viewportUnits →
    ctx.viewport.isSome = ctx'.viewport.isSome
  width : Mentions xs [.viewportWidth, .viewportMin, .viewportMax] →
    ∀ v ∈ ctx.viewport, ∀ v' ∈ ctx'.viewport, v.width = v'.width
  height : Mentions xs [.viewportHeight, .viewportMin, .viewportMax] →
    ∀ v ∈ ctx.viewport, ∀ v' ∈ ctx'.viewport, v.height = v'.height

namespace AgreeOn
variable {xs : List Operand} {x : Operand} {u : DimensionUnit}

theorem edge?_eq (h : ctx.AgreeOn ctx' xs) (hu : Mentions xs [u]) {v v' : Viewport}
    (hv : v ∈ ctx.viewport) (hv' : v' ∈ ctx'.viewport) : edge? v u = edge? v' u := by
  cases u with
  | viewportWidth => exact congrArg some (h.width (hu.mono (by simp)) v hv v' hv')
  | viewportHeight => exact congrArg some (h.height (hu.mono (by simp)) v hv v' hv')
  | viewportMin | viewportMax =>
    rw [edge?, edge?, h.width (hu.mono (by simp)) v hv v' hv',
      h.height (hu.mono (by simp)) v hv v' hv']
  | _ => rfl

theorem scale?_eq_of_viewportUnit (h : ctx.AgreeOn ctx' xs) (hu : Mentions xs [u])
    (hunit : u ∈ DimensionUnit.viewportUnits) : ctx.scale? u = ctx'.scale? u := by
  have hsome := h.viewport (hu.mono (by simpa using hunit))
  rw [scale?_of_viewportUnit hunit, scale?_of_viewportUnit hunit]
  match hv : ctx.viewport, hv' : ctx'.viewport with
  | none, none => rfl
  | none, some v' => simp [hv, hv'] at hsome
  | some v, none => simp [hv, hv'] at hsome
  | some v, some v' => rw [Option.bind_some, Option.bind_some, h.edge?_eq hu hv hv']

theorem scale?_eq (h : ctx.AgreeOn ctx' xs) (hu : Mentions xs [u]) :
    ctx.scale? u = ctx'.scale? u := by
  cases u with
  | ems | exs | chs => rw [scale?, scale?, h.fontSize (hu.mono (by simp))]
  | rootEms => rw [scale?, scale?, h.rootFontSize hu]
  | viewportWidth | viewportHeight | viewportMin | viewportMax =>
    exact h.scale?_eq_of_viewportUnit hu (by decide)
  | _ => rfl

theorem resolveOperand_eq (h : ctx.AgreeOn ctx' xs) {x : Operand} (hx : x ∈ xs) :
    ctx.resolveOperand x = ctx'.resolveOperand x := by
  by_cases hpercent : x.isPercentage
  · rw [resolveOperand, resolveOperand, if_pos hpercent, if_pos hpercent, resolvePercentage,
      resolvePercentage, h.percentBase ⟨x, hx, hpercent⟩]
  · rw [resolveOperand, resolveOperand, if_neg hpercent, if_neg hpercent]
    cases hunit : x.unit? with
    | none => rw [Option.bind_none, Option.bind_none]
    | some u =>
      have hscale := h.scale?_eq ⟨x, hx, u, List.mem_singleton_self u, hunit⟩
      rw [Option.bind_some, Option.bind_some, resolve?, resolve?, hscale]

end AgreeOn

end LengthContext

namespace Calculation
variable {ctx ctx' : LengthContext} {c : Calculation}

theorem evaluate_numeric_of_agreeOn {m : Type → Type v} [Monad m]
    (h : ctx.AgreeOn ctx' (operands c.terms)) (report : Diagnostic → m PUnit) :
    c.evaluate (.numeric (fun x => pure (ctx.resolveOperand x)) report) =
      c.evaluate (.numeric (fun x => pure (ctx'.resolveOperand x)) report) := by
  have hoperand : ∀ x ∈ operands c.terms,
      (Strategy.numeric (fun x => pure (ctx.resolveOperand x)) report).operand x =
        (Strategy.numeric (fun x => pure (ctx'.resolveOperand x)) report).operand x := by
    intro x hx
    simp only [Strategy.numeric, h.resolveOperand_eq hx]
  rw [evaluate, evaluate, Strategy.replay_congr hoperand fun _ _ _ _ => rfl]

/-- The fields of a context that no operand of a calculation mentions have no part in its
evaluation: it ends in the same way and with the same value, and it reports the same, whatever is
done with the reports. -/
theorem evaluate_eq_of_agreeOn (h : ctx.AgreeOn ctx' (operands c.terms)) :
    (∀ {m : Type → Type v} [Monad m] (report : Diagnostic → m PUnit),
      c.evaluate (.numeric (fun x => pure (ctx.resolveOperand x)) report) =
        c.evaluate (.numeric (fun x => pure (ctx'.resolveOperand x)) report)) ∧
    (c.evaluate (.silent ctx)).run = (c.evaluate (.silent ctx')).run ∧
    (∀ ds, (c.evaluate (.collecting ctx)).run ds = (c.evaluate (.collecting ctx')).run ds) ∧
    ∀ log, (c.evaluate (.logging ctx)).run log = (c.evaluate (.logging ctx')).run log := by
  refine ⟨fun report => evaluate_numeric_of_agreeOn h report, ?_, fun ds => ?_, fun log => ?_⟩
  · exact evaluate_numeric_of_agreeOn (m := Id) h _
  · exact congrArg (StateT.run · ds) (evaluate_numeric_of_agreeOn h _)
  · exact congrArg (StateT.run · log) (evaluate_numeric_of_agreeOn h _)

/-- `2em + 1vw ( 3` in two contexts that have the font size and the width of the viewport in common
and nothing else. -/
theorem evaluate_eq_of_agreeOn_width :
    let c := ofInfix [.operand (.dimension 2 .ems), .operator .add,
      .operand (.dimension 1 .viewportWidth), .operator .openParen, .operand (.integer 3)]
    let ctx : LengthContext := ⟨20, 16, 0, some ⟨800, 600⟩⟩
    let ctx' : LengthContext := ⟨20, 10, 50, some ⟨800, 480⟩⟩
    ctx.AgreeOn ctx' (operands c.terms) ∧
      (∀ ds, (c.evaluate (.collecting ctx)).run ds = (c.evaluate (.collecting ctx')).run ds) ∧
      ((c.evaluate (.collecting ctx)).run #[]).1 = .ok 40 ∧
      ((c.evaluate (.collecting ctx)).run #[]).2 = #[.unknownOperator .openParen] := by
  intro c ctx ctx'
  have hagree : ctx.AgreeOn ctx' (operands c.terms) :=
    { fontSize := fun _ => rfl
      rootFontSize := fun h => absurd h (by decide)
      percentBase := fun h => absurd h (by decide)
      viewport := fun _ => rfl
      width := fun _ v hv v' hv' => by
        obtain rfl := Option.some.inj hv
        obtain rfl := Option.some.inj hv'
        rfl
      height := fun h => absurd h (by decide) }
  obtain ⟨-, -, hcollecting, -⟩ := evaluate_eq_of_agreeOn.{0} hagree
  refine ⟨hagree, hcollecting, ?_, rfl⟩
  subst ctx
  rfl

end Calculation

end CssMath
