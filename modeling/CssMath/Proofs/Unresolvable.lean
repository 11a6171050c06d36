import CssMath.Proofs.ContextFields
import CssMath.Proofs.Diagnostics

/-! Operands that a context has no number for. Such an operand stands for NaN, arithmetic with NaN
gives NaN, and every operand of a calculation with a value is a leaf of the one tree that the value
is the fold of; so unless an open parenthesis is left over, which puts a 0 in place of its sides,
the value is NaN. -/
namespace CssMath
open Float.Model

namespace Operator

def unpacked : Operator → UnpackedFloat → UnpackedFloat → UnpackedFloat
  | add => .add .binary64
  | subtract => .sub .binary64
  | multiply => .mul .binary64
  | divide => .div .binary64
  | openParen | closeParen => fun _ _ => .zero .positive

variable {o : Operator}

theorem arithmetic_eq (ho : o.isBinary) (x y : Float) :
    o.arithmetic x y = .ofModel (.pack (o.unpacked x.toModel.unpack y.toModel.unpack)) := by
  cases o with
  | openParen => cases ho
  | closeParen => cases ho
  | _ => rfl

theorem unpacked_notANumber_left (ho : o.isBinary) (y : UnpackedFloat) :
    o.unpacked .notANumber y = .notANumber := by
  cases o with
  | openParen => cases ho
  | closeParen => cases ho
  | _ => rfl

theorem unpacked_notANumber_right (ho : o.isBinary) (x : UnpackedFloat) :
    o.unpacked x .notANumber = .notANumber := by
  cases o with
  | openParen => cases ho
  | closeParen => cases ho
  | _ => cases x <;> rfl

theorem isNaN_iff {x : Float} : x.isNaN ↔ x.toModel.unpack = .notANumber := by
  rw [Float.isNaN, Float.Model.isNaN]
  cases x.toModel.unpack with
  | notANumber => exact iff_of_true rfl rfl
  | _ => exact iff_of_false Bool.false_ne_true nofun

theorem isNaN_pack : (Float.ofModel (.pack .notANumber)).isNaN := by decide +kernel

/-- NaN on either side gives NaN, also times zero and divided by infinity. -/
theorem isNaN_arithmetic (ho : o.isBinary) {x y : Float} (h : x.isNaN ∨ y.isNaN) :
    (o.arithmetic x y).isNaN := by
  rw [arithmetic_eq ho]
  cases h with
  | inl hx =>
    rw [isNaN_iff.mp hx, unpacked_notANumber_left ho]
    exact isNaN_pack
  | inr hy =>
    rw [isNaN_iff.mp hy, unpacked_notANumber_right ho]
    exact isNaN_pack

end Operator

namespace LengthContext
variable {ctx : LengthContext}

def Unresolvable (ctx : LengthContext) (x : Operand) : Prop :=
  ∃ u, x.unit? = some u ∧ ((∃ spelling, u = .other spelling) ∨
    u ∈ DimensionUnit.viewportUnits ∧ ctx.viewport = none)

theorem scale?_eq_none_iff {u : DimensionUnit} :
    ctx.scale? u = none ↔ (∃ spelling, u = .other spelling) ∨
      u ∈ DimensionUnit.viewportUnits ∧ ctx.viewport = none := by
  cases u with
  | other spelling => exact ⟨fun _ => .inl ⟨spelling, rfl⟩, fun _ => rfl⟩
  | viewportWidth | viewportHeight | viewportMin | viewportMax =>
    rw [scale?_of_viewportUnit (by decide)]
    cases ctx.viewport <;> simp [edge?, DimensionUnit.viewportUnits]
  | _ => simp [scale?, DimensionUnit.viewportUnits]

theorem isNaN_operand {x : Operand} (h : ctx.Unresolvable x) :
    ((Strategy.silent ctx).operand x).run.isNaN := by
  obtain ⟨u, hu, hnone⟩ := h
  obtain ⟨value, kind⟩ := x
  cases kind with
  | dimension u' =>
    obtain rfl := Option.some.inj hu
    have hresolve : ctx.resolve? value u' = none := by
      rw [resolve?, scale?_eq_none_iff.mpr hnone, Option.map_none]
    change ((ctx.resolve? value u').getD _).isNaN
    rw [hresolve]
    decide +kernel
  | _ => cases hu

end LengthContext

namespace Tree
variable {ctx : LengthContext}

theorem fold_silent_node (left right : Tree) {o : Operator} (ho : o.isBinary) :
    ((node left right o).fold (.silent ctx)).run =
      o.arithmetic (left.fold (.silent ctx)).run (right.fold (.silent ctx)).run :=
  Strategy.operator_numeric (m := Id) ho _ _

theorem isNaN_fold {t : Tree} (ht : ∀ o ∈ operators t.postorder, o.isBinary) {x : Operand}
    (hx : x ∈ operands t.postorder) (hnan : ((Strategy.silent ctx).operand x).run.isNaN) :
    (t.fold (.silent ctx)).run.isNaN := by
  induction t with
  | leaf y =>
    obtain rfl := List.mem_singleton.mp hx
    exact hnan
  | node left right o ihl ihr =>
    simp only [postorder, operators_append, List.forall_mem_append] at ht
    obtain ⟨⟨hleft, hright⟩, ho⟩ := ht
    rw [fold_silent_node left right (ho o List.mem_cons_self)]
    apply Operator.isNaN_arithmetic (ho o List.mem_cons_self)
    rw [postorder, operands_append, operands_append, operands_operator, operands_nil,
      List.append_nil] at hx
    cases List.mem_append.mp hx with
    | inl h => exact .inl (ihl hleft h)
    | inr h => exact .inr (ihr hright h)

end Tree

namespace Calculation
variable {ctx : LengthContext} {ts : List Term}

theorem isNaN_of_unresolvable (h : unclosed 0 ts = 0) {x : Operand}
    (hx : x ∈ operands (ofInfix ts).terms) (hnone : ctx.Unresolvable x) {v : Float}
    (hv : ((ofInfix ts).evaluate (.silent ctx)).run = .ok v) : v.isNaN := by
  have hvalid : (ofInfix ts).isValid := isValid_of_evaluate hv
  rw [terms_ofInfix hvalid] at hx
  rw [evaluate_of_isValid hvalid, terms_ofInfix hvalid] at hv
  obtain ⟨G, us, hsplit⟩ := Split.exists_of_native (arrange_not_foreign ts)
  obtain ⟨t, ht⟩ := hsplit.exists_tree_of_run _ hv
  have hbinary := isBinary_of_unclosed h
  rw [ht] at hx hbinary
  rw [ht, Strategy.replay_tree, Id.run_map] at hv
  obtain rfl := Except.ok.inj hv
  exact Tree.isNaN_fold hbinary hx (LengthContext.isNaN_operand hnone)

/-- An operand that the context has no number for makes the value NaN, whatever the shape of the
expression and whatever is reported to, as long as no open parenthesis is left over. None is in the
terms of a text. -/
theorem evaluate_unresolvable (ctx : LengthContext) {σ : Type}
    (report : Diagnostic → StateM σ PUnit) (st : σ) :
    let value (c : Calculation) := ((c.evaluate (.reporting ctx report)).run st).1
    (∀ ts, unclosed 0 ts = 0 → (∃ x ∈ operands ts, ctx.Unresolvable x) →
      ∀ v, value (ofInfix ts) = .ok v → v.isNaN) ∧
    ∀ text c, ofText text = .ok c → (∃ x ∈ operands c.terms, ctx.Unresolvable x) →
      ∀ v, value c = .ok v → v.isNaN := by
  intro value
  have halone (ts : List Term) :
      value (ofInfix ts) = ((ofInfix ts).evaluate (.silent ctx)).run :=
    congrArg Prod.fst (evaluate_reporting ctx report ts st)
  constructor
  · intro ts hclosed hun v hv
    obtain ⟨x, hx, hnone⟩ := hun
    rw [halone] at hv
    rw [← operands_arrange, ← terms_ofInfix (isValid_of_evaluate hv)] at hx
    exact isNaN_of_unresolvable hclosed hx hnone hv
  · intro text c hc hun v hv
    obtain ⟨x, hx, hnone⟩ := hun
    obtain ⟨ts, hts, rfl⟩ := ofText_eq_ok_iff.mp hc
    rw [halone] at hv
    exact isNaN_of_unresolvable (unclosed_of_nesting (Css.nesting_calcTerms hts)) hx hnone hv

/-- `3 - 3 ) * 1vw` without a viewport, and a unit outside the table that is divided by infinity. -/
theorem evaluate_unresolvable_masked :
    let ts : List Term := [.operand (.integer 3), .operator .subtract, .operand (.integer 3),
      .operator .closeParen, .operator .multiply, .operand (.dimension 1 .viewportWidth)]
    let us : List Term := .operand (.dimension 1 (.other "foo")) :: .operator .divide ::
      group [.operand (.integer 1), .operator .divide, .operand (.integer 0)]
    let value (c : Calculation) := ((c.evaluate (.collecting {})).run #[]).1
    unclosed 0 ts = 0 ∧ (∃ x ∈ operands ts, LengthContext.Unresolvable {} x) ∧
      (∃ v, value (ofInfix ts) = .ok v ∧ v.isNaN) ∧
      ofText "calc(1foo / (1 / 0))" = .ok (ofInfix us) ∧
      (∃ x ∈ operands (ofInfix us).terms, LengthContext.Unresolvable {} x) ∧
      ∃ v, value (ofInfix us) = .ok v ∧ v.isNaN := by
  intro ts us value
  have hlexemes : Css.lexemes "calc(1foo / (1 / 0))".toList =
      [.opening (.function "calc"), .token (.dimension ⟨false, [1], [], none⟩ "foo"),
        .token (.delim '/'), .opening (.bracket .round), .token (.number ⟨false, [1], [], none⟩),
        .token (.delim '/'), .token (.number ⟨false, [0], [], none⟩), .token (.closing .round),
        .token (.closing .round)] := by decide +kernel
  have hunit : Css.Token.reading? (.dimension ⟨false, [1], [], none⟩ "foo") =
      some (.operand (.dimension 1 (.other "foo"))) := by decide +kernel
  have hread : Css.calcTerms "calc(1foo / (1 / 0))" = .ok us := by
    refine Css.calcTerms_of_nested hlexemes (.token nofun (.token nofun
      (.block (.token nofun (.token nofun (.token nofun .closed))) .closed))) ?_
    simp only [Css.terms?, Css.Component.terms?, hunit]
    rfl
  have htext : ofText "calc(1foo / (1 / 0))" = .ok (ofInfix us) :=
    ofText_eq_ok_iff.mpr ⟨us, hread, rfl⟩
  have hviewport : ∃ x ∈ operands ts, LengthContext.Unresolvable {} x :=
    ⟨.dimension 1 .viewportWidth, by simp [ts], .viewportWidth, rfl, .inr ⟨by decide, rfl⟩⟩
  have hother : ∃ x ∈ operands (ofInfix us).terms, LengthContext.Unresolvable {} x :=
    ⟨.dimension 1 (.other "foo"), List.mem_cons_self, .other "foo", rfl, .inl ⟨"foo", rfl⟩⟩
  obtain ⟨hgiven, hread⟩ :=
    evaluate_unresolvable {} (fun d => modify fun ds : Array Diagnostic => ds.push d) #[]
  exact ⟨rfl, hviewport, ⟨_, rfl, hgiven ts rfl hviewport _ rfl⟩, htext, hother,
    ⟨_, rfl, hread _ _ htext hother _ rfl⟩⟩

end Calculation

end CssMath
