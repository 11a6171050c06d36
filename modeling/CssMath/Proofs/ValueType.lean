import CssMath.Proofs.Families

/-! What the type of a valid calculation tells of its operands. A number is noticed only before the
first family, so the value passes for an integer if all numbers stand behind it. A unit outside the
table has no family, so a value with no other units passes for a bare one. -/
namespace CssMath

namespace Operand

theorem unknown_iff {u : DimensionUnit} :
    u.dimension? = none ↔ ∃ spelling, u = .other spelling := by
  cases u with
  | other spelling => exact ⟨fun _ => ⟨spelling, rfl⟩, fun _ => rfl⟩
  | _ => exact ⟨nofun, fun h => nomatch h⟩

theorem family?_eq_none_iff {x : Operand} :
    x.family? = none ↔ x.isBare ∨ ∃ spelling, x.kind = .dimension (.other spelling) := by
  obtain ⟨value, kind⟩ := x
  cases kind with
  | integer => exact ⟨fun _ => .inl rfl, fun _ => rfl⟩
  | number => exact ⟨fun _ => .inl rfl, fun _ => rfl⟩
  | percentage => exact ⟨nofun, fun h => h.elim nofun nofun⟩
  | dimension u =>
    have hfamily : (⟨value, .dimension u⟩ : Operand).family? = u.dimension? := rfl
    have hbare : (⟨value, .dimension u⟩ : Operand).isBare = false := rfl
    rw [hfamily, unknown_iff, hbare]
    simp

theorem isBare_iff {x : Operand} : x.isBare ↔ x.kind = .integer ∨ x.kind = .number := by
  simp [isBare]

theorem not_isBare_iff {x : Operand} :
    ¬x.isBare ↔ x.isPercentage ∨ ∃ u, x.kind = .dimension u := by
  obtain ⟨value, kind⟩ := x
  cases kind <;> simp [isBare, isPercentage]

end Operand

theorem leading_append_trailing (xs : List Operand) : leading xs ++ trailing xs = xs :=
  List.takeWhile_append_dropWhile

theorem ValueType.not_bare_iff {v : ValueType} :
    v ≠ .integer ∧ v ≠ .number ↔ ∃ d, v = .dimension d := by
  cases v <;> simp

section Kinds
variable {xs : List Operand}

theorem forall_integer_iff :
    (∀ x ∈ xs, x.kind = .integer) ↔ (∀ x ∈ xs, x.isBare) ∧ ∀ x ∈ xs, x.kind ≠ .number := by
  constructor
  · intro h
    refine ⟨fun x hx => Operand.isBare_iff.mpr (.inl (h x hx)), fun x hx hnumber => ?_⟩
    cases (h x hx).symm.trans hnumber
  · intro h x hx
    exact (Operand.isBare_iff.mp (h.1 x hx)).resolve_right (h.2 x hx)

theorem exists_not_isBare_iff :
    (∃ x ∈ xs, x.isPercentage ∨ ∃ u, x.kind = .dimension u) ↔ ¬∀ x ∈ xs, x.isBare := by
  constructor
  · intro h hbare
    obtain ⟨x, hx, hkind⟩ := h
    exact Operand.not_isBare_iff.mpr hkind (hbare x hx)
  · intro h
    simp only [← Operand.not_isBare_iff]
    simpa using h

theorem bare_of_open_iff :
    ((∃ x ∈ xs, ∃ d, x.family? = some d) ∨
        ∀ x ∈ xs, ∀ spelling, x.kind ≠ .dimension (.other spelling)) ↔
      ((∀ x ∈ xs, x.family? = none) → ∀ x ∈ xs, x.isBare) := by
  constructor
  · intro h hopen x hx
    cases h with
    | inl hfamily =>
      obtain ⟨y, hy, d, hd⟩ := hfamily
      cases (hopen y hy).symm.trans hd
    | inr hknown =>
      refine (Operand.family?_eq_none_iff.mp (hopen x hx)).resolve_right fun hother => ?_
      obtain ⟨spelling, hkind⟩ := hother
      exact hknown x hx spelling hkind
  · intro h
    cases hfirst : firstFamily? xs with
    | some d =>
      obtain ⟨x, hx, hd⟩ := exists_of_firstFamily? hfirst
      exact .inl ⟨x, hx, d, hd⟩
    | none =>
      refine .inr fun x hx spelling hkind => ?_
      have hbare := h (firstFamily?_eq_none_iff.mp hfirst) x hx
      exact Operand.not_isBare_iff.mpr (.inr ⟨_, hkind⟩) hbare

end Kinds

namespace Calculation
variable {ts : List Term}

theorem typing_ofInfix (h : (ofInfix ts).isValid) :
    (ofInfix ts).typing =
      ⟨(firstFamily? (operands ts)).map .dimension,
        (leading (operands ts)).all fun x => !x.isNumber⟩ := by
  obtain ⟨ty, hty⟩ := isValid_ofInfix_iff.mp h
  obtain ⟨-, hfold⟩ := Typing.foldlM_consider_iff.mp hty.agree
  rw [ofInfix_of_admitted hty, ← hfold, Typing.foldl_next_open rfl, Bool.true_and]

theorem isInteger_ofInfix_iff (h : (ofInfix ts).isValid) :
    (ofInfix ts).typing.isInteger ↔ ∀ x ∈ leading (operands ts), x.kind ≠ .number := by
  rw [typing_ofInfix h, List.all_eq_true]
  simp [Operand.isNumber]

/-- A valid calculation is an integer exactly if no number stands before the first operand with a
family. So this means that there is no number at all exactly if none stands behind that operand,
unless one stands before it as well. -/
theorem isInteger_iff (h : (ofInfix ts).isValid) :
    let xs := operands ts
    let isInteger := (ofInfix ts).typing.isInteger = true
    (isInteger ↔ ∀ x ∈ leading xs, x.kind ≠ .number) ∧
      ((isInteger ↔ ∀ x ∈ xs, x.kind ≠ .number) ↔
        (∀ x ∈ trailing xs, x.kind ≠ .number) ∨ ∃ x ∈ leading xs, x.kind = .number) := by
  intro xs isInteger
  have hleading : isInteger ↔ ∀ x ∈ leading xs, x.kind ≠ .number := isInteger_ofInfix_iff h
  have hparts : (∀ x ∈ xs, x.kind ≠ .number) ↔
      (∀ x ∈ leading xs, x.kind ≠ .number) ∧ ∀ x ∈ trailing xs, x.kind ≠ .number := by
    rw [← List.forall_mem_append, leading_append_trailing]
  refine ⟨hleading, ?_⟩
  rw [hleading, hparts]
  constructor
  · intro hiff
    by_cases hsome : ∃ x ∈ leading xs, x.kind = .number
    · exact .inr hsome
    · exact .inl (hiff.mp fun x hx hnumber => hsome ⟨x, hx, hnumber⟩).2
  · intro hcond
    refine ⟨fun hall => ⟨hall, ?_⟩, And.left⟩
    refine hcond.resolve_right fun hsome => ?_
    obtain ⟨x, hx, hnumber⟩ := hsome
    exact hall x hx hnumber

/-- A number behind a length and one before it: the one before it is noticed. -/
theorem isInteger_iff_product :
    let ts : List Term := [.operand (.number 2.5), .operator .multiply,
      .operand (.dimension 3 .pixels), .operator .multiply, .operand (.number 1.5)]
    (ofInfix ts).isValid ∧ (∃ x ∈ leading (operands ts), x.kind = .number) ∧
      (∃ x ∈ trailing (operands ts), x.kind = .number) ∧ ¬(ofInfix ts).typing.isInteger := by
  intro ts
  have hbefore : ∃ x ∈ leading (operands ts), x.kind = .number :=
    ⟨.number 2.5, List.mem_cons_self, rfl⟩
  have hv : (ofInfix ts).isValid := rfl
  refine ⟨hv, hbefore, ⟨.number 1.5, List.mem_cons_of_mem _ List.mem_cons_self, rfl⟩, ?_⟩
  intro hinteger
  have hnone := ((isInteger_iff hv).2.mpr (.inr hbefore)).mp hinteger
  exact hnone (.number 2.5) List.mem_cons_self rfl

/-- Behind a length a number goes unnoticed, though before it, it does not. -/
theorem isInteger_length_number :
    let ts : List Term :=
      [.operand (.dimension 3 .pixels), .operator .multiply, .operand (.number 2.5)]
    (ofInfix ts).isValid ∧ (ofInfix ts).typing.isInteger ∧
      (∃ x ∈ operands ts, x.kind = .number) ∧ (ofInfix ts.reverse).typing.isInteger = false :=
  ⟨rfl, rfl, ⟨.number 2.5, List.mem_cons_of_mem _ List.mem_cons_self, rfl⟩, rfl⟩

section ValueType
variable (h : (ofInfix ts).isValid)
include h

theorem valueType_ofInfix :
    (ofInfix ts).typing.valueType =
      ((firstFamily? (operands ts)).map ValueType.dimension).getD
        (if (operands ts).all fun x => !x.isNumber then .integer else .number) := by
  rw [typing_ofInfix h, Typing.valueType]
  cases hfirst : firstFamily? (operands ts) with
  -- With no family at all, every operand counts as one before the first.
  | none => rw [leading_of_firstFamily? hfirst]
  | some d => rfl

theorem valueType_eq_dimension_iff {d : Dimension} :
    (ofInfix ts).typing.valueType = .dimension d ↔ firstFamily? (operands ts) = some d := by
  rw [valueType_ofInfix h]
  cases firstFamily? (operands ts) with
  | none => split <;> simp
  | some e => simp

theorem valueType_eq_integer_iff :
    (ofInfix ts).typing.valueType = .integer ↔
      (∀ x ∈ operands ts, x.family? = none) ∧ ∀ x ∈ operands ts, x.kind ≠ .number := by
  rw [valueType_ofInfix h, ← firstFamily?_eq_none_iff]
  cases firstFamily? (operands ts) with
  | none => simp [Operand.isNumber]
  | some d => simp

theorem valueType_eq_number_iff :
    (ofInfix ts).typing.valueType = .number ↔
      (∀ x ∈ operands ts, x.family? = none) ∧ ∃ x ∈ operands ts, x.kind = .number := by
  rw [valueType_ofInfix h, ← firstFamily?_eq_none_iff]
  cases firstFamily? (operands ts) with
  | none => simp [Operand.isNumber]
  | some d => simp

end ValueType

/-- The type of a valid calculation is its first family. Without one it is an integer or a number,
as there is a number among the operands or not; units outside the table are not asked. So the type
tells bare numbers from other operands exactly if a family makes up for every such unit. -/
theorem valueType_iff (h : (ofInfix ts).isValid) :
    let xs := operands ts
    let v := (ofInfix ts).typing.valueType
    (v = .integer ↔ (∀ x ∈ xs, x.family? = none) ∧ ∀ x ∈ xs, x.kind ≠ .number) ∧
      (v = .number ↔ (∀ x ∈ xs, x.family? = none) ∧ ∃ x ∈ xs, x.kind = .number) ∧
      (∀ d, v = .dimension d ↔ firstFamily? xs = some d) ∧
      ((v = .integer ↔ ∀ x ∈ xs, x.kind = .integer) ∧
          (v = .number ↔ (∀ x ∈ xs, x.isBare) ∧ ∃ x ∈ xs, x.kind = .number) ∧
          (v ≠ .integer ∧ v ≠ .number ↔ ∃ x ∈ xs, x.isPercentage ∨ ∃ u, x.kind = .dimension u) ↔
        (∃ x ∈ xs, ∃ d, x.family? = some d) ∨
          ∀ x ∈ xs, ∀ spelling, x.kind ≠ .dimension (.other spelling)) := by
  intro xs v
  have hinteger : v = .integer ↔ (∀ x ∈ xs, x.family? = none) ∧ ∀ x ∈ xs, x.kind ≠ .number :=
    valueType_eq_integer_iff h
  have hnumber : v = .number ↔ (∀ x ∈ xs, x.family? = none) ∧ ∃ x ∈ xs, x.kind = .number :=
    valueType_eq_number_iff h
  have hother : v ≠ .integer ∧ v ≠ .number ↔ ¬∀ x ∈ xs, x.family? = none := by
    rw [ValueType.not_bare_iff, ← firstFamily?_eq_none_iff, ← ne_eq, Option.ne_none_iff_exists']
    simp only [v, xs, valueType_eq_dimension_iff h]
  have hbare : (∀ x ∈ xs, x.isBare) → ∀ x ∈ xs, x.family? = none :=
    fun hall x hx => Operand.family?_eq_none_iff.mpr (.inl (hall x hx))
  refine ⟨hinteger, hnumber, fun d => valueType_eq_dimension_iff h, ?_⟩
  rw [hother, hinteger, hnumber, forall_integer_iff, exists_not_isBare_iff, bare_of_open_iff]
  constructor
  · intro hclaim hopen
    by_cases hall : ∀ x ∈ xs, x.isBare
    · exact hall
    · exact absurd hopen (hclaim.2.2.mpr hall)
  · intro himp
    have hiff : (∀ x ∈ xs, x.family? = none) ↔ ∀ x ∈ xs, x.isBare := ⟨himp, hbare⟩
    rw [hiff]
    exact ⟨Iff.rfl, Iff.rfl, Iff.rfl⟩

/-- A unit outside the table, and a percentage that makes up for it. -/
theorem valueType_iff_percentage :
    let ts : List Term := [.operand (.number 2.5), .operator .multiply,
      .operand (.dimension 3 (.other "foo")), .operator .add, .operand (.percentage 50)]
    (ofInfix ts).isValid ∧ (∃ x ∈ operands ts, x.kind = .dimension (.other "foo")) ∧
      (∃ x ∈ operands ts, ∃ d, x.family? = some d) ∧
      (ofInfix ts).typing.valueType = .dimension .length ∧
      (ofInfix ts).typing.valueType ≠ .integer ∧ (ofInfix ts).typing.valueType ≠ .number := by
  intro ts
  have hunit : ∃ x ∈ operands ts, x.kind = .dimension (.other "foo") :=
    ⟨.dimension 3 (.other "foo"), List.mem_cons_of_mem _ List.mem_cons_self, rfl⟩
  have hfamily : ∃ x ∈ operands ts, ∃ d, x.family? = some d :=
    ⟨.percentage 50, by simp [ts], .length, rfl⟩
  have hv : (ofInfix ts).isValid := rfl
  obtain ⟨-, -, hdimension, hkinds⟩ := valueType_iff hv
  obtain ⟨-, -, hother⟩ := hkinds.mpr (.inl hfamily)
  obtain ⟨x, hx, hkind⟩ := hunit
  exact ⟨hv, ⟨x, hx, hkind⟩, hfamily, (hdimension .length).mpr rfl,
    hother.mpr ⟨x, hx, .inr ⟨_, hkind⟩⟩⟩

/-- A unit outside the table alone passes for an integer. -/
theorem valueType_unknown_unit :
    let ts : List Term := [.operand (.dimension 1 (.other "foo"))]
    (ofInfix ts).isValid ∧ (ofInfix ts).typing.valueType = .integer ∧
      (∃ x ∈ operands ts, ∃ u, x.kind = .dimension u) ∧ ¬∀ x ∈ operands ts, x.kind = .integer :=
  ⟨rfl, rfl, ⟨_, List.mem_cons_self, _, rfl⟩, fun h => nomatch h _ List.mem_cons_self⟩

end Calculation

end CssMath
