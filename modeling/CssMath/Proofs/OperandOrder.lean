import CssMath.Proofs.Families

/-! The order of operands. Behind the first family a percentage is no longer asked for its own; so
the order decides whether a percentage may stand beside an angle, and decides nothing else. -/
namespace CssMath

/-- No mismatch is reported when the operands are considered in this order. -/
def Accepted (xs : List Operand) : Prop := ({} : Typing).mismatches xs = []

def OneFamily (xs : List Operand) : Prop :=
  ∀ x ∈ xs, ∀ y ∈ xs, ∀ d e, x.family? = some d → y.family? = some e → d = e

/-- A percentage among units that all measure one dimension, which is not length. -/
def StrayPercentage (xs : List Operand) : Prop :=
  (∃ x ∈ xs, x.isPercentage) ∧ ∃ d, d ≠ .length ∧ (∃ x ∈ xs, x.dimension? = some d) ∧
    ∀ x ∈ xs, ∀ e, x.dimension? = some e → e = d

section Order
variable {xs ys : List Operand}

theorem accepted_iff :
    Accepted xs ↔
      ∀ d, firstFamily? xs = some d → ∀ x ∈ xs, ∀ e, x.dimension? = some e → e = d := by
  rw [Accepted, Typing.mismatches_eq rfl]
  cases firstFamily? xs with
  | none => simp
  | some d => simp [Operand.clash?_eq_none_iff]

theorem OneFamily.accepted (h : OneFamily xs) (hys : ys ⊆ xs) : Accepted ys := by
  rw [accepted_iff]
  intro d hd x hx e he
  obtain ⟨y, hy, hfamily⟩ := exists_of_firstFamily? hd
  exact h x (hys hx) y (hys hy) e d (Operand.family?_of_dimension? he) hfamily

theorem Accepted.oneFamily_or_strayPercentage (h : Accepted xs) :
    OneFamily xs ∨ StrayPercentage xs := by
  rw [accepted_iff] at h
  cases hfirst : firstFamily? xs with
  | none =>
    have hnone := firstFamily?_eq_none_iff.mp hfirst
    exact .inl fun x hx y hy d e hd he => by cases (hnone x hx).symm.trans hd
  | some d =>
    have hunits := h d hfirst
    -- Unless it is length, the first family is that of a unit, and every percentage is stray.
    by_cases hstray : d ≠ .length ∧ ∃ x ∈ xs, x.isPercentage
    · obtain ⟨hne, hpercent⟩ := hstray
      obtain ⟨x, hx, hfamily⟩ := exists_of_firstFamily? hfirst
      have hunit : x.dimension? = some d :=
        (Operand.family?_eq_some_iff.mp hfamily).resolve_right fun hx => hne hx.2
      exact .inr ⟨hpercent, d, hne, ⟨x, hx, hunit⟩, hunits⟩
    · have hall : ∀ x ∈ xs, ∀ e, x.family? = some e → e = d := by
        intro x hx e he
        cases Operand.family?_eq_some_iff.mp he with
        | inl hunit => exact hunits x hx e hunit
        | inr hpercent =>
          obtain ⟨hpercent, rfl⟩ := hpercent
          by_cases hd : d = .length
          · exact hd.symm
          · exact absurd ⟨hd, x, hx, hpercent⟩ hstray
      exact .inl fun x hx y hy e e' he he' => (hall x hx e he).trans (hall y hy e' he').symm

namespace StrayPercentage

theorem exists_accepted (h : StrayPercentage xs) : ∃ ys, ys.Perm xs ∧ Accepted ys := by
  obtain ⟨-, d, -, ⟨x, hx, hd⟩, hunits⟩ := h
  have hfamily : ∀ x ∈ xs, x.dimension?.isSome → x.family? = some d := by
    intro x hx hsome
    obtain ⟨e, he⟩ := Option.isSome_iff_exists.mp hsome
    rw [← hunits x hx e he]
    exact Operand.family?_of_dimension? he
  have hperm := List.filter_append_perm (fun x : Operand => x.dimension?.isSome) xs
  refine ⟨_, hperm, accepted_iff.mpr ?_⟩
  rw [firstFamily?_filter_append hfamily hx (by rw [hd]; rfl)]
  intro e he y hy e' he'
  rw [← Option.some.inj he]
  exact hunits y (hperm.subset hy) e' he'

theorem exists_refused (h : StrayPercentage xs) : ∃ ys, ys.Perm xs ∧ ¬Accepted ys := by
  obtain ⟨⟨x, hx, hpercent⟩, d, hne, ⟨y, hy, hd⟩, -⟩ := h
  have hfamily : ∀ x ∈ xs, x.isPercentage → x.family? = some .length :=
    fun x _ hx => Operand.family?_eq_some_iff.mpr (.inr ⟨hx, rfl⟩)
  have hperm := List.filter_append_perm Operand.isPercentage xs
  refine ⟨_, hperm, fun haccepted => hne ?_⟩
  have hfirst := firstFamily?_filter_append hfamily hx hpercent
  exact accepted_iff.mp haccepted _ (hfirst _) y (hperm.symm.subset hy) d hd

theorem perm (h : StrayPercentage ys) (hys : ys.Perm xs) : StrayPercentage xs := by
  obtain ⟨⟨x, hx, hpercent⟩, d, hne, ⟨y, hy, hd⟩, hunits⟩ := h
  exact ⟨⟨x, hys.subset hx, hpercent⟩, d, hne, ⟨y, hys.subset hy, hd⟩,
    fun x hx => hunits x (hys.symm.subset hx)⟩

end StrayPercentage

theorem OneFamily.perm (h : OneFamily ys) (hys : ys.Perm xs) : OneFamily xs :=
  fun x hx y hy => h x (hys.symm.subset hx) y (hys.symm.subset hy)

theorem accepted_iff_oneFamily (h : ¬StrayPercentage xs) (hys : ys.Perm xs) :
    Accepted ys ↔ OneFamily xs := by
  constructor
  · intro haccepted
    cases haccepted.oneFamily_or_strayPercentage with
    | inl hone => exact hone.perm hys
    | inr hstray => exact absurd (hstray.perm hys) h
  · exact fun hone => hone.accepted hys.subset

theorem OneFamily.resultType?_eq (h : OneFamily xs) (hys : ys.Perm xs) :
    (∀ x ∈ xs, ∀ d, x.family? = some d →
      (ys.foldl Typing.next {}).resultType? = some (.dimension d)) ∧
    ((∀ x ∈ xs, x.family? = none) → (ys.foldl Typing.next {}).resultType? = none) := by
  rw [Typing.foldl_next_open rfl]
  constructor
  · intro x hx d hd
    cases hfirst : firstFamily? ys with
    | none => cases (firstFamily?_eq_none_iff.mp hfirst x (hys.symm.subset hx)).symm.trans hd
    | some e =>
      obtain ⟨y, hy, he⟩ := exists_of_firstFamily? hfirst
      rw [h x hx y (hys.subset hy) d e hd he]
      rfl
  · intro hnone
    have hfirst := firstFamily?_eq_none_iff.mpr fun y hy => hnone y (hys.subset hy)
    rw [hfirst]
    rfl

end Order

namespace Calculation

theorem isValid_ofInfix_iff_accepted {ts : List Term} (hts : ∀ t ∈ ts, t.isForeign = false) :
    (ofInfix ts).isValid ↔ Accepted (operands ts) := by
  rw [isValid_ofInfix_iff, Accepted]
  constructor
  · intro h
    obtain ⟨ty, hty⟩ := h
    exact (Typing.foldlM_consider_iff.mp hty.agree).1
  · intro h
    exact ⟨_, hts, Typing.foldlM_consider_iff.mpr ⟨h, rfl⟩⟩

/-- Operands in any order are accepted exactly if they are of one family, and then have it for their
type, unless a percentage stands among units that are no lengths. If one does, some orders are
accepted and some are refused. The same holds of terms: whether they are valid depends on the order
of their operands only if there is a stray percentage. -/
theorem accepted_perm_iff (xs : List Operand) :
    (Accepted xs ↔
      ∀ d, firstFamily? xs = some d → ∀ x ∈ xs, ∀ e, x.dimension? = some e → e = d) ∧
    ((∀ ys, ys.Perm xs → (Accepted ys ↔ OneFamily xs)) ↔ ¬StrayPercentage xs) ∧
    ((∀ ys, ys.Perm xs → (Accepted ys ↔ Accepted xs)) ↔ ¬StrayPercentage xs) ∧
    (OneFamily xs → ∀ ys, ys.Perm xs → Accepted ys ∧
      (∀ x ∈ xs, ∀ d, x.family? = some d →
        (ys.foldl Typing.next {}).resultType? = some (.dimension d)) ∧
      ((∀ x ∈ xs, x.family? = none) → (ys.foldl Typing.next {}).resultType? = none)) ∧
    ∀ ts, (∀ t ∈ ts, t.isForeign = false) → operands ts = xs →
      ((∀ us, (∀ t ∈ us, t.isForeign = false) → (operands us).Perm xs →
        ((ofInfix us).isValid ↔ (ofInfix ts).isValid)) ↔ ¬StrayPercentage xs) := by
  have horder {P : Prop} : (∀ ys, ys.Perm xs → (Accepted ys ↔ P)) → ¬StrayPercentage xs := by
    intro h hstray
    obtain ⟨ys, hys, haccepted⟩ := hstray.exists_accepted
    obtain ⟨zs, hzs, hrefused⟩ := hstray.exists_refused
    exact hrefused ((h zs hzs).mpr ((h ys hys).mp haccepted))
  have hsame (h : ¬StrayPercentage xs) {ys zs : List Operand} (hys : ys.Perm xs)
      (hzs : zs.Perm xs) : Accepted ys ↔ Accepted zs :=
    (accepted_iff_oneFamily h hys).trans (accepted_iff_oneFamily h hzs).symm
  refine ⟨accepted_iff, ⟨horder, fun h ys hys => accepted_iff_oneFamily h hys⟩,
    ⟨horder, fun h ys hys => hsame h hys (List.Perm.refl xs)⟩,
    fun h ys hys => ⟨h.accepted hys.subset, h.resultType?_eq hys⟩, ?_⟩
  intro ts hts hxs
  constructor
  · intro h
    apply horder (P := (ofInfix ts).isValid)
    intro ys hys
    -- Operands alone make terms enough: their validity asks for nothing else.
    have hnative : ∀ t ∈ ys.map Term.operand, t.isForeign = false := by simp [Term.isForeign]
    have hvalid := h _ hnative (by rw [operands_map]; exact hys)
    rw [isValid_ofInfix_iff_accepted hnative, operands_map] at hvalid
    exact hvalid
  · intro h us hus hperm
    rw [isValid_ofInfix_iff_accepted hus, isValid_ofInfix_iff_accepted hts]
    exact hsame h hperm (by rw [hxs])

/-- Behind an angle a percentage is passed over; before it, it is a length, and the angle is
refused. -/
theorem accepted_angle_percentage :
    let xs : List Operand := [.dimension 3 .degrees, .percentage 50]
    let ys : List Operand := [.percentage 50, .dimension 3 .degrees]
    ys.Perm xs ∧ Accepted xs ∧ ¬Accepted ys ∧ ¬OneFamily xs ∧
      ({} : Typing).mismatches ys = [⟨.dimension .length, .angle⟩] ∧
      (ofInfix [.operand (.dimension 3 .degrees), .operator .add,
        .operand (.percentage 50)]).isValid ∧
      ¬(ofInfix [.operand (.percentage 50), .operator .add,
        .operand (.dimension 3 .degrees)]).isValid := by
  intro xs ys
  have hrefused : ({} : Typing).mismatches ys = [⟨.dimension .length, .angle⟩] := rfl
  have hperm : ys.Perm xs := List.Perm.swap _ _ _
  refine ⟨hperm, rfl, ?_, fun hone => ?_, hrefused, rfl, nofun⟩
  · intro haccepted
    cases hrefused.symm.trans haccepted
  · cases hrefused.symm.trans (hone.accepted hperm.subset)

end Calculation

end CssMath
