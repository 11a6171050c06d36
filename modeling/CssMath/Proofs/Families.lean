import CssMath.Proofs.Fault

/-! Families of operands. A percentage stands for a length, and an operand with a unit for what the
unit measures. The first operand with a family settles the type: before it only numbers count, which
are integers or not, and behind it nothing does but a unit that measures something else. -/
namespace CssMath

namespace Operand

/-- The dimension that an operand stands for: a percentage for a length, an operand with a unit for
what the unit measures. -/
def family? (x : Operand) : Option Dimension :=
  if x.isPercentage then some .length else x.dimension?

def isNumber (x : Operand) : Bool := x.kind = .number

/-- What is wrong with the operand once the result type is `v`. -/
def clash? (v : ValueType) (x : Operand) : Option TypeMismatch :=
  x.dimension?.bind fun e => if .dimension e = v then none else some ⟨v, e⟩

theorem dimension?_of_kind {x : Operand} (h : ∀ u, x.kind ≠ .dimension u) :
    x.dimension? = none := by
  have hunit : x.unit? = none := by
    rw [unit?]
    split
    · rename_i u hu
      exact absurd hu (h u)
    · rfl
  rw [dimension?, hunit, Option.bind_none]

theorem dimension?_of_isPercentage {x : Operand} (h : x.isPercentage) : x.dimension? = none := by
  have hkind : x.kind = .percentage := of_decide_eq_true h
  exact dimension?_of_kind fun u hu => by cases hkind.symm.trans hu

theorem family?_eq_some_iff {x : Operand} {d : Dimension} :
    x.family? = some d ↔ x.dimension? = some d ∨ x.isPercentage ∧ d = .length := by
  rw [family?]
  split
  · rename_i h
    rw [dimension?_of_isPercentage h]
    simp [h, eq_comm]
  · rename_i h
    simp [h]

theorem family?_of_dimension? {x : Operand} {d : Dimension} (h : x.dimension? = some d) :
    x.family? = some d := family?_eq_some_iff.mpr (.inl h)

theorem clash?_eq_none_iff {x : Operand} {d : Dimension} :
    x.clash? (.dimension d) = none ↔ ∀ e, x.dimension? = some e → e = d := by
  rw [clash?, Option.bind_eq_none_iff]
  simp

theorem clash?_of_family? {x : Operand} {d : Dimension} (h : ∀ e, x.family? = some e → e = d) :
    x.clash? (.dimension d) = none :=
  clash?_eq_none_iff.mpr fun e he => h e (family?_of_dimension? he)

theorem family?_of_isNumber {x : Operand} (h : x.isNumber) : x.family? = none := by
  have hkind : x.kind = .number := of_decide_eq_true h
  have hpercent : x.isPercentage = false := by rw [isPercentage, hkind]; rfl
  rw [family?, hpercent, if_neg Bool.false_ne_true]
  exact dimension?_of_kind fun u hu => by cases hkind.symm.trans hu

theorem isNumber_of_family? {x : Operand} {d : Dimension} (h : x.family? = some d) :
    x.isNumber = false := by
  rw [Bool.eq_false_iff]
  intro hnumber
  cases h.symm.trans (family?_of_isNumber hnumber)

end Operand

namespace Typing
variable {t ty : Typing} {v : ValueType}

theorem consider_open (h : t.resultType? = none) (x : Operand) :
    t.consider x = .ok ⟨x.family?.map .dimension, t.isInteger && !x.isNumber⟩ := by
  obtain ⟨resultType?, isInteger⟩ := t
  obtain rfl : resultType? = none := h
  obtain ⟨value, kind⟩ := x
  have hkeep : (isInteger && !false) = isInteger := Bool.and_true isInteger
  cases kind with
  | integer => rfl
  | number => rfl
  | percentage =>
    exact congrArg (fun b => (.ok ⟨some (.dimension .length), b⟩ : Except TypeMismatch Typing))
      hkeep.symm
  | dimension u =>
    have hfamily : (⟨value, .dimension u⟩ : Operand).family? = u.dimension? := rfl
    have hdimension : (⟨value, .dimension u⟩ : Operand).dimension? = u.dimension? := rfl
    have hnumber : (⟨value, .dimension u⟩ : Operand).isNumber = false := rfl
    rw [consider, hdimension, hfamily, hnumber, hkeep]
    cases u.dimension? <;> rfl

theorem consider_settled (h : t.resultType? = some v) (x : Operand) :
    t.consider x = (x.clash? v).elim (.ok t) .error := by
  rw [consider, h, Operand.clash?]
  cases x.dimension? with
  | none => rfl
  | some e =>
    dsimp only
    rw [Option.bind_some]
    split <;> rfl

/-- The mismatches that are reported while operands are considered one by one. A refused operand is
passed over. -/
def mismatches (t : Typing) : List Operand → List TypeMismatch
  | [] => []
  | x :: xs =>
    match t.consider x with
    | .ok t' => t'.mismatches xs
    | .error m => m :: t.mismatches xs

theorem next_open (h : t.resultType? = none) (x : Operand) :
    t.next x = ⟨x.family?.map .dimension, t.isInteger && !x.isNumber⟩ :=
  next_of_ok (consider_open h x)

theorem resultType?_next (h : t.resultType? = none) (x : Operand) :
    (t.next x).resultType? = x.family?.map .dimension := congrArg resultType? (next_open h x)

theorem isInteger_next (h : t.resultType? = none) (x : Operand) :
    (t.next x).isInteger = (t.isInteger && !x.isNumber) := congrArg isInteger (next_open h x)

theorem next_settled (h : t.resultType? = some v) (x : Operand) : t.next x = t := by
  rw [next, consider_settled h]
  cases x.clash? v <;> rfl

theorem mismatches_open (h : t.resultType? = none) (x : Operand) (xs : List Operand) :
    t.mismatches (x :: xs) = (t.next x).mismatches xs := by
  rw [mismatches, next_open h, consider_open h]

theorem foldlM_consider_iff {xs : List Operand} :
    xs.foldlM consider t = .ok ty ↔ t.mismatches xs = [] ∧ xs.foldl next t = ty := by
  induction xs generalizing t with
  | nil => exact ⟨fun h => ⟨rfl, Except.ok.inj h⟩, fun h => congrArg Except.ok h.2⟩
  | cons x xs ih =>
    rw [List.foldlM_cons, List.foldl_cons, mismatches]
    cases hx : t.consider x with
    | ok mid =>
      rw [next_of_ok hx]
      exact ih
    | error m => simp [bind, Except.bind]

theorem foldl_next_settled (h : t.resultType? = some v) (xs : List Operand) :
    xs.foldl next t = t := by
  induction xs with
  | nil => rfl
  | cons x xs ih => rw [List.foldl_cons, next_settled h, ih]

theorem mismatches_settled (h : t.resultType? = some v) (xs : List Operand) :
    t.mismatches xs = xs.filterMap (·.clash? v) := by
  induction xs with
  | nil => rfl
  | cons x xs ih =>
    rw [mismatches, consider_settled h, List.filterMap_cons]
    cases x.clash? v with
    | none => exact ih
    | some m => exact congrArg (m :: ·) ih

end Typing

def firstFamily? (xs : List Operand) : Option Dimension := xs.findSome? Operand.family?

def leading (xs : List Operand) : List Operand := xs.takeWhile (·.family?.isNone)

def trailing (xs : List Operand) : List Operand := xs.dropWhile (·.family?.isNone)

section Parts
variable {x : Operand} {xs : List Operand} {d : Dimension}

theorem firstFamily?_cons_of_none (h : x.family? = none) :
    firstFamily? (x :: xs) = firstFamily? xs := by
  rw [firstFamily?, List.findSome?_cons, h, firstFamily?]

theorem firstFamily?_cons_of_some (h : x.family? = some d) : firstFamily? (x :: xs) = some d := by
  rw [firstFamily?, List.findSome?_cons, h]

theorem leading_cons_of_none (h : x.family? = none) : leading (x :: xs) = x :: leading xs :=
  List.takeWhile_cons_of_pos (by rw [h]; rfl)

theorem leading_cons_of_some (h : x.family? = some d) : leading (x :: xs) = [] :=
  List.takeWhile_cons_of_neg (by rw [h]; exact Bool.false_ne_true)

theorem firstFamily?_eq_none_iff : firstFamily? xs = none ↔ ∀ x ∈ xs, x.family? = none :=
  List.findSome?_eq_none_iff

theorem leading_of_firstFamily? (h : firstFamily? xs = none) : leading xs = xs := by
  have hnone : ∀ x ∈ xs, x.family?.isNone = true := by
    intro x hx
    rw [firstFamily?_eq_none_iff.mp h x hx]
    rfl
  have htake : leading (xs ++ []) = xs ++ [] := List.takeWhile_append_of_pos hnone
  rw [List.append_nil] at htake
  exact htake

theorem exists_of_firstFamily? (h : firstFamily? xs = some d) : ∃ x ∈ xs, x.family? = some d :=
  List.exists_of_findSome?_eq_some h

theorem firstFamily?_filter_append {p : Operand → Bool} (hp : ∀ x ∈ xs, p x → x.family? = some d)
    (hx : x ∈ xs) (hpx : p x) (ys : List Operand) :
    firstFamily? (xs.filter p ++ ys) = some d := by
  have hmem : x ∈ xs.filter p := List.mem_filter.mpr ⟨hx, hpx⟩
  cases hfilter : xs.filter p with
  | nil => rw [hfilter] at hmem; cases hmem
  | cons y rest =>
    obtain ⟨hy, hpy⟩ := List.mem_filter.mp (hfilter ▸ List.mem_cons_self (a := y) (l := rest))
    exact firstFamily?_cons_of_some (hp y hy hpy)

end Parts

namespace Typing
variable {t : Typing}

/-- The type of any operands: the first family, and whether a number stands before it. -/
theorem foldl_next_open (h : t.resultType? = none) (xs : List Operand) :
    xs.foldl next t = ⟨(firstFamily? xs).map .dimension,
      t.isInteger && (leading xs).all fun x => !x.isNumber⟩ := by
  induction xs generalizing t with
  | nil =>
    obtain ⟨resultType?, isInteger⟩ := t
    obtain rfl : resultType? = none := h
    exact congrArg (Typing.mk none) (Bool.and_true isInteger).symm
  | cons x xs ih =>
    rw [List.foldl_cons]
    cases hx : x.family? with
    | none =>
      have hopen : (t.next x).resultType? = none := by rw [resultType?_next h, hx, Option.map_none]
      rw [ih hopen, isInteger_next h, firstFamily?_cons_of_none hx, leading_cons_of_none hx,
        List.all_cons, Bool.and_assoc]
    | some d =>
      have hsettled : (t.next x).resultType? = some (.dimension d) := by
        rw [resultType?_next h, hx, Option.map_some]
      rw [foldl_next_settled hsettled, next_open h, hx, firstFamily?_cons_of_some hx,
        leading_cons_of_some hx, Operand.isNumber_of_family? hx]
      rfl

theorem mismatches_eq (h : t.resultType? = none) (xs : List Operand) :
    t.mismatches xs =
      (firstFamily? xs).elim [] fun d => xs.filterMap (·.clash? (.dimension d)) := by
  induction xs generalizing t with
  | nil => rfl
  | cons x xs ih =>
    rw [mismatches_open h]
    cases hx : x.family? with
    | none =>
      have hopen : (t.next x).resultType? = none := by rw [resultType?_next h, hx, Option.map_none]
      have hclash (d : Dimension) : x.clash? (.dimension d) = none :=
        Operand.clash?_of_family? (by simp [hx])
      rw [ih hopen, firstFamily?_cons_of_none hx]
      simp only [List.filterMap_cons, hclash]
    | some d =>
      have hsettled : (t.next x).resultType? = some (.dimension d) := by
        rw [resultType?_next h, hx, Option.map_some]
      have hclash : x.clash? (.dimension d) = none := Operand.clash?_of_family? (by simp [hx])
      rw [mismatches_settled hsettled, firstFamily?_cons_of_some hx, Option.elim_some,
        List.filterMap_cons, hclash]

end Typing

end CssMath
