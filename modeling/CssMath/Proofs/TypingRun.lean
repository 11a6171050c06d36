import CssMath.Proofs.Families

/-! The type of an expression while its operands are considered one by one, refused ones passed
over. Up to the first operand with a family only numbers count; that operand settles the type, and
nothing behind it changes the type again, though each unit is still compared with it. -/
namespace CssMath

theorem Operand.clash?_eq_some_iff {x : Operand} {d : Dimension} {m : TypeMismatch} :
    x.clash? (.dimension d) = some m ↔
      m.expected = .dimension d ∧ x.dimension? = some m.found ∧ m.found ≠ d := by
  obtain ⟨expected, found⟩ := m
  rw [clash?, Option.bind_eq_some_iff]
  constructor
  · intro h
    obtain ⟨e, he, hm⟩ := h
    split at hm
    · cases hm
    · rename_i hne
      obtain ⟨rfl, rfl⟩ := TypeMismatch.mk.inj (Option.some.inj hm)
      exact ⟨rfl, he, fun hd => hne (congrArg _ hd)⟩
  · intro h
    obtain ⟨rfl, hx, hne⟩ := h
    exact ⟨found, hx, if_neg fun hd => hne (ValueType.dimension.inj hd)⟩

def settledAt (xs : List Operand) : Nat := xs.findIdx fun x => x.family?.isSome

theorem family?_of_mem_take {xs : List Operand} {i : Nat} (hi : i ≤ settledAt xs) :
    ∀ x ∈ xs.take i, x.family? = none := by
  intro x hx
  obtain ⟨k, hk, rfl⟩ := List.mem_take_iff_getElem.mp hx
  have hlt : k < settledAt xs := by omega
  exact Option.isNone_iff_eq_none.mp (Option.isSome_eq_false_iff.mp (List.not_of_lt_findIdx hlt))

theorem exists_family?_settledAt {xs : List Operand} {x : Operand}
    (hx : xs[settledAt xs]? = some x) : ∃ d, x.family? = some d := by
  obtain ⟨hlt, rfl⟩ := List.getElem?_eq_some_iff.mp hx
  exact Option.isSome_iff_exists.mp (List.findIdx_getElem (w := hlt))

namespace Typing

def refusal? (t : Typing) (x : Operand) : Option TypeMismatch :=
  match t.consider x with
  | .ok _ => none
  | .error m => some m

def behind (xs : List Operand) (i : Nat) : Typing := (xs.take i).foldl next {}

def mismatchAt? (xs : List Operand) (i : Nat) : Option TypeMismatch :=
  xs[i]?.bind (behind xs i).refusal?

/-- How many changes the type has ahead at most: a number makes one, and so does a family. -/
def changesLeft (t : Typing) : Nat :=
  if t.resultType?.isSome then 0 else if t.isInteger then 2 else 1

section Step
variable {t : Typing} {v : ValueType}

theorem refusal?_open (h : t.resultType? = none) (x : Operand) : t.refusal? x = none := by
  rw [refusal?, consider_open h]

theorem refusal?_settled (h : t.resultType? = some v) (x : Operand) :
    t.refusal? x = x.clash? v := by
  rw [refusal?, consider_settled h]
  cases x.clash? v <;> rfl

theorem isInteger_of_next {x : Operand} (h : (t.next x).isInteger) : t.isInteger := by
  cases hv : t.resultType? with
  | some v => rwa [next_settled hv] at h
  | none =>
    rw [isInteger_next hv] at h
    exact (Bool.and_eq_true_iff.mp h).1

theorem next_eq_or_changesLeft_lt (t : Typing) (x : Operand) :
    t.next x = t ∨ (t.next x).changesLeft < t.changesLeft := by
  cases hv : t.resultType? with
  | some v => exact .inl (next_settled hv x)
  | none =>
    obtain ⟨resultType?, isInteger⟩ := t
    obtain rfl : resultType? = none := hv
    rw [next_open rfl]
    cases x.family? with
    | some d => cases isInteger <;> simp [changesLeft]
    | none => cases isInteger <;> cases x.isNumber <;> simp [changesLeft]

end Step

section Run
variable {xs : List Operand} {x : Operand} {d : Dimension} {i k : Nat}

theorem behind_succ (xs : List Operand) (i : Nat) :
    behind xs (i + 1) = xs[i]?.elim (behind xs i) (behind xs i).next := by
  rw [behind, List.take_add_one, List.foldl_append, behind]
  cases xs[i]? <;> rfl

theorem behind_open (hi : i ≤ settledAt xs) :
    behind xs i = ⟨none, (xs.take i).all fun x => !x.isNumber⟩ := by
  have hnone : firstFamily? (xs.take i) = none :=
    firstFamily?_eq_none_iff.mpr (family?_of_mem_take hi)
  rw [behind, foldl_next_open rfl, hnone, leading_of_firstFamily? hnone, Bool.true_and,
    Option.map_none]

theorem behind_settled (hx : xs[settledAt xs]? = some x) (hd : x.family? = some d)
    (hi : settledAt xs < i) : behind xs i =
      ⟨some (.dimension d), (behind xs (settledAt xs)).isInteger⟩ := by
  induction hi with
  | refl =>
    have hopen : (behind xs (settledAt xs)).resultType? = none := by
      rw [behind_open (Nat.le_refl _)]
    rw [behind_succ, hx, Option.elim_some, next_open hopen, hd, Option.map_some,
      Operand.isNumber_of_family? hd, Bool.not_false, Bool.and_true]
  | @step i _ ih =>
    rw [behind_succ, ih]
    cases xs[i]? with
    | none => rfl
    | some y => exact next_settled rfl y

theorem isInteger_of_behind (hik : i ≤ k) (h : (behind xs k).isInteger) :
    (behind xs i).isInteger := by
  induction hik with
  | refl => exact h
  | @step k _ ih =>
    rw [behind_succ] at h
    cases hx : xs[k]? with
    | none =>
      rw [hx] at h
      exact ih h
    | some x =>
      rw [hx] at h
      exact ih (isInteger_of_next h)

theorem countP_changes_le (xs : List Operand) (n : Nat) :
    (List.range n).countP (fun i => behind xs (i + 1) ≠ behind xs i) +
      (behind xs n).changesLeft ≤ 2 := by
  induction n with
  | zero => exact Nat.le_refl 2
  | succ n ih =>
    rw [List.range_succ, List.countP_append, List.countP_singleton, behind_succ]
    cases xs[n]? with
    | none => simpa using ih
    | some x =>
      rw [Option.elim_some]
      cases next_eq_or_changesLeft_lt (behind xs n) x with
      | inl hsame => simpa [hsame] using ih
      | inr hlt => split <;> omega

theorem mismatchAt?_eq_some_iff {m : TypeMismatch} :
    mismatchAt? xs i = some m ↔ settledAt xs < i ∧ ∃ x y d, xs[settledAt xs]? = some x ∧
      xs[i]? = some y ∧ x.family? = some d ∧ m.expected = .dimension d ∧
      y.dimension? = some m.found ∧ m.found ≠ d := by
  rw [mismatchAt?, Option.bind_eq_some_iff]
  constructor
  · intro h
    obtain ⟨y, hy, hm⟩ := h
    by_cases hi : settledAt xs < i
    · obtain ⟨hlt, -⟩ := List.getElem?_eq_some_iff.mp hy
      have hx : xs[settledAt xs]? = some xs[settledAt xs] :=
        List.getElem?_eq_getElem (Nat.lt_trans hi hlt)
      obtain ⟨d, hd⟩ := exists_family?_settledAt hx
      rw [refusal?_settled (v := .dimension d) (by rw [behind_settled hx hd hi]),
        Operand.clash?_eq_some_iff] at hm
      exact ⟨hi, _, y, d, hx, hy, hd, hm⟩
    · have hopen : (behind xs i).resultType? = none := by
        rw [behind_open (Nat.le_of_not_lt hi)]
      cases (refusal?_open hopen y).symm.trans hm
  · intro h
    obtain ⟨hi, x, y, d, hx, hy, hd, hm⟩ := h
    refine ⟨y, hy, ?_⟩
    rw [refusal?_settled (v := .dimension d) (by rw [behind_settled hx hd hi])]
    exact Operand.clash?_eq_some_iff.mpr hm

end Run

/-- As long as no operand with a family has come the type is open, and an integer unless a number
has come. The first such operand settles it: from then on the type is that family, and nothing of it
changes. A mismatch is reported behind that operand and only for a unit that measures something
else, with the family for what was expected. So the type changes at most twice, is never that of a
bare number, and is no integer again once it is not. -/
theorem behind_settles (xs : List Operand) :
    let j := settledAt xs
    (∀ i ≤ j, (behind xs i).resultType? = none ∧
      ((behind xs i).isInteger ↔ ∀ x ∈ xs.take i, x.kind ≠ .number)) ∧
    (∀ x, xs[j]? = some x → ∃ d, x.family? = some d ∧ ∀ i, j < i →
      (behind xs i).resultType? = some (.dimension d) ∧ behind xs i = behind xs (j + 1) ∧
        (behind xs i).isInteger = (behind xs j).isInteger) ∧
    (∀ i m, mismatchAt? xs i = some m ↔ j < i ∧ ∃ x y d, xs[j]? = some x ∧ xs[i]? = some y ∧
      x.family? = some d ∧ m.expected = .dimension d ∧ y.dimension? = some m.found ∧
      m.found ≠ d) ∧
    (∀ n, (List.range n).countP (fun i => behind xs (i + 1) ≠ behind xs i) ≤ 2) ∧
    (∀ i, (behind xs i).resultType? ≠ some .number ∧
      (behind xs i).resultType? ≠ some .integer) ∧
    ∀ i k, i ≤ k → (behind xs k).isInteger → (behind xs i).isInteger := by
  intro j
  refine ⟨?_, ?_, fun i m => mismatchAt?_eq_some_iff, ?_, ?_, fun i k => isInteger_of_behind⟩
  · intro i hi
    rw [behind_open hi]
    exact ⟨rfl, by simp [Operand.isNumber]⟩
  · intro x hx
    obtain ⟨d, hd⟩ := exists_family?_settledAt hx
    refine ⟨d, hd, fun i hi => ?_⟩
    rw [behind_settled hx hd hi, behind_settled hx hd (Nat.lt_succ_self j)]
    exact ⟨rfl, rfl, rfl⟩
  · intro n
    exact Nat.le_trans (Nat.le_add_right _ _) (countP_changes_le xs n)
  · intro i
    have hmeasured : (behind xs i).Measured := measured_foldl_next _
    constructor
    · intro hnumber
      obtain ⟨d, hd⟩ := hmeasured _ hnumber
      cases hd
    · intro hinteger
      obtain ⟨d, hd⟩ := hmeasured _ hinteger
      cases hd

/-- A percentage settles the type behind a number. The angle behind it is refused, and so is the
time after that, while the length between them is not. -/
theorem behind_settles_percentage :
    let xs : List Operand := [.number 2.5, .dimension 3 (.other "foo"), .percentage 50,
      .dimension 3 .degrees, .dimension 10 .pixels, .dimension 1 .seconds]
    settledAt xs = 2 ∧ xs[2]? = some (.percentage 50) ∧ (behind xs 2).resultType? = none ∧
      (behind xs 6).resultType? = some (.dimension .length) ∧ ¬(behind xs 6).isInteger ∧
      mismatchAt? xs 3 = some ⟨.dimension .length, .angle⟩ ∧ mismatchAt? xs 4 = none ∧
      mismatchAt? xs 5 = some ⟨.dimension .length, .time⟩ := by
  intro xs
  have hj : settledAt xs = 2 := rfl
  have hx : xs[settledAt xs]? = some (.percentage 50) := rfl
  obtain ⟨hopen, hsettled, hmismatch, -, -, hinteger⟩ := behind_settles xs
  obtain ⟨d, hd, hrun⟩ := hsettled _ hx
  obtain rfl : .length = d := Option.some.inj hd
  have hnumber : ¬(behind xs 2).isInteger := by
    rw [(hopen 2 (Nat.le_of_eq hj.symm)).2]
    exact fun hnone => hnone (.number 2.5) List.mem_cons_self rfl
  refine ⟨hj, hx, (hopen 2 (Nat.le_of_eq hj.symm)).1, (hrun 6 (by decide)).1,
    fun h => hnumber (hinteger 2 6 (by decide) h), ?_, ?_, ?_⟩
  · exact (hmismatch 3 _).mpr ⟨by decide, _, _, _, hx, rfl, rfl, rfl, rfl, nofun⟩
  · rfl
  · exact (hmismatch 5 _).mpr ⟨by decide, _, _, _, hx, rfl, rfl, rfl, rfl, nofun⟩

end Typing

end CssMath
