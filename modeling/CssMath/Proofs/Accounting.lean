import CssMath.Proofs.Nesting
import CssMath.Proofs.Tree

/-! What becomes of the operators. A scan emits each binary operator once, between reading it and
the end, and it never emits a closing parenthesis; so the postfix terms of a balanced list have its
binary operators and no others. -/
namespace CssMath

def Term.operator? : Term → Option Operator
  | .operator o => some o
  | _ => none

def operators (ts : List Term) : List Operator := ts.filterMap Term.operator?

@[simp] theorem operators_nil : operators [] = [] := rfl

@[simp] theorem operators_operand (x : Operand) (ts : List Term) :
    operators (.operand x :: ts) = operators ts := rfl

@[simp] theorem operators_operator (o : Operator) (ts : List Term) :
    operators (.operator o :: ts) = o :: operators ts := rfl

@[simp] theorem operators_append (ts us : List Term) :
    operators (ts ++ us) = operators ts ++ operators us := List.filterMap_append

@[simp] theorem operators_map (os : List Operator) : operators (os.map .operator) = os := by
  induction os with
  | nil => rfl
  | cons o os ih => rw [List.map_cons, operators_operator, ih]

theorem mem_operators_iff {o : Operator} {ts : List Term} :
    o ∈ operators ts ↔ .operator o ∈ ts := by
  constructor
  · intro h
    obtain ⟨t, ht, ho⟩ := List.mem_filterMap.mp h
    cases t with
    | operator o' =>
      obtain rfl := Option.some.inj ho
      exact ht
    | operand x => cases ho
    | other text => cases ho
  · intro h
    exact List.mem_filterMap.mpr ⟨_, h, rfl⟩

theorem excess_eq_sub (ts : List Term) :
    excess ts = ((operands ts).length : Int) - (operators ts).length := by
  induction ts with
  | nil => rfl
  | cons t ts ih =>
    have hts : excess (t :: ts) = excess [t] + excess ts := excess_append [t] ts
    rw [hts, ih]
    cases t with
    | operand x =>
      have hx : excess [.operand x] = 1 := rfl
      simp only [hx, operands_operand, operators_operand, List.length_cons]
      omega
    | operator o =>
      have ho : excess [.operator o] = -1 := rfl
      simp only [ho, operands_operator, operators_operator, List.length_cons]
      omega
    | other text =>
      have hother : excess [.other text] = 0 := rfl
      rw [hother, Int.zero_add]
      rfl

namespace Term
variable {q : Operator → Bool}

theorem leaves_closeParen_of_not_mem {P : List Operator} (hP : .openParen ∉ P) :
    (operator .closeParen).leaves P = [] ∧ (operator .closeParen).emits P = P.map operator := by
  have hall := closeParen_expels hP
  have hdrop : (P ++ []).dropWhile Operator.closeParen.expels = [] :=
    List.dropWhile_append_of_pos hall
  have htake : (P ++ []).takeWhile Operator.closeParen.expels = P ++ [] :=
    List.takeWhile_append_of_pos hall
  rw [List.append_nil] at hdrop htake
  exact ⟨by rw [leaves, hdrop, List.tail_nil], by rw [emits, htake]⟩

/-- One term: what is emitted and what waits behind it is what waited before, with the term. -/
theorem countP_leaves (hopen : q .openParen = false) (hclose : q .closeParen = false)
    (P : List Operator) (t : Term) :
    (operators (t.emits P)).countP q + (t.leaves P).countP q =
      P.countP q + (operators [t]).countP q := by
  cases t with
  | operand x => simp [emits, leaves]
  | other text => simp [emits, leaves, operators, operator?]
  | operator o =>
    by_cases ho : o = .closeParen
    · subst ho
      by_cases hP : .openParen ∈ P
      · obtain ⟨Q, R, rfl, hQ⟩ := List.eq_append_cons_of_mem hP
        rw [emits_closeParen hQ, leaves_closeParen hQ]
        simp [hopen, hclose]
      · obtain ⟨hleave, hemit⟩ := leaves_closeParen_of_not_mem hP
        rw [hleave, hemit]
        simp [hclose]
    · have hparts : P.countP q =
          (P.takeWhile o.expels).countP q + (P.dropWhile o.expels).countP q := by
        rw [← List.countP_append, List.takeWhile_append_dropWhile]
      rw [leaves_operator ho, emits, operators_map, operators_operator, operators_nil, hparts,
        List.countP_cons, List.countP_singleton]
      omega

theorem closeParen_not_mem_leaves {P : List Operator} (hP : .closeParen ∉ P) (t : Term) :
    .closeParen ∉ t.leaves P := by
  cases t with
  | operand x => exact hP
  | other text => exact hP
  | operator o =>
    by_cases ho : o = .closeParen
    · subst ho
      intro h
      exact hP ((List.dropWhile_subset _) (List.mem_of_mem_tail h))
    · rw [leaves_operator ho]
      intro h
      cases h with
      | head => exact ho rfl
      | tail _ h => exact hP (List.dropWhile_subset _ h)

theorem isBinary_of_mem_emits {P : List Operator} (hP : .closeParen ∉ P) (t : Term) :
    ∀ o ∈ operators (t.emits P), o.isBinary := by
  cases t with
  | operand x => simp [emits]
  | other text => simp [emits]
  | operator o =>
    intro top htop
    rw [emits, operators_map] at htop
    have hexp : o.expels top = true := List.all_eq_true.mp List.all_takeWhile top htop
    have hclose : top ≠ .closeParen := fun h => hP (h ▸ List.takeWhile_subset _ htop)
    have hopen : top ≠ .openParen := by
      intro h
      rw [h, o.expels_openParen] at hexp
      cases hexp
    exact Operator.isBinary_iff.mpr ⟨hopen, hclose⟩

end Term

section Runs
variable {q : Operator → Bool}

theorem countP_emitted (hopen : q .openParen = false) (hclose : q .closeParen = false)
    (P : List Operator) (ts : List Term) :
    (operators (emitted P ts)).countP q + (waiting P ts).countP q =
      P.countP q + (operators ts).countP q := by
  induction ts generalizing P with
  | nil => simp [emitted, waiting]
  | cons t ts ih =>
    have hstep := t.countP_leaves hopen hclose P
    have hrest := ih (t.leaves P)
    have hts : operators (t :: ts) = operators [t] ++ operators ts := operators_append [t] ts
    rw [emitted, waiting, operators_append, hts, List.countP_append, List.countP_append]
    omega

theorem countP_arrange (hopen : q .openParen = false) (hclose : q .closeParen = false)
    (ts : List Term) : (operators (arrange ts)).countP q = (operators ts).countP q := by
  have h := countP_emitted hopen hclose [] ts
  rw [arrange, drained, operators_append, operators_map, List.countP_append, h]
  exact Nat.zero_add _

theorem closeParen_not_mem_waiting {P : List Operator} (hP : .closeParen ∉ P) (ts : List Term) :
    .closeParen ∉ waiting P ts := by
  induction ts generalizing P with
  | nil => exact hP
  | cons t ts ih => exact ih (t.closeParen_not_mem_leaves hP)

theorem isBinary_of_mem_emitted {P : List Operator} (hP : .closeParen ∉ P) (ts : List Term) :
    ∀ o ∈ operators (emitted P ts), o.isBinary := by
  induction ts generalizing P with
  | nil => simp [emitted]
  | cons t ts ih =>
    intro o ho
    rw [emitted, operators_append] at ho
    cases List.mem_append.mp ho with
    | inl h => exact t.isBinary_of_mem_emits hP o h
    | inr h => exact ih (t.closeParen_not_mem_leaves hP) o h

end Runs

theorem closeParen_not_mem_arrange (ts : List Term) : .closeParen ∉ operators (arrange ts) := by
  rw [arrange, drained, operators_append, operators_map]
  intro h
  cases List.mem_append.mp h with
  | inl hemit => cases isBinary_of_mem_emitted (by simp) ts _ hemit
  | inr hwait => exact closeParen_not_mem_waiting (by simp) ts hwait

theorem isBinary_of_mem_arrange {ts : List Term} (h : nesting 0 ts = some 0) :
    ∀ o ∈ operators (arrange ts), o.isBinary := by
  intro o ho
  have hclose : o ≠ .closeParen := fun he => closeParen_not_mem_arrange ts (he ▸ ho)
  rw [arrange, drained, operators_append, operators_map] at ho
  cases List.mem_append.mp ho with
  | inl h => exact isBinary_of_mem_emitted (by simp) ts o h
  | inr hwait =>
    obtain ⟨-, -, hcount⟩ := waiting_framed (Q := []) h []
    have hopen : o ≠ .openParen := fun he => List.count_eq_zero.mp hcount (he ▸ hwait)
    exact Operator.isBinary_iff.mpr ⟨hopen, hclose⟩

def binaries (ts : List Term) : Nat := (operators ts).countP Operator.isBinary

@[simp] theorem binaries_append (ts us : List Term) :
    binaries (ts ++ us) = binaries ts + binaries us := by
  rw [binaries, operators_append, List.countP_append, binaries, binaries]

/-- How many values the postfix terms of a balanced list leave, read off the infix terms. -/
theorem excess_arrange {ts : List Term} (h : nesting 0 ts = some 0) :
    excess (arrange ts) = ((operands ts).length : Int) - binaries ts := by
  have hall := List.countP_eq_length.mpr (isBinary_of_mem_arrange h)
  rw [excess_eq_sub, operands_arrange, ← hall, countP_arrange rfl rfl, binaries]

end CssMath
