import CssMath.Proofs.Nesting
import CssMath.Proofs.Outcome

/-! Groups in place of operands. A balanced group goes through the scan as an operand does and
through the evaluation as a value does, whatever stands around it, balanced or not. -/
namespace CssMath
universe u
variable {α : Type}

inductive ErrorKind where
  | invalid | empty | stackUnderflow | leftoverOperands
  deriving DecidableEq

def EvalError.kind : EvalError → ErrorKind
  | invalid => .invalid
  | empty => .empty
  | stackUnderflow _ => .stackUnderflow
  | leftoverOperands _ => .leftoverOperands

namespace Strategy

/-- The strategy with `v` as the value of operand number `n`, counted from zero as they are met. -/
def overridden (s : Strategy Id α) (n : Nat) (v : α) : Strategy (StateM Nat) α where
  operand x := fun i => (if i = n then v else s.operand x, i + 1)
  operator left right o := pure (s.operator left right o)

theorem replay_block (s : Strategy Id α) {Q : List α} {p : Nat} {E : List Term} {v : α}
    (h : (s.replay Q p E).run = .ok v) (stack : List α) (position : Nat) (ts : List Term) :
    s.replay (Q ++ stack) position (E ++ ts) = s.replay (v :: stack) (position + E.length) ts := by
  induction E generalizing Q p position with
  | nil =>
    match Q with
    | [] => cases h
    | [_] =>
      obtain rfl := Except.ok.inj h
      rfl
    | _ :: _ :: Q => cases h
  | cons t E ih =>
    rw [List.length_cons, Nat.add_comm E.length, ← Nat.add_assoc]
    cases t with
    | operand x => exact ih (Q := s.operand x :: Q) h (position + 1)
    | operator o =>
      match Q with
      | [] => cases h
      | [_] => cases h
      | r :: l :: Q => exact ih (Q := s.operator l r o :: Q) h (position + 1)
    | other text =>
      rw [replay_other] at h
      cases h

theorem replay_kind (s : Strategy Id α) (stack : List α) (p q : Nat) (ts : List Term) :
    (s.replay stack p ts).run.mapError EvalError.kind =
      (s.replay stack q ts).run.mapError EvalError.kind := by
  induction ts generalizing stack p q with
  | nil =>
    rw [replay_nil, replay_nil]
    rfl
  | cons t ts ih =>
    cases t with
    | operand x => exact ih (s.operand x :: stack) (p + 1) (q + 1)
    | operator o =>
      match stack with
      | [] => rfl
      | [_] => rfl
      | r :: l :: stack => exact ih (s.operator l r o :: stack) (p + 1) (q + 1)
    | other text => rw [replay_other, replay_other]

theorem replay_overridden_operand (s : Strategy Id α) (n i : Nat) (v : α) (stack : List α)
    (position : Nat) (x : Operand) (ts : List Term) :
    (((s.overridden n v).replay stack position (.operand x :: ts)).run i).1 =
      (((s.overridden n v).replay ((if i = n then v else s.operand x) :: stack) (position + 1)
        ts).run (i + 1)).1 := rfl

theorem replay_overridden_behind (s : Strategy Id α) {n i : Nat} (hi : n < i) (v : α)
    (stack : List α) (position : Nat) (ts : List Term) :
    (((s.overridden n v).replay stack position ts).run i).1 = (s.replay stack position ts).run := by
  induction ts generalizing stack position i with
  | nil =>
    rw [replay_nil, replay_nil]
    rfl
  | cons t ts ih =>
    cases t with
    | operand x =>
      have hne : i ≠ n := by omega
      rw [replay_overridden_operand, if_neg hne, ih (by omega)]
      rfl
    | operator o =>
      match stack with
      | [] => rfl
      | [_] => rfl
      | r :: l :: stack => exact ih hi (s.operator l r o :: stack) (position + 1)
    | other text =>
      rw [replay_other, replay_other]
      rfl

/-- A block with the value `v` in place of an operand acts as the operand does with that value. The
induction is on the terms before it, which count the operands up to it. -/
theorem replay_substituted (s : Strategy Id α) {E : List Term} {v : α}
    (hE : (s.replay [] 0 E).run = .ok v) (x : Operand) (i : Nat) (stack : List α)
    (position : Nat) (us ts : List Term) :
    (s.replay stack position (us ++ (E ++ ts))).run.mapError EvalError.kind =
      (((s.overridden (i + (operands us).length) v).replay stack position
        (us ++ .operand x :: ts)).run i).1.mapError EvalError.kind := by
  induction us generalizing stack position i with
  | nil =>
    have hblock := s.replay_block hE stack position ts
    rw [List.nil_append] at hblock
    rw [List.nil_append, List.nil_append, hblock, replay_overridden_operand, operands_nil,
      List.length_nil, Nat.add_zero, if_pos rfl, s.replay_overridden_behind (Nat.lt_succ_self i)]
    exact s.replay_kind _ _ _ _
  | cons u us ih =>
    rw [List.cons_append, List.cons_append]
    cases u with
    | operand y =>
      have hne : i ≠ i + (operands (.operand y :: us)).length := by simp
      have hcount : i + (operands (.operand y :: us)).length = i + 1 + (operands us).length := by
        rw [operands_operand, List.length_cons]
        omega
      rw [replay_overridden_operand, if_neg hne, hcount]
      exact ih (i + 1) (s.operand y :: stack) (position + 1)
    | operator o =>
      match stack with
      | [] => rfl
      | [_] => rfl
      | r :: l :: stack => exact ih i (s.operator l r o :: stack) (position + 1)
    | other text =>
      rw [replay_other, replay_other]
      rfl

end Strategy

theorem arrange_operand (a b : List Term) (x : Operand) :
    arrange (a ++ .operand x :: b) = emitted [] a ++ .operand x :: drained (waiting [] a) b :=
  arrange_append a (.operand x :: b)

theorem arrange_append_group {e : List Term} (he : nesting 0 e = some 0) (a b : List Term) :
    arrange (a ++ group e ++ b) = emitted [] a ++ (arrange e ++ drained (waiting [] a) b) := by
  obtain ⟨hemit, hwait⟩ := arrange_group he (waiting [] a)
  rw [List.append_assoc, arrange_append, drained_append, hemit, hwait]

namespace Calculation

theorem ofInfix_group {e : List Term} (he : Balanced e) (hv : (ofInfix e).isValid) :
    ofInfix (group e) = ofInfix e := by
  obtain ⟨ty, hty⟩ := isValid_ofInfix_iff.mp hv
  have hgroup : Admitted {} (group e) ty := by
    refine ⟨native_group_iff.mpr hty.native, ?_⟩
    rw [operands_group]
    exact hty.agree
  have harrange := arrange_append_group (balanced_iff.mp he) [] []
  rw [ofInfix_of_admitted hty, ofInfix_of_admitted hgroup]
  simpa [emitted, waiting, drained] using harrange

theorem ofInfix_operand_group {a b : List Term} {x : Operand}
    (hv : (ofInfix (a ++ .operand x :: b)).isValid) :
    ofInfix (a ++ group [.operand x] ++ b) = ofInfix (a ++ .operand x :: b) := by
  obtain ⟨ty, hty⟩ := isValid_ofInfix_iff.mp hv
  obtain ⟨ha, hxb⟩ := List.forall_mem_append.mp hty.native
  obtain ⟨hx, hb⟩ := List.forall_mem_cons.mp hxb
  have hone : ∀ t ∈ [Term.operand x], t.isForeign = false := List.forall_mem_singleton.mpr hx
  have hag : ∀ t ∈ a ++ group [.operand x], t.isForeign = false :=
    List.forall_mem_append.mpr ⟨ha, native_group_iff.mpr hone⟩
  have hgroup : Admitted {} (a ++ group [.operand x] ++ b) ty :=
    ⟨List.forall_mem_append.mpr ⟨hag, hb⟩, by simpa using hty.agree⟩
  rw [ofInfix_of_admitted hty, ofInfix_of_admitted hgroup, arrange_append_group rfl,
    arrange_operand]
  rfl

/-- A balanced group stands in the postfix terms where an operand in its place would stand, and it
evaluates as that operand does with the value of the group, up to the positions and counts of
errors. -/
theorem group_substitution (a b e : List Term) (x : Operand) (he : Balanced e)
    (hve : (ofInfix e).isValid) (hvx : (ofInfix (a ++ .operand x :: b)).isValid)
    (hvg : (ofInfix (a ++ group e ++ b)).isValid) :
    (∃ u w, (ofInfix (a ++ .operand x :: b)).terms = u ++ .operand x :: w ∧
      operands u = operands a ∧
      (ofInfix (a ++ group e ++ b)).terms = u ++ (ofInfix e).terms ++ w) ∧
    (∀ {α : Type} (s : Strategy Id α) (v : α), ((ofInfix e).evaluate s).run = .ok v →
      ((ofInfix (a ++ group e ++ b)).evaluate s).run.mapError EvalError.kind =
        (((ofInfix (a ++ .operand x :: b)).evaluate
          (s.overridden (operands a).length v)).run 0).1.mapError EvalError.kind) ∧
    ofInfix (group e) = ofInfix e ∧
    ofInfix (a ++ group [.operand x] ++ b) = ofInfix (a ++ .operand x :: b) := by
  have hu : operands (emitted [] a) = operands a := operands_emitted [] a
  have hx := arrange_operand a b x
  have hg := arrange_append_group (balanced_iff.mp he) a b
  refine ⟨⟨emitted [] a, drained (waiting [] a) b, ?_, hu, ?_⟩, ?_, ofInfix_group he hve,
    ofInfix_operand_group hvx⟩
  · rw [terms_ofInfix hvx, hx]
  · rw [terms_ofInfix hvg, terms_ofInfix hve, hg, List.append_assoc]
  · intro α s v hv
    rw [evaluate_of_isValid hve, terms_ofInfix hve] at hv
    have h := s.replay_substituted hv x 0 [] 0 (emitted [] a) (drained (waiting [] a) b)
    rw [evaluate_of_isValid hvg, evaluate_of_isValid hvx, terms_ofInfix hvg, terms_ofInfix hvx,
      hx, hg]
    rw [hu, Nat.zero_add] at h
    exact h

/-- The operand is the left one of a product in a group that is not closed. -/
theorem group_substitution_unclosed :
    let a : List Term := [.operand (.integer 2), .operator .multiply, .operator .openParen]
    let b : List Term := [.operator .multiply, .operand (.integer 4)]
    let e : List Term := [.operand (.integer 3), .operator .subtract] ++
      group [.operand (.integer 1), .operator .add, .operand (.integer 1)]
    let s : Strategy Id Nat := ⟨fun _ => 1, fun left right _ => left + right⟩
    Balanced e ∧ (ofInfix e).isValid ∧
      (ofInfix (a ++ .operand (.integer 5) :: b)).isValid ∧ (ofInfix (a ++ group e ++ b)).isValid ∧
      ((ofInfix e).evaluate s).run = .ok 3 ∧
      ((ofInfix (a ++ group e ++ b)).evaluate s).run.mapError EvalError.kind =
        (((ofInfix (a ++ .operand (.integer 5) :: b)).evaluate
          (s.overridden 1 3)).run 0).1.mapError EvalError.kind := by
  intro a b e s
  have he : Balanced e := by decide
  have h := group_substitution a b e (.integer 5) he rfl rfl rfl
  exact ⟨he, rfl, rfl, rfl, rfl, h.2.1 s 3 rfl⟩

end Calculation

end CssMath
