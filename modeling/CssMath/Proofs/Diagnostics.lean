import CssMath.Evaluation.Numeric
import CssMath.Proofs.Outcome
import CssMath.Proofs.Conservation

/-! What a numeric evaluation reports. It comes to the terms before its end and to no other, and of
these only the open parentheses that are never closed have no meaning; so the terms and the way in
which the evaluation ends tell how often it reports. What happens to the reports has no part in the
value. -/
namespace CssMath
variable {σ : Type}

def alerted (report : Diagnostic → StateM σ PUnit) (st : σ) : σ :=
  ((report (.unknownOperator .openParen)).run st).2

/-- How many parentheses an evaluation of the infix terms has come to that ends so. -/
def encountered {α : Type} (ts : List Term) : Except EvalError α → Nat
  | .error .invalid => 0
  | .error (.stackUnderflow position) =>
    ((Calculation.ofInfix ts).terms.take position).countP Term.isOpening
  | _ => unclosed 0 ts

theorem iterate_countP_append (f : σ → σ) (p : Term → Bool) (ts us : List Term) (st : σ) :
    f^[(ts ++ us).countP p] st = f^[us.countP p] (f^[ts.countP p] st) := by
  rw [List.countP_append, Nat.add_comm, Function.iterate_add_apply]

theorem iterate_push {α : Type} (a : α) (n : Nat) (as : Array α) :
    ((·.push a)^[n] as).toList = as.toList ++ List.replicate n a := by
  induction n generalizing as with
  | zero => exact (List.append_nil _).symm
  | succ n ih =>
    rw [Function.iterate_succ_apply, ih, Array.toList_push, List.replicate_succ, List.append_assoc,
      List.singleton_append]

namespace Strategy

def reporting (ctx : LengthContext) (report : Diagnostic → StateM σ PUnit) :
    Strategy (StateM σ) Float :=
  numeric (fun x => pure (ctx.resolveOperand x)) report

variable {ctx : LengthContext} {report : Diagnostic → StateM σ PUnit}

theorem operand_reporting (x : Operand) (st : σ) :
    ((reporting ctx report).operand x).run st = (((silent ctx).operand x).run, st) := by
  rw [reporting, silent, numeric, numeric]
  dsimp only
  split <;> rfl

theorem operator_reporting (left right : Float) {o : Operator} (ho : o ≠ .closeParen) (st : σ) :
    ((reporting ctx report).operator left right o).run st =
      (((silent ctx).operator left right o).run,
        (alerted report)^[[Term.operator o].countP Term.isOpening] st) := by
  cases o with
  | closeParen => exact absurd rfl ho
  | _ => rfl

theorem fold_reporting {t : Tree} (ht : ∀ u ∈ t.postorder, u.isClosing = false) (st : σ) :
    (t.fold (reporting ctx report)).run st =
      ((t.fold (silent ctx)).run,
        (alerted report)^[t.postorder.countP Term.isOpening] st) := by
  induction t generalizing st with
  | leaf x => exact operand_reporting x st
  | node left right o ihl ihr =>
    simp only [Tree.postorder, List.forall_mem_append] at ht
    obtain ⟨⟨hleft, hright⟩, ho⟩ := ht
    have hclose : o ≠ .closeParen := by
      rintro rfl
      cases ho _ List.mem_cons_self
    simp only [Tree.fold, StateT.run_bind, ihl hleft, ihr hright, operator_reporting _ _ hclose,
      Tree.postorder, iterate_countP_append]
    rfl

theorem values_reporting {G : List Tree} (hG : ∀ u ∈ Tree.listing G, u.isClosing = false)
    (st : σ) :
    (Tree.values (reporting ctx report) G).run st =
      ((Tree.values (silent ctx) G).run,
        (alerted report)^[(Tree.listing G).countP Term.isOpening] st) := by
  induction G with
  | nil => rfl
  | cons t G ih =>
    simp only [Tree.listing, List.forall_mem_append] at hG
    obtain ⟨hrest, ht⟩ := hG
    simp only [Tree.values, StateT.run_bind, ih hrest, fold_reporting ht, Tree.listing,
      iterate_countP_append]
    rfl

end Strategy

namespace Calculation
variable {ts us : List Term} {G : List Tree}

theorem encountered_halt {α : Type} (hv : (ofInfix ts).isValid)
    (h : Split (ofInfix ts).terms G us) (vs : List α) :
    encountered ts (halt vs (Tree.listing G).length us) =
      (Tree.listing G).countP Term.isOpening := by
  cases us with
  | cons u us => rw [halt, encountered, h.eq, List.take_left]
  | nil =>
    have hall : (Tree.listing G).countP Term.isOpening = unclosed 0 ts := by
      rw [← List.append_nil (Tree.listing G), ← h.eq, terms_ofInfix hv, countP_isOpening_operators,
        count_openParen_arrange]
    rw [hall]
    obtain _ | ⟨v, _ | ⟨w, vs⟩⟩ := vs <;> rfl

theorem evaluate_reporting (ctx : LengthContext) (report : Diagnostic → StateM σ PUnit)
    (ts : List Term) (st : σ) :
    let alone := ((ofInfix ts).evaluate (.silent ctx)).run
    ((ofInfix ts).evaluate (.reporting ctx report)).run st =
      (alone, (alerted report)^[encountered ts alone] st) := by
  intro alone
  by_cases hv : (ofInfix ts).isValid
  · obtain ⟨G, us, hsplit⟩ :=
      Split.exists_of_native (terms_ofInfix hv ▸ arrange_not_foreign ts)
    have hclosing : ∀ u ∈ Tree.listing G, u.isClosing = false := by
      intro u hu
      refine arrange_not_closing ts u ?_
      rw [← terms_ofInfix hv, hsplit.eq]
      exact List.mem_append_left us hu
    have halone : alone = halt (Tree.values (.silent ctx) G).run (Tree.listing G).length us := by
      simp only [alone]
      rw [evaluate_of_isValid hv, hsplit.replay_eq, Id.run_map]
    rw [halone, encountered_halt hv hsplit, evaluate_of_isValid hv, hsplit.replay_run,
      Strategy.values_reporting hclosing]
  · have halone : alone = .error .invalid := by
      simp only [alone, evaluate_of_not_isValid hv]
      rfl
    rw [halone, evaluate_of_not_isValid hv]
    rfl

theorem evaluate_collecting (ctx : LengthContext) (ts : List Term) (ds : Array Diagnostic) :
    let alone := ((ofInfix ts).evaluate (.silent ctx)).run
    ∃ ds', ((ofInfix ts).evaluate (.collecting ctx)).run ds = (alone, ds') ∧
      ds'.toList = ds.toList ++
        List.replicate (encountered ts alone) (.unknownOperator .openParen) := by
  intro alone
  have hrun := evaluate_reporting ctx (fun d => modify fun ds : Array Diagnostic => ds.push d) ts ds
  exact ⟨_, hrun, iterate_push _ _ ds⟩

theorem mapM_collecting (ctx : LengthContext) (tss : List (List Term)) (ds : Array Diagnostic) :
    let alone (ts : List Term) := ((ofInfix ts).evaluate (.silent ctx)).run
    ∃ ds', (tss.mapM fun ts => (ofInfix ts).evaluate (.collecting ctx)).run ds =
        (tss.map alone, ds') ∧
      ds'.toList = ds.toList ++ tss.flatMap fun ts =>
        List.replicate (encountered ts (alone ts)) (.unknownOperator .openParen) := by
  intro alone
  induction tss generalizing ds with
  | nil => exact ⟨ds, rfl, (List.append_nil _).symm⟩
  | cons ts tss ih =>
    obtain ⟨ds₁, hone, hds₁⟩ := evaluate_collecting ctx ts ds
    obtain ⟨ds₂, hrest, hds₂⟩ := ih ds₁
    refine ⟨ds₂, ?_, ?_⟩
    · rw [List.mapM_cons, StateT.run_bind, hone]
      exact congrArg (fun run => (alone ts :: run.1, run.2)) hrest
    · rw [hds₂, hds₁, List.flatMap_cons, List.append_assoc]

/-- Calculations that are evaluated one after the other, with the diagnostics of all collected
together. Each one ends as it does alone, whatever is reported to; and behind what is there already
it leaves one diagnostic for each open parenthesis without a partner that it has come to, and no
other. -/
theorem evaluate_each (ctx : LengthContext) (tss : List (List Term)) (ds : Array Diagnostic) :
    let alone (ts : List Term) := ((ofInfix ts).evaluate (.silent ctx)).run
    let session := (tss.mapM fun ts => (ofInfix ts).evaluate (.collecting ctx)).run ds
    session.1 = tss.map alone ∧
    session.2.toList = ds.toList ++ tss.flatMap (fun ts =>
      List.replicate (encountered ts (alone ts)) (.unknownOperator .openParen)) ∧
    ∀ ts, (∀ ds, (((ofInfix ts).evaluate (.collecting ctx)).run ds).1 = alone ts) ∧
      (∀ log, (((ofInfix ts).evaluate (.logging ctx)).run log).1 = alone ts) ∧
      ∀ {σ : Type} (report : Diagnostic → StateM σ PUnit) (st : σ),
        ((ofInfix ts).evaluate (.reporting ctx report)).run st =
          (alone ts, (alerted report)^[encountered ts (alone ts)] st) := by
  intro alone session
  obtain ⟨ds', hsession, hdiagnostics⟩ := mapM_collecting ctx tss ds
  refine ⟨congrArg Prod.fst hsession, ?_, fun ts => ⟨fun ds => ?_, fun log => ?_,
    fun report st => evaluate_reporting ctx report ts st⟩⟩
  · rw [← hdiagnostics]
    exact congrArg (·.2.toList) hsession
  · obtain ⟨ds', hrun, -⟩ := evaluate_collecting ctx ts ds
    exact congrArg Prod.fst hrun
  · have hrun := evaluate_reporting ctx
      (fun d => modify fun log : Array LogRecord => log.push d.record) ts log
    exact congrArg Prod.fst hrun

/-- `5 ( ( 1 + 2`: the second parenthesis that is left over has nothing to take, and what the first
one reported stays. -/
example :
    let ts : List Term := [.operand (.integer 5), .operator .openParen, .operator .openParen,
      .operand (.integer 1), .operator .add, .operand (.integer 2)]
    let failed : Except EvalError Float := .error (.stackUnderflow 5)
    ((ofInfix ts).evaluate (.collecting {})).run #[] =
      (failed, #[.unknownOperator .openParen]) ∧
    encountered ts failed = 1 ∧ unclosed 0 ts = 2 :=
  ⟨rfl, rfl, rfl⟩

end Calculation

end CssMath
