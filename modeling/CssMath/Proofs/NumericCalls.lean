import CssMath.Proofs.BinaryOperators
import CssMath.Proofs.Conservation

/-! What a numeric evaluation leaves to others. It has operands with a unit or a percent sign
resolved and operators without a meaning reported, one term after the other, so its calls are read
off the terms that it comes to. Putting terms in order moves no operand past another; the resolver
is asked for what it is asked for in the order of the infix terms. -/
namespace CssMath
variable {σ : Type}

inductive NumericCall where
  | resolve (x : Operand)
  | report (d : Diagnostic)
  deriving DecidableEq

namespace NumericCall

def operand? : NumericCall → Option Operand
  | resolve x => some x
  | report _ => none

def diagnostic? : NumericCall → Option Diagnostic
  | resolve _ => none
  | report d => some d

end NumericCall

def Term.call? : Term → Option NumericCall
  | operand x => if x.isBare then none else some (.resolve x)
  | operator o => if o.isBinary then none else some (.report (.unknownOperator o))
  | other _ => none

def unitBearing (ts : List Term) : List Operand :=
  (operands ts).filter fun x => x.isPercentage || x.unit?.isSome

theorem Operand.isPercentage_or_unit (x : Operand) :
    (x.isPercentage || x.unit?.isSome) = !x.isBare := by
  obtain ⟨value, kind⟩ := x
  cases kind <;> rfl

theorem not_isBare_of_mem_unitBearing {ts : List Term} {x : Operand} (hx : x ∈ unitBearing ts) :
    ¬x.isBare := by
  have hunit := (List.mem_filter.mp hx).2
  rw [x.isPercentage_or_unit] at hunit
  simpa using hunit

theorem filterMap_operand? (ts : List Term) :
    (ts.filterMap Term.call?).filterMap NumericCall.operand? = unitBearing ts := by
  induction ts with
  | nil => rfl
  | cons t ts ih =>
    cases t with
    | operand x =>
      rw [unitBearing, operands_operand, List.filter_cons, x.isPercentage_or_unit, ← unitBearing,
        ← ih, List.filterMap_cons, Term.call?]
      cases x.isBare <;> rfl
    | operator o =>
      rw [unitBearing, operands_operator, ← unitBearing, ← ih, List.filterMap_cons, Term.call?]
      cases o.isBinary <;> rfl
    | other text => exact ih

theorem filterMap_diagnostic? (ts : List Term) :
    (ts.filterMap Term.call?).filterMap NumericCall.diagnostic? =
      ((operators ts).filter fun o => !o.isBinary).map .unknownOperator := by
  induction ts with
  | nil => rfl
  | cons t ts ih =>
    cases t with
    | operand x =>
      rw [operators_operand, ← ih, List.filterMap_cons, Term.call?]
      cases x.isBare <;> rfl
    | operator o =>
      rw [operators_operator, List.filter_cons, List.filterMap_cons, Term.call?]
      cases o.isBinary with
      | true => exact ih
      | false => exact congrArg (Diagnostic.unknownOperator o :: ·) ih
    | other text => exact ih

theorem filter_not_isBinary_arrange (ts : List Term) :
    (operators (arrange ts)).filter (fun o => !o.isBinary) =
      List.replicate (unclosed 0 ts) .openParen := by
  rw [← count_openParen_arrange, ← List.filter_beq]
  apply List.filter_congr
  intro o ho
  have hclose : o ≠ .closeParen := fun h => closeParen_not_mem_arrange ts (h ▸ ho)
  cases o with
  | closeParen => exact absurd rfl hclose
  | _ => rfl

namespace Strategy

/-- The numeric strategy with a record of its calls, the first one first. -/
def watched (resolve : Operand → StateM σ Float) (report : Diagnostic → StateM σ PUnit) :
    Strategy (StateM (σ × List NumericCall)) Float :=
  numeric (fun x => note (.resolve x) (resolve x)) fun d => note (.report d) (report d)
where
  note {β : Type} (c : NumericCall) (call : StateM σ β) : StateM (σ × List NumericCall) β :=
    fun (st, calls) =>
      let (b, st') := call.run st
      (b, st', calls ++ [c])

theorem watched_logs (resolve : Operand → StateM σ Float)
    (report : Diagnostic → StateM σ PUnit) :
    (numeric resolve report).Logs (watched resolve report) Term.call? where
  operand x st calls := by
    simp only [watched, numeric, List.filterMap_cons, Term.call?]
    cases x.isBare with
    | true => exact congrArg (fun calls => (_, st, calls)) (List.append_nil calls).symm
    | false => rfl
  operator left right o st calls := by
    cases o with
    | openParen => rfl
    | closeParen => rfl
    | _ => exact congrArg (fun calls => (_, st, calls)) (List.append_nil calls).symm

end Strategy

namespace Calculation
variable {ts us : List Term} {G : List Tree}

theorem unitBearing_terms (hv : (ofInfix ts).isValid) :
    unitBearing (ofInfix ts).terms = unitBearing ts := by
  rw [unitBearing, terms_ofInfix hv, operands_arrange, unitBearing]

section Watched
variable {c : Calculation} (resolve : Operand → StateM σ Float)
  (report : Diagnostic → StateM σ PUnit) (st : σ)

/-- The calls are those of the terms before the end, and to record them changes nothing. -/
theorem evaluate_watched (hv : c.isValid) (h : Split c.terms G us) :
    (c.evaluate (.watched resolve report)).run (st, []) =
      (((c.evaluate (.numeric resolve report)).run st).1,
        ((c.evaluate (.numeric resolve report)).run st).2,
        (Tree.listing G).filterMap Term.call?) := by
  rw [evaluate_of_isValid hv, evaluate_of_isValid hv,
    h.replay_logs (Strategy.watched_logs resolve report)]

theorem evaluate_watched_of_not_isValid (hv : ¬c.isValid) :
    (c.evaluate (.watched resolve report)).run (st, []) =
      (((c.evaluate (.numeric resolve report)).run st).1,
        ((c.evaluate (.numeric resolve report)).run st).2, []) := by
  rw [evaluate_of_not_isValid hv, evaluate_of_not_isValid hv]
  rfl

end Watched

/-- What the resolver of a numeric evaluation is asked for, whatever it does besides and whatever is
reported to. Of an invalid calculation it is asked for nothing. If no operator lacks a value, it is
asked once for each percentage and each dimension of the infix terms, in their order; if one does,
for those that are emitted before it, which come first among these. It is never asked for a bare
number. -/
theorem evaluate_resolves (ts : List Term) (resolve : Operand → StateM σ Float)
    (report : Diagnostic → StateM σ PUnit) (st : σ) :
    let c := ofInfix ts
    let run := (c.evaluate (.numeric resolve report)).run st
    let calls := ((c.evaluate (.watched resolve report)).run (st, [])).2.2
    let resolved := calls.filterMap NumericCall.operand?
    (c.evaluate (.watched resolve report)).run (st, []) = (run.1, run.2, calls) ∧
    (¬c.isValid → resolved = []) ∧
    (((∃ v, run.1 = .ok v) ∨ (∃ n, run.1 = .error (.leftoverOperands n)) ∨
      run.1 = .error .empty) → resolved = unitBearing ts) ∧
    (∀ p, run.1 = .error (.stackUnderflow p) →
      resolved = unitBearing (c.terms.take p) ∧ resolved <+: unitBearing ts) ∧
    ∀ x ∈ resolved, ¬x.isBare := by
  intro c run calls resolved
  by_cases hv : c.isValid
  · obtain ⟨G, us, hsplit⟩ : ∃ G us, Split c.terms G us :=
      Split.exists_of_native (terms_ofInfix hv ▸ arrange_not_foreign ts)
    have hrun : run = ((Strategy.numeric resolve report).replay [] 0 c.terms).run st :=
      congrArg (StateT.run · st) (evaluate_of_isValid hv _)
    have hwatched := evaluate_watched resolve report st hv hsplit
    have hcalls : calls = (Tree.listing G).filterMap Term.call? := congrArg (·.2.2) hwatched
    have hresolved : resolved = unitBearing (Tree.listing G) := by
      rw [← filterMap_operand?, ← hcalls]
    refine ⟨by rw [hwatched, hcalls], fun hn => absurd hv hn, fun hend => ?_, fun p hp => ?_, ?_⟩
    · have hfed : us = [] := by
        apply hsplit.eq_nil_of_ne_underflow (.numeric resolve report) st
        intro p hp
        rw [← hrun] at hp
        simp [hp] at hend
      rw [hresolved, ← unitBearing_terms hv, hsplit.eq, hfed, List.append_nil]
    · have htake := hsplit.take_of_underflow (.numeric resolve report) st (hrun ▸ hp)
      rw [hresolved, htake, ← unitBearing_terms hv]
      exact ⟨rfl, ((List.take_prefix p c.terms).filterMap Term.operand?).filter _⟩
    · rw [hresolved]
      exact fun x => not_isBare_of_mem_unitBearing
  · have hrun : run.1 = .error .invalid := by
      simp only [run, evaluate_of_not_isValid hv]
      rfl
    have hwatched := evaluate_watched_of_not_isValid resolve report st hv
    have hcalls : calls = [] := congrArg (·.2.2) hwatched
    have hresolved : resolved = [] := congrArg (·.filterMap NumericCall.operand?) hcalls
    rw [hresolved]
    refine ⟨by rw [hwatched, hcalls], fun _ => rfl, fun hend => ?_, fun p hp => ?_, by simp⟩
    · simp [hrun] at hend
    · simp [hrun] at hp

/-- `1px + ) 2px`: the sum lacks a value when it is come to, so `2px` is never resolved. -/
example :
    let ts : List Term := [.operand (.dimension 1 .pixels), .operator .add, .operator .closeParen,
      .operand (.dimension 2 .pixels)]
    ((ofInfix ts).evaluate (.watched (fun _ => pure 7) fun _ => pure ⟨⟩)).run ((), []) =
      (.error (.stackUnderflow 1), (), [.resolve (.dimension 1 .pixels)]) :=
  rfl

end Calculation

end CssMath
