import CssMath.Proofs.Diagnostics
import CssMath.Session

/-! Runs of a session. An evaluation in it ends as it does alone, and whatever stands behind it in
the run, the diagnostics are neither lost nor doubled: those taken out and those still there are,
in order, those of the evaluations. -/
namespace CssMath.Session
open Calculation

inductive Command where
  | replace (terms : List Term)
  | extend (terms : List Term)
  | evaluate
  | drain

structure Transcript where
  outcomes : List (Except EvalError Float) := []
  drained : List Diagnostic := []

def step (s : Session) : Command → Transcript × Session
  | .replace ts => ({}, s.replace (.ofInfix ts))
  | .extend ts => ({}, s.extend ts)
  | .evaluate => ({ outcomes := [s.evaluate.1] }, s.evaluate.2)
  | .drain => ({ drained := s.drain.1.toList }, s.drain.2)

def run (s : Session) : List Command → Transcript × Session
  | [] => ({}, s)
  | c :: cs =>
    let first := s.step c
    let others := first.2.run cs
    ({ outcomes := first.1.outcomes ++ others.1.outcomes
       drained := first.1.drained ++ others.1.drained }, others.2)

def behind (ts : List Term) : Command → List Term
  | .replace us => us
  | .extend us => (ofInfix ts).terms ++ us
  | .evaluate | .drain => ts

/-- The infix terms that are evaluated by the command. -/
def asked (ts : List Term) : Command → List (List Term)
  | .evaluate => [ts]
  | _ => []

def askedAll (ts : List Term) : List Command → List (List Term)
  | [] => []
  | c :: cs => asked ts c ++ askedAll (behind ts c) cs

def alone (ctx : LengthContext) (ts : List Term) : Except EvalError Float :=
  ((ofInfix ts).evaluate (.silent ctx)).run

def reports (ctx : LengthContext) (ts : List Term) : List Diagnostic :=
  List.replicate (encountered ts (alone ctx ts)) (.unknownOperator .openParen)

variable {s : Session} {ts : List Term}

theorem evaluate_spec (h : s.calculation = .ofInfix ts) :
    ∃ ds, s.evaluate = (alone s.context ts, { s with diagnostics := ds }) ∧
      ds.toList = s.diagnostics.toList ++ reports s.context ts := by
  obtain ⟨ds, hrun, hds⟩ := evaluate_collecting s.context ts s.diagnostics
  refine ⟨ds, ?_, hds⟩
  rw [evaluate, h, hrun]
  rfl

theorem step_spec (h : s.calculation = .ofInfix ts) (c : Command) :
    (s.step c).2.calculation = .ofInfix (behind ts c) ∧ (s.step c).2.context = s.context ∧
      (s.step c).1.outcomes = (asked ts c).map (alone s.context) ∧
      (s.step c).1.drained ++ (s.step c).2.diagnostics.toList =
        s.diagnostics.toList ++ (asked ts c).flatMap (reports s.context) := by
  cases c with
  | replace us => exact ⟨rfl, rfl, rfl, (List.append_nil _).symm⟩
  | extend us =>
    refine ⟨?_, rfl, rfl, (List.append_nil _).symm⟩
    rw [step, extend, h]
    rfl
  | evaluate =>
    obtain ⟨ds, heval, hds⟩ := evaluate_spec h
    rw [step, heval]
    refine ⟨h, rfl, rfl, ?_⟩
    rw [asked, List.flatMap_singleton]
    exact hds
  | drain => exact ⟨h, rfl, rfl, rfl⟩

/-- In a run each evaluation ends as its calculation does alone in the context of the session. The
diagnostics taken out on the way, and behind them those left in the end, are those that were there
and behind them those of each evaluation. -/
theorem run_accounts (h : s.calculation = .ofInfix ts) (cs : List Command) :
    (s.run cs).1.outcomes = (askedAll ts cs).map (alone s.context) ∧
      (s.run cs).1.drained ++ (s.run cs).2.diagnostics.toList =
        s.diagnostics.toList ++ (askedAll ts cs).flatMap (reports s.context) := by
  induction cs generalizing s ts with
  | nil => exact ⟨rfl, (List.append_nil _).symm⟩
  | cons c cs ih =>
    obtain ⟨hcalculation, hcontext, houtcomes, hdiagnostics⟩ := step_spec h c
    obtain ⟨houtcomes', hdiagnostics'⟩ := ih hcalculation
    rw [hcontext] at houtcomes' hdiagnostics'
    constructor
    · rw [askedAll, List.map_append, ← houtcomes, ← houtcomes']
      rfl
    · rw [askedAll, List.flatMap_append, ← List.append_assoc, ← hdiagnostics, List.append_assoc,
        ← hdiagnostics', ← List.append_assoc]
      rfl

/-- What the first evaluation reported is taken out before the second one reports the same. -/
example :
    let ts : List Term := [.operand (.integer 5), .operator .openParen, .operand (.integer 1)]
    let cs : List Command := [.replace ts, .evaluate, .drain, .evaluate]
    let given := ({} : Session).run cs
    given.1.drained = [.unknownOperator .openParen] ∧
      given.2.diagnostics = #[.unknownOperator .openParen] :=
  ⟨rfl, rfl⟩

end CssMath.Session
