import CssMath.Evaluation.Numeric

/-! Sessions: one calculation at a time, evaluated in one context, and the diagnostics of all the
evaluations since they were last taken out. -/
namespace CssMath

structure Session where
  calculation : Calculation := .ofInfix []
  context : LengthContext := {}
  diagnostics : Array Diagnostic := #[]

namespace Session

def replace (s : Session) (c : Calculation) : Session := { s with calculation := c }

/-- The postfix terms and the new ones behind them, taken as infix terms. -/
def extend (s : Session) (terms : List Term) : Session :=
  s.replace (.ofInfix (s.calculation.terms ++ terms))

def evaluate (s : Session) : Except EvalError Float × Session :=
  let (result, diagnostics) := (s.calculation.evaluate (.collecting s.context)).run s.diagnostics
  (result, { s with diagnostics })

def drain (s : Session) : Array Diagnostic × Session :=
  (s.diagnostics, { s with diagnostics := #[] })

end Session

end CssMath
