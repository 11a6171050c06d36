import CssMath.Evaluation
import CssMath.LengthContext

/-! The expression as a number, in binary64 arithmetic: a division by zero is infinite or NaN, never
an error. Bare numbers stand for themselves, and a resolver turns all other operands into numbers.
An open parenthesis that was never closed arrives as an operator without a meaning; the number is
then 0, and the strategy reports it. -/
namespace CssMath
universe v

inductive Diagnostic where
  | unknownOperator (o : Operator)
  deriving DecidableEq

namespace Diagnostic

def message : Diagnostic → String
  | unknownOperator o => s!"unknown operator {o.symbol} in expression"

def record (d : Diagnostic) : LogRecord := ⟨.warn, s!"[CALC] {d.message}"⟩

end Diagnostic

namespace Strategy
variable {m : Type → Type v} [Monad m]

def numeric (resolve : Operand → m Float) (report : Diagnostic → m PUnit) :
    Strategy m Float where
  operand x := if x.isBare then pure (widen x.value) else resolve x
  operator left right
    | .add => pure (left + right)
    | .subtract => pure (left - right)
    | .multiply => pure (left * right)
    | .divide => pure (left / right)
    | o => do
      report (.unknownOperator o)
      pure 0

def silent (ctx : LengthContext) : Strategy Id Float :=
  numeric (fun x => ctx.resolveOperand x) fun _ => ()

def collecting (ctx : LengthContext) : Strategy (StateM (Array Diagnostic)) Float :=
  numeric (fun x => pure (ctx.resolveOperand x)) fun d => modify (·.push d)

def logging (ctx : LengthContext) : Strategy (StateM (Array LogRecord)) Float :=
  numeric (fun x => pure (ctx.resolveOperand x)) fun d => modify (·.push d.record)

/-- Resolves operands by themselves, and keeps the operands that were resolved in that order. -/
def observing (resolve : Operand → Float) : Strategy (StateM (Array Operand)) Float :=
  numeric (fun x => do modify (·.push x); pure (resolve x)) fun _ => pure ()

end Strategy

end CssMath
