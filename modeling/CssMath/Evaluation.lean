import CssMath.Calculation

/-! Evaluation of calculations. A strategy says what an operand and an operator turn into, and `m`
is what it may do besides; the evaluation replays the postfix terms on a stack of its values. A
calculation with a fault is not replayed at all. -/
namespace CssMath
universe u v
variable {m : Type u → Type v} [Monad m] {α : Type u}

structure Strategy (m : Type u → Type v) (α : Type u) where
  operand : Operand → m α
  operator : (left right : α) → Operator → m α

inductive EvalError where
  | invalid
  | empty
  | stackUnderflow (position : Nat)
  | leftoverOperands (count : Nat)
  deriving DecidableEq

def EvalError.message : EvalError → String
  | invalid => "calc() expression is invalid"
  | empty => "calc() expression is empty"
  | stackUnderflow position => s!"operator at position {position} is missing an operand"
  | leftoverOperands count => s!"{count} values left after evaluation, expected one"

/-- Replays the terms from `position` on; the last value is on top of the stack. -/
def Strategy.replay (s : Strategy m α) : List α → Nat → List Term → m (Except EvalError α)
  | stack, position, .operand x :: ts => do
    let value ← s.operand x
    s.replay (value :: stack) (position + 1) ts
  | right :: left :: stack, position, .operator o :: ts => do
    let value ← s.operator left right o
    s.replay (value :: stack) (position + 1) ts
  | _, position, .operator _ :: _ => pure (.error (.stackUnderflow position))
  | _, _, .other _ :: _ => pure (.error .invalid)
  | [], _, [] => pure (.error .empty)
  | [value], _, [] => pure (.ok value)
  | stack, _, [] => pure (.error (.leftoverOperands stack.length))

def Calculation.evaluate (c : Calculation) (s : Strategy m α) : m (Except EvalError α) :=
  if c.isValid then s.replay [] 0 c.terms else pure (.error .invalid)

end CssMath
