import CssMath.Evaluation

/-! The expression as a list of events, one for each operand and each operator in the order in which
the evaluation meets them. The value of an event is its number, counted from one, and an operator
names its arguments by their numbers. -/
namespace CssMath

namespace Strategy

private def event (text : String) : StateM (Array String) Nat := do
  modify (·.push text)
  return (← get).size

def trace : Strategy (StateM (Array String)) Nat where
  operand x := event x.text
  operator left right o := event s!"#{left} {o.symbol} #{right}"

end Strategy

end CssMath
