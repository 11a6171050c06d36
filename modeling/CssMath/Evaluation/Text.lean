import CssMath.Evaluation

/-! The expression as text, fully parenthesized. -/
namespace CssMath

def Strategy.text : Strategy Id String where
  operand x := x.text
  operator left right o := s!"({left} {o.symbol} {right})"

end CssMath
