import CssMath.Term

/-! The type of an expression, found operand by operand. The first operand with a dimension settles
it, a percentage counting as a length. Behind that operand a unit of another dimension is refused
and leaves the type as it is, and everything else is passed over, a percentage too. -/
namespace CssMath

inductive ValueType where
  | integer | number
  | dimension (d : Dimension)
  deriving DecidableEq

def ValueType.name : ValueType → String
  | integer => "Integer"
  | number => "Number"
  | dimension d => d.name

structure TypeMismatch where
  expected : ValueType
  found : Dimension
  deriving DecidableEq

/-- The result type is open until an operand with a dimension has come. `isInteger` says that no
operand up to then was a number that is not an integer. -/
structure Typing where
  resultType? : Option ValueType := none
  isInteger : Bool := true
  deriving DecidableEq

namespace Typing

def consider (t : Typing) (x : Operand) : Except TypeMismatch Typing :=
  match t.resultType?, x.dimension? with
  | some expected, some found =>
    if .dimension found = expected then .ok t else .error ⟨expected, found⟩
  | some _, none => .ok t
  | none, some d => .ok { t with resultType? := some (.dimension d) }
  | none, none =>
    if x.isPercentage then .ok { t with resultType? := some (.dimension .length) }
    else if x.isBare then .ok { t with isInteger := t.isInteger && x.isInteger }
    else .ok t

def next (t : Typing) (x : Operand) : Typing := (t.consider x).toOption.getD t

/-- An open type passes for that of bare numbers, be the operands bare or in units outside the
table. -/
def valueType (t : Typing) : ValueType :=
  t.resultType?.getD (if t.isInteger then .integer else .number)

end Typing

end CssMath
