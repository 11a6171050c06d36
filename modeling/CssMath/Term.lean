import CssMath.Decimal
import CssMath.Dimension

/-! Terms of a math expression: operands, operators with the two parentheses among them, and
foreign text, which no expression may contain. -/
namespace CssMath

inductive Operator where
  | add | subtract | multiply | divide | openParen | closeParen
  deriving DecidableEq

namespace Operator

def symbol : Operator → Char
  | add => '+'
  | subtract => '-'
  | multiply => '*'
  | divide => '/'
  | openParen => '('
  | closeParen => ')'

def ofSymbol? : Char → Option Operator
  | '+' => some add
  | '-' => some subtract
  | '*' => some multiply
  | '/' => some divide
  | '(' => some openParen
  | ')' => some closeParen
  | _ => none

def precedence? : Operator → Option Nat
  | add | subtract => some 0
  | multiply | divide => some 1
  | openParen | closeParen => none

theorem ofSymbol?_symbol (o : Operator) : ofSymbol? o.symbol = some o := by
  cases o <;> rfl

end Operator

/-- How an operand was written. An integer has neither a point nor an exponent, so `2.0` is a
number; the value of a percentage is what stands before the sign. -/
inductive OperandKind where
  | integer | number | percentage
  | dimension (unit : DimensionUnit)
  deriving DecidableEq

/-- Two operands are `==` if their values compare equal, so no operand that is NaN is. -/
structure Operand where
  value : Float32
  kind : OperandKind
  deriving BEq, DecidableEq

namespace Operand

def integer (n : Int32) : Operand := ⟨Float32.ofInt n.toInt, .integer⟩
def number (value : Float32) : Operand := ⟨value, .number⟩
def percentage (value : Float32) : Operand := ⟨value, .percentage⟩
def dimension (value : Float32) (unit : DimensionUnit) : Operand := ⟨value, .dimension unit⟩

def unit? (x : Operand) : Option DimensionUnit :=
  match x.kind with
  | .dimension unit => some unit
  | _ => none

def dimension? (x : Operand) : Option Dimension := x.unit?.bind (·.dimension?)

def isPercentage (x : Operand) : Bool := x.kind = .percentage
def isInteger (x : Operand) : Bool := x.kind = .integer

def isBare (x : Operand) : Bool := x.kind = .integer || x.kind = .number

def text (x : Operand) : String :=
  match x.kind with
  | .integer | .number => numberText x.value
  | .percentage => numberText x.value ++ "%"
  | .dimension unit => numberText x.value ++ unit.spelling

end Operand

inductive Term where
  | operand (x : Operand)
  | operator (o : Operator)
  | other (text : String)
  deriving BEq, DecidableEq

def Term.text : Term → String
  | operand x => x.text
  | operator o => o.symbol.toString
  | other text => text

end CssMath
