import CssMath.LogRecord
import CssMath.Typing

/-! Calculations: the terms of an expression brought from infix to postfix order, with their type.
One scan over the infix terms keeps the operators that still wait for their right operand; at the
end it emits what still waits, open parentheses included. A parenthesis that is not matched is no
fault; a foreign term and a clash of dimensions are, and the first one ends the scan: it is kept
with its position, and what waits is dropped. -/
namespace CssMath

inductive Fault where
  | mismatch (m : TypeMismatch)
  | foreign (text : String)
  deriving DecidableEq

def Fault.record (position : Nat) : Fault → LogRecord
  | mismatch m =>
    ⟨.debug, s!"[CALC] type mismatch at term {position}: expected {m.expected.name}, "
      ++ s!"found {m.found.name}"⟩
  | foreign text => ⟨.debug, s!"[CALC] unexpected term {quoted text} at position {position}"⟩

structure Calculation where
  terms : List Term
  typing : Typing
  fault? : Option (Nat × Fault)

namespace Calculation

def isValid (c : Calculation) : Bool := c.fault?.isNone

def log (c : Calculation) : List LogRecord :=
  c.fault?.toList.map fun (position, fault) => fault.record position

/-- Which fault ended the scan does not count. -/
instance : BEq Calculation where
  beq c d := c.terms == d.terms && c.typing == d.typing && c.isValid == d.isValid

end Calculation

def Operator.yieldsTo (o top : Operator) : Bool :=
  match o.precedence?, top.precedence? with
  | some p, some q => p ≤ q
  | _, _ => false

/-- A scan under way. The operators in `pending` have been read but not emitted, the last one
read first; among them stand the open parentheses. -/
structure Scan where
  output : Array Term := #[]
  pending : List Operator := []
  typing : Typing := {}

namespace Scan

def emit (s : Scan) (os : List Operator) : Scan :=
  { s with output := s.output ++ os.map Term.operator }

def enter (s : Scan) : Operator → Scan
  | .openParen => { s with pending := .openParen :: s.pending }
  | .closeParen =>
    -- all that waits is emitted when no parenthesis is open
    { s.emit (s.pending.takeWhile (· ≠ .openParen)) with
      pending := (s.pending.dropWhile (· ≠ .openParen)).tail }
  | o =>
    { s.emit (s.pending.takeWhile o.yieldsTo) with
      pending := o :: s.pending.dropWhile o.yieldsTo }

def step (s : Scan) : Term → Except Fault Scan
  | .operand x =>
    match s.typing.consider x with
    | .ok typing => .ok { s with output := s.output.push (.operand x), typing }
    | .error m => .error (.mismatch m)
  | .operator o => .ok (s.enter o)
  | .other text => .error (.foreign text)

def finish (s : Scan) : Calculation :=
  { terms := (s.emit s.pending).output.toList, typing := s.typing, fault? := none }

def abort (s : Scan) (position : Nat) (fault : Fault) : Calculation :=
  { terms := s.output.toList, typing := s.typing, fault? := some (position, fault) }

def run (s : Scan) (position : Nat) : List Term → Calculation
  | [] => s.finish
  | t :: ts =>
    match s.step t with
    | .ok s' => s'.run (position + 1) ts
    | .error fault => s.abort position fault

end Scan

def Calculation.ofInfix (terms : List Term) : Calculation := ({} : Scan).run 0 terms

end CssMath
