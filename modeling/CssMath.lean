import CssMath.Css.MathFunction
import CssMath.Evaluation.Numeric
import CssMath.Evaluation.Text
import CssMath.Evaluation.Trace
import CssMath.Session
import CssMath.Proofs.Arrangement
import CssMath.Proofs.Tree
import CssMath.Proofs.Outcome
import CssMath.Proofs.Nesting
import CssMath.Proofs.Grammar
import CssMath.Proofs.Substitution
import CssMath.Proofs.Accounting
import CssMath.Proofs.Reading
import CssMath.Proofs.Sentence
import CssMath.Proofs.Fault
import CssMath.Proofs.Repair
import CssMath.Proofs.Parenthesization
import CssMath.Proofs.Components
import CssMath.Proofs.ReadOutcome
import CssMath.Proofs.Families
import CssMath.Proofs.OperandOrder
import CssMath.Proofs.ValueType
import CssMath.Proofs.BinaryOperators
import CssMath.Proofs.Printing
import CssMath.Proofs.RepeatedReading
import CssMath.Proofs.Conservation
import CssMath.Proofs.Diagnostics
import CssMath.Proofs.NumericCalls
import CssMath.Proofs.UnclosedGroups
import CssMath.Proofs.ContextFields
import CssMath.Proofs.Unresolvable
import CssMath.Proofs.TypingRun
import CssMath.Proofs.UnitSpelling
import CssMath.Proofs.PendingOperators
import CssMath.Proofs.Sessions
