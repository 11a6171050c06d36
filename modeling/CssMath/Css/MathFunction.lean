import CssMath.Calculation
import CssMath.Css.Lexeme

/-! The function `calc()` in CSS text, its name in any ASCII case. Parentheses and calls of `calc`
in its body group terms; any other block is one foreign term, whatever it holds. A bad string or URL
spoils the function unless it stands in such a foreign block. A block that is not closed ends with
the text. A reading returns the terms and the lexemes it has left; what is not a `calc()` function
is left behind, a token or a whole block. -/
namespace CssMath

inductive ReadError where
  | unexpectedToken
  | notCalcFunction
  deriving DecidableEq

def ReadError.message : ReadError → String
  | unexpectedToken => "unexpected token in calc() expression"
  | notCalcFunction => "expected a calc() function"

namespace Css

namespace BlockKind

def isCalc : BlockKind → Bool
  | function name => name.toLower = "calc"
  | bracket _ => false

def isGroup (k : BlockKind) : Bool := k = .bracket .round || k.isCalc

end BlockKind

def Token.term? : Token → Option Term
  | .number n => some (.operand (n.integer?.elim (.number (narrow n.value)) .integer))
  | .percentage n => some (.operand (.percentage n.percent))
  | .dimension n unit => some (.operand (.dimension (narrow n.value) (.ofText unit)))
  | .delim c => some ((Operator.ofSymbol? c).elim (.other c.toString) .operator)
  | .ident name => some (.other (String.ofList (writeIdent name.toList)))
  | .atKeyword name => some (.other (String.ofList ('@' :: writeIdent name.toList)))
  | .hash name isIdent =>
    let write := if isIdent then writeIdent else writeName
    some (.other (String.ofList ('#' :: write name.toList)))
  | .string value => some (.other (String.ofList (writeString value.toList)))
  | .url value => some (.other (String.ofList (writeUrl value.toList)))
  | .mark text => some (.other text)
  | .closing b => some (.other b.closing.toString)
  | .badString | .badUrl => none

/-- The closers of the blocks open behind a lexeme, the innermost first. A closing bracket closes
the innermost block or nothing. -/
def Lexeme.nest (closers : List Bracket) : Lexeme → List Bracket
  | opening kind => kind.closer :: closers
  | token (.closing b) => if closers.head? = some b then closers.tail else closers
  | token _ => closers

def skipBlock (closers : List Bracket) : List Lexeme → List Lexeme
  | [] => []
  | l :: ls => if l.nest closers = [] then ls else skipBlock (l.nest closers) ls

theorem skipBlock_isSuffix (closers : List Bracket) (ls : List Lexeme) :
    skipBlock closers ls <:+ ls := by
  fun_induction skipBlock closers ls with
  | case1 closers => exact List.suffix_refl []
  | case2 closers l ls hend => exact List.suffix_cons l ls
  | case3 closers l ls hend ih => exact ih.trans (List.suffix_cons l ls)

structure Reading (ls : List Lexeme) where
  result : Except ReadError (List Term)
  rest : List Lexeme
  isSuffix : rest <:+ ls

namespace Reading
variable {ls ls' : List Lexeme}

def after (r : Reading ls') (ts : List Term) (h : ls' <:+ ls) : Reading ls :=
  ⟨r.result.map (ts ++ ·), r.rest, r.isSuffix.trans h⟩

/-- Leaves the block that was read. Only what the reading has left of it is skipped: nothing but
the closing bracket, unless the reading failed on the way. -/
def leave (r : Reading ls) : Reading ls :=
  ⟨r.result, skipBlock [.round] r.rest, (skipBlock_isSuffix _ _).trans r.isSuffix⟩

end Reading

/-- Reads up to what closes the block around the lexemes, if there is one, and leaves that. A group
is read as a block inside, and is left whether or not its reading fails; a foreign block is skipped
unread. -/
def readTerms (closer : Option Bracket) : (ls : List Lexeme) → Reading ls
  | [] => ⟨.ok [], [], List.suffix_refl []⟩
  | .token t :: ls =>
    if closer.map .closing = some t then ⟨.ok [], .token t :: ls, List.suffix_refl _⟩
    else
      match t.term? with
      | some term => (readTerms closer ls).after [term] (List.suffix_cons _ _)
      | none => ⟨.error .unexpectedToken, ls, List.suffix_cons _ _⟩
  | .opening kind :: ls =>
    if kind.isGroup then
      let inner := (readTerms (some .round) ls).leave
      have hrest := inner.isSuffix.trans (List.suffix_cons (.opening kind) ls)
      match inner.result with
      | .ok ts =>
        (readTerms closer inner.rest).after
          (.operator .openParen :: (ts ++ [.operator .closeParen])) hrest
      | .error e => ⟨.error e, inner.rest, hrest⟩
    else
      (readTerms closer (skipBlock [kind.closer] ls)).after [.other kind.text]
        ((skipBlock_isSuffix _ ls).trans (List.suffix_cons _ ls))
termination_by ls => ls.length
decreasing_by
  · exact Nat.lt_succ_self _
  · exact Nat.lt_succ_self _
  · exact Nat.lt_succ_of_le inner.isSuffix.length_le
  · exact Nat.lt_succ_of_le (skipBlock_isSuffix _ ls).length_le

def readCalc : List Lexeme → Except ReadError (List Term) × List Lexeme
  | [] => (.error .unexpectedToken, [])
  | .token _ :: ls => (.error .unexpectedToken, ls)
  | .opening (.bracket b) :: ls => (.error .unexpectedToken, skipBlock [b] ls)
  | .opening (.function name) :: ls =>
    if (BlockKind.function name).isCalc then
      let body := (readTerms (some .round) ls).leave
      (body.result, body.rest)
    else (.error .notCalcFunction, skipBlock [.round] ls)

def bodyTerms (text : String) : Except ReadError (List Term) :=
  (readTerms none (lexemes text.toList)).result

def calcTerms (text : String) : Except ReadError (List Term) :=
  match readCalc (lexemes text.toList) with
  | (.ok terms, []) => .ok terms
  | (.ok _, _ :: _) => .error .unexpectedToken
  | (.error e, _) => .error e

end Css

namespace Calculation

def read (ls : List Css.Lexeme) : Except ReadError Calculation × List Css.Lexeme :=
  let parts := Css.readCalc ls
  (parts.1.map ofInfix, parts.2)

/-- Reads one calculation `n` times, from where the reading before stopped, failed or not. -/
def readMany : Nat → List Css.Lexeme → List (Except ReadError Calculation) × List Css.Lexeme
  | 0, ls => ([], ls)
  | n + 1, ls =>
    let first := read ls
    let others := readMany n first.2
    (first.1 :: others.1, others.2)

def ofText (text : String) : Except ReadError Calculation := (Css.calcTerms text).map ofInfix

end Calculation

end CssMath
