import CssMath.Css.Numeral
import CssMath.Css.Quoted

/-! Lexemes of CSS text. A lexeme is a token or opens a block; blanks and comments only part them.
An unclosed comment ends with the text. -/
namespace CssMath.Css

inductive Bracket where
  | round | square | curly
  deriving DecidableEq

namespace Bracket

def opening : Bracket → Char
  | round => '('
  | square => '['
  | curly => '{'

def closing : Bracket → Char
  | round => ')'
  | square => ']'
  | curly => '}'

end Bracket

inductive BlockKind where
  | bracket (b : Bracket)
  | function (name : String)
  deriving DecidableEq

namespace BlockKind

def closer : BlockKind → Bracket
  | bracket b => b
  | function _ => .round

def text : BlockKind → String
  | bracket b => b.opening.toString
  | function name => String.ofList (writeIdent name.toList ++ ['('])

end BlockKind

/-- A hash says whether its name could stand alone as an identifier. A mark always has the same
text. A closing bracket is a token of its own where it closes nothing. -/
inductive Token where
  | number (n : Numeral)
  | percentage (n : Numeral)
  | dimension (n : Numeral) (unit : String)
  | delim (symbol : Char)
  | ident (name : String)
  | atKeyword (name : String)
  | hash (name : String) (isIdent : Bool)
  | string (value : String)
  | url (value : String)
  | mark (text : String)
  | closing (b : Bracket)
  | badString
  | badUrl
  deriving DecidableEq

inductive Lexeme where
  | opening (kind : BlockKind)
  | token (t : Token)
  deriving DecidableEq

def readNumeric (n : Numeral) (cs : List Char) : Token × List Char :=
  match cs with
  | '%' :: rest => (.percentage n, rest)
  | cs =>
    if startsName cs then
      let unit := readName cs
      (.dimension n (String.ofList unit.1), unit.2)
    else (.number n, cs)

/-- Reads a name and what it opens. `url(` opens a function only before a quote. -/
def readIdentLike (cs : List Char) : Lexeme × List Char :=
  let name := readName cs
  let text := String.ofList name.1
  match name.2 with
  | '(' :: rest =>
    if text.toLower = "url" ∧ ¬startsQuote (rest.dropWhile isBlank) then
      let url := readUrl (rest.dropWhile isBlank)
      (.token (url.1.elim .badUrl fun value => .url (String.ofList value)), url.2)
    else (.opening (.function text), rest)
  | rest => (.token (.ident text), rest)
where
  startsQuote : List Char → Bool
    | c :: _ => c = '"' || c = '\''
    | [] => false

def readHash (cs : List Char) : Token × List Char :=
  let name := readName cs
  if name.1 = [] then (.delim '#', cs)
  else (.hash (String.ofList name.1) (startsName cs), name.2)

def readAt (cs : List Char) : Token × List Char :=
  if startsName cs then
    let name := readName cs
    (.atKeyword (String.ofList name.1), name.2)
  else (.delim '@', cs)

def readQuoted (quote : Char) (cs : List Char) : Token × List Char :=
  let value := readString quote cs
  (value.1.elim .badString fun value => .string (String.ofList value), value.2)

def readSymbol (c : Char) (cs : List Char) : Lexeme × List Char :=
  match c, cs with
  | '(', _ => (.opening (.bracket .round), cs)
  | '[', _ => (.opening (.bracket .square), cs)
  | '{', _ => (.opening (.bracket .curly), cs)
  | ')', _ => (.token (.closing .round), cs)
  | ']', _ => (.token (.closing .square), cs)
  | '}', _ => (.token (.closing .curly), cs)
  | ',', _ => (.token (.mark ","), cs)
  | ':', _ => (.token (.mark ":"), cs)
  | ';', _ => (.token (.mark ";"), cs)
  | '~', '=' :: rest => (.token (.mark "~="), rest)
  | '|', '=' :: rest => (.token (.mark "|="), rest)
  | '^', '=' :: rest => (.token (.mark "^="), rest)
  | '$', '=' :: rest => (.token (.mark "$="), rest)
  | '*', '=' :: rest => (.token (.mark "*="), rest)
  | '<', '!' :: '-' :: '-' :: rest => (.token (.mark "<!--"), rest)
  | c, _ => (.token (.delim c), cs)

def readLexeme (c : Char) (cs : List Char) : Lexeme × List Char :=
  match readNumeral? (c :: cs) with
  | some (n, rest) => .map .token id (readNumeric n rest)
  | none =>
    if c = '"' ∨ c = '\'' then .map .token id (readQuoted c cs)
    else if c = '#' then .map .token id (readHash cs)
    else if c = '@' then .map .token id (readAt cs)
    else if c = '-' ∧ cs.take 2 = ['-', '>'] then (.token (.mark "-->"), cs.drop 2)
    else if startsName (c :: cs) then readIdentLike (c :: cs)
    else readSymbol c cs

theorem readNumeric_length (n : Numeral) (cs : List Char) :
    (readNumeric n cs).2.length ≤ cs.length := by
  unfold readNumeric
  split
  · simp
  · have := readName_length cs
    split <;> simp [this]

theorem readName_length_lt {cs : List Char} (h : startsName cs) :
    (readName cs).2.length < cs.length := by
  match cs with
  | [] => simp [startsName] at h
  | c :: cs =>
    rw [readName]
    split
    · rename_i hc
      subst hc
      have hs : startsLine cs = false := by simpa [startsName] using h
      simpa [hs] using Nat.lt_succ_of_le (Nat.le_trans (readName_length _) (readEscape_length cs))
    · have hn : isNameChar c = true := by
        unfold startsName at h
        split at h <;> simp_all [isNameChar]
      simpa [hn] using Nat.lt_succ_of_le (readName_length cs)

theorem readIdentLike_length (cs : List Char) :
    (readIdentLike cs).2.length ≤ (readName cs).2.length := by
  unfold readIdentLike
  dsimp only
  split
  · rename_i rest h
    have hb := (List.dropWhile_suffix (l := rest) isBlank).length_le
    have hu := readUrl_length (rest.dropWhile isBlank)
    rw [h]
    split
    · simp
      omega
    · simp
  · simp

theorem readHash_length (cs : List Char) : (readHash cs).2.length ≤ cs.length := by
  have := readName_length cs
  unfold readHash
  dsimp only
  split <;> simp [this]

theorem readAt_length (cs : List Char) : (readAt cs).2.length ≤ cs.length := by
  have := readName_length cs
  unfold readAt
  split <;> simp [this]

theorem readSymbol_length (c : Char) (cs : List Char) :
    (readSymbol c cs).2.length ≤ cs.length := by
  unfold readSymbol
  split <;> grind

theorem readLexeme_length (c : Char) (cs : List Char) :
    (readLexeme c cs).2.length ≤ cs.length := by
  unfold readLexeme
  split
  · rename_i n rest h
    exact Nat.le_trans (readNumeric_length n rest) (Nat.le_of_lt_succ (readNumeral?_length h))
  · split
    · exact readString_length c cs
    · split
      · exact readHash_length cs
      · split
        · exact readAt_length cs
        · split
          · simp
          · split
            · rename_i h
              exact Nat.le_trans (readIdentLike_length _) (Nat.le_of_lt_succ (readName_length_lt h))
            · exact readSymbol_length c cs

def skipComment : List Char → List Char
  | [] => []
  | '*' :: '/' :: cs => cs
  | _ :: cs => skipComment cs

theorem skipComment_length (cs : List Char) : (skipComment cs).length ≤ cs.length := by
  fun_induction skipComment cs <;> simp <;> omega

def lexemes : List Char → List Lexeme
  | [] => []
  | c :: cs =>
    if isBlank c then lexemes cs
    else if c = '/' ∧ cs.head? = some '*' then lexemes (skipComment cs.tail)
    else
      let first := readLexeme c cs
      first.1 :: lexemes first.2
termination_by cs => cs.length
decreasing_by
  · simp
  · have := skipComment_length cs.tail
    simp only [List.length_tail] at this
    simp only [List.length_cons]
    omega
  · exact Nat.lt_succ_of_le (readLexeme_length c cs)

end CssMath.Css
