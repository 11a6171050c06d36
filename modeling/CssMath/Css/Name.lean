/-! Names in CSS text: the characters that make them up, escapes, and how a name is read and
written. A backslash escapes any character but a newline, by itself or by its code point in
hexadecimal. -/
namespace CssMath.Css

def isNewline (c : Char) : Bool := c = '\n' || c = '\r' || c = '\x0c'

def isBlank (c : Char) : Bool := c = ' ' || c = '\t' || isNewline c

/-- Every character beyond ASCII starts a name, and so does NUL. -/
def isNameStart (c : Char) : Bool := c.isAlpha || c = '_' || c = '\x00' || 127 < c.toNat

def isNameChar (c : Char) : Bool := isNameStart c || c.isDigit || c = '-'

def startsLine : List Char → Bool
  | c :: _ => isNewline c
  | [] => false

def startsName : List Char → Bool
  | '-' :: c :: _ => c = '-' || c = '\\' || isNameStart c
  | '\\' :: cs => !startsLine cs
  | c :: _ => isNameStart c
  | [] => false

def replacement : Char := '\ufffd'

def readable (c : Char) : Char := if c = '\x00' then replacement else c

def dropBlank : List Char → List Char
  | '\r' :: '\n' :: cs => cs
  | c :: cs => if isBlank c then cs else c :: cs
  | [] => []

theorem dropBlank_length (cs : List Char) : (dropBlank cs).length ≤ cs.length := by
  unfold dropBlank
  split
  · simp; omega
  · split <;> simp
  · simp

def hexValue? (c : Char) : Option Nat :=
  if c.isDigit then some (c.toNat - 48)
  else if 'a' ≤ c ∧ c ≤ 'f' then some (c.toNat - 87)
  else if 'A' ≤ c ∧ c ≤ 'F' then some (c.toNat - 55)
  else none

def scalar (n : Nat) : Char := if n ≠ 0 ∧ n.isValidChar then Char.ofNat n else replacement

/-- Reads what a backslash escapes: up to six hexadecimal digits and a blank behind them, or one
character. At the end of the text there is nothing to escape. -/
def readEscape (cs : List Char) : Char × List Char :=
  match (cs.take 6).map hexValue? |>.takeWhile Option.isSome, cs with
  | [], [] => (replacement, [])
  | [], c :: rest => (readable c, rest)
  | digits, cs =>
    (scalar (digits.foldl (fun n d => 16 * n + d.getD 0) 0), dropBlank (cs.drop digits.length))

theorem readEscape_length (cs : List Char) : (readEscape cs).2.length ≤ cs.length := by
  unfold readEscape
  split
  · simp
  · simp
  · exact Nat.le_trans (dropBlank_length _) (by simp)

def readName : List Char → List Char × List Char
  | [] => ([], [])
  | c :: cs =>
    if c = '\\' then
      if startsLine cs then ([], c :: cs)
      else
        let escape := readEscape cs
        let name := readName escape.2
        (escape.1 :: name.1, name.2)
    else if isNameChar c then
      let name := readName cs
      (readable c :: name.1, name.2)
    else ([], c :: cs)
termination_by cs => cs.length
decreasing_by
  · exact Nat.lt_succ_of_le (readEscape_length cs)
  · simp

theorem readName_length (cs : List Char) : (readName cs).2.length ≤ cs.length := by
  fun_induction readName cs with
  | case1 => simp
  | case2 => simp
  | case3 cs _ _ _ ih => exact Nat.le_succ_of_le (Nat.le_trans ih (readEscape_length cs))
  | case4 _ _ _ _ _ ih => exact Nat.le_succ_of_le ih
  | case5 => simp

def escapeByCode (c : Char) : List Char := '\\' :: Nat.toDigits 16 c.toNat ++ [' ']

def isControl (c : Char) : Bool := c.toNat < 32 || c.toNat = 127

def writeNameChar (c : Char) : List Char :=
  if isNameChar c then [readable c]
  else if isControl c then escapeByCode c
  else ['\\', c]

def writeName (name : List Char) : List Char := name.flatMap writeNameChar

/-- Digits cannot start a name, nor follow its leading hyphen, unless escaped. -/
def writeIdent : List Char → List Char
  | '-' :: '-' :: cs => '-' :: '-' :: writeName cs
  | ['-'] => ['\\', '-']
  | '-' :: c :: cs => '-' :: start c ++ writeName cs
  | c :: cs => start c ++ writeName cs
  | [] => []
where
  start (c : Char) : List Char := if c.isDigit then escapeByCode c else writeNameChar c

end CssMath.Css
