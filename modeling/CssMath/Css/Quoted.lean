import CssMath.Css.Name

/-! Strings and URLs in CSS text. The end of the text ends both. A string that meets a newline is
bad and ends before it; a URL that holds a character it may not hold is bad and ends behind the next
closing parenthesis. A bad one has no value. -/
namespace CssMath.Css

/-- Reads a string up to its closing `quote`. A backslash before a newline continues the line. -/
def readString (quote : Char) : List Char → Option (List Char) × List Char
  | [] => (some [], [])
  | c :: cs =>
    if c = quote then (some [], cs)
    else if isNewline c then (none, c :: cs)
    else if c = '\\' then
      if cs.isEmpty then (some [], [])
      else if startsLine cs then readString quote (dropBlank cs)
      else
        let escape := readEscape cs
        let tail := readString quote escape.2
        (tail.1.map (escape.1 :: ·), tail.2)
    else
      let tail := readString quote cs
      (tail.1.map (readable c :: ·), tail.2)
termination_by cs => cs.length
decreasing_by
  · exact Nat.lt_succ_of_le (dropBlank_length cs)
  · exact Nat.lt_succ_of_le (readEscape_length cs)
  · simp

theorem readString_length (quote : Char) (cs : List Char) :
    (readString quote cs).2.length ≤ cs.length := by
  fun_induction readString quote cs with
  | case1 => simp
  | case2 => simp
  | case3 => simp
  | case4 => simp
  | case5 cs _ _ _ _ ih => exact Nat.le_succ_of_le (Nat.le_trans ih (dropBlank_length cs))
  | case6 cs _ _ _ _ _ _ ih => exact Nat.le_succ_of_le (Nat.le_trans ih (readEscape_length cs))
  | case7 _ _ _ _ _ _ ih => exact Nat.le_succ_of_le ih

def skipBadUrl : List Char → List Char
  | [] => []
  | ')' :: cs => cs
  | '\\' :: ')' :: cs | '\\' :: '\\' :: cs => skipBadUrl cs
  | _ :: cs => skipBadUrl cs

theorem skipBadUrl_length (cs : List Char) : (skipBadUrl cs).length ≤ cs.length := by
  fun_induction skipBadUrl cs <;> simp <;> omega

/-- Behind a blank a URL can only end; the character that stands there instead is lost. -/
def readUrlEnd (cs : List Char) : Option (List Char) × List Char :=
  match cs.dropWhile isBlank with
  | [] => (some [], [])
  | ')' :: rest => (some [], rest)
  | _ :: rest => (none, skipBadUrl rest)

theorem readUrlEnd_length (cs : List Char) : (readUrlEnd cs).2.length ≤ cs.length := by
  have h := (List.dropWhile_suffix (l := cs) isBlank).length_le
  unfold readUrlEnd
  split
  · simp
  · simp_all only [List.length_cons]
    omega
  · rename_i rest _ hrest
    have := skipBadUrl_length rest
    simp only [hrest, List.length_cons] at h
    simp only
    omega

def isBadInUrl (c : Char) : Bool :=
  c = '"' || c = '\'' || c = '(' || (isControl c && c ≠ '\x00')

def readUrl : List Char → Option (List Char) × List Char
  | [] => (some [], [])
  | c :: cs =>
    if c = ')' then (some [], cs)
    else if isBlank c then readUrlEnd cs
    else if isBadInUrl c then (none, skipBadUrl cs)
    else if c = '\\' then
      if startsLine cs then (none, skipBadUrl cs)
      else
        let escape := readEscape cs
        let tail := readUrl escape.2
        (tail.1.map (escape.1 :: ·), tail.2)
    else
      let tail := readUrl cs
      (tail.1.map (readable c :: ·), tail.2)
termination_by cs => cs.length
decreasing_by
  · exact Nat.lt_succ_of_le (readEscape_length cs)
  · simp

theorem readUrl_length (cs : List Char) : (readUrl cs).2.length ≤ cs.length := by
  fun_induction readUrl cs with
  | case1 => simp
  | case2 => simp
  | case3 => exact Nat.le_succ_of_le (readUrlEnd_length _)
  | case4 => exact Nat.le_succ_of_le (skipBadUrl_length _)
  | case5 => exact Nat.le_succ_of_le (skipBadUrl_length _)
  | case6 cs _ _ _ _ _ _ ih => exact Nat.le_succ_of_le (Nat.le_trans ih (readEscape_length cs))
  | case7 _ _ _ _ _ _ _ ih => exact Nat.le_succ_of_le ih

def writeString (value : List Char) : List Char :=
  '"' :: value.flatMap character ++ ['"']
where
  character (c : Char) : List Char :=
    if c = '"' ∨ c = '\\' then ['\\', c]
    else if isControl c ∧ c ≠ '\x00' then escapeByCode c
    else [readable c]

def writeUrl (value : List Char) : List Char :=
  "url(".toList ++ value.flatMap character ++ [')']
where
  character (c : Char) : List Char :=
    if isControl c ∨ c = ' ' then escapeByCode c
    else if c = '"' ∨ c = '\'' ∨ c = '(' ∨ c = ')' ∨ c = '\\' then ['\\', c]
    else [c]

end CssMath.Css
