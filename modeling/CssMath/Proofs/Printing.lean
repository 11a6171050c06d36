import CssMath.Proofs.ReadOutcome
import Mathlib.Data.List.Forall2

/-! Terms written down and read again. Before a blank, a closing parenthesis or the end a sign is an
operator and no longer part of a numeral, and a numeral ends where its text ends; so each term of a
written list is one lexeme again, and the parentheses make up the blocks that they stand for. -/
namespace CssMath

namespace Css
variable {rest : List Char}

/-- What may stand behind a written term. -/
inductive Boundary : List Char → Prop where
  | ended : Boundary []
  | blank (cs : List Char) : Boundary (' ' :: cs)
  | closing (cs : List Char) : Boundary (')' :: cs)

def readNumeric? (cs : List Char) : Option (Token × List Char) :=
  (readNumeral? cs).map fun (n, behind) => readNumeric n behind

namespace Boundary

theorem takeWhile_append (h : Boundary rest) {p : Char → Bool} (hblank : p ' ' = false)
    (hclosing : p ')' = false) (cs : List Char) : (cs ++ rest).takeWhile p = cs.takeWhile p := by
  cases h with
  | ended => rw [List.append_nil]
  | blank => exact takeWhile_append_stop hblank _ _
  | closing => exact takeWhile_append_stop hclosing _ _

theorem dropWhile_append (h : Boundary rest) {p : Char → Bool} (hblank : p ' ' = false)
    (hclosing : p ')' = false) (cs : List Char) :
    (cs ++ rest).dropWhile p = cs.dropWhile p ++ rest := by
  cases h with
  | ended => rw [List.append_nil, List.append_nil]
  | blank => exact dropWhile_append_stop hblank _ _
  | closing => exact dropWhile_append_stop hclosing _ _

theorem startsDigit_append (h : Boundary rest) (cs : List Char) :
    startsDigit (cs ++ rest) = startsDigit cs := by
  cases cs with
  | nil => cases h <;> rfl
  | cons c cs => rfl

theorem readSign_append (h : Boundary rest) (cs : List Char) :
    readSign (cs ++ rest) = ((readSign cs).1, (readSign cs).2 ++ rest) := by
  cases cs with
  | nil => cases h <;> rfl
  | cons c cs =>
    rw [List.cons_append, readSign.eq_def, readSign.eq_def]
    split <;> simp_all

theorem readDigits_append (h : Boundary rest) (cs : List Char) :
    readDigits (cs ++ rest) = ((readDigits cs).1, (readDigits cs).2 ++ rest) := by
  rw [readDigits, h.takeWhile_append rfl rfl, h.dropWhile_append rfl rfl, readDigits]

theorem readFraction_append (h : Boundary rest) (cs : List Char) :
    readFraction (cs ++ rest) = ((readFraction cs).1, (readFraction cs).2 ++ rest) := by
  cases cs with
  | nil => cases h <;> rfl
  | cons c cs =>
    by_cases hpoint : c = '.'
    · subst hpoint
      rw [List.cons_append, readFraction, readFraction, h.startsDigit_append, h.readDigits_append]
      split <;> rfl
    · simp [readFraction, hpoint]

theorem readExponent_append (h : Boundary rest) (cs : List Char) :
    readExponent (cs ++ rest) = ((readExponent cs).1, (readExponent cs).2 ++ rest) := by
  cases cs with
  | nil => cases h <;> simp [readExponent]
  | cons c cs =>
    rw [List.cons_append, readExponent, readExponent, h.readSign_append]
    dsimp only
    rw [h.startsDigit_append, h.readDigits_append]
    split <;> rfl

theorem readNumeral?_append (h : Boundary rest) (cs : List Char) :
    readNumeral? (cs ++ rest) = (readNumeral? cs).map fun (n, behind) => (n, behind ++ rest) := by
  rw [readNumeral?, readNumeral?, h.readSign_append]
  dsimp only
  rw [h.readDigits_append]
  dsimp only
  rw [h.readFraction_append]
  dsimp only
  rw [h.readExponent_append]
  split <;> rfl

theorem startsName_append (h : Boundary rest) {cs : List Char} (hcs : '\\' ∉ cs) :
    startsName (cs ++ rest) = startsName cs := by
  match cs with
  | [] => cases h <;> rfl
  | [c] =>
    have hc : c ≠ '\\' := fun h => hcs (h ▸ List.mem_cons_self)
    by_cases hminus : c = '-'
    · subst hminus
      cases h <;> rfl
    · cases h <;> simp [startsName, hminus]
  | c :: d :: cs =>
    have hc : c ≠ '\\' := fun h => hcs (h ▸ List.mem_cons_self)
    by_cases hminus : c = '-'
    · subst hminus
      rfl
    · simp [startsName, hminus]

/-- A backslash would take the blank along, so the name must have none. -/
theorem readName_append (h : Boundary rest) {cs : List Char} (hcs : '\\' ∉ cs) :
    readName (cs ++ rest) = ((readName cs).1, (readName cs).2 ++ rest) := by
  induction cs with
  | nil =>
    rw [List.nil_append, readName.eq_def []]
    cases h with
    | ended => simp [readName]
    | blank => simp [readName, isNameChar, isNameStart]
    | closing => simp [readName, isNameChar, isNameStart]
  | cons c cs ih =>
    obtain ⟨hc, hcs⟩ := not_or.mp (mt List.mem_cons.mpr hcs)
    rw [List.cons_append, readName, readName, if_neg (Ne.symm hc), if_neg (Ne.symm hc), ih hcs]
    split <;> rfl

theorem readNumeric_append (h : Boundary rest) {cs : List Char} (hcs : '\\' ∉ cs) (n : Numeral) :
    readNumeric n (cs ++ rest) = ((readNumeric n cs).1, (readNumeric n cs).2 ++ rest) := by
  by_cases hpercent : ∃ ds, cs = '%' :: ds
  · obtain ⟨ds, rfl⟩ := hpercent
    rfl
  · have hnone : ∀ ds, cs ≠ '%' :: ds := fun ds hds => hpercent ⟨ds, hds⟩
    have happend : ∀ ds, cs ++ rest ≠ '%' :: ds := by
      intro ds hds
      cases cs with
      | nil => cases h <;> cases hds
      | cons c cs => exact hnone cs (by rw [(List.cons.inj hds).1])
    rw [readNumeric, readNumeric, h.startsName_append hcs, h.readName_append hcs]
    · split <;> rfl
    · exact hnone
    · exact happend

end Boundary

theorem readSign_isSuffix (cs : List Char) : (readSign cs).2 <:+ cs := by
  unfold readSign
  split
  · exact List.suffix_cons _ _
  · exact List.suffix_cons _ _
  · exact List.suffix_refl _

theorem readDigits_isSuffix (cs : List Char) : (readDigits cs).2 <:+ cs := List.dropWhile_suffix _

theorem readFraction_isSuffix (cs : List Char) : (readFraction cs).2 <:+ cs := by
  unfold readFraction
  split
  · split
    · exact (readDigits_isSuffix _).trans (List.suffix_cons _ _)
    · exact List.suffix_refl _
  · exact List.suffix_refl _

theorem readExponent_isSuffix (cs : List Char) : (readExponent cs).2 <:+ cs := by
  unfold readExponent
  split
  · exact List.suffix_refl _
  · rename_i c cs
    dsimp only
    split
    · exact ((readDigits_isSuffix _).trans (readSign_isSuffix cs)).trans (List.suffix_cons _ _)
    · exact List.suffix_refl _

theorem readNumeral?_isSuffix {cs behind : List Char} {n : Numeral}
    (h : readNumeral? cs = some (n, behind)) : behind <:+ cs := by
  rw [readNumeral?] at h
  dsimp only at h
  split at h
  · cases h
  · obtain ⟨-, rfl⟩ := Prod.mk.inj (Option.some.inj h)
    exact (((readExponent_isSuffix _).trans (readFraction_isSuffix _)).trans
      (readDigits_isSuffix _)).trans (readSign_isSuffix cs)

theorem Boundary.readNumeric?_append (h : Boundary rest) {cs : List Char} (hcs : '\\' ∉ cs) :
    readNumeric? (cs ++ rest) = (readNumeric? cs).map fun (t, behind) => (t, behind ++ rest) := by
  rw [readNumeric?, readNumeric?, h.readNumeral?_append]
  cases hn : readNumeral? cs with
  | none => rfl
  | some parts =>
    have hbehind : '\\' ∉ parts.2 := fun hmem => hcs ((readNumeral?_isSuffix hn).subset hmem)
    exact congrArg some (h.readNumeric_append hbehind parts.1)

theorem readNumeral?_of_isBlank {c : Char} (h : isBlank c) (cs : List Char) :
    readNumeral? (c :: cs) = none := by
  have hc : c = ' ' ∨ c = '\t' ∨ c = '\n' ∨ c = '\r' ∨ c = '\x0c' := by
    simpa [isBlank, isNewline, or_assoc] using h
  obtain rfl | rfl | rfl | rfl | rfl := hc <;> rfl

theorem lexemes_numeric {cs : List Char} {t : Token} (h : readNumeric? cs = some (t, rest)) :
    lexemes cs = .token t :: lexemes rest := by
  match cs with
  | [] => cases h
  | c :: cs =>
    obtain ⟨parts, hn, hparts⟩ := Option.map_eq_some_iff.mp h
    have hblank : ¬isBlank c := by
      intro hc
      rw [readNumeral?_of_isBlank hc] at hn
      cases hn
    have hcomment : ¬(c = '/' ∧ cs.head? = some '*') := by
      intro hc
      obtain ⟨rfl, -⟩ := hc
      cases hn
    rw [lexemes, if_neg hblank, if_neg hcomment, readLexeme, hn]
    dsimp only at hparts ⊢
    rw [hparts]
    rfl

theorem lexemes_blank (cs : List Char) : lexemes (' ' :: cs) = lexemes cs := by
  rw [lexemes]
  exact if_pos rfl

theorem lexemes_calc (cs : List Char) :
    lexemes ("calc(".toList ++ cs) = .opening (.function "calc") :: lexemes cs := by
  have hname : readName ("calc(".toList ++ cs) = ("calc".toList, '(' :: cs) := by
    have hletters : isNameChar 'c' ∧ isNameChar 'a' ∧ isNameChar 'l' := by decide
    have hparen : isNameChar '(' = false := rfl
    simp [readName, hletters, hparen, readable]
  have hurl : "calc".toLower ≠ "url" := by decide +kernel
  have hread : readLexeme 'c' ("alc(".toList ++ cs) = (.opening (.function "calc"), cs) := by
    have hident : readLexeme 'c' ("alc(".toList ++ cs) = readIdentLike ("calc(".toList ++ cs) := rfl
    rw [hident, readIdentLike, hname]
    simp [hurl]
  have hcons : "calc(".toList ++ cs = 'c' :: ("alc(".toList ++ cs) := rfl
  rw [hcons, lexemes, hread]
  rfl

end Css

open Css

/-- Before every boundary the text of the operand is read as one numeral, which is the operand. -/
def Operand.Printable (x : Operand) : Prop :=
  ∀ rest, Boundary rest →
    ∃ t, readNumeric? (x.text.toList ++ rest) = some (t, rest) ∧ t.term? = some (.operand x)

theorem Operand.printable_iff {x : Operand} (hx : '\\' ∉ x.text.toList) :
    x.Printable ↔
      ∃ t, readNumeric? x.text.toList = some (t, []) ∧ t.term? = some (.operand x) := by
  constructor
  · intro h
    simpa using h [] .ended
  · intro h rest hrest
    obtain ⟨t, hread, hterm⟩ := h
    refine ⟨t, ?_, hterm⟩
    rw [hrest.readNumeric?_append hx, hread]
    rfl

def Operator.lexeme : Operator → Lexeme
  | openParen => .opening (.bracket .round)
  | closeParen => .token (.closing .round)
  | o => .token (.delim o.symbol)

theorem Css.lexemes_symbol {rest : List Char} (o : Operator) (h : Boundary rest) :
    lexemes (o.symbol :: rest) = o.lexeme :: lexemes rest := by
  have hblank : ¬isBlank o.symbol := by cases o <;> decide
  have hcomment : ¬(o.symbol = '/' ∧ rest.head? = some '*') := by cases h <;> simp
  have hread : readLexeme o.symbol rest = (o.lexeme, rest) := by cases o <;> cases h <;> rfl
  rw [lexemes, if_neg hblank, if_neg hcomment, hread]

/-- The terms of `depth` blocks around the lexemes, the innermost first, and then those up to what
`closer` ends. -/
def Css.readLevels (closer : Option Bracket) : Nat → List Lexeme → Except ReadError (List Term)
  | 0, ls => (readTerms closer ls).result
  | depth + 1, ls => (readTerms (some .round) ls).result.bind fun ts =>
      (readLevels closer depth (skipBlock [.round] ls)).map (ts ++ .operator .closeParen :: ·)

section Levels
variable {closer : Option Bracket} {depth : Nat} {ls : List Lexeme}

theorem Css.readLevels_closing :
    readLevels closer (depth + 1) (.token (.closing .round) :: ls) =
      (readLevels closer depth ls).map (.operator .closeParen :: ·) := by
  rw [readLevels, readTerms_closing, skipBlock_closing]
  rfl

theorem Css.readLevels_token {t : Token} {term : Term} (hterm : t.term? = some term)
    (hopen : ∀ b, t ≠ .closing b) :
    readLevels closer depth (.token t :: ls) = (readLevels closer depth ls).map (term :: ·) := by
  cases depth with
  | zero =>
    rw [readLevels, readTerms_token fun b _ => hopen b, hterm]
    rfl
  | succ depth =>
    rw [readLevels, readTerms_token fun b _ => hopen b, hterm, skipBlock_token (hopen .round),
      readLevels]
    cases (readTerms (some .round) ls).result with
    | error e => rfl
    | ok ts => cases readLevels closer depth (skipBlock [.round] ls) <;> rfl

/-- A group is one more block around what it contains. -/
theorem Css.readLevels_group {kind : BlockKind} (h : kind.isGroup) :
    readLevels closer depth (.opening kind :: ls) =
      (readLevels closer (depth + 1) ls).map (.operator .openParen :: ·) := by
  rw [readLevels]
  cases depth with
  | zero =>
    rw [readLevels, readTerms_group h, readLevels]
    cases (readTerms (some .round) ls).result with
    | error e => rfl
    | ok ts =>
      cases (readTerms closer (skipBlock [.round] ls)).result with
      | error e => rfl
      | ok us => simp [Except.map, Except.bind, group]
  | succ depth =>
    rw [readLevels, readTerms_group h, skipBlock_group h, readLevels]
    cases (readTerms (some .round) ls).result with
    | error e => rfl
    | ok ts =>
      cases (readTerms (some .round) (skipBlock [.round] ls)).result with
      | error e => rfl
      | ok us =>
        cases readLevels closer depth (skipBlock [.round] (skipBlock [.round] ls)) with
        | error e => rfl
        | ok vs => simp [Except.map, Except.bind, group]

end Levels

namespace Term

/-- The lexeme stands for the term: a parenthesis for itself, a token for an operand or a binary
operator. -/
inductive Spelt : Term → Lexeme → Prop where
  | opening : Spelt (.operator .openParen) (.opening (.bracket .round))
  | closing : Spelt (.operator .closeParen) (.token (.closing .round))
  | token {t : Term} {u : Token} (hu : u.term? = some t) (hnative : t.isForeign = false)
    (hflat : ∀ depth, t.nest depth = some depth) : Spelt t (.token u)

theorem spelt_lexeme (o : Operator) : Spelt (.operator o) o.lexeme := by
  cases o with
  | openParen => exact .opening
  | closeParen => exact .closing
  | _ => exact .token rfl rfl (nest_of_isBinary rfl)

theorem exists_spelt {t : Term} (hnative : t.isForeign = false)
    (hprint : ∀ x ∈ operands [t], x.Printable) {rest : List Char} (hrest : Boundary rest) :
    ∃ l, lexemes (t.text.toList ++ rest) = l :: lexemes rest ∧ t.Spelt l := by
  cases t with
  | operand x =>
    obtain ⟨u, hread, hu⟩ := hprint x List.mem_cons_self rest hrest
    exact ⟨.token u, lexemes_numeric hread, .token hu rfl fun depth => by cases depth <;> rfl⟩
  | operator o =>
    have htext : (operator o).text.toList ++ rest = o.symbol :: rest := by simp [text]
    rw [htext]
    exact ⟨o.lexeme, lexemes_symbol o hrest, spelt_lexeme o⟩
  | other text => cases hnative

namespace Spelt
variable {t : Term} {l : Lexeme}

theorem ne_closing {u : Token} (hu : u.term? = some t) (hnative : t.isForeign = false)
    (b : Bracket) : u ≠ .closing b := by
  intro hclosing
  subst hclosing
  obtain rfl := Option.some.inj hu
  cases hnative

theorem nest (h : t.Spelt l) {depth inner : Nat} (hnest : t.nest depth = some inner) :
    l.nest (List.replicate (depth + 1) .round) = List.replicate (inner + 1) .round := by
  cases h with
  | opening =>
    obtain rfl : depth + 1 = inner := by cases depth <;> exact Option.some.inj hnest
    rfl
  | closing =>
    cases depth with
    | zero => cases hnest
    | succ depth =>
      obtain rfl := Option.some.inj hnest
      exact Lexeme.nest_closing .round _
  | token hu hnative hflat =>
    obtain rfl := Option.some.inj ((hflat depth).symm.trans hnest)
    exact Lexeme.nest_of_ne (ne_closing hu hnative .round) _

theorem readLevels_cons (h : t.Spelt l) {closer : Option Bracket} {depth inner : Nat}
    (hnest : t.nest depth = some inner) (ls : List Lexeme) :
    readLevels closer depth (l :: ls) = (readLevels closer inner ls).map (t :: ·) := by
  cases h with
  | opening =>
    obtain rfl : depth + 1 = inner := by cases depth <;> exact Option.some.inj hnest
    exact readLevels_group rfl
  | closing =>
    cases depth with
    | zero => cases hnest
    | succ depth =>
      obtain rfl := Option.some.inj hnest
      exact readLevels_closing
  | token hu hnative hflat =>
    obtain rfl := Option.some.inj ((hflat depth).symm.trans hnest)
    exact readLevels_token hu (ne_closing hu hnative)

end Spelt

end Term

section
variable {ts : List Term} {ls : List Lexeme}

theorem readLevels_of_spelt (h : List.Forall₂ Term.Spelt ts ls) {closer : Option Bracket}
    {depth inner : Nat} (hnest : nesting depth ts = some inner) (rest : List Lexeme) :
    readLevels closer depth (ls ++ rest) = (readLevels closer inner rest).map (ts ++ ·) := by
  induction h generalizing depth with
  | nil =>
    obtain rfl := Option.some.inj hnest
    cases h : readLevels closer depth rest with
    | error e => exact h
    | ok us => exact h
  | cons hspelt hrest ih =>
    obtain ⟨mid, hmid, hts⟩ := Option.bind_eq_some_iff.mp hnest
    rw [List.cons_append, hspelt.readLevels_cons hmid, ih hts]
    cases readLevels closer inner rest <;> rfl

theorem skipBlock_of_spelt (h : List.Forall₂ Term.Spelt ts ls) {depth inner : Nat}
    (hnest : nesting depth ts = some inner) (rest : List Lexeme) :
    skipBlock (List.replicate (depth + 1) .round) (ls ++ rest) =
      skipBlock (List.replicate (inner + 1) .round) rest := by
  induction h generalizing depth with
  | nil =>
    obtain rfl := Option.some.inj hnest
    rfl
  | cons hspelt hrest ih =>
    obtain ⟨mid, hmid, hts⟩ := Option.bind_eq_some_iff.mp hnest
    have hopen : List.replicate (mid + 1) Bracket.round ≠ [] := List.cons_ne_nil _ _
    rw [List.cons_append, skipBlock, hspelt.nest hmid, if_neg hopen, ih hts]

end

def written (ts : List Term) : String := " ".intercalate (ts.map Term.text)

theorem toList_written_cons (t : Term) {ts : List Term} (hts : ts ≠ []) :
    (written (t :: ts)).toList = t.text.toList ++ ' ' :: (written ts).toList := by
  match ts with
  | [] => exact absurd rfl hts
  | u :: us =>
    simp [written, String.toList_intercalate]

theorem exists_lexemes_written {ts : List Term} (hnative : ∀ t ∈ ts, t.isForeign = false)
    (hprint : ∀ x ∈ operands ts, x.Printable) {rest : List Char} (hrest : Boundary rest) :
    ∃ ls, lexemes ((written ts).toList ++ rest) = ls ++ lexemes rest ∧
      List.Forall₂ Term.Spelt ts ls := by
  induction ts with
  | nil => exact ⟨[], rfl, .nil⟩
  | cons t ts ih =>
    obtain ⟨ht, hts⟩ := List.forall_mem_cons.mp hnative
    have hsplit : operands (t :: ts) = operands [t] ++ operands ts := operands_append [t] ts
    obtain ⟨hx, hxs⟩ := List.forall_mem_append.mp (hsplit ▸ hprint)
    obtain ⟨ls, hls, hspelt⟩ := ih hts hxs
    by_cases hnil : ts = []
    · subst hnil
      cases hspelt
      obtain ⟨l, hl, hspelt⟩ := Term.exists_spelt ht hx hrest
      refine ⟨[l], ?_, .cons hspelt .nil⟩
      simpa [written] using hl
    · obtain ⟨l, hl, hl'⟩ := Term.exists_spelt ht hx (.blank ((written ts).toList ++ rest))
      refine ⟨l :: ls, ?_, .cons hl' hspelt⟩
      rw [toList_written_cons t hnil, List.append_assoc, List.cons_append, hl, lexemes_blank, hls]
      rfl

/-- A balanced list of operators and printable operands is what its text is read as, whatever their
order, and the calculation of the list is that of the text as the body of `calc()`. -/
theorem Calculation.ofText_written {ts : List Term} (hbalanced : Balanced ts)
    (hnative : ∀ t ∈ ts, t.isForeign = false) (hprint : ∀ x ∈ operands ts, x.Printable) :
    bodyTerms (written ts) = .ok ts ∧
      ofText s!"calc({written ts})" = .ok (ofInfix ts) := by
  have hnest := balanced_iff.mp hbalanced
  constructor
  · obtain ⟨ls, hls, hspelt⟩ := exists_lexemes_written hnative hprint .ended
    have hread : (readTerms none (ls ++ [])).result = _ := readLevels_of_spelt hspelt hnest []
    rw [List.append_nil, lexemes] at hls
    rw [bodyTerms, hls, hread, readLevels, readTerms]
    exact congrArg Except.ok (List.append_nil ts)
  · obtain ⟨ls, hls, hspelt⟩ := exists_lexemes_written hnative hprint (.closing [])
    have htext : (s!"calc({written ts})").toList =
        "calc(".toList ++ ((written ts).toList ++ [')']) := by
      simp [toString]
    have hlexemes : lexemes (s!"calc({written ts})").toList =
        .opening (.function "calc") :: (ls ++ lexemes [')']) := by
      rw [htext, lexemes_calc, hls]
    have hclosing : lexemes [')'] = [.token (.closing .round)] := by decide +kernel
    rw [hclosing] at hlexemes
    have hread : (readTerms (some .round) (ls ++ [.token (.closing .round)])).result = _ :=
      readLevels_of_spelt hspelt hnest _
    have hskip : skipBlock [.round] (ls ++ [.token (.closing .round)]) = _ :=
      skipBlock_of_spelt hspelt hnest _
    rw [readLevels, readTerms_closing] at hread
    rw [ofText, calcTerms_of_readTerms hlexemes hread hskip]
    simp [Except.map]

/-- An operator without its values, a group beside another one, and signs of both kinds. -/
theorem Calculation.ofText_written_signed :
    let x : Term := .operand (.dimension (-2.5) .pixels)
    let y : Term := .operand (.percentage 33.3)
    let z : Term := .operand (.number 0.1)
    let minus : Term := .operator .subtract
    let ts := minus :: group (x :: minus :: group [y, minus]) ++ group [z]
    Balanced ts ∧ (∀ t ∈ ts, t.isForeign = false) ∧ (∀ x ∈ operands ts, x.Printable) ∧
      written ts = "- ( -2.5px - ( 33.3% - ) ) ( 0.1 )" ∧
      bodyTerms "- ( -2.5px - ( 33.3% - ) ) ( 0.1 )" = .ok ts ∧
      ofText "calc(- ( -2.5px - ( 33.3% - ) ) ( 0.1 ))" = .ok (ofInfix ts) := by
  intro x y z minus ts
  have hbalanced : Balanced ts := by decide +kernel
  have hnative : ∀ t ∈ ts, t.isForeign = false := by decide +kernel
  have hx : (Operand.dimension (-2.5) .pixels).Printable := by
    refine (Operand.printable_iff (by decide +kernel)).mpr
      ⟨.dimension ⟨true, [2], [5], none⟩ "px", ?_, ?_⟩ <;> decide +kernel
  have hy : (Operand.percentage 33.3).Printable := by
    refine (Operand.printable_iff (by decide +kernel)).mpr
      ⟨.percentage ⟨false, [3, 3], [3], none⟩, ?_, ?_⟩ <;> decide +kernel
  have hz : (Operand.number 0.1).Printable := by
    refine (Operand.printable_iff (by decide +kernel)).mpr
      ⟨.number ⟨false, [0], [1], none⟩, ?_, ?_⟩ <;> decide +kernel
  have hprint : ∀ x ∈ operands ts, x.Printable := by
    have hoperands : operands ts =
        [.dimension (-2.5) .pixels, .percentage 33.3, .number 0.1] := rfl
    rw [hoperands]
    simp [hx, hy, hz]
  have hwritten : written ts = "- ( -2.5px - ( 33.3% - ) ) ( 0.1 )" := by decide +kernel
  have h := ofText_written hbalanced hnative hprint
  rw [hwritten] at h
  exact ⟨hbalanced, hnative, hprint, hwritten, h⟩

end CssMath
