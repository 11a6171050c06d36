import CssMath.Proofs.Components
import CssMath.Proofs.Reading

/-! What is read from a text, by its components. A group stands for what it contains, between
parentheses, and any other block for one foreign term, spoilt inside or not; so the groups alone
decide whether a bad string or URL spoils the text. -/
namespace CssMath.Css

def delimiter : Char → Term
  | '+' => .operator .add
  | '-' => .operator .subtract
  | '*' => .operator .multiply
  | '/' => .operator .divide
  | c => .other c.toString

/-- The term that a token stands for. A numeral is an operand, a bad string or URL is nothing, and
all that is left is foreign text. -/
def Token.reading? : Token → Option Term
  | .number n => some (.operand (n.integer?.elim (.number (narrow n.value)) .integer))
  | .percentage n => some (.operand (.percentage n.percent))
  | .dimension n unit => some (.operand (.dimension (narrow n.value) (.ofText unit)))
  | .delim c => some (delimiter c)
  | .badString | .badUrl => none
  | t => t.term?.map fun term => .other term.text

mutual

def Component.terms? : Component → Option (List Term)
  | .token t => t.reading?.map ([·])
  | .block kind contents =>
    if kind.isGroup then (terms? contents).map group else some [.other kind.text]

def terms? : List Component → Option (List Term)
  | [] => some []
  | c :: cs => c.terms?.bind fun ts => (terms? cs).map (ts ++ ·)

end

/-- Components with a bad string or URL among them, or in a group among them. -/
inductive Spoilt : List Component → Prop where
  | badString {cs : List Component} (h : .token .badString ∈ cs) : Spoilt cs
  | badUrl {cs : List Component} (h : .token .badUrl ∈ cs) : Spoilt cs
  | group {cs contents : List Component} {kind : BlockKind} (h : .block kind contents ∈ cs)
    (hgroup : kind.isGroup) (hcontents : Spoilt contents) : Spoilt cs

theorem Token.reading?_eq_none_iff {t : Token} :
    t.reading? = none ↔ t = .badString ∨ t = .badUrl := by
  cases t with
  | badString => exact ⟨fun _ => .inl rfl, fun _ => rfl⟩
  | badUrl => exact ⟨fun _ => .inr rfl, fun _ => rfl⟩
  | _ => exact ⟨nofun, fun h => nomatch h⟩

theorem delimiter_eq {c : Char} (hopen : c ≠ '(') (hclose : c ≠ ')') :
    delimiter c = (Operator.ofSymbol? c).elim (.other c.toString) .operator := by
  rw [Operator.ofSymbol?.eq_def]
  split
  · rfl
  · rfl
  · rfl
  · rfl
  · exact absurd rfl hopen
  · exact absurd rfl hclose
  · rw [delimiter.eq_def]
    split <;> simp_all

theorem Token.reading?_eq {t : Token} (h : (Lexeme.token t).isParen = false) :
    t.reading? = t.term? := by
  cases t with
  | delim c =>
    obtain ⟨hopen, hclose⟩ : c ≠ '(' ∧ c ≠ ')' := by simpa [Lexeme.isParen] using h
    exact congrArg some (delimiter_eq hopen hclose)
  | _ => rfl

namespace Spoilt
variable {cs ds : List Component}

theorem mono (h : Spoilt cs) (hsub : cs ⊆ ds) : Spoilt ds := by
  cases h with
  | badString h => exact .badString (hsub h)
  | badUrl h => exact .badUrl (hsub h)
  | group h hgroup hcontents => exact .group (hsub h) hgroup hcontents

end Spoilt

theorem terms?_eq_none_iff_mem {cs : List Component} :
    terms? cs = none ↔ ∃ c ∈ cs, c.terms? = none := by
  induction cs with
  | nil => simp [terms?]
  | cons c cs ih =>
    simp only [terms?, Option.bind_eq_none_iff, List.mem_cons, exists_eq_or_imp, ← ih]
    cases hc : c.terms? with
    | none => simp
    | some ts => simp

theorem Component.terms?_token_eq_none_iff {t : Token} :
    (Component.token t).terms? = none ↔ t = .badString ∨ t = .badUrl := by
  rw [terms?, Option.map_eq_none_iff, Token.reading?_eq_none_iff]

theorem Component.terms?_block_eq_none_iff {kind : BlockKind} {contents : List Component} :
    (Component.block kind contents).terms? = none ↔
      kind.isGroup ∧ Css.terms? contents = none := by
  rw [terms?]
  split <;> simp_all

mutual

theorem Component.spoilt_of_terms? : ∀ {c : Component}, c.terms? = none → Spoilt [c]
  | .token t, h => by
    cases Component.terms?_token_eq_none_iff.mp h with
    | inl ht => exact .badString (ht ▸ List.mem_singleton_self _)
    | inr ht => exact .badUrl (ht ▸ List.mem_singleton_self _)
  | .block kind contents, h => by
    obtain ⟨hgroup, hcontents⟩ := Component.terms?_block_eq_none_iff.mp h
    exact .group (List.mem_singleton_self _) hgroup (spoilt_of_terms? hcontents)

theorem spoilt_of_terms? : ∀ {cs : List Component}, terms? cs = none → Spoilt cs
  | [], h => nomatch h
  | c :: cs, h => by
    rw [terms?, Option.bind_eq_none_iff] at h
    cases hc : c.terms? with
    | none => exact (Component.spoilt_of_terms? hc).mono (by simp)
    | some ts =>
      have hcs : terms? cs = none := by simpa using h ts hc
      exact (spoilt_of_terms? hcs).mono (List.subset_cons_self c cs)

end

theorem terms?_eq_none_iff {cs : List Component} : terms? cs = none ↔ Spoilt cs := by
  constructor
  · exact spoilt_of_terms?
  · intro h
    induction h with
    | badString h =>
      exact terms?_eq_none_iff_mem.mpr ⟨_, h, Component.terms?_token_eq_none_iff.mpr (.inl rfl)⟩
    | badUrl h =>
      exact terms?_eq_none_iff_mem.mpr ⟨_, h, Component.terms?_token_eq_none_iff.mpr (.inr rfl)⟩
    | group h hgroup hcontents ih =>
      have hblock := Component.terms?_block_eq_none_iff.mpr ⟨hgroup, ih⟩
      exact terms?_eq_none_iff_mem.mpr ⟨_, h, hblock⟩

/-- A bad URL spoils a group, but no foreign block, not even with a group around it. -/
example :
    terms? [.block (.bracket .round) [.token .badUrl]] = none ∧
      terms? [.block (.bracket .square) [.block (.bracket .round) [.token .badUrl]]] =
        some [.other "["] :=
  ⟨rfl, rfl⟩

theorem BlockKind.closer_of_isGroup {kind : BlockKind} (h : kind.isGroup) :
    kind.closer = .round := by
  cases kind with
  | bracket b => simpa [isGroup, isCalc, closer] using h
  | function name => rfl

theorem skipBlock_group {kind : BlockKind} (h : kind.isGroup) (b : Bracket) (ls : List Lexeme) :
    skipBlock [b] (.opening kind :: ls) = skipBlock [b] (skipBlock [.round] ls) := by
  rw [skipBlock_opening, BlockKind.closer_of_isGroup h]

theorem Token.ne_closing {t : Token} {b : Bracket} {closer : Option Bracket} (hb : some b = closer)
    (h : ¬closer.map .closing = some t) : t ≠ .closing b := by
  rintro rfl
  exact h (hb ▸ rfl)

/-- Where the reading of a block stops is inside of the block: what it leaves is closed by the same
bracket as all of it, be the reading over or failed in the middle of the blocks inside. -/
theorem skipBlock_rest (b : Bracket) (ls : List Lexeme) :
    skipBlock [b] (readTerms (some b) ls).rest = skipBlock [b] ls := by
  -- the reading of a group inside has `inner.rest` left; by its own induction hypothesis these are
  -- the lexemes behind the group, whether it failed or not
  generalize hb : some b = closer
  fun_induction readTerms closer ls generalizing b with
  | case1 closer => rfl
  | case2 closer t ls hclosing => rfl
  | case3 closer t ls hopen term hterm ih =>
    rw [skipBlock_token (Token.ne_closing hb hopen)]
    exact ih b hb
  | case4 closer t ls hopen hterm => rw [skipBlock_token (Token.ne_closing hb hopen)]
  | case5 closer kind ls hgroup inner hrest us hus ihinner =>
    rename_i ih
    rw [skipBlock_group hgroup, ← ihinner .round rfl]
    exact ih b hb
  | case6 closer kind ls hgroup inner hrest e he =>
    rename_i ihinner
    rw [skipBlock_group hgroup, ← ihinner .round rfl]
    rfl
  | case7 closer kind ls hforeign ih =>
    rw [skipBlock_opening]
    exact ih b hb

theorem rest_leave (ls : List Lexeme) :
    (readTerms (some .round) ls).leave.rest = skipBlock [.round] ls := skipBlock_rest .round ls

section Equations
variable {closer : Option Bracket} {ls : List Lexeme}

theorem readTerms_closing (b : Bracket) :
    (readTerms (some b) (.token (.closing b) :: ls)).result = .ok [] := by
  rw [readTerms, Option.map_some, if_pos rfl]

theorem readTerms_token {t : Token} (ht : ∀ b, closer = some b → t ≠ .closing b) :
    (readTerms closer (.token t :: ls)).result =
      t.term?.elim (.error .unexpectedToken) fun term =>
        (readTerms closer ls).result.map (term :: ·) := by
  have hopen : ¬closer.map .closing = some t := by
    intro hclosing
    obtain ⟨b, hb, rfl⟩ := Option.map_eq_some_iff.mp hclosing
    exact ht b hb rfl
  rw [readTerms, if_neg hopen]
  cases t.term? <;> rfl

theorem readTerms_group {kind : BlockKind} (h : kind.isGroup) :
    (readTerms closer (.opening kind :: ls)).result =
      (readTerms (some .round) ls).result.bind fun ts =>
        (readTerms closer (skipBlock [.round] ls)).result.map (group ts ++ ·) := by
  rw [readTerms, if_pos h, ← rest_leave]
  dsimp only
  split
  · rename_i ts hresult
    have hts : (readTerms (some .round) ls).result = .ok ts := hresult
    rw [hts]
    rfl
  · rename_i e hresult
    have he : (readTerms (some .round) ls).result = .error e := hresult
    rw [he]
    rfl

theorem readTerms_foreign {kind : BlockKind} (h : ¬kind.isGroup) :
    (readTerms closer (.opening kind :: ls)).result =
      (readTerms closer (skipBlock [kind.closer] ls)).result.map (.other kind.text :: ·) := by
  rw [readTerms, if_neg h]
  rfl

end Equations

def readAll (cs : List Component) : Except ReadError (List Term) :=
  (terms? cs).elim (.error .unexpectedToken) .ok

theorem readAll_cons (c : Component) (cs : List Component) :
    readAll (c :: cs) = c.terms?.elim (.error .unexpectedToken) fun ts =>
      (readAll cs).map (ts ++ ·) := by
  rw [readAll, readAll, terms?]
  cases c.terms? with
  | none => rfl
  | some ts => cases terms? cs <;> rfl

theorem readTerms_eq {closer : Option Bracket} {ls rest : List Lexeme} {cs : List Component}
    (h : Nested closer ls cs rest) (hls : ∀ l ∈ ls, l.isParen = false) :
    (readTerms closer ls).result = readAll cs := by
  induction h with
  | ended =>
    rw [readTerms]
    rfl
  | closed => exact readTerms_closing _
  | token ht h ih =>
    obtain ⟨hparen, hls⟩ := List.forall_mem_cons.mp hls
    rw [readTerms_token ht, ← Token.reading?_eq hparen, ih hls, readAll_cons, Component.terms?,
      Option.elim_map]
    rfl
  | @block closer kind ls mid rest contents cs hcontents h ihcontents ih =>
    have hls := (List.forall_mem_cons.mp hls).2
    have hmid : ∀ l ∈ mid, l.isParen = false := fun l hl => hls l (hcontents.isSuffix.subset hl)
    rw [readAll_cons, Component.terms?]
    by_cases hgroup : kind.isGroup = true
    · rw [BlockKind.closer_of_isGroup hgroup] at hcontents ihcontents
      rw [readTerms_group hgroup, ihcontents hls, hcontents.skipBlock_eq, ih hmid, if_pos hgroup,
        readAll, Option.elim_map]
      cases terms? contents <;> rfl
    · rw [readTerms_foreign hgroup, hcontents.skipBlock_eq, ih hmid, if_neg hgroup]
      rfl

def Component.readCalc : Component → Except ReadError (List Term)
  | .token _ => .error .unexpectedToken
  | .block (.bracket _) _ => .error .unexpectedToken
  | .block (.function name) contents =>
    if (BlockKind.function name).isCalc then readAll contents else .error .notCalcFunction

theorem rest_readCalc (kind : BlockKind) (ls : List Lexeme) :
    (readCalc (.opening kind :: ls)).2 = skipBlock [kind.closer] ls := by
  cases kind with
  | bracket b => rfl
  | function name =>
    rw [readCalc]
    by_cases hcalc : (BlockKind.function name).isCalc = true
    · rw [if_pos hcalc]
      exact rest_leave ls
    · rw [if_neg hcalc]
      rfl

theorem readCalc_cons {ls : List Lexeme} {c : Component} {cs : List Component}
    (h : Nested none ls (c :: cs) []) (hls : ∀ l ∈ ls, l.isParen = false) :
    (readCalc ls).1 = c.readCalc ∧ Nested none (readCalc ls).2 cs [] := by
  cases h with
  | token ht h => exact ⟨rfl, h⟩
  | @block _ kind ls mid _ contents _ hcontents h =>
    have hbody := (List.forall_mem_cons.mp hls).2
    rw [rest_readCalc, hcontents.skipBlock_eq]
    refine ⟨?_, h⟩
    cases kind with
    | bracket b => rfl
    | function name =>
      rw [readCalc, Component.readCalc]
      by_cases hcalc : (BlockKind.function name).isCalc = true
      · rw [if_pos hcalc, if_pos hcalc]
        exact readTerms_eq hcontents hbody
      · rw [if_neg hcalc, if_neg hcalc]

theorem calcTerms_cons {text : String} {c : Component} {cs : List Component}
    (h : Nested none (lexemes text.toList) (c :: cs) []) :
    calcTerms text =
      c.readCalc.bind fun ts => if cs.isEmpty then .ok ts else .error .unexpectedToken := by
  obtain ⟨hfirst, hrest⟩ := readCalc_cons h (lexemes_not_paren text.toList)
  rw [calcTerms]
  generalize readCalc (lexemes text.toList) = parts at hfirst hrest
  obtain ⟨result, rest⟩ := parts
  obtain rfl : result = c.readCalc := hfirst
  cases c.readCalc with
  | error e => rfl
  | ok ts => cases hrest <;> rfl

section Function
variable {text : String} {ls : List Lexeme} {ts : List Term}
  (hlexemes : lexemes text.toList = .opening (.function "calc") :: ls)
include hlexemes

theorem calcTerms_of_readTerms (hresult : (readTerms (some .round) ls).result = .ok ts)
    (hrest : skipBlock [.round] ls = []) : calcTerms text = .ok ts := by
  have hcalc : (BlockKind.function "calc").isCalc = true := by decide +kernel
  have hread : readCalc (lexemes text.toList) = (.ok ts, []) := by
    rw [hlexemes, readCalc, if_pos hcalc]
    exact Prod.ext hresult ((rest_leave ls).trans hrest)
  rw [calcTerms, hread]

theorem calcTerms_of_nested {contents : List Component} (h : Nested (some .round) ls contents [])
    (hterms : terms? contents = some ts) : calcTerms text = .ok ts := by
  have hls : ∀ l ∈ ls, l.isParen = false := by
    intro l hl
    apply lexemes_not_paren text.toList
    rw [hlexemes]
    exact List.mem_cons_of_mem _ hl
  refine calcTerms_of_readTerms hlexemes ?_ h.skipBlock_eq
  rw [readTerms_eq h hls, readAll, hterms]
  rfl

end Function

theorem calcTerms_nil {text : String} (h : Nested none (lexemes text.toList) [] []) :
    calcTerms text = .error .unexpectedToken := by
  generalize hlexemes : lexemes text.toList = ls at h
  cases h
  rw [calcTerms, hlexemes, readCalc]

theorem readAll_eq_ok_iff {cs : List Component} {ts : List Term} :
    readAll cs = .ok ts ↔ terms? cs = some ts := by
  rw [readAll]
  cases terms? cs <;> simp

theorem readAll_eq_error_iff {cs : List Component} {e : ReadError} :
    readAll cs = .error e ↔ e = .unexpectedToken ∧ Spoilt cs := by
  rw [readAll, ← terms?_eq_none_iff]
  cases terms? cs <;> simp [eq_comm]

namespace Component

theorem readCalc_eq_ok_iff {c : Component} {ts : List Term} :
    c.readCalc = .ok ts ↔ ∃ name contents, c = .block (.function name) contents ∧
      (BlockKind.function name).isCalc ∧ Css.terms? contents = some ts := by
  match c with
  | token t => simp [readCalc]
  | block (.bracket b) contents => simp [readCalc]
  | block (.function name) contents =>
    rw [readCalc]
    by_cases hcalc : (BlockKind.function name).isCalc = true
    · rw [if_pos hcalc, readAll_eq_ok_iff]
      refine ⟨fun h => ⟨name, contents, rfl, hcalc, h⟩, fun h => ?_⟩
      obtain ⟨_, _, hc, -, hterms⟩ := h
      cases hc
      exact hterms
    · rw [if_neg hcalc]
      refine ⟨nofun, fun h => ?_⟩
      obtain ⟨_, _, hc, hcalc', -⟩ := h
      cases hc
      exact absurd hcalc' hcalc

theorem readCalc_eq_notCalc_iff {c : Component} :
    c.readCalc = .error .notCalcFunction ↔ ∃ name contents, c = .block (.function name) contents ∧
      ¬(BlockKind.function name).isCalc := by
  match c with
  | token t => simp [readCalc]
  | block (.bracket b) contents => simp [readCalc]
  | block (.function name) contents =>
    rw [readCalc]
    by_cases hcalc : (BlockKind.function name).isCalc = true
    · rw [if_pos hcalc, readAll_eq_error_iff]
      refine ⟨nofun, fun h => ?_⟩
      obtain ⟨_, _, hc, hcalc'⟩ := h
      cases hc
      exact absurd hcalc hcalc'
    · rw [if_neg hcalc]
      exact ⟨fun _ => ⟨name, contents, rfl, hcalc⟩, fun _ => rfl⟩

end Component

section
variable {text : String} {cs : List Component} (h : Nested none (lexemes text.toList) cs [])
include h

theorem calcTerms_eq_ok_iff {ts : List Term} :
    calcTerms text = .ok ts ↔ ∃ c, cs = [c] ∧ c.readCalc = .ok ts := by
  match cs with
  | [] => simp [calcTerms_nil h]
  | [c] => cases hc : c.readCalc <;> simp [calcTerms_cons h, hc, Except.bind]
  | c :: _ :: _ => cases hc : c.readCalc <;> simp [calcTerms_cons h, hc, Except.bind]

theorem calcTerms_eq_notCalc_iff :
    calcTerms text = .error .notCalcFunction ↔
      ∃ c others, cs = c :: others ∧ c.readCalc = .error .notCalcFunction := by
  match cs with
  | [] => simp [calcTerms_nil h]
  | [c] => cases hc : c.readCalc <;> simp [calcTerms_cons h, hc, Except.bind]
  | c :: _ :: _ => cases hc : c.readCalc <;> simp [calcTerms_cons h, hc, Except.bind]

end

end CssMath.Css

namespace CssMath.Calculation
open Css

theorem ofText_eq_ok_iff {text : String} {c : Calculation} :
    ofText text = .ok c ↔ ∃ ts, calcTerms text = .ok ts ∧ c = ofInfix ts := by
  rw [ofText]
  cases calcTerms text <;> simp [Except.map, eq_comm]

theorem ofText_eq_error_iff {text : String} {e : ReadError} :
    ofText text = .error e ↔ calcTerms text = .error e := by
  rw [ofText]
  cases calcTerms text <;> simp [Except.map]

/-- What becomes of a text, by the one sequence of its components. As a body it is the terms that
they stand for, and an error exactly if they are spoilt. It is a calculation exactly if its one
component is a call of `calc` that is not spoilt inside, and it is known not to be one exactly if
its first component is a call of another function. -/
theorem ofText_outcome (text : String) :
    ∃ cs, (∀ ds, Nested none (lexemes text.toList) ds [] ↔ ds = cs) ∧
      (∀ ts, bodyTerms text = .ok ts ↔ terms? cs = some ts) ∧
      (∀ e, bodyTerms text = .error e ↔ e = .unexpectedToken ∧ Spoilt cs) ∧
      (ofText text = .error .notCalcFunction ↔ ∃ name contents others,
        cs = .block (.function name) contents :: others ∧ ¬(BlockKind.function name).isCalc) ∧
      ∀ c, ofText text = .ok c ↔ ∃ name contents ts, cs = [.block (.function name) contents] ∧
        (BlockKind.function name).isCalc ∧ terms? contents = some ts ∧ c = ofInfix ts := by
  obtain ⟨cs, hcs⟩ := exists_components (lexemes text.toList)
  have h := (hcs cs).mpr rfl
  have hbody : bodyTerms text = readAll cs := readTerms_eq h (lexemes_not_paren text.toList)
  refine ⟨cs, hcs, fun ts => ?_, fun e => ?_, ?_, fun c => ?_⟩
  · rw [hbody, readAll_eq_ok_iff]
  · rw [hbody, readAll_eq_error_iff]
  · rw [ofText_eq_error_iff, calcTerms_eq_notCalc_iff h]
    constructor
    · intro hfirst
      obtain ⟨c, others, rfl, hc⟩ := hfirst
      obtain ⟨name, contents, rfl, hcalc⟩ := Component.readCalc_eq_notCalc_iff.mp hc
      exact ⟨name, contents, others, rfl, hcalc⟩
    · intro hfirst
      obtain ⟨name, contents, others, rfl, hcalc⟩ := hfirst
      have hc := Component.readCalc_eq_notCalc_iff.mpr ⟨name, contents, rfl, hcalc⟩
      exact ⟨_, others, rfl, hc⟩
  · rw [ofText_eq_ok_iff]
    constructor
    · intro hterms
      obtain ⟨ts, hts, rfl⟩ := hterms
      obtain ⟨c, rfl, hc⟩ := (calcTerms_eq_ok_iff h).mp hts
      obtain ⟨name, contents, rfl, hcalc, hcontents⟩ := Component.readCalc_eq_ok_iff.mp hc
      exact ⟨name, contents, ts, rfl, hcalc, hcontents, rfl⟩
    · intro hone
      obtain ⟨name, contents, ts, rfl, hcalc, hcontents, rfl⟩ := hone
      have hc := Component.readCalc_eq_ok_iff.mpr ⟨name, contents, rfl, hcalc, hcontents⟩
      exact ⟨ts, (calcTerms_eq_ok_iff h).mpr ⟨_, rfl, hc⟩, rfl⟩

end CssMath.Calculation
