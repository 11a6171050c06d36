import CssMath.Css.MathFunction
import CssMath.Proofs.Nesting

/-! Parentheses in the terms of a text. No lexeme is a parenthesis on its own, because each one
opens or closes a block; so parentheses come into the terms by blocks only, in pairs, whatever is
unclosed or stray in the text. -/
namespace CssMath.Css

def Lexeme.isParen : Lexeme → Bool
  | token (.delim c) => c = '(' || c = ')'
  | _ => false

theorem readNumeric_not_paren (n : Numeral) (cs : List Char) :
    (Lexeme.token (readNumeric n cs).1).isParen = false := by
  rw [readNumeric.eq_def]
  split
  · rfl
  · split <;> rfl

theorem readQuoted_not_paren (quote : Char) (cs : List Char) :
    (Lexeme.token (readQuoted quote cs).1).isParen = false := by
  rw [readQuoted]
  cases (readString quote cs).1 <;> rfl

theorem readHash_not_paren (cs : List Char) : (Lexeme.token (readHash cs).1).isParen = false := by
  rw [readHash]
  by_cases h : (readName cs).1 = []
  · rw [if_pos h]
    rfl
  · rw [if_neg h]
    rfl

theorem readAt_not_paren (cs : List Char) : (Lexeme.token (readAt cs).1).isParen = false := by
  rw [readAt]
  by_cases h : startsName cs = true
  · rw [if_pos h]
    rfl
  · rw [if_neg h]
    rfl

theorem readIdentLike_not_paren (cs : List Char) : (readIdentLike cs).1.isParen = false := by
  rw [readIdentLike]
  split
  · rename_i rest h
    split
    · dsimp only
      cases (readUrl (rest.dropWhile isBlank)).1 <;> rfl
    · rfl
  · rfl

theorem readSymbol_not_paren (c : Char) (cs : List Char) : (readSymbol c cs).1.isParen = false := by
  rw [readSymbol.eq_def]
  split <;> simp_all [Lexeme.isParen]

theorem readLexeme_not_paren (c : Char) (cs : List Char) : (readLexeme c cs).1.isParen = false := by
  rw [readLexeme]
  split
  · exact readNumeric_not_paren _ _
  · split
    · exact readQuoted_not_paren c cs
    · split
      · exact readHash_not_paren cs
      · split
        · exact readAt_not_paren cs
        · split
          · rfl
          · split
            · exact readIdentLike_not_paren (c :: cs)
            · exact readSymbol_not_paren c cs

theorem lexemes_not_paren (cs : List Char) : ∀ l ∈ lexemes cs, l.isParen = false := by
  fun_induction lexemes cs with
  | case1 => simp
  | case2 c cs hblank ih => exact ih
  | case3 c cs hblank hcomment ih => exact ih
  | case4 c cs hblank hcomment first ih =>
    intro l hl
    cases hl with
    | head => exact readLexeme_not_paren c cs
    | tail _ hl => exact ih l hl

theorem Token.nest_term {t : Token} {term : Term} (hp : (Lexeme.token t).isParen = false)
    (ht : t.term? = some term) (depth : Nat) : term.nest depth = some depth := by
  cases t with
  | delim c =>
    obtain rfl := Option.some.inj ht
    cases ho : Operator.ofSymbol? c with
    | none => rfl
    | some o =>
      rw [Operator.ofSymbol?.eq_def] at ho
      split at ho <;> cases ho <;> first | rfl | simp [Lexeme.isParen] at hp
  | badString => cases ht
  | badUrl => cases ht
  | _ =>
    obtain rfl := Option.some.inj ht
    rfl

theorem Reading.of_after {ls ls' : List Lexeme} {r : Reading ls'} {us ts : List Term}
    {h : ls' <:+ ls} (hr : (r.after us h).result = .ok ts) :
    ∃ vs, r.result = .ok vs ∧ ts = us ++ vs := by
  rw [after] at hr
  cases hresult : r.result with
  | error e =>
    rw [hresult] at hr
    cases hr
  | ok vs =>
    rw [hresult] at hr
    exact ⟨vs, rfl, (Except.ok.inj hr).symm⟩

theorem nesting_group {ts : List Term} {depth : Nat}
    (h : nesting (depth + 1) ts = some (depth + 1)) : nesting depth (group ts) = some depth := by
  have hopen : (Term.operator .openParen).nest depth = some (depth + 1) := by cases depth <;> rfl
  rw [group, nesting, hopen, Option.bind_some, nesting_append, h]
  rfl

theorem nesting_readTerms {closer : Option Bracket} {ls : List Lexeme} {ts : List Term}
    (hls : ∀ l ∈ ls, l.isParen = false) (h : (readTerms closer ls).result = .ok ts) (depth : Nat) :
    nesting depth ts = some depth := by
  fun_induction readTerms closer ls generalizing ts depth with
  | case1 closer =>
    obtain rfl := Except.ok.inj h
    rfl
  | case2 closer t ls hclosing =>
    obtain rfl := Except.ok.inj h
    rfl
  | case3 closer t ls hopen term hterm ih =>
    obtain ⟨ht, hls⟩ := List.forall_mem_cons.mp hls
    obtain ⟨us, hus, rfl⟩ := Reading.of_after h
    rw [List.singleton_append, nesting, Token.nest_term ht hterm]
    exact ih hls hus depth
  | case4 closer t ls hopen hterm => cases h
  | case5 closer kind ls hgroup inner hrest us hus ihinner =>
    rename_i ih
    have hls := (List.forall_mem_cons.mp hls).2
    obtain ⟨vs, hvs, rfl⟩ := Reading.of_after h
    have hgroup : nesting depth (group us) = some depth :=
      nesting_group (ihinner hls hus (depth + 1))
    rw [← group, nesting_append, hgroup]
    exact ih (fun l hl => hls l (inner.isSuffix.subset hl)) hvs depth
  | case6 closer kind ls hgroup inner hrest e he => cases h
  | case7 closer kind ls hforeign ih =>
    have hls := (List.forall_mem_cons.mp hls).2
    obtain ⟨us, hus, rfl⟩ := Reading.of_after h
    have hother : (Term.other kind.text).nest depth = some depth := by cases depth <;> rfl
    rw [List.singleton_append, nesting, hother]
    exact ih (fun l hl => hls l ((skipBlock_isSuffix _ ls).subset hl)) hus depth

theorem nesting_readCalc {ls : List Lexeme} {ts : List Term} (hls : ∀ l ∈ ls, l.isParen = false)
    (h : (readCalc ls).1 = .ok ts) (depth : Nat) : nesting depth ts = some depth := by
  rw [readCalc.eq_def] at h
  split at h
  · cases h
  · cases h
  · cases h
  · rename_i name ls
    by_cases hcalc : (BlockKind.function name).isCalc = true
    · rw [if_pos hcalc] at h
      exact nesting_readTerms (List.forall_mem_cons.mp hls).2 h depth
    · rw [if_neg hcalc] at h
      cases h

/-- The terms of a `calc()` function close all that they open, and no more. -/
theorem nesting_calcTerms {text : String} {ts : List Term} (h : calcTerms text = .ok ts) :
    nesting 0 ts = some 0 := by
  have hread : (readCalc (lexemes text.toList)).1 = .ok ts := by
    rw [calcTerms] at h
    split at h
    · rename_i hterms
      rw [hterms]
      exact h
    · cases h
    · cases h
  exact nesting_readCalc (lexemes_not_paren text.toList) hread 0

end CssMath.Css
