import CssMath.Css.MathFunction

/-! Components of a text: tokens, and blocks with what they contain. Each text is one sequence of
components, in which a block that is not closed ends with the text. -/
namespace CssMath.Css

inductive Component where
  | token (t : Token)
  | block (kind : BlockKind) (contents : List Component)

/-- The lexemes of a block that `closer` ends are the components, with `rest` behind the block. The
end of the text ends every block; outside of blocks nothing else does. -/
inductive Nested : Option Bracket → List Lexeme → List Component → List Lexeme → Prop where
  | ended {closer : Option Bracket} : Nested closer [] [] []
  | closed {b : Bracket} {ls : List Lexeme} : Nested (some b) (.token (.closing b) :: ls) [] ls
  | token {closer : Option Bracket} {t : Token} {ls rest : List Lexeme} {cs : List Component}
    (ht : ∀ b, closer = some b → t ≠ .closing b) (h : Nested closer ls cs rest) :
    Nested closer (.token t :: ls) (.token t :: cs) rest
  | block {closer : Option Bracket} {kind : BlockKind} {ls mid rest : List Lexeme}
    {contents cs : List Component} (hcontents : Nested (some kind.closer) ls contents mid)
    (h : Nested closer mid cs rest) :
    Nested closer (.opening kind :: ls) (.block kind contents :: cs) rest

namespace Nested
variable {closer : Option Bracket} {ls rest : List Lexeme} {cs : List Component}

theorem isSuffix (h : Nested closer ls cs rest) : rest <:+ ls := by
  induction h with
  | ended => exact List.suffix_refl []
  | closed => exact List.suffix_cons _ _
  | token ht h ih => exact ih.trans (List.suffix_cons _ _)
  | block hcontents h ihcontents ih => exact (ih.trans ihcontents).trans (List.suffix_cons _ _)

theorem unique {rest' : List Lexeme} {cs' : List Component} (h : Nested closer ls cs rest)
    (h' : Nested closer ls cs' rest') : cs = cs' ∧ rest = rest' := by
  induction h generalizing cs' rest' with
  | ended =>
    cases h'
    exact ⟨rfl, rfl⟩
  | closed =>
    cases h' with
    | closed => exact ⟨rfl, rfl⟩
    | token ht h' => exact absurd rfl (ht _ rfl)
  | token ht h ih =>
    cases h' with
    | closed => exact absurd rfl (ht _ rfl)
    | token ht' h' =>
      obtain ⟨rfl, rfl⟩ := ih h'
      exact ⟨rfl, rfl⟩
  | block hcontents h ihcontents ih =>
    cases h' with
    | block hcontents' h' =>
      obtain ⟨rfl, rfl⟩ := ihcontents hcontents'
      obtain ⟨rfl, rfl⟩ := ih h'
      exact ⟨rfl, rfl⟩

theorem exists_of_length_le (n : Nat) (closer : Option Bracket) (ls : List Lexeme)
    (hn : ls.length ≤ n) : ∃ cs rest, Nested closer ls cs rest := by
  -- on a bound of the length: what follows a block is no tail of the lexemes by its form
  induction n generalizing closer ls with
  | zero =>
    obtain rfl := List.length_eq_zero_iff.mp (Nat.le_zero.mp hn)
    exact ⟨[], [], .ended⟩
  | succ n ih =>
    match ls with
    | [] => exact ⟨[], [], .ended⟩
    | .token t :: ls =>
      have hls : ls.length ≤ n := Nat.le_of_succ_le_succ hn
      by_cases hclose : ∃ b, closer = some b ∧ t = .closing b
      · obtain ⟨b, rfl, rfl⟩ := hclose
        exact ⟨[], ls, .closed⟩
      · obtain ⟨cs, rest, h⟩ := ih closer ls hls
        exact ⟨.token t :: cs, rest, .token (fun b hb ht => hclose ⟨b, hb, ht⟩) h⟩
    | .opening kind :: ls =>
      have hls : ls.length ≤ n := Nat.le_of_succ_le_succ hn
      obtain ⟨contents, mid, hcontents⟩ := ih (some kind.closer) ls hls
      obtain ⟨cs, rest, h⟩ := ih closer mid (Nat.le_trans hcontents.isSuffix.length_le hls)
      exact ⟨.block kind contents :: cs, rest, .block hcontents h⟩

theorem rest_eq_nil (h : Nested none ls cs rest) : rest = [] := by
  generalize hcloser : (none : Option Bracket) = closer at h
  induction h with
  | ended => rfl
  | closed => cases hcloser
  | token ht h ih => exact ih hcloser
  | block hcontents h ihcontents ih => exact ih hcloser

end Nested

theorem exists_components (ls : List Lexeme) : ∃ cs, ∀ ds, Nested none ls ds [] ↔ ds = cs := by
  obtain ⟨cs, rest, h⟩ := Nested.exists_of_length_le ls.length none ls (Nat.le_refl _)
  obtain rfl := h.rest_eq_nil
  refine ⟨cs, fun ds => ⟨fun h' => (h'.unique h).1, ?_⟩⟩
  intro hds
  subst hds
  exact h

theorem Lexeme.nest_closing (b : Bracket) (closers : List Bracket) :
    (token (.closing b)).nest (b :: closers) = closers := by
  simp [nest]

theorem Lexeme.nest_of_ne {t : Token} {b : Bracket} (h : t ≠ .closing b) (closers : List Bracket) :
    (token t).nest (b :: closers) = b :: closers := by
  cases t with
  | closing b' =>
    have hne : b ≠ b' := fun hb => h (congrArg Token.closing hb.symm)
    simp [nest, hne]
  | _ => rfl

theorem Lexeme.nest_append (l : Lexeme) {closers : List Bracket} (h : closers ≠ [])
    (outer : List Bracket) : l.nest (closers ++ outer) = l.nest closers ++ outer := by
  obtain ⟨b, closers, rfl⟩ := List.exists_cons_of_ne_nil h
  cases l with
  | opening kind => rfl
  | token t =>
    by_cases ht : t = .closing b
    · rw [ht, List.cons_append, nest_closing, nest_closing]
    · rw [List.cons_append, nest_of_ne ht, nest_of_ne ht, List.cons_append]

theorem skipBlock_append {closers outer : List Bracket} (hclosers : closers ≠ [])
    (houter : outer ≠ []) (ls : List Lexeme) :
    skipBlock (closers ++ outer) ls = skipBlock outer (skipBlock closers ls) := by
  induction ls generalizing closers with
  | nil => rfl
  | cons l ls ih =>
    rw [skipBlock, skipBlock, l.nest_append hclosers,
      if_neg (List.append_ne_nil_of_right_ne_nil _ houter)]
    by_cases hend : l.nest closers = []
    · rw [if_pos hend, hend, List.nil_append]
    · rw [if_neg hend, ih hend]

theorem skipBlock_opening (b : Bracket) (kind : BlockKind) (ls : List Lexeme) :
    skipBlock [b] (.opening kind :: ls) = skipBlock [b] (skipBlock [kind.closer] ls) := by
  have hkind : [kind.closer] ≠ [] := List.cons_ne_nil _ _
  rw [skipBlock, Lexeme.nest, if_neg (List.cons_ne_nil _ _),
    ← skipBlock_append hkind (List.cons_ne_nil b [])]
  rfl

theorem skipBlock_token {b : Bracket} {t : Token} (h : t ≠ .closing b) (ls : List Lexeme) :
    skipBlock [b] (.token t :: ls) = skipBlock [b] ls := by
  rw [skipBlock, Lexeme.nest_of_ne h, if_neg (List.cons_ne_nil b [])]

theorem skipBlock_closing (b : Bracket) (ls : List Lexeme) :
    skipBlock [b] (.token (.closing b) :: ls) = ls := by
  rw [skipBlock, Lexeme.nest_closing, if_pos rfl]

theorem Nested.skipBlock_eq {b : Bracket} {ls rest : List Lexeme} {cs : List Component}
    (h : Nested (some b) ls cs rest) : skipBlock [b] ls = rest := by
  generalize hcloser : some b = closer at h
  induction h generalizing b with
  | ended => rfl
  | closed =>
    obtain rfl := Option.some.inj hcloser
    exact skipBlock_closing b _
  | token ht h ih => rw [skipBlock_token (ht b hcloser.symm), ih hcloser]
  | block hcontents h ihcontents ih => rw [skipBlock_opening, ihcontents rfl, ih hcloser]

/-- A block has a body: what follows the body is no matter of the block, unless that ends with the
text. -/
theorem Nested.exists_body {closer : Option Bracket} {ls rest : List Lexeme} {cs : List Component}
    (h : Nested closer ls cs rest) :
    ∃ body, ls = body ++ rest ∧
      ∀ ls', (rest = [] → ls' = []) → Nested closer (body ++ ls') cs ls' := by
  induction h with
  | ended =>
    refine ⟨[], rfl, fun ls' hls' => ?_⟩
    rw [hls' rfl]
    exact .ended
  | @closed b ls => exact ⟨[.token (.closing b)], rfl, fun ls' _ => .closed⟩
  | token ht h ih =>
    obtain ⟨body, rfl, hframe⟩ := ih
    exact ⟨_ :: body, rfl, fun ls' hls' => .token ht (hframe ls' hls')⟩
  | @block closer kind ls mid rest contents cs hcontents h ihcontents ih =>
    obtain ⟨inner, rfl, hinner⟩ := ihcontents
    obtain ⟨body, rfl, hframe⟩ := ih
    refine ⟨.opening kind :: (inner ++ body), by simp, fun ls' hls' => ?_⟩
    have hbehind : body ++ rest = [] → body ++ ls' = [] := by
      intro hnil
      obtain ⟨rfl, hrest⟩ := List.append_eq_nil_iff.mp hnil
      exact hls' hrest
    rw [List.cons_append, List.append_assoc]
    exact .block (hinner _ hbehind) (hframe ls' hls')

end CssMath.Css
