import CssMath.Proofs.ReadOutcome

/-! Readings one after another. Each of them takes one component and leaves the lexemes behind it,
failed or not; so what a reading gives depends on the component at its own place and on no other,
and where no component is left every reading fails. -/
namespace CssMath.Css

namespace Component

theorem readCalc_eq_unexpected_iff {c : Component} :
    c.readCalc = .error .unexpectedToken ↔ (∃ t, c = .token t) ∨
      (∃ b contents, c = .block (.bracket b) contents) ∨
      ∃ name contents, c = .block (.function name) contents ∧
        (BlockKind.function name).isCalc ∧ Spoilt contents := by
  match c with
  | token t => simp [readCalc]
  | block (.bracket b) contents => simp [readCalc]
  | block (.function name) contents =>
    rw [readCalc]
    by_cases hcalc : (BlockKind.function name).isCalc = true
    · rw [if_pos hcalc, readAll_eq_error_iff]
      refine ⟨fun h => .inr (.inr ⟨name, contents, rfl, hcalc, h.2⟩), fun h => ?_⟩
      obtain ⟨_, ht⟩ | ⟨_, _, hb⟩ | ⟨_, _, hc, -, hspoilt⟩ := h
      · cases ht
      · cases hb
      · cases hc
        exact ⟨rfl, hspoilt⟩
    · rw [if_neg hcalc]
      simp [hcalc]

def calculation (c : Component) : Except ReadError Calculation :=
  c.readCalc.map Calculation.ofInfix

theorem calculation_eq_ok_iff {c : Component} {d : Calculation} :
    c.calculation = .ok d ↔ ∃ name contents ts, c = .block (.function name) contents ∧
      (BlockKind.function name).isCalc ∧ Css.terms? contents = some ts ∧ d = .ofInfix ts := by
  have hmap : c.calculation = .ok d ↔ ∃ ts, c.readCalc = .ok ts ∧ d = .ofInfix ts := by
    rw [calculation]
    cases c.readCalc <;> simp [Except.map, eq_comm]
  rw [hmap]
  constructor
  · intro h
    obtain ⟨ts, hts, rfl⟩ := h
    obtain ⟨name, contents, rfl, hcalc, hterms⟩ := readCalc_eq_ok_iff.mp hts
    exact ⟨name, contents, ts, rfl, hcalc, hterms, rfl⟩
  · intro h
    obtain ⟨name, contents, ts, rfl, hcalc, hterms, rfl⟩ := h
    exact ⟨ts, readCalc_eq_ok_iff.mpr ⟨name, contents, rfl, hcalc, hterms⟩, rfl⟩

theorem calculation_eq_error_iff {c : Component} {e : ReadError} :
    c.calculation = .error e ↔ c.readCalc = .error e := by
  rw [calculation]
  cases c.readCalc <;> simp [Except.map]

end Component

/-- The lexemes `before` are the components `cs` in front of all that may follow them. If nothing is
left behind them, their last block may be unclosed, and then nothing may follow. -/
def Ahead (before : List Lexeme) (cs : List Component) (rest : List Lexeme) : Prop :=
  ∀ ls ds, (rest = [] → ls = []) → Nested none ls ds [] → Nested none (before ++ ls) (cs ++ ds) []

namespace Ahead
variable {before before' mid rest : List Lexeme} {cs cs' : List Component}

theorem nested (h : Ahead before cs rest) : Nested none before cs [] := by
  have hall := h [] [] (fun _ => rfl) .ended
  rwa [List.append_nil, List.append_nil] at hall

theorem append (h : Ahead before cs (before' ++ rest)) (h' : Ahead before' cs' rest) :
    Ahead (before ++ before') (cs ++ cs') rest := by
  intro ls ds hend hds
  have hmid : before' ++ rest = [] → before' ++ ls = [] := by
    intro hnil
    obtain ⟨rfl, hrest⟩ := List.append_eq_nil_iff.mp hnil
    exact hend hrest
  rw [List.append_assoc, List.append_assoc]
  exact h _ _ hmid (h' ls ds hend hds)

end Ahead

theorem exists_ahead {ls : List Lexeme} {c : Component} {cs : List Component}
    (h : Nested none ls (c :: cs) []) :
    ∃ before, ls = before ++ (readCalc ls).2 ∧ Ahead before [c] (readCalc ls).2 := by
  cases h with
  | @token _ t ls _ _ ht h => exact ⟨[.token t], rfl, fun _ _ _ hds => .token nofun hds⟩
  | @block _ kind ls mid _ contents _ hcontents h =>
    obtain ⟨body, hbody, hframe⟩ := hcontents.exists_body
    rw [rest_readCalc, hcontents.skipBlock_eq, hbody]
    exact ⟨.opening kind :: body, rfl, fun ls' _ hend hds => .block (hframe ls' hend) hds⟩

end CssMath.Css

namespace CssMath.Calculation
open Css
variable {ls : List Lexeme} {cs : List Component}

theorem readMany_nil (n : Nat) :
    readMany n [] = (List.replicate n (.error .unexpectedToken), []) := by
  induction n with
  | zero => rfl
  | succ n ih =>
    rw [readMany, read, readCalc]
    dsimp only
    rw [ih]
    rfl

theorem read_cons {c : Component} (h : Nested none ls (c :: cs) [])
    (hls : ∀ l ∈ ls, l.isParen = false) :
    (read ls).1 = c.calculation ∧ Nested none (read ls).2 cs [] ∧
      (∀ l ∈ (read ls).2, l.isParen = false) ∧
      ∃ first, ls = first ++ (read ls).2 ∧ Ahead first [c] (read ls).2 := by
  obtain ⟨hc, hcs⟩ := readCalc_cons h hls
  obtain ⟨first, hfirst, hahead⟩ := exists_ahead h
  refine ⟨congrArg (Except.map ofInfix) hc, hcs, fun l hl => ?_, first, hfirst, hahead⟩
  rw [hfirst] at hls
  exact hls l (List.mem_append_right first hl)

/-- Many readings. Each gives what is read from the component at its place, and together they leave
the lexemes behind as many components. -/
theorem readMany_components (h : Nested none ls cs []) (hls : ∀ l ∈ ls, l.isParen = false)
    (n : Nat) :
    (readMany n ls).1 = (List.range n).map (fun i =>
        cs[i]?.elim (.error .unexpectedToken) Component.calculation) ∧
      Nested none (readMany n ls).2 (cs.drop n) [] ∧
      ∃ before, ls = before ++ (readMany n ls).2 ∧ Ahead before (cs.take n) (readMany n ls).2 := by
  induction n generalizing ls cs with
  | zero => exact ⟨rfl, h, [], rfl, fun _ _ _ hds => hds⟩
  | succ n ih =>
    cases cs with
    | nil =>
      cases h
      rw [readMany_nil]
      refine ⟨?_, .ended, [], rfl, fun _ _ _ hds => hds⟩
      simp [List.map_const']
    | cons c cs =>
      obtain ⟨hc, hcs, hparens, first, hfirst, hahead⟩ := read_cons h hls
      obtain ⟨hresults, hrest, before, hbefore, hahead'⟩ := ih hcs hparens
      refine ⟨?_, hrest, first ++ before, ?_, ?_⟩
      · rw [readMany, hc, hresults, List.range_succ_eq_map, List.map_cons, List.map_map]
        rfl
      · rw [List.append_assoc]
        exact hfirst.trans (congrArg (first ++ ·) hbefore)
      · rw [hbefore] at hahead
        exact hahead.append hahead'

/-- What becomes of readings one after another, by the components of the text. Each reading is
decided by the component at its own place: it is a calculation exactly if that is a call of `calc`
that is not spoilt inside, and it is known not to be one exactly if that is a call of another
function. However many of them fail, and however deep inside, what is left is what stands behind
as many components. -/
theorem readMany_outcome (text : String) :
    ∃ cs, (∀ ds, Nested none (lexemes text.toList) ds [] ↔ ds = cs) ∧ ∀ n,
      let run := readMany n (lexemes text.toList)
      run.1 = (List.range n).map (fun i =>
        cs[i]?.elim (.error .unexpectedToken) Component.calculation) ∧
      (∃ before, lexemes text.toList = before ++ run.2 ∧ Nested none before (cs.take n) [] ∧
        Nested none run.2 (cs.drop n) []) ∧
      ∀ i < n,
        (∀ c, run.1[i]? = some (.ok c) ↔ ∃ name contents ts,
          cs[i]? = some (.block (.function name) contents) ∧ (BlockKind.function name).isCalc ∧
          terms? contents = some ts ∧ c = ofInfix ts) ∧
        (run.1[i]? = some (.error .notCalcFunction) ↔ ∃ name contents,
          cs[i]? = some (.block (.function name) contents) ∧ ¬(BlockKind.function name).isCalc) ∧
        (run.1[i]? = some (.error .unexpectedToken) ↔ cs[i]? = none ∨
          (∃ t, cs[i]? = some (.token t)) ∨
          (∃ b contents, cs[i]? = some (.block (.bracket b) contents)) ∨
          ∃ name contents, cs[i]? = some (.block (.function name) contents) ∧
            (BlockKind.function name).isCalc ∧ Spoilt contents) := by
  obtain ⟨cs, hcs⟩ := exists_components (lexemes text.toList)
  refine ⟨cs, hcs, fun n => ?_⟩
  intro run
  obtain ⟨hresults, hrest, before, hbefore, hahead⟩ :=
    readMany_components ((hcs cs).mpr rfl) (lexemes_not_paren text.toList) n
  refine ⟨hresults, ⟨before, hbefore, hahead.nested, hrest⟩, fun i hi => ?_⟩
  have hresult : run.1[i]? =
      some (cs[i]?.elim (.error .unexpectedToken) Component.calculation) := by
    rw [hresults, List.getElem?_map, List.getElem?_range hi, Option.map_some]
  rw [hresult]
  cases cs[i]? with
  | none => simp
  | some c =>
    simp only [Option.elim_some, Option.some.injEq, Component.calculation_eq_ok_iff,
      Component.calculation_eq_error_iff, Component.readCalc_eq_notCalc_iff,
      Component.readCalc_eq_unexpected_iff]
    simp

/-- The first reading fails in a group of its function, at a string that meets the end of its line;
the second takes the function that is not `calc`, and the third succeeds. -/
theorem readMany_outcome_spoilt :
    let ls := lexemes "calc(1 + (\"\n 2) 3) min(4px) calc(5)".toList
    let run := readMany 4 ls
    run.1[0]? = some (.error .unexpectedToken) ∧ run.1[1]? = some (.error .notCalcFunction) ∧
      run.1[2]? = some (.ok (ofInfix [.operand (.integer 5)])) ∧
      run.1[3]? = some (.error .unexpectedToken) ∧ run.2 = [] := by
  intro ls run
  let number (d : Nat) : Token := .number ⟨false, [d], [], none⟩
  let cs : List Component := [
    .block (.function "calc") [.token (number 1), .token (.delim '+'),
      .block (.bracket .round) [.token .badString, .token (number 2)], .token (number 3)],
    .block (.function "min") [.token (.dimension ⟨false, [4], [], none⟩ "px")],
    .block (.function "calc") [.token (number 5)]]
  have hls : ls = [.opening (.function "calc"), .token (number 1), .token (.delim '+'),
      .opening (.bracket .round), .token .badString, .token (number 2), .token (.closing .round),
      .token (number 3), .token (.closing .round), .opening (.function "min"),
      .token (.dimension ⟨false, [4], [], none⟩ "px"), .token (.closing .round),
      .opening (.function "calc"), .token (number 5), .token (.closing .round)] := by
    decide +kernel
  have hnested : Nested none ls cs [] := by
    rw [hls]
    exact .block (.token nofun (.token nofun (.block (.token nofun (.token nofun .closed))
      (.token nofun .closed)))) (.block (.token nofun .closed) (.block (.token nofun .closed)
      .ended))
  have hcalc : (BlockKind.function "calc").isCalc = true := by decide +kernel
  have hmin : ¬(BlockKind.function "min").isCalc = true := by decide +kernel
  have hspoilt : Spoilt [.token (number 1), .token (.delim '+'),
      .block (.bracket .round) [.token .badString, .token (number 2)], .token (number 3)] :=
    .group (List.mem_cons_of_mem _ (List.mem_cons_of_mem _ List.mem_cons_self)) rfl
      (.badString List.mem_cons_self)
  obtain ⟨cs', hcs, hrun⟩ := readMany_outcome "calc(1 + (\"\n 2) 3) min(4px) calc(5)"
  obtain rfl : cs = cs' := (hcs cs).mp hnested
  obtain ⟨-, ⟨before, -, -, hrest⟩, hresult⟩ := hrun 4
  refine ⟨?_, ?_, ?_, ?_, ?_⟩
  · exact (hresult 0 (by decide)).2.2.mpr (.inr (.inr (.inr ⟨_, _, rfl, hcalc, hspoilt⟩)))
  · exact (hresult 1 (by decide)).2.1.mpr ⟨_, _, rfl, hmin⟩
  · exact ((hresult 2 (by decide)).1 _).mpr ⟨_, _, _, rfl, hcalc, rfl, rfl⟩
  · exact (hresult 3 (by decide)).2.2.mpr (.inl rfl)
  · generalize (readMany 4 _).2 = left at hrest ⊢
    cases hrest
    rfl

end CssMath.Calculation
