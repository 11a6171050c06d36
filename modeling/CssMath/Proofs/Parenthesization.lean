import CssMath.Evaluation.Text
import CssMath.Proofs.Sentence

/-! Full parenthesization. The terms of an expression, with parentheses around each operator and its
values, are a sentence of the grammar that has the tree of the expression as its parse tree; so they
are the same calculation again. The text of an expression spells these terms. -/
namespace CssMath
universe u
variable {α σ : Type u}

/-- The terms of the expression, with parentheses around each operator and its values. -/
def Strategy.parenthesized : Strategy Id (List Term) where
  operand x := [.operand x]
  operator left right o := group (left ++ .operator o :: right)

def Term.spelling : Term → String
  | operator o => if o.isBinary then s!" {o.symbol} " else o.symbol.toString
  | t => t.text

def spelling : List Term → String
  | [] => ""
  | t :: ts => t.spelling ++ spelling ts

theorem spelling_append (ts us : List Term) : spelling (ts ++ us) = spelling ts ++ spelling us := by
  induction ts with
  | nil => exact String.empty_append.symm
  | cons t ts ih => rw [List.cons_append, spelling, spelling, ih, String.append_assoc]

namespace Tree

theorem exists_atom {t : Tree} (ht : ∀ o ∈ operators t.postorder, o.isBinary) :
    ∃ a : Expr .atom, a.tree = t ∧ a.terms = (t.fold Strategy.parenthesized).run := by
  induction t with
  | leaf x => exact ⟨.operand x, rfl, rfl⟩
  | node left right o ihl ihr =>
    simp only [postorder, operators_append, List.forall_mem_append] at ht
    obtain ⟨⟨hleft, hright⟩, ho⟩ := ht
    obtain ⟨a, rfl, ha⟩ := ihl hleft
    obtain ⟨b, rfl, hb⟩ := ihr hright
    have hterms : group (a.terms ++ .operator o :: b.terms) =
        ((node a.tree b.tree o).fold Strategy.parenthesized).run := by
      rw [ha, hb]
      rfl
    cases o.additive_or_multiplicative (ho o List.mem_cons_self) with
    | inl hadd => exact ⟨.paren (.plus (.alone (.single a)) o hadd (.single b)), rfl, hterms⟩
    | inr hmul => exact ⟨.paren (.alone (.scale (.single a) o hmul b)), rfl, hterms⟩

theorem spelling_group (left right : List Term) {o : Operator} (ho : o.isBinary) :
    spelling (group (left ++ .operator o :: right)) =
      s!"({spelling left} {o.symbol} {spelling right})" := by
  have hopen : (Term.operator .openParen).spelling = "(" := rfl
  have hclose : (Term.operator .closeParen).spelling = ")" := rfl
  have hbinary : (Term.operator o).spelling = s!" {o.symbol} " := if_pos ho
  rw [group, spelling, spelling_append, spelling_append, spelling, spelling, spelling, hopen,
    hclose, hbinary]
  simp only [String.append_assoc]
  rfl

theorem fold_text {t : Tree} (ht : ∀ o ∈ operators t.postorder, o.isBinary) :
    (t.fold Strategy.text).run = spelling (t.fold Strategy.parenthesized).run := by
  induction t with
  | leaf x => exact String.append_empty.symm
  | node left right o ihl ihr =>
    simp only [postorder, operators_append, List.forall_mem_append] at ht
    obtain ⟨⟨hleft, hright⟩, ho⟩ := ht
    have hgroup := spelling_group (left.fold Strategy.parenthesized).run
      (right.fold Strategy.parenthesized).run (ho o List.mem_cons_self)
    rw [← ihl hleft, ← ihr hright] at hgroup
    exact hgroup.symm

end Tree

namespace Calculation

theorem ofInfix_of_postorder {ts : List Term} {t : Tree} (hv : (ofInfix ts).isValid)
    (hopen : .operator .openParen ∉ (ofInfix ts).terms) (ht : (ofInfix ts).terms = t.postorder) :
    let c := ofInfix ts
    let r := (t.fold Strategy.parenthesized).run
    (c.evaluate Strategy.parenthesized).run = .ok r ∧
      (c.evaluate Strategy.text).run = .ok (spelling r) ∧ ofInfix r = c := by
  intro c r
  have hbinary : ∀ o ∈ operators t.postorder, o.isBinary := by
    intro o ho
    rw [← ht] at ho
    have hne : o ≠ .openParen := fun h => hopen (mem_operators_iff.mp (h ▸ ho))
    rw [terms_ofInfix hv] at ho
    have hclose : o ≠ .closeParen := fun h => closeParen_not_mem_arrange ts (h ▸ ho)
    exact Operator.isBinary_iff.mpr ⟨hne, hclose⟩
  refine ⟨?_, ?_, ?_⟩
  · rw [evaluate_of_isValid hv, ht, Strategy.replay_tree]
    rfl
  · rw [evaluate_of_isValid hv, ht, Strategy.replay_tree, ← t.fold_text hbinary]
    rfl
  · obtain ⟨ty, hty⟩ := isValid_ofInfix_iff.mp hv
    obtain ⟨a, htree, hterms⟩ := t.exists_atom hbinary
    have harrange : arrange a.terms = arrange ts := by
      rw [← terms_ofInfix hv, ht, ← htree]
      exact (Expr.alone (.single a)).arrange_terms
    have hoperands : operands a.terms = operands ts := by
      rw [← operands_arrange, harrange, operands_arrange]
    have hagree : Admitted {} a.terms ty := by
      refine ⟨a.terms_not_foreign, ?_⟩
      rw [hoperands]
      exact hty.agree
    have hr : ofInfix r = ofInfix a.terms := by rw [hterms]
    rw [hr, ofInfix_of_admitted hagree, harrange]
    exact (ofInfix_of_admitted hty).symm

/-- A valid calculation that has a value under any strategy, with no open parenthesis among its
terms, is written down by its parenthesized terms, which the text of the expression spells: they are
the same calculation again. So two calculations with the same parenthesized terms have the same
postfix terms. -/
theorem ofInfix_parenthesized {ts : List Term} (hv : (ofInfix ts).isValid)
    (hopen : .operator .openParen ∉ (ofInfix ts).terms) (s : Strategy (StateM σ) α) (st : σ) {v : α}
    (hok : (((ofInfix ts).evaluate s).run st).1 = .ok v) :
    let c := ofInfix ts
    ∃ r, (c.evaluate Strategy.parenthesized).run = .ok r ∧
      (c.evaluate Strategy.text).run = .ok (spelling r) ∧ ofInfix r = c ∧
      ∀ us, (ofInfix us).isValid → .operator .openParen ∉ (ofInfix us).terms →
        ((ofInfix us).evaluate Strategy.parenthesized).run = .ok r →
        (ofInfix us).terms = c.terms := by
  intro c
  rw [evaluate_of_isValid hv, terms_ofInfix hv] at hok
  obtain ⟨G, ws, hsplit⟩ := Split.exists_of_native (arrange_not_foreign ts)
  obtain ⟨t, ht, -, -⟩ := hsplit.exists_tree s st hok
  rw [← terms_ofInfix hv] at ht
  obtain ⟨heval, htext, hsame⟩ := ofInfix_of_postorder hv hopen ht
  refine ⟨_, heval, htext, hsame, fun us hvus hopenus hus => ?_⟩
  -- Both are the calculation of the same parenthesized terms.
  have hreplay := hus
  rw [evaluate_of_isValid hvus, terms_ofInfix hvus] at hreplay
  obtain ⟨G', ws', hsplit'⟩ := Split.exists_of_native (arrange_not_foreign us)
  obtain ⟨u, hu⟩ := hsplit'.exists_tree_of_run Strategy.parenthesized hreplay
  rw [← terms_ofInfix hvus] at hu
  obtain ⟨hevalus, -, hsameus⟩ := ofInfix_of_postorder hvus hopenus hu
  have hr := Except.ok.inj (hevalus.symm.trans hus)
  rw [← hsameus, hr, hsame]

/-- `8px 3 - 2 -`, which stands in no order of the grammar, is `8px - (3 - 2)`. -/
theorem ofInfix_parenthesized_adjacent :
    let x : Term := .operand (.dimension 8 .pixels)
    let y : Term := .operand (.integer 3)
    let z : Term := .operand (.integer 2)
    let minus : Term := .operator .subtract
    let c := ofInfix [x, y, minus, z, minus]
    let r := group (x :: minus :: group [y, minus, z])
    c.isValid ∧ .operator .openParen ∉ c.terms ∧ c.terms = [x, y, z, minus, minus] ∧
      (c.evaluate Strategy.parenthesized).run = .ok r ∧
      (c.evaluate Strategy.text).run = .ok (spelling r) ∧ ofInfix r = c := by
  intro x y z minus c r
  have hterms : c.terms = [x, y, z, minus, minus] := rfl
  have hopen : .operator .openParen ∉ c.terms := by simp [hterms, x, y, z, minus]
  let s : Strategy (StateM Unit) Nat := ⟨fun _ => pure 1, fun left right _ => pure (left + right)⟩
  have hok : ((c.evaluate s).run ()).1 = .ok 3 := rfl
  obtain ⟨r', heval, htext, hsame, -⟩ := ofInfix_parenthesized rfl hopen s () hok
  have hr : (c.evaluate Strategy.parenthesized).run = .ok r := rfl
  obtain rfl : r' = r := Except.ok.inj (heval.symm.trans hr)
  exact ⟨rfl, hopen, hterms, heval, htext, hsame⟩

end Calculation

end CssMath
