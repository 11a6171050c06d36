import CssMath.Proofs.Nesting
import CssMath.Proofs.Outcome

/-! The grammar of infix expressions. A sum is made of products, a product of atoms, and an atom is
an operand or a sum between parentheses. Putting the terms of an expression in order gives the
post-order listing of its parse tree, in which equal operators group to the left and parentheses
leave no trace; so an evaluation computes the fold of that tree. -/
namespace CssMath
universe u
variable {α σ : Type u}

def Operator.Additive (o : Operator) : Prop := o = .add ∨ o = .subtract
def Operator.Multiplicative (o : Operator) : Prop := o = .multiply ∨ o = .divide

inductive Level where
  | atom | product | sum

/-- Expressions by the level at which they bind. Each repetition of the grammar is built up from the
left. -/
inductive Expr : Level → Type where
  | operand (x : Operand) : Expr .atom
  | paren (e : Expr .sum) : Expr .atom
  | single (a : Expr .atom) : Expr .product
  | scale (p : Expr .product) (o : Operator) (ho : o.Multiplicative) (a : Expr .atom) :
    Expr .product
  | alone (p : Expr .product) : Expr .sum
  | plus (e : Expr .sum) (o : Operator) (ho : o.Additive) (p : Expr .product) : Expr .sum

/-- An operator that may wait for its right operand within an expression of the level. -/
def Level.Holds : Level → Operator → Prop
  | .atom, _ => False
  | .product, o => o.Multiplicative
  | .sum, o => o.Additive ∨ o.Multiplicative

namespace Level

theorem Holds.isBinary {l : Level} {o : Operator} (h : l.Holds o) : o.isBinary := by
  cases o with
  | openParen => cases l <;> simp [Holds, Operator.Additive, Operator.Multiplicative] at h
  | closeParen => cases l <;> simp [Holds, Operator.Additive, Operator.Multiplicative] at h
  | _ => rfl

theorem expels_iff_product {o : Operator} (ho : o.Multiplicative) (top : Operator) :
    o.expels top = true ↔ product.Holds top := by
  rcases ho with rfl | rfl <;> cases top <;>
    simp [Holds, Operator.Multiplicative, Operator.expels, Operator.yieldsTo, Operator.precedence?]

theorem expels_iff_sum {o : Operator} (ho : o.Additive) (top : Operator) :
    o.expels top = true ↔ sum.Holds top := by
  rcases ho with rfl | rfl <;> cases top <;>
    simp [Holds, Operator.Additive, Operator.Multiplicative, Operator.expels, Operator.yieldsTo,
      Operator.precedence?]

theorem not_holds_product {o : Operator} (ho : o.Additive) (P : List Operator) :
    ∀ top ∈ (o :: P).head?, ¬product.Holds top := by
  intro top htop
  obtain rfl := Option.some.inj htop
  rcases ho with rfl | rfl <;> simp [Holds, Operator.Multiplicative]

end Level

namespace Expr

def terms {l : Level} : Expr l → List Term
  | operand x => [.operand x]
  | paren e => group e.terms
  | single a => a.terms
  | scale p o _ a => p.terms ++ .operator o :: a.terms
  | alone p => p.terms
  | plus e o _ p => e.terms ++ .operator o :: p.terms

def tree {l : Level} : Expr l → Tree
  | operand x => .leaf x
  | paren e => e.tree
  | single a => a.tree
  | scale p o _ a => .node p.tree a.tree o
  | alone p => p.tree
  | plus e o _ p => .node e.tree p.tree o

theorem nesting_terms {l : Level} (e : Expr l) (depth : Nat) :
    nesting depth e.terms = some depth := by
  induction e generalizing depth with
  | operand x => cases depth <;> rfl
  | paren e ih =>
    rw [terms, group, nesting, Term.nest, Option.bind_some, nesting_append, ih]
    rfl
  | single a ih => exact ih depth
  | scale p o ho a ihp iha =>
    have hl : Level.product.Holds o := ho
    rw [terms, nesting_append, ihp, Option.bind_some, nesting, Term.nest_of_isBinary hl.isBinary]
    exact iha depth
  | alone p ih => exact ih depth
  | plus e o ho p ihe ihp =>
    have hl : Level.sum.Holds o := .inl ho
    rw [terms, nesting_append, ihe, Option.bind_some, nesting, Term.nest_of_isBinary hl.isBinary]
    exact ihp depth

end Expr

/-- The invariant of a scan: all that the terms emit, with the operators of theirs that still wait
behind it, lists the tree, and `P` waits as before. -/
def Scanned (l : Level) (t : Tree) (P : List Operator) (ts : List Term) : Prop :=
  ∃ os, (∀ o ∈ os, l.Holds o) ∧ waiting P ts = os ++ P ∧
    emitted P ts ++ os.map .operator = t.postorder

namespace Scanned
variable {l r : Level} {t u : Tree} {P : List Operator} {ts us : List Term} {o : Operator}

theorem mono (h : Scanned r t P ts) (hsub : ∀ x, r.Holds x → l.Holds x) : Scanned l t P ts := by
  obtain ⟨os, hos, hw, he⟩ := h
  exact ⟨os, fun o ho => hsub o (hos o ho), hw, he⟩

theorem enter (h : Scanned l t P ts) (hexp : ∀ x, o.expels x = true ↔ l.Holds x)
    (hself : l.Holds o) (hP : ∀ top ∈ P.head?, ¬l.Holds top) :
    waiting P (ts ++ [.operator o]) = o :: P ∧ emitted P (ts ++ [.operator o]) = t.postorder := by
  obtain ⟨os, hos, hw, he⟩ := h
  have hall : ∀ x ∈ os, o.expels x = true := fun x hx => (hexp x).mpr (hos x hx)
  have hstop : P.takeWhile o.expels = [] ∧ P.dropWhile o.expels = P := by
    cases P with
    | nil => exact ⟨rfl, rfl⟩
    | cons top P =>
      have htop : ¬o.expels top = true := fun h => hP top rfl ((hexp top).mp h)
      exact ⟨List.takeWhile_cons_of_neg htop, List.dropWhile_cons_of_neg htop⟩
  have hemit : (Term.operator o).emits (os ++ P) = os.map .operator := by
    rw [Term.emits, List.takeWhile_append_of_pos hall, hstop.1, List.append_nil]
  have hleave : (Term.operator o).leaves (os ++ P) = o :: P := by
    have hclose : o ≠ .closeParen := (Operator.isBinary_iff.mp hself.isBinary).2
    rw [Term.leaves_operator hclose, List.dropWhile_append_of_pos hall, hstop.2]
  constructor
  · rw [waiting_append, hw, waiting, hleave, waiting]
  · rw [emitted_append, hw, emitted, hemit, emitted, List.append_nil, he]

theorem node (hl : Scanned l t P ts) (hr : Scanned r u (o :: P) us)
    (hexp : ∀ x, o.expels x = true ↔ l.Holds x) (hself : l.Holds o)
    (hsub : ∀ x, r.Holds x → l.Holds x) (hP : ∀ top ∈ P.head?, ¬l.Holds top) :
    Scanned l (.node t u o) P (ts ++ .operator o :: us) := by
  obtain ⟨hw, he⟩ := hl.enter hexp hself hP
  obtain ⟨os, hos, hw', he'⟩ := hr
  rw [List.append_cons]
  refine ⟨os ++ [o], ?_, ?_, ?_⟩
  · intro x hx
    cases List.mem_append.mp hx with
    | inl h => exact hsub x (hos x h)
    | inr h =>
      rw [List.mem_singleton.mp h]
      exact hself
  · rw [waiting_append, hw, hw', List.append_assoc, List.singleton_append]
  · rw [emitted_append, hw, he, Tree.postorder, ← he']
    simp

end Scanned

namespace Expr

theorem scanned {l : Level} (e : Expr l) (P : List Operator) (hP : ∀ top ∈ P.head?, ¬l.Holds top) :
    Scanned l e.tree P e.terms := by
  induction e generalizing P with
  | operand x => exact ⟨[], by simp, rfl, rfl⟩
  | paren e ih =>
    obtain ⟨os, -, hw, he⟩ := ih [] (by simp)
    obtain ⟨hgroup, hafter⟩ := arrange_group (e.nesting_terms 0) P
    rw [List.append_nil] at hw
    refine ⟨[], by simp, hafter, ?_⟩
    rw [terms, hgroup, arrange, drained, hw, List.map_nil, List.append_nil, he, tree]
  | single a ih => exact (ih P fun top _ => id).mono fun x => False.elim
  | scale p o ho a ihp iha =>
    exact (ihp P hP).node (iha (o :: P) fun top _ => id) (Level.expels_iff_product ho) ho
      (fun x => False.elim) hP
  | alone p ih =>
    exact (ih P fun top htop hx => hP top htop (.inr hx)).mono fun x => .inr
  | plus e o ho p ihe ihp =>
    have hright := ihp (o :: P) (Level.not_holds_product ho P)
    exact (ihe P hP).node hright (Level.expels_iff_sum ho) (.inl ho) (fun x => .inr) hP

theorem arrange_terms (e : Expr .sum) : arrange e.terms = e.tree.postorder := by
  obtain ⟨os, -, hw, he⟩ := e.scanned [] (by simp)
  rw [arrange, drained, hw, List.append_nil, he]

theorem terms_not_foreign {l : Level} (e : Expr l) : ∀ t ∈ e.terms, t.isForeign = false := by
  induction e with
  | operand x => simp [terms, Term.isForeign]
  | paren e ih => exact native_group_iff.mpr ih
  | single a ih => exact ih
  | scale p o ho a ihp iha => simp_all [terms, Term.isForeign, or_imp]
  | alone p ih => exact ih
  | plus e o ho p ihe ihp => simp_all [terms, Term.isForeign, or_imp]

end Expr

/-- An expression whose operands agree on a type is a valid calculation, its postfix terms are the
post-order listing of its parse tree, and every strategy gets the fold of that tree, called once for
each node in post-order. -/
theorem Calculation.evaluate_expr (e : Expr .sum) {ty : Typing}
    (h : (operands e.terms).foldlM Typing.consider {} = .ok ty)
    (s : Strategy (StateM σ) α) (st : σ) :
    let c := ofInfix e.terms
    c.isValid ∧ c.terms = e.tree.postorder ∧
      (c.evaluate s).run st = (.ok ((e.tree.fold s).run st).1, ((e.tree.fold s).run st).2) ∧
      ((c.evaluate s.recorded).run (st, [])).2.2 = e.tree.postorder := by
  intro c
  have hc : c = ⟨e.tree.postorder, ty, none⟩ := by
    rw [← e.arrange_terms]
    exact ofInfix_of_admitted ⟨e.terms_not_foreign, h⟩
  have hv : c.isValid := by
    rw [hc]
    rfl
  have hterms : c.terms = e.tree.postorder := congrArg Calculation.terms hc
  refine ⟨hv, hterms, ?_, ?_⟩
  · rw [evaluate_of_isValid hv, hterms, Strategy.replay_tree]
    rfl
  · rw [evaluate_of_isValid hv, hterms, Strategy.replay_tree]
    change ((e.tree.fold s.recorded).run (st, [])).2.2 = _
    rw [s.fold_recorded, List.nil_append]

/-- `(8 - 3 - 2px) * 4`, with the calls counted. -/
theorem Calculation.evaluate_expr_grouped :
    let e : Expr .sum := .alone (.scale (.single (.paren (.plus (.plus
      (.alone (.single (.operand (.integer 8)))) .subtract (.inr rfl)
      (.single (.operand (.integer 3)))) .subtract (.inr rfl)
      (.single (.operand (.dimension 2 .pixels)))))) .multiply (.inl rfl) (.operand (.integer 4)))
    let s : Strategy (StateM Nat) Tree :=
      ⟨fun x n => (.leaf x, n + 1), fun left right o n => (.node left right o, n + 1)⟩
    let c := ofInfix e.terms
    (operands e.terms).foldlM Typing.consider {} = .ok ⟨some (.dimension .length), true⟩ ∧
      c.terms = [.operand (.integer 8), .operand (.integer 3), .operator .subtract,
        .operand (.dimension 2 .pixels), .operator .subtract, .operand (.integer 4),
        .operator .multiply] ∧
      (c.evaluate s).run 0 =
        (.ok (.node (.node (.node (.leaf (.integer 8)) (.leaf (.integer 3)) .subtract)
          (.leaf (.dimension 2 .pixels)) .subtract) (.leaf (.integer 4)) .multiply), 7) := by
  intro e s c
  have htype : (operands e.terms).foldlM Typing.consider {} =
      .ok ⟨some (.dimension .length), true⟩ := rfl
  obtain ⟨-, hterms, heval, -⟩ := evaluate_expr e htype s 0
  exact ⟨htype, hterms, heval⟩

end CssMath
