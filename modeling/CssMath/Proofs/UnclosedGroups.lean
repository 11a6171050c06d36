import CssMath.Proofs.Grammar
import CssMath.Proofs.NumericCalls

/-! Expressions that open a group and never close it. What waits before the open parenthesis is
emitted behind it at the end, so the parenthesis is left with the last atom before it on one side
and all that follows on the other: it is a binary operator that binds tighter than what is to its
left and looser than what is to its right. As a number it is 0. -/
namespace CssMath
universe u v

namespace Expr
variable {l : Level}

def lastAtom {l : Level} : Expr l → Tree
  | operand x => .leaf x
  | paren e => e.tree
  | single a => a.lastAtom
  | scale _ _ _ a => a.lastAtom
  | alone p => p.lastAtom
  | plus _ _ _ p => p.lastAtom

def withLast {l : Level} (t : Tree) : Expr l → Tree
  | operand _ => t
  | paren _ => t
  | single a => a.withLast t
  | scale p o _ a => .node p.tree (a.withLast t) o
  | alone p => p.withLast t
  | plus e o _ p => .node e.tree (p.withLast t) o

def foldWith {m : Type u → Type v} [Monad m] {α : Type u} {l : Level} (s : Strategy m α)
    (last : m α) : Expr l → m α
  | operand _ => last
  | paren _ => last
  | single a => a.foldWith s last
  | scale p o _ a => do
    let left ← p.tree.fold s
    let right ← a.foldWith s last
    s.operator left right o
  | alone p => p.foldWith s last
  | plus e o _ p => do
    let left ← e.tree.fold s
    let right ← p.foldWith s last
    s.operator left right o

theorem withLast_lastAtom (e : Expr l) : e.withLast e.lastAtom = e.tree := by
  induction e with
  | operand x => rfl
  | paren e ih => rfl
  | single a ih => exact ih
  | scale p o ho a ihp iha => rw [lastAtom, withLast, iha, tree]
  | alone p ih => exact ih
  | plus e o ho p ihe ihp => rw [lastAtom, withLast, ihp, tree]

theorem fold_withLast {m : Type u → Type v} [Monad m] {α : Type u} (s : Strategy m α) (t : Tree)
    (e : Expr l) : (e.withLast t).fold s = e.foldWith s (t.fold s) := by
  induction e with
  | operand x => rfl
  | paren e ih => rfl
  | single a ih => exact ih
  | scale p o ho a ihp iha => rw [withLast, Tree.fold, iha, foldWith]
  | alone p ih => exact ih
  | plus e o ho p ihe ihp => rw [withLast, Tree.fold, ihp, foldWith]

def openedTerms (a : Expr .sum) : List (Expr .sum) → List Term
  | [] => a.terms
  | b :: bs => a.terms ++ .operator .openParen :: b.openedTerms bs

/-- Each parenthesis joins the last atom before it to all that follows it. -/
def openedTree (a : Expr .sum) : List (Expr .sum) → Tree
  | [] => a.tree
  | b :: bs => a.withLast (.node a.lastAtom (b.openedTree bs) .openParen)

/-- Terms that bring what is emitted behind the last atom before them bring it in place of that
atom, since the operators before it wait until the end. -/
theorem drained_terms_append (e : Expr l) {us vs : List Term} {t : Tree}
    (hus : ∀ P, drained P us = vs ++ P.map .operator)
    (ht : t.postorder = e.lastAtom.postorder ++ vs) (P : List Operator)
    (hP : ∀ top ∈ P.head?, ¬l.Holds top) :
    drained P (e.terms ++ us) = (e.withLast t).postorder ++ P.map .operator := by
  induction e generalizing P with
  | operand x =>
    have hcons : drained P ((operand x).terms ++ us) = .operand x :: drained P us :=
      drained_cons P _ us
    rw [hcons, hus, withLast, ht]
    rfl
  | paren e ih =>
    obtain ⟨hemit, hwait⟩ := arrange_group (e.nesting_terms 0) P
    rw [terms, drained_append, hemit, hwait, hus, e.arrange_terms, withLast, ht, lastAtom,
      List.append_assoc]
  | single a ih => exact ih ht P fun top _ => id
  | scale p o ho a ihp iha =>
    obtain ⟨hw, he⟩ := (p.scanned P hP).enter (Level.expels_iff_product ho) ho hP
    rw [terms, List.append_cons, List.append_assoc, drained_append, hw, he,
      iha ht (o :: P) fun top _ => id, withLast, Tree.postorder]
    simp
  | alone p ih => exact ih ht P fun top htop hx => hP top htop (.inr hx)
  | plus e o ho p ihe ihp =>
    obtain ⟨hw, he⟩ := (e.scanned P hP).enter (Level.expels_iff_sum ho) (.inl ho) hP
    rw [terms, List.append_cons, List.append_assoc, drained_append, hw, he,
      ihp ht (o :: P) (Level.not_holds_product ho P), withLast, Tree.postorder]
    simp

theorem drained_openedTerms (a : Expr .sum) (as : List (Expr .sum)) (P : List Operator)
    (hP : ∀ top ∈ P.head?, ¬Level.sum.Holds top) :
    drained P (a.openedTerms as) = (a.openedTree as).postorder ++ P.map .operator := by
  induction as generalizing a P with
  | nil =>
    have hnone : ∀ P, drained P [] = [] ++ P.map Term.operator := fun P => rfl
    have h := a.drained_terms_append hnone (List.append_nil _).symm P hP
    rwa [List.append_nil, withLast_lastAtom] at h
  | cons b bs ih =>
    have hopen (Q : List Operator) :
        drained Q (.operator .openParen :: b.openedTerms bs) =
          ((b.openedTree bs).postorder ++ [.operator .openParen]) ++ Q.map .operator := by
      have hhead : ∀ top ∈ (Operator.openParen :: Q).head?, ¬Level.sum.Holds top := by
        intro top htop hholds
        obtain rfl := Option.some.inj htop
        cases hholds.isBinary
      rw [drained_cons, Term.emits_openParen, Term.leaves_openParen, List.nil_append,
        ih b _ hhead, List.map_cons, List.append_cons]
    refine a.drained_terms_append hopen ?_ P hP
    rw [Tree.postorder, List.append_assoc]

theorem arrange_openedTerms (a : Expr .sum) (as : List (Expr .sum)) :
    arrange (a.openedTerms as) = (a.openedTree as).postorder := by
  rw [arrange, a.drained_openedTerms as [] (by simp), List.map_nil, List.append_nil]

theorem openedTerms_not_foreign (a : Expr .sum) (as : List (Expr .sum)) :
    ∀ t ∈ a.openedTerms as, t.isForeign = false := by
  induction as generalizing a with
  | nil => exact a.terms_not_foreign
  | cons b bs ih =>
    have hrest : ∀ t ∈ Term.operator .openParen :: b.openedTerms bs, t.isForeign = false :=
      List.forall_mem_cons.mpr ⟨rfl, ih b⟩
    exact List.forall_mem_append.mpr ⟨a.terms_not_foreign, hrest⟩

theorem nesting_openedTerms (a : Expr .sum) (as : List (Expr .sum)) (depth : Nat) :
    nesting depth (a.openedTerms as) = some (depth + as.length) := by
  induction as generalizing a depth with
  | nil => exact a.nesting_terms depth
  | cons b bs ih =>
    rw [openedTerms, nesting_append, a.nesting_terms, Option.bind_some, nesting, Term.nest,
      Option.bind_some, ih, List.length_cons]
    congr 1
    omega

section Numeric
variable {σ : Type} {resolve : Operand → StateM σ Float} {report : Diagnostic → StateM σ PUnit}

theorem value_bind {o : Operator} (ho : o.isBinary) (x y : StateM σ Float) (st : σ) :
    ((do
      let left ← x
      let right ← y
      (Strategy.numeric resolve report).operator left right o : StateM σ Float).run st).1 =
      o.arithmetic (x.run st).1 (y.run (x.run st).2).1 := by
  simp only [Strategy.operator_numeric ho]
  rfl

/-- What comes in place of the last atom has a part in the value by its own value only, because all
other operands are resolved before it. -/
theorem value_foldWith (e : Expr l) {last last' : StateM σ Float}
    (h : ∀ st, (last.run st).1 = (last'.run st).1) (st : σ) :
    ((e.foldWith (.numeric resolve report) last).run st).1 =
      ((e.foldWith (.numeric resolve report) last').run st).1 := by
  induction e generalizing st with
  | operand x => exact h st
  | paren e ih => exact h st
  | single a ih => exact ih st
  | scale p o ho a ihp iha =>
    have hbinary : o.isBinary := Level.Holds.isBinary (l := .product) ho
    rw [foldWith, foldWith, value_bind hbinary, value_bind hbinary, iha]
  | alone p ih => exact ih st
  | plus e o ho p ihe ihp =>
    have hbinary : o.isBinary := Level.Holds.isBinary (l := .sum) (.inl ho)
    rw [foldWith, foldWith, value_bind hbinary, value_bind hbinary, ihp]

end Numeric

end Expr

namespace Calculation

/-- Expressions with a group opened between each two and never closed are a valid calculation if
their operands agree on a type. Its tree joins the last operand or group before each parenthesis to
all that follows the parenthesis, and every strategy gets the fold of that tree. A number is then
that of the first expression with 0 for the value of its last operand or group, whatever follows;
and each of the parentheses is reported once, and nothing else is. -/
theorem evaluate_openedTerms (a : Expr .sum) (as : List (Expr .sum)) {ty : Typing}
    (h : (operands (a.openedTerms as)).foldlM Typing.consider {} = .ok ty) :
    let c := ofInfix (a.openedTerms as)
    let t := a.openedTree as
    c.isValid ∧ c.terms = t.postorder ∧
    (∀ {α σ : Type u} (s : Strategy (StateM σ) α) (st : σ),
      (c.evaluate s).run st = (.ok ((t.fold s).run st).1, ((t.fold s).run st).2)) ∧
    (as ≠ [] → ∀ {σ : Type} (resolve : Operand → StateM σ Float)
      (report : Diagnostic → StateM σ PUnit) (st : σ),
      let s := Strategy.numeric resolve report
      let run := (c.evaluate s).run st
      let calls := ((c.evaluate (.watched resolve report)).run (st, [])).2.2
      run.1 = .ok ((a.foldWith s (pure 0)).run st).1 ∧
      (c.evaluate (.watched resolve report)).run (st, []) = (run.1, run.2, calls) ∧
      calls.filterMap NumericCall.diagnostic? =
        List.replicate as.length (.unknownOperator .openParen)) := by
  intro c t
  have hc : c = ⟨t.postorder, ty, none⟩ := by
    rw [← a.arrange_openedTerms as]
    exact ofInfix_of_admitted ⟨a.openedTerms_not_foreign as, h⟩
  have hv : c.isValid := by
    rw [hc]
    rfl
  have hterms : c.terms = t.postorder := congrArg Calculation.terms hc
  refine ⟨hv, hterms, fun s st => evaluate_of_postorder hv hterms s st, ?_⟩
  intro has σ resolve report st s run calls
  obtain ⟨b, bs, rfl⟩ := List.exists_cons_of_ne_nil has
  have hrun : run = (.ok ((t.fold s).run st).1, ((t.fold s).run st).2) :=
    evaluate_of_postorder hv hterms s st
  have hwatched : (c.evaluate (.watched resolve report)).run (st, []) =
      (run.1, run.2, t.postorder.filterMap Term.call?) := by
    rw [evaluate_of_postorder hv hterms, (Strategy.watched_logs resolve report).fold, hrun,
      List.nil_append]
  have hcalls : calls = t.postorder.filterMap Term.call? := congrArg (·.2.2) hwatched
  refine ⟨?_, by rw [hwatched, hcalls], ?_⟩
  · have hzero : ∀ st, (((Tree.node a.lastAtom (b.openedTree bs) .openParen).fold s).run st).1 =
        ((pure 0 : StateM σ Float).run st).1 := fun st => rfl
    rw [hrun, ← a.value_foldWith hzero st, ← Expr.fold_withLast]
    rfl
  · rw [hcalls, filterMap_diagnostic?, ← a.arrange_openedTerms, filter_not_isBinary_arrange,
      unclosed_of_nesting (a.nesting_openedTerms (b :: bs) 0), Nat.zero_add, List.map_replicate]

/-- `8 - 2px * 3 ( (3 + 4) ( 5 + 6`: the first parenthesis takes the `3` before it, the second one
the group before it, and the number is `8 - 2px * 0`. -/
theorem evaluate_openedTerms_groups :
    let leaf (n : Int32) : Expr .atom := .operand (.integer n)
    let plus (m n : Int32) : Expr .sum :=
      .plus (.alone (.single (leaf m))) .add (.inl rfl) (.single (leaf n))
    let a : Expr .sum := .plus (.alone (.single (leaf 8))) .subtract (.inr rfl)
      (.scale (.single (.operand (.dimension 2 .pixels))) .multiply (.inl rfl) (leaf 3))
    let bs : List (Expr .sum) := [.alone (.single (.paren (plus 3 4))), plus 5 6]
    let s : Strategy (StateM Nat) Tree :=
      ⟨fun x n => (.leaf x, n + 1), fun left right o n => (.node left right o, n + 1)⟩
    let resolve : Operand → StateM Nat Float := fun _ n => (7, n + 1)
    let c := ofInfix (a.openedTerms bs)
    let calls := ((c.evaluate (.watched resolve fun _ => pure ⟨⟩)).run (0, [])).2.2
    (operands (a.openedTerms bs)).foldlM Typing.consider {} =
        .ok ⟨some (.dimension .length), true⟩ ∧
      bs ≠ [] ∧ c.isValid ∧
      (c.evaluate s).run 0 =
        (.ok (.node (.leaf (.integer 8)) (.node (.leaf (.dimension 2 .pixels))
          (.node (.leaf (.integer 3)) (.node (plus 3 4).tree (plus 5 6).tree .openParen) .openParen)
          .multiply) .subtract), 13) ∧
      ((c.evaluate (.numeric resolve fun _ => pure ⟨⟩)).run 0).1 = .ok 8 ∧
      calls.filterMap NumericCall.diagnostic? =
        [.unknownOperator .openParen, .unknownOperator .openParen] := by
  intro leaf plus a bs s resolve c calls
  have htype : (operands (a.openedTerms bs)).foldlM Typing.consider {} =
      .ok ⟨some (.dimension .length), true⟩ := rfl
  have hbs : bs ≠ [] := List.cons_ne_nil _ _
  obtain ⟨hv, -, hrun, hnumber⟩ := evaluate_openedTerms a bs htype
  obtain ⟨hvalue, -, hreports⟩ := hnumber hbs resolve (fun _ => pure ⟨⟩) 0
  exact ⟨htype, hbs, hv, hrun s 0, hvalue, hreports⟩

end Calculation

end CssMath
