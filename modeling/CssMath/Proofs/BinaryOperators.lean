import CssMath.Evaluation.Numeric
import CssMath.Proofs.Fault
import CssMath.Proofs.Outcome
import CssMath.Proofs.ReadOutcome

/-! Calculations whose operators all take two values. The terms of a text are balanced, so those are
the only operators that come out of it; what a strategy makes of a parenthesis has no part in the
evaluation then, be it a diagnostic or the number that stands in for a value. -/
namespace CssMath
universe u v

def Term.isArithmetic : Term → Bool
  | operand _ => true
  | operator o => o.isBinary
  | other _ => false

theorem Term.isArithmetic_iff {t : Term} :
    t.isArithmetic ↔ (∃ x, t = .operand x) ∨
      ∃ o ∈ [Operator.add, .subtract, .multiply, .divide], t = .operator o := by
  cases t with
  | operand x => simp [isArithmetic]
  | operator o => cases o <;> simp [isArithmetic, Operator.isBinary, Operator.precedence?]
  | other text => simp [isArithmetic]

theorem isArithmetic_of_operators {ts : List Term} (hnative : ∀ t ∈ ts, t.isForeign = false)
    (hbinary : ∀ o ∈ operators ts, o.isBinary) : ∀ t ∈ ts, t.isArithmetic := by
  intro t ht
  cases t with
  | operand x => rfl
  | operator o => exact hbinary o (mem_operators_iff.mpr ht)
  | other text => cases hnative _ ht

theorem Calculation.isArithmetic_of_nesting {ts : List Term} (h : nesting 0 ts = some 0) :
    ∀ t ∈ (ofInfix ts).terms, t.isArithmetic := by
  cases admitted_or_fault {} ts with
  | inl hall =>
    obtain ⟨ty, hty⟩ := hall
    rw [ofInfix_of_admitted hty]
    exact isArithmetic_of_operators (arrange_not_foreign ts) (isBinary_of_mem_arrange h)
  | inr hfault =>
    obtain ⟨us, t, vs, ty, f, rfl, hus, hf⟩ := hfault
    rw [ofInfix_of_fault hus hf]
    exact isArithmetic_of_operators (emitted_not_foreign [] us)
      (isBinary_of_mem_emitted (by simp) us)

namespace Strategy
variable {m : Type u → Type v} [Monad m] {α σ : Type u}

structure Agree (s s' : Strategy m α) : Prop where
  operand : ∀ x, s.operand x = s'.operand x
  operator : ∀ left right o, o.isBinary → s.operator left right o = s'.operator left right o

theorem replay_congr {s s' : Strategy m α} {ts : List Term}
    (hoperand : ∀ x ∈ operands ts, s.operand x = s'.operand x)
    (hoperator : ∀ o ∈ operators ts, ∀ left right,
      s.operator left right o = s'.operator left right o) (stack : List α) (position : Nat) :
    s.replay stack position ts = s'.replay stack position ts := by
  induction ts generalizing stack position with
  | nil => rw [replay_nil, replay_nil]
  | cons t ts ih =>
    cases t with
    | operand x =>
      obtain ⟨hx, hrest⟩ := List.forall_mem_cons.mp hoperand
      rw [Strategy.replay, Strategy.replay, hx]
      exact bind_congr fun value => ih hrest hoperator _ _
    | operator o =>
      obtain ⟨ho, hrest⟩ := List.forall_mem_cons.mp hoperator
      match stack with
      | [] => rfl
      | [_] => rfl
      | right :: left :: stack =>
        rw [Strategy.replay, Strategy.replay, ho left right]
        exact bind_congr fun value => ih hoperand hrest _ _
    | other text => rw [replay_other, replay_other]

theorem Agree.replay {s s' : Strategy m α} (h : s.Agree s') {ts : List Term}
    (hts : ∀ t ∈ ts, t.isArithmetic) (stack : List α) (position : Nat) :
    s.replay stack position ts = s'.replay stack position ts :=
  replay_congr (fun x _ => h.operand x)
    (fun o ho left right => h.operator left right o (hts _ (mem_operators_iff.mp ho)))
    stack position

def lifted (s : Strategy m α) : Strategy (StateT σ m) α where
  operand x := StateT.lift (s.operand x)
  operator left right o := StateT.lift (s.operator left right o)

theorem run_lift_bind [LawfulMonad m] {β : Type u} (x : m α) (f : α → StateT σ m β) (st : σ) :
    (StateT.lift x >>= f).run st = x >>= fun a => (f a).run st := by
  simp

theorem replay_lifted [LawfulMonad m] (s : Strategy m α) (stack : List α) (position : Nat)
    (ts : List Term) (st : σ) :
    (s.lifted.replay stack position ts).run st = (·, st) <$> s.replay stack position ts := by
  induction ts generalizing stack position with
  | nil =>
    rw [replay_nil, replay_nil]
    simp
  | cons t ts ih =>
    cases t with
    | operand x =>
      rw [Strategy.replay, Strategy.replay, map_bind]
      have hrun := run_lift_bind (s.operand x)
        (fun value => s.lifted.replay (value :: stack) (position + 1) ts) st
      exact hrun.trans (bind_congr fun value => ih _ _)
    | operator o =>
      match stack with
      | [] => simp [Strategy.replay]
      | [_] => simp [Strategy.replay]
      | right :: left :: stack =>
        rw [Strategy.replay, Strategy.replay, map_bind]
        have hrun := run_lift_bind (s.operator left right o)
          (fun value => s.lifted.replay (value :: stack) (position + 1) ts) st
        exact hrun.trans (bind_congr fun value => ih _ _)
    | other text =>
      rw [replay_other, replay_other]
      simp

theorem lift_pure [LawfulMonad m] (a : α) :
    (StateT.lift (pure a) : StateT σ m α) = pure a := by
  funext st
  exact pure_bind a _

end Strategy

/-- What a binary operator computes; a parenthesis computes nothing, and the number is 0. -/
def Operator.arithmetic : Operator → Float → Float → Float
  | add, left, right => left + right
  | subtract, left, right => left - right
  | multiply, left, right => left * right
  | divide, left, right => left / right
  | openParen, _, _ | closeParen, _, _ => 0

theorem Strategy.operator_numeric {m : Type → Type v} [Monad m] {resolve : Operand → m Float}
    {report : Diagnostic → m PUnit} {o : Operator} (ho : o.isBinary) (left right : Float) :
    (numeric resolve report).operator left right o = pure (o.arithmetic left right) := by
  cases o with
  | openParen => cases ho
  | closeParen => cases ho
  | _ => rfl

namespace Strategy
variable {m : Type → Type v} [Monad m] [LawfulMonad m] {σ : Type}

theorem numeric_agree (resolve : Operand → m Float) (report : Diagnostic → StateT σ m PUnit) :
    (numeric (fun x => StateT.lift (resolve x)) report).Agree
      (numeric resolve fun _ => pure ⟨⟩).lifted where
  operand x := by
    rw [numeric, numeric, lifted]
    dsimp only
    -- A bare operand is taken as it is, without asking `resolve`.
    split
    · exact (lift_pure _).symm
    · rfl
  operator left right o ho := by
    cases o with
    | openParen => cases ho
    | closeParen => cases ho
    | _ => exact (lift_pure _).symm

end Strategy

namespace Calculation

theorem evaluate_agree {m : Type u → Type v} [Monad m] {α : Type u} {c : Calculation}
    (hc : ∀ t ∈ c.terms, t.isArithmetic) {s s' : Strategy m α} (h : s.Agree s') :
    c.evaluate s = c.evaluate s' := by
  rw [evaluate, evaluate, h.replay hc]

theorem evaluate_numeric {m : Type → Type v} [Monad m] [LawfulMonad m] {σ : Type} {c : Calculation}
    (hc : ∀ t ∈ c.terms, t.isArithmetic) (resolve : Operand → m Float)
    (report : Diagnostic → StateT σ m PUnit) (st : σ) :
    (c.evaluate (.numeric (fun x => StateT.lift (resolve x)) report)).run st =
      (·, st) <$> c.evaluate (.numeric resolve fun _ => pure ⟨⟩) := by
  rw [evaluate_agree hc (Strategy.numeric_agree resolve report), evaluate, evaluate]
  by_cases hv : c.isValid
  · rw [if_pos hv, if_pos hv, Strategy.replay_lifted]
  · rw [if_neg hv, if_neg hv]
    simp

/-- The terms of any text that can be read are balanced, whatever is unclosed or stray in it. So its
calculation holds operands and operators that take two values and nothing else, and however the
evaluation ends, what a strategy makes of a parenthesis has no part in it: nothing is reported, and
no number stands in for a value. -/
theorem ofText_arithmetic (text : String) :
    (∀ ts, Css.bodyTerms text = .ok ts → Balanced ts) ∧
    ∀ c, ofText text = .ok c →
      (∀ t ∈ c.terms, (∃ x, t = .operand x) ∨
        ∃ o ∈ [Operator.add, .subtract, .multiply, .divide], t = .operator o) ∧
      (∀ {m : Type → Type v} [Monad m] (resolve : Operand → m Float)
        (report : Diagnostic → m PUnit) (s : Strategy m Float),
        s.Agree (.numeric resolve report) → c.evaluate s = c.evaluate (.numeric resolve report)) ∧
      (∀ {m : Type → Type v} [Monad m] [LawfulMonad m] {σ : Type} (resolve : Operand → m Float)
        (report : Diagnostic → StateT σ m PUnit) (st : σ),
        (c.evaluate (.numeric (fun x => StateT.lift (resolve x)) report)).run st =
          (·, st) <$> c.evaluate (.numeric resolve fun _ => pure ⟨⟩)) ∧
      ∀ ctx, (∀ ds, (c.evaluate (.collecting ctx)).run ds = (c.evaluate (.silent ctx), ds)) ∧
        ∀ log, (c.evaluate (.logging ctx)).run log = (c.evaluate (.silent ctx), log) := by
  constructor
  · intro ts hts
    exact balanced_iff.mpr (Css.nesting_readTerms (Css.lexemes_not_paren text.toList) hts 0)
  · intro c hc
    obtain ⟨ts, hts, rfl⟩ := ofText_eq_ok_iff.mp hc
    have hterms := isArithmetic_of_nesting (Css.nesting_calcTerms hts)
    refine ⟨fun t ht => Term.isArithmetic_iff.mp (hterms t ht),
      fun resolve report s h => evaluate_agree hterms h,
      fun resolve report st => evaluate_numeric hterms resolve report st,
      fun ctx => ⟨fun ds => ?_, fun log => ?_⟩⟩
    · exact evaluate_numeric (m := Id) hterms (fun x => ctx.resolveOperand x) _ ds
    · exact evaluate_numeric (m := Id) hterms (fun x => ctx.resolveOperand x) _ log

/-- Two groups are unclosed, one of them opened by a function. -/
theorem ofText_arithmetic_unclosed :
    let ts : List Term := .operand (.integer 2) :: .operator .multiply ::
      group (.operand (.integer 1) :: .operator .add :: group [.operand (.integer 3)])
    Css.bodyTerms "2 * (1 + calc(3" = .ok ts ∧ Balanced ts ∧
      ofText "calc(2 * (1 + calc(3" = .ok (ofInfix ts) ∧
      ∀ ctx ds, (((ofInfix ts).evaluate (.collecting ctx)).run ds).2 = ds := by
  intro ts
  let ls : List Css.Lexeme := [.token (.number ⟨false, [2], [], none⟩), .token (.delim '*'),
    .opening (.bracket .round), .token (.number ⟨false, [1], [], none⟩), .token (.delim '+'),
    .opening (.function "calc"), .token (.number ⟨false, [3], [], none⟩)]
  have hbody : Css.lexemes "2 * (1 + calc(3".toList = ls := by decide +kernel
  have hcalc : Css.lexemes "calc(2 * (1 + calc(3".toList = .opening (.function "calc") :: ls := by
    decide +kernel
  have hgroup : (Css.BlockKind.function "calc").isGroup = true := by decide +kernel
  let cs : List Css.Component := [.token (.number ⟨false, [2], [], none⟩), .token (.delim '*'),
    .block (.bracket .round) [.token (.number ⟨false, [1], [], none⟩), .token (.delim '+'),
      .block (.function "calc") [.token (.number ⟨false, [3], [], none⟩)]]]
  have hnested (closer : Option Css.Bracket) : Css.Nested closer ls cs [] :=
    .token nofun (.token nofun (.block (.token nofun (.token nofun
      (.block (.token nofun .ended) .ended))) .ended))
  have hterms : Css.terms? cs = some ts := by
    simp only [cs, Css.terms?, Css.Component.terms?, hgroup, if_true]
    rfl
  have hread : Css.bodyTerms "2 * (1 + calc(3" = .ok ts := by
    rw [Css.bodyTerms, hbody, Css.readTerms_eq (hnested none) (by decide), Css.readAll, hterms]
    rfl
  have htext : ofText "calc(2 * (1 + calc(3" = .ok (ofInfix ts) :=
    ofText_eq_ok_iff.mpr ⟨ts, Css.calcTerms_of_nested hcalc (hnested _) hterms, rfl⟩
  refine ⟨hread, (ofText_arithmetic.{0} _).1 ts hread, htext, fun ctx ds => ?_⟩
  obtain ⟨-, -, -, hsinks⟩ := (ofText_arithmetic.{0} _).2 _ htext
  rw [(hsinks ctx).1 ds]

end Calculation

end CssMath
