import CssMath.Proofs.Conservation
import Mathlib.Data.List.Chain

/-! The operators that wait during a scan. An operator is put on top of those that bind less tightly
only, so between two open parentheses each binds tighter than the one below it. There are two
degrees of tightness; so no more than two operators wait between parentheses, and what waits is
bounded by the nesting and not by the length of the terms. -/
namespace CssMath

def Operator.BindsTighter (o o' : Operator) : Prop :=
  ∃ p q, o.precedence? = some p ∧ o'.precedence? = some q ∧ q < p

instance : IsTrans Operator Operator.BindsTighter where
  trans := by
    intro o₁ o₂ o₃ h₁₂ h₂₃
    obtain ⟨p, q, hp, hq, hqp⟩ := h₁₂
    obtain ⟨q', r, hq', hr, hrq⟩ := h₂₃
    obtain rfl := Option.some.inj (hq.symm.trans hq')
    exact ⟨p, r, hp, hr, Nat.lt_trans hrq hqp⟩

theorem Operator.yieldsTo_eq_false_iff {o top : Operator} (ho : o.isBinary) (htop : top.isBinary) :
    o.yieldsTo top = false ↔ o.BindsTighter top := by
  obtain ⟨p, hp⟩ := Option.isSome_iff_exists.mp ho
  obtain ⟨q, hq⟩ := Option.isSome_iff_exists.mp htop
  simp [yieldsTo, BindsTighter, hp, hq]

theorem Operator.expels_of_ne {o : Operator} (ho : o ≠ .closeParen) : o.expels = o.yieldsTo := by
  cases o with
  | closeParen => exact absurd rfl ho
  | _ => rfl

/-- Operators that can wait, the last one read first: none would let the one right below it go
first, and none is a closing parenthesis. -/
structure Stacked (P : List Operator) : Prop where
  layered : P.IsChain fun top below => top.yieldsTo below = false
  opening : .closeParen ∉ P

/-- How many binary operators can wait from the top down to the next parenthesis: one of each
precedence up to that of the top. -/
def layers : List Operator → Nat
  | [] => 0
  | o :: _ => o.precedence?.elim 0 (· + 1)

theorem layers_le (P : List Operator) : layers P ≤ 2 := by
  cases P with
  | nil => exact Nat.zero_le 2
  | cons o P => cases o <;> simp [layers, Operator.precedence?]

namespace Stacked
variable {P Q R : List Operator}

theorem nil : Stacked [] := ⟨List.isChain_nil, List.not_mem_nil⟩

theorem suffix (h : Stacked P) (hQ : Q <:+ P) : Stacked Q :=
  ⟨h.layered.suffix hQ, fun hmem => h.opening (hQ.subset hmem)⟩

theorem segment (h : Stacked P) (hQ : Q <:+: P) : Stacked Q := by
  refine ⟨?_, fun hmem => h.opening (hQ.subset hmem)⟩
  obtain ⟨above, below, rfl⟩ := hQ
  exact h.layered.left_of_append.right_of_append

theorem leaves (h : Stacked P) (t : Term) : Stacked (t.leaves P) := by
  refine ⟨?_, t.closeParen_not_mem_leaves h.opening⟩
  cases t with
  | operand x => exact h.layered
  | other text => exact h.layered
  | operator o =>
    by_cases ho : o = .closeParen
    · subst ho
      exact h.layered.suffix ((List.tail_suffix _).trans (List.dropWhile_suffix _))
    · rw [Term.leaves_operator ho, Operator.expels_of_ne ho]
      have hrest : P.dropWhile o.yieldsTo <:+ P := List.dropWhile_suffix _
      refine List.isChain_cons.mpr ⟨fun top htop => ?_, h.layered.suffix hrest⟩
      have hhead := List.head?_dropWhile_not o.yieldsTo P
      rw [htop] at hhead
      exact hhead

theorem waiting (h : Stacked P) (ts : List Term) : Stacked (waiting P ts) := by
  induction ts generalizing P with
  | nil => exact h
  | cons t ts ih => exact ih (h.leaves t)

theorem openParen_or_isBinary (h : Stacked P) {o : Operator} (ho : o ∈ P) :
    o = .openParen ∨ o.isBinary := by
  by_cases hopen : o = .openParen
  · exact .inl hopen
  · have hclose : o ≠ .closeParen := fun he => h.opening (he ▸ ho)
    exact .inr (Operator.isBinary_iff.mpr ⟨hopen, hclose⟩)

theorem pairwise (h : Stacked P) (hopen : .openParen ∉ P) : P.Pairwise Operator.BindsTighter := by
  have hbinary : ∀ o ∈ P, o.isBinary := fun o ho =>
    (h.openParen_or_isBinary ho).resolve_left fun he => hopen (he ▸ ho)
  rw [← List.isChain_iff_pairwise]
  refine List.IsChain.imp_of_mem_imp (fun top below htop hbelow hrel => ?_) h.layered
  exact (Operator.yieldsTo_eq_false_iff (hbinary top htop) (hbinary below hbelow)).mp hrel

theorem layers_le_precedence {o : Operator} {p : Nat} (h : Stacked (o :: P))
    (ho : o.precedence? = some p) : layers P ≤ p := by
  cases P with
  | nil => exact Nat.zero_le p
  | cons below P =>
    have hrel : o.yieldsTo below = false := (List.isChain_cons_cons.mp h.layered).1
    cases hbelow : below.precedence? with
    | none => simp [layers, hbelow]
    | some q =>
      have hlt : q < p := by simpa [Operator.yieldsTo, ho, hbelow] using hrel
      simpa [layers, hbelow] using hlt

theorem length_le_layers (h : Stacked P) : P.length ≤ 3 * P.count .openParen + layers P := by
  induction P with
  | nil => exact Nat.zero_le _
  | cons o P ih =>
    have hrest := ih (h.suffix (List.suffix_cons o P))
    cases h.openParen_or_isBinary List.mem_cons_self with
    | inl hopen =>
      subst hopen
      have hlayers := layers_le P
      rw [List.length_cons, List.count_cons_self]
      omega
    | inr hbinary =>
      obtain ⟨p, hp⟩ := Option.isSome_iff_exists.mp hbinary
      have hbelow := h.layers_le_precedence hp
      have hlayers : layers (o :: P) = p + 1 := by simp [layers, hp]
      rw [List.length_cons, List.count_cons_of_ne (Operator.isBinary_iff.mp hbinary).1, hlayers]
      omega

/-- Each open parenthesis makes room for two more operators and itself. -/
theorem length_le (h : Stacked P) : P.length ≤ 3 * P.count .openParen + 2 :=
  Nat.le_trans h.length_le_layers (Nat.add_le_add_left (layers_le P) _)

end Stacked

namespace Scan
variable {s s' : Scan} {us : List Term}

theorem step_pending {t : Term} (h : s.step t = .ok s') : s'.pending = t.leaves s.pending := by
  cases t with
  | operand x =>
    rw [step] at h
    split at h
    · obtain rfl := Except.ok.inj h
      rfl
    · cases h
  | operator o =>
    obtain rfl := Except.ok.inj h
    exact s.enter_pending o
  | other text => cases h

/-- Behind the steps over some terms there waits what those terms leave, and the scan goes on from
there. -/
theorem foldlM_step (h : us.foldlM step s = .ok s') :
    s'.pending = waiting s.pending us ∧
      ∀ position ts, s.run position (us ++ ts) = s'.run (position + us.length) ts := by
  induction us generalizing s with
  | nil =>
    obtain rfl := Except.ok.inj h
    exact ⟨rfl, fun _ _ => rfl⟩
  | cons u us ih =>
    rw [List.foldlM_cons] at h
    cases hstep : s.step u with
    | error f => simp [hstep, bind, Except.bind] at h
    | ok mid =>
      rw [hstep] at h
      obtain ⟨hpending, hrun⟩ := ih h
      constructor
      · rw [hpending, step_pending hstep, waiting]
      · intro position ts
        rw [List.cons_append, run, hstep, List.length_cons, Nat.add_comm us.length,
          ← Nat.add_assoc]
        exact hrun (position + 1) ts

end Scan

namespace Calculation
variable {us : List Term} {s : Scan}

/-- Wherever a scan has come to, there wait binary operators and open parentheses, of these as many
as are unclosed. Between two of them, and below the first, the operators bind tighter from the
bottom to the top, so that at most two wait there. The bound holds as well of what is left while
they are emitted, and without parentheses it is two, however many terms there are. -/
theorem pending_stacked (h : us.foldlM Scan.step {} = .ok s) :
    (∀ ts, ofInfix (us ++ ts) = s.run us.length ts) ∧
    (∀ o ∈ s.pending, o = .openParen ∨ o.isBinary) ∧
    s.pending.count .openParen = unclosed 0 us ∧
    (∀ Q, Q <:+: s.pending → .openParen ∉ Q → Q.Pairwise Operator.BindsTighter) ∧
    (∀ R, R <:+ s.pending → R.length ≤ 3 * R.count .openParen + 2) ∧
    s.pending.length ≤ 3 * unclosed 0 us + 2 ∧
    (us.countP Term.isOpening = 0 → s.pending.length ≤ 2) := by
  obtain ⟨hpending, hrun⟩ := Scan.foldlM_step h
  have hstacked : Stacked s.pending := by
    rw [hpending]
    exact Stacked.nil.waiting us
  have hdepth : s.pending.count .openParen = unclosed 0 us := by
    rw [hpending]
    exact count_waiting [] us
  have hbound : s.pending.length ≤ 3 * unclosed 0 us + 2 := hdepth ▸ hstacked.length_le
  refine ⟨fun ts => ?_, fun o => hstacked.openParen_or_isBinary, hdepth,
    fun Q hQ => (hstacked.segment hQ).pairwise, fun R hR => (hstacked.suffix hR).length_le,
    hbound, fun hfree => ?_⟩
  · rw [ofInfix, hrun, Nat.zero_add]
  · have hnone := countP_isOpening_eq 0 us
    omega

/-- Both operators wait on either side of a parenthesis, so no more could. The parenthesis that
closes nothing does not count. -/
theorem pending_stacked_full :
    let us : List Term := [.operator .closeParen, .operand (.integer 1), .operator .add,
      .operand (.integer 2), .operator .multiply, .operator .openParen, .operand (.integer 3),
      .operator .subtract, .operand (.integer 4), .operator .divide]
    let s : Scan := ⟨#[.operand (.integer 1), .operand (.integer 2), .operand (.integer 3),
      .operand (.integer 4)], [.divide, .subtract, .openParen, .multiply, .add], {}⟩
    us.foldlM Scan.step {} = .ok s ∧ (∀ ts, ofInfix (us ++ ts) = s.run 10 ts) ∧
      unclosed 0 us = 1 ∧ s.pending.count .openParen = 1 ∧ s.pending.length = 3 * 1 + 2 ∧
      [Operator.divide, .subtract].Pairwise Operator.BindsTighter := by
  intro us s
  have h : us.foldlM Scan.step {} = .ok s := rfl
  obtain ⟨hrun, -, hcount, hsegment, -, -, -⟩ := pending_stacked h
  have hdepth : unclosed 0 us = 1 := rfl
  have htop : [Operator.divide, .subtract] <:+: s.pending :=
    ⟨[], [.openParen, .multiply, .add], rfl⟩
  exact ⟨h, hrun, hdepth, hcount.trans hdepth, rfl, hsegment _ htop (by decide)⟩

end Calculation

end CssMath
