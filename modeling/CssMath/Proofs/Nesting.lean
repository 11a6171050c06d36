import CssMath.Proofs.Arrangement

/-! Parentheses in infix terms. What stands inside of a parenthesis is put in order without regard
to what waits outside, because no operator is emitted past an open parenthesis; a group therefore
comes out in one piece and leaves what waited as it was. -/
namespace CssMath

namespace Term

def isOpening : Term → Bool
  | operator .openParen => true
  | _ => false

def isClosing : Term → Bool
  | operator .closeParen => true
  | _ => false

/-- How deep the next term stands; none if the term closes a parenthesis that is not open. -/
def nest : Nat → Term → Option Nat
  | depth, operator .openParen => some (depth + 1)
  | 0, operator .closeParen => none
  | depth + 1, operator .closeParen => some depth
  | depth, _ => some depth

end Term

/-- How deep the terms end that begin at `depth`; none if they close too much. -/
def nesting (depth : Nat) : List Term → Option Nat
  | [] => some depth
  | t :: ts => (t.nest depth).bind fun inner => nesting inner ts

def Balanced (ts : List Term) : Prop :=
  (∀ us, us <+: ts → us.countP Term.isClosing ≤ us.countP Term.isOpening) ∧
    ts.countP Term.isOpening = ts.countP Term.isClosing

def group (ts : List Term) : List Term := .operator .openParen :: (ts ++ [.operator .closeParen])

@[simp] theorem operands_group (ts : List Term) : operands (group ts) = operands ts := by
  simp [group]

theorem native_group_iff {ts : List Term} :
    (∀ t ∈ group ts, t.isForeign = false) ↔ ∀ t ∈ ts, t.isForeign = false := by
  simp [group, Term.isForeign, or_imp, forall_and]

theorem nesting_append (depth : Nat) (ts us : List Term) :
    nesting depth (ts ++ us) = (nesting depth ts).bind fun inner => nesting inner us := by
  induction ts generalizing depth with
  | nil => rfl
  | cons t ts ih => simp [nesting, ih, Option.bind_assoc]

theorem Term.nest_eq_some {t : Term} {depth inner : Nat} (h : t.nest depth = some inner) :
    inner + [t].countP isClosing = depth + [t].countP isOpening := by
  match depth, t with
  | depth, .operand x => simp_all [nest, isClosing, isOpening]
  | depth, .other text => simp_all [nest, isClosing, isOpening]
  | depth, .operator o => cases o <;> cases depth <;> simp_all [nest, isClosing, isOpening]

theorem Term.nest_of_le {t : Term} {depth : Nat}
    (h : [t].countP isClosing ≤ depth + [t].countP isOpening) :
    ∃ inner, t.nest depth = some inner := by
  match depth, t with
  | depth, .operand x => exact ⟨depth, rfl⟩
  | depth, .other text => exact ⟨depth, rfl⟩
  | depth, .operator o => cases o <;> cases depth <;> simp_all [nest, isClosing, isOpening]

theorem nesting_of_counts {depth inner : Nat} {ts : List Term}
    (hle : ∀ us, us <+: ts → us.countP Term.isClosing ≤ depth + us.countP Term.isOpening)
    (heq : inner + ts.countP Term.isClosing = depth + ts.countP Term.isOpening) :
    nesting depth ts = some inner := by
  induction ts generalizing depth with
  | nil => simp_all [nesting]
  | cons t ts ih =>
    obtain ⟨mid, hmid⟩ := Term.nest_of_le (hle [t] (List.prefix_append [t] ts))
    have hcount := Term.nest_eq_some hmid
    rw [← List.singleton_append, List.countP_append, List.countP_append] at heq
    rw [nesting, hmid]
    apply ih
    · intro us hus
      have hcons := hle (t :: us) (List.cons_prefix_cons.mpr ⟨rfl, hus⟩)
      rw [← List.singleton_append, List.countP_append, List.countP_append] at hcons
      omega
    · omega

theorem counts_of_nesting {depth inner : Nat} {ts : List Term} (h : nesting depth ts = some inner) :
    inner + ts.countP Term.isClosing = depth + ts.countP Term.isOpening := by
  induction ts generalizing depth with
  | nil =>
    obtain rfl := Option.some.inj h
    rfl
  | cons t ts ih =>
    obtain ⟨mid, hmid, hts⟩ := Option.bind_eq_some_iff.mp h
    have hcount := Term.nest_eq_some hmid
    have hrest := ih hts
    rw [← List.singleton_append, List.countP_append, List.countP_append]
    omega

theorem balanced_iff {ts : List Term} : Balanced ts ↔ nesting 0 ts = some 0 := by
  constructor
  · intro h
    apply nesting_of_counts
    · intro us hus
      rw [Nat.zero_add]
      exact h.1 us hus
    · rw [h.2]
  · intro h
    refine ⟨fun us hus => ?_, ?_⟩
    · obtain ⟨vs, rfl⟩ := hus
      rw [nesting_append] at h
      obtain ⟨mid, hmid, -⟩ := Option.bind_eq_some_iff.mp h
      have hcount := counts_of_nesting hmid
      omega
    · have hcount := counts_of_nesting h
      omega

instance : DecidablePred Balanced := fun _ => decidable_of_iff _ balanced_iff.symm

namespace Operator

def isBinary (o : Operator) : Bool := o.precedence?.isSome

theorem isBinary_iff {o : Operator} : o.isBinary ↔ o ≠ .openParen ∧ o ≠ .closeParen := by
  cases o <;> decide

theorem expels_openParen (o : Operator) : o.expels .openParen = false := by
  cases o <;> rfl

end Operator

theorem Term.nest_of_isBinary {o : Operator} (h : o.isBinary) (depth : Nat) :
    (operator o).nest depth = some depth := by
  cases o with
  | openParen => cases h
  | closeParen => cases h
  | _ => cases depth <;> rfl

section Stop
variable {α : Type _} {p : α → Bool} {b : α}

theorem takeWhile_append_stop (hb : p b = false) (xs ys : List α) :
    (xs ++ b :: ys).takeWhile p = xs.takeWhile p := by
  rw [List.takeWhile_append]
  split
  · rename_i h
    have hx : xs.takeWhile p = xs := (List.takeWhile_prefix p).eq_of_length h
    rw [hx, List.takeWhile_cons_of_neg (by simp [hb]), List.append_nil]
  · rfl

theorem dropWhile_append_stop (hb : p b = false) (xs ys : List α) :
    (xs ++ b :: ys).dropWhile p = xs.dropWhile p ++ b :: ys := by
  rw [List.dropWhile_append]
  split
  · rename_i h
    rw [List.isEmpty_iff.mp h, List.dropWhile_cons_of_neg (by simp [hb]), List.nil_append]
  · rfl

theorem count_dropWhile_stop [DecidableEq α] (hb : p b = false) (xs : List α) :
    (xs.dropWhile p).count b = xs.count b := by
  induction xs with
  | nil => rfl
  | cons x xs ih =>
    cases hx : p x with
    | false => rw [List.dropWhile_cons_of_neg (by simp [hx])]
    | true =>
      have hne : x ≠ b := by
        intro h
        subst h
        simp [hb] at hx
      rw [List.dropWhile_cons_of_pos hx, ih, List.count_cons_of_ne hne]

end Stop

namespace Term

theorem leaves_operator {o : Operator} (ho : o ≠ .closeParen) (P : List Operator) :
    (operator o).leaves P = o :: P.dropWhile o.expels := by
  cases o with
  | closeParen => exact absurd rfl ho
  | _ => rfl

theorem emits_framed (Q P : List Operator) (t : Term) :
    t.emits (Q ++ .openParen :: P) = t.emits Q := by
  cases t with
  | operand x => rfl
  | operator o => simp only [emits, takeWhile_append_stop o.expels_openParen]
  | other text => rfl

theorem closeParen_expels {Q : List Operator} (hQ : .openParen ∉ Q) :
    ∀ top ∈ Q, Operator.closeParen.expels top = true := by
  intro top htop
  have hne : top ≠ .openParen := fun h => hQ (h ▸ htop)
  simpa [Operator.expels] using hne

theorem leaves_closeParen {Q : List Operator} (hQ : .openParen ∉ Q) (R : List Operator) :
    (operator .closeParen).leaves (Q ++ .openParen :: R) = R := by
  rw [leaves, List.dropWhile_append_of_pos (closeParen_expels hQ),
    List.dropWhile_cons_of_neg (by simp [Operator.expels]), List.tail_cons]

theorem emits_closeParen {Q : List Operator} (hQ : .openParen ∉ Q) (R : List Operator) :
    (operator .closeParen).emits (Q ++ .openParen :: R) = Q.map operator := by
  rw [emits, List.takeWhile_append_of_pos (closeParen_expels hQ),
    List.takeWhile_cons_of_neg (by simp [Operator.expels]), List.append_nil]

theorem leaves_framed {Q : List Operator} {t : Term} {inner : Nat}
    (h : t.nest (Q.count .openParen) = some inner) (P : List Operator) :
    t.leaves (Q ++ .openParen :: P) = t.leaves Q ++ .openParen :: P ∧
      (t.leaves Q).count .openParen = inner := by
  cases t with
  | operand x => exact ⟨rfl, by simpa [nest, leaves] using h⟩
  | other text => exact ⟨rfl, by simpa [nest, leaves] using h⟩
  | operator o =>
    by_cases ho : o = .closeParen
    · subst ho
      have hQ : .openParen ∈ Q := by
        rw [← List.count_pos_iff]
        cases hc : Q.count .openParen with
        | zero => simp [nest, hc] at h
        | succ n => omega
      obtain ⟨Q₁, R, rfl, hQ₁⟩ := List.eq_append_cons_of_mem hQ
      rw [List.append_assoc, List.cons_append, leaves_closeParen hQ₁, leaves_closeParen hQ₁]
      refine ⟨rfl, ?_⟩
      rw [List.count_append, List.count_eq_zero.mpr hQ₁, Nat.zero_add, List.count_cons_self] at h
      exact Option.some.inj h
    · rw [leaves_operator ho, leaves_operator ho, dropWhile_append_stop o.expels_openParen]
      refine ⟨rfl, ?_⟩
      rw [List.count_cons, count_dropWhile_stop o.expels_openParen]
      cases o <;> simp_all [nest]

end Term

/-- Terms that close none of the parentheses outside are put in order as if there were none. -/
theorem waiting_framed {Q : List Operator} {ts : List Term} {inner : Nat}
    (h : nesting (Q.count .openParen) ts = some inner) (P : List Operator) :
    waiting (Q ++ .openParen :: P) ts = waiting Q ts ++ .openParen :: P ∧
      emitted (Q ++ .openParen :: P) ts = emitted Q ts ∧
      (waiting Q ts).count .openParen = inner := by
  induction ts generalizing Q with
  | nil => exact ⟨rfl, rfl, Option.some.inj h⟩
  | cons t ts ih =>
    obtain ⟨mid, hmid, hts⟩ := Option.bind_eq_some_iff.mp h
    obtain ⟨hleft, hcount⟩ := Term.leaves_framed hmid P
    rw [← hcount] at hts
    obtain ⟨hw, he, hk⟩ := ih hts
    refine ⟨?_, ?_, hk⟩
    · rw [waiting, hleft, hw, waiting]
    · rw [emitted, hleft, he, Term.emits_framed, emitted]

/-- A group comes out in one piece, and what waited before it waits behind it. -/
theorem arrange_group {ts : List Term} (h : nesting 0 ts = some 0) (P : List Operator) :
    emitted P (group ts) = arrange ts ∧ waiting P (group ts) = P := by
  obtain ⟨hw, he, hk⟩ := waiting_framed (Q := []) h P
  have hclosed : .openParen ∉ waiting [] ts := List.count_eq_zero.mp hk
  rw [List.nil_append] at hw he
  constructor
  · rw [group, emitted, Term.emits_openParen, Term.leaves_openParen, emitted_append, hw, he,
      emitted, Term.emits_closeParen hclosed, emitted, List.append_nil, List.nil_append, arrange,
      drained]
  · rw [group, waiting, Term.leaves_openParen, waiting_append, hw, waiting,
      Term.leaves_closeParen hclosed, waiting]

end CssMath
