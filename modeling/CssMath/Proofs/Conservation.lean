import CssMath.Proofs.Repair
import Mathlib.Data.Nat.Nth
import Mathlib.Data.Set.Function

/-! Nothing is lost and nothing invented on the way to postfix order. The operands keep their order,
and each binary operator comes out as often as it went in, the first time it stands there for the
first time it stood here and so on; it never comes before an operand that it used to follow. Of the
parentheses only those are left that open a group which is never closed. -/
namespace CssMath

/-- How many parentheses are closed that are open, the first term at `depth`. -/
def matched (depth : Nat) : List Term → Nat
  | [] => 0
  | t :: ts =>
    match t.nest depth with
    | some inner => [t].countP Term.isClosing + matched inner ts
    | none => matched 0 ts

theorem countP_isOpening_eq (depth : Nat) (ts : List Term) :
    depth + ts.countP Term.isOpening = matched depth ts + unclosed depth ts := by
  induction ts generalizing depth with
  | nil => simp [matched, unclosed]
  | cons t ts ih =>
    rw [matched, unclosed, ← List.singleton_append, List.countP_append]
    cases ht : t.nest depth with
    | some inner =>
      have hcount := Term.nest_eq_some ht
      have hrest := ih inner
      dsimp only
      omega
    | none =>
      obtain ⟨rfl, rfl⟩ := Term.nest_eq_none ht
      have hone : [Term.operator .closeParen].countP Term.isOpening = 0 := rfl
      have hrest := ih 0
      dsimp only
      omega

theorem countP_isClosing_eq (depth : Nat) (ts : List Term) :
    ts.countP Term.isClosing = matched depth ts + strays depth ts := by
  induction ts generalizing depth with
  | nil => rfl
  | cons t ts ih =>
    rw [matched, strays, ← List.singleton_append, List.countP_append]
    cases ht : t.nest depth with
    | some inner =>
      dsimp only
      rw [ih inner, Nat.add_assoc]
    | none =>
      obtain ⟨rfl, rfl⟩ := Term.nest_eq_none ht
      have hone : [Term.operator .closeParen].countP Term.isClosing = 1 := rfl
      have hrest := ih 0
      dsimp only
      omega

theorem length_of_native {ts : List Term} (hnative : ∀ t ∈ ts, t.isForeign = false) :
    ts.length = (operands ts).length + binaries ts + ts.countP Term.isOpening +
      ts.countP Term.isClosing := by
  induction ts with
  | nil => rfl
  | cons t ts ih =>
    obtain ⟨ht, hts⟩ := List.forall_mem_cons.mp hnative
    have hrest := ih hts
    have hone : 1 = (operands [t]).length + binaries [t] + [t].countP Term.isOpening +
        [t].countP Term.isClosing := by
      cases t with
      | operand x => rfl
      | operator o => cases o <;> rfl
      | other text => cases ht
    rw [← List.singleton_append, operands_append, binaries_append, List.countP_append,
      List.countP_append, List.length_append, List.length_append, List.length_singleton]
    omega

theorem countP_isOpening_operators (ts : List Term) :
    ts.countP Term.isOpening = (operators ts).count .openParen := by
  induction ts with
  | nil => rfl
  | cons t ts ih =>
    have hone : [t].countP Term.isOpening = (operators [t]).count .openParen := by
      cases t with
      | operand x => rfl
      | operator o => cases o <;> rfl
      | other text => rfl
    rw [← List.singleton_append, List.countP_append, operators_append, List.count_append, hone, ih]

theorem count_openParen_arrange (ts : List Term) :
    (operators (arrange ts)).count .openParen = unclosed 0 ts := by
  have hemit : (operators (emitted [] ts)).count .openParen = 0 := by
    apply List.count_eq_zero.mpr
    intro h
    cases isBinary_of_mem_emitted (by simp) ts _ h
  have hwait : (waiting [] ts).count .openParen = unclosed 0 ts := count_waiting [] ts
  rw [arrange, drained, operators_append, operators_map, List.count_append, hemit, hwait,
    Nat.zero_add]

theorem arrange_not_closing (ts : List Term) : ∀ t ∈ arrange ts, t.isClosing = false := by
  intro t ht
  cases t with
  | operand x => rfl
  | other text => rfl
  | operator o =>
    cases o with
    | closeParen => exact absurd (mem_operators_iff.mpr ht) (closeParen_not_mem_arrange ts)
    | _ => rfl

theorem isBinary_of_unclosed {ts : List Term} (h : unclosed 0 ts = 0) :
    ∀ o ∈ operators (arrange ts), o.isBinary := by
  intro o ho
  have hclose : o ≠ .closeParen := fun he => closeParen_not_mem_arrange ts (he ▸ ho)
  have hopen : o ≠ .openParen := by
    rintro rfl
    rw [← count_openParen_arrange] at h
    exact List.count_eq_zero.mp h ho
  exact Operator.isBinary_iff.mpr ⟨hopen, hclose⟩

section Binary
variable {o : Operator} (ho : o.isBinary) (ts : List Term)
include ho

theorem count_emitted :
    (operators (emitted [] ts)).count o + (waiting [] ts).count o = (operators ts).count o := by
  obtain ⟨hopen, hclose⟩ := Operator.isBinary_iff.mp ho
  have h := countP_emitted (q := (· == o)) (beq_false_of_ne hopen.symm)
    (beq_false_of_ne hclose.symm) [] ts
  rwa [List.countP_nil, Nat.zero_add] at h

theorem count_arrange : (operators (arrange ts)).count o = (operators ts).count o := by
  rw [arrange, drained, operators_append, operators_map, List.count_append, count_emitted ho]

end Binary

theorem binaries_arrange (ts : List Term) : binaries (arrange ts) = binaries ts :=
  countP_arrange rfl rfl ts

theorem length_arrange {ts : List Term} (hnative : ∀ t ∈ ts, t.isForeign = false) :
    (arrange ts).length + ts.countP Term.isClosing + matched 0 ts = ts.length := by
  have hin := length_of_native hnative
  have hout := length_of_native (arrange_not_foreign ts)
  have hopen := countP_isOpening_eq 0 ts
  have hclosing : (arrange ts).countP Term.isClosing = 0 :=
    List.countP_eq_zero.mpr fun t ht => by simp [arrange_not_closing ts t ht]
  rw [operands_arrange, binaries_arrange, countP_isOpening_operators, count_openParen_arrange,
    hclosing] at hout
  omega

section Occurrences
variable {o : Operator} {ts us : List Term} {i j : Nat}

theorem count_take_succ (hi : ts[i]? = some (.operator o)) :
    (operators (ts.take (i + 1))).count o = (operators (ts.take i)).count o + 1 := by
  simp [List.take_add_one, hi]

theorem operands_take_succ (hi : ts[i]? = some (.operator o)) :
    operands (ts.take (i + 1)) = operands (ts.take i) := by
  simp [List.take_add_one, hi]

theorem count_getElem?_eq (o : Operator) (ts : List Term) (n : Nat) :
    Nat.count (fun i => ts[i]? = some (.operator o)) n = (operators (ts.take n)).count o := by
  induction n with
  | zero => simp
  | succ n ih =>
    rw [Nat.count_succ, ih]
    split
    · rename_i hn
      exact (count_take_succ hn).symm
    · rename_i hn
      have hnone : (operators ts[n]?.toList).count o = 0 := by
        rw [List.count_eq_zero]
        intro ho
        exact hn (Option.mem_toList.mp (mem_operators_iff.mp ho))
      rw [List.take_add_one, operators_append, List.count_append, hnone]

theorem lt_card_of_lt_count {p : Nat → Prop} [DecidablePred p] {k n : Nat} (h : k < Nat.count p n)
    (hp : (Set.ofPred p).Finite) : k < hp.toFinset.card := by
  refine h.trans_le ?_
  rw [Nat.count_eq_card_filter_range]
  exact Finset.card_le_card fun i hi => hp.mem_toFinset.mpr (Finset.mem_filter.mp hi).2

/-- Where the operator at `i` stands in `us` as often before as it stands before `i` in `ts`. -/
noncomputable def counterpart (ts us : List Term) (i : Nat) : Nat :=
  Nat.nth (fun j => us[j]? = ts[i]?)
    ((operators (ts.take i)).countP fun o => ts[i]? = some (.operator o))

theorem counterpart_eq (us : List Term) (hi : ts[i]? = some (.operator o)) :
    counterpart ts us i =
      Nat.nth (fun j => us[j]? = some (.operator o)) ((operators (ts.take i)).count o) := by
  have hrank : (operators (ts.take i)).countP (fun o' => ts[i]? = some (.operator o')) =
      (operators (ts.take i)).count o := by
    apply List.countP_congr
    intro o' _
    rw [hi, decide_eq_true_iff, beq_iff_eq, Option.some.injEq, Term.operator.injEq]
    exact eq_comm
  rw [counterpart, hrank, hi]

theorem counterpart_spec (hi : ts[i]? = some (.operator o))
    (hcount : (operators us).count o = (operators ts).count o) :
    us[counterpart ts us i]? = some (.operator o) ∧
      (operators (us.take (counterpart ts us i))).count o = (operators (ts.take i)).count o := by
  have hlt : (operators (ts.take i)).count o <
      Nat.count (fun j => us[j]? = some (.operator o)) us.length := by
    rw [count_getElem?_eq, List.take_length, hcount, Nat.lt_iff_add_one_le, ← count_take_succ hi]
    exact ((List.take_prefix _ ts).filterMap _).count_le o
  have hcard := fun hp => lt_card_of_lt_count hlt hp
  rw [counterpart_eq us hi]
  refine ⟨Nat.nth_mem _ hcard, ?_⟩
  rw [← count_getElem?_eq, Nat.count_nth hcard]

theorem counterpart_counterpart (hi : ts[i]? = some (.operator o))
    (hcount : (operators us).count o = (operators ts).count o) :
    counterpart us ts (counterpart ts us i) = i := by
  obtain ⟨hj, hrank⟩ := counterpart_spec hi hcount
  rw [counterpart_eq ts hj, hrank, ← count_getElem?_eq]
  exact Nat.nth_count hi

def binaryPositions (ts : List Term) : Set Nat :=
  {i | ∃ o, o.isBinary ∧ ts[i]? = some (.operator o)}

theorem bijOn_counterpart
    (hcount : ∀ o, o.isBinary → (operators us).count o = (operators ts).count o) :
    Set.BijOn (counterpart ts us) (binaryPositions ts) (binaryPositions us) := by
  have hback : ∀ o, o.isBinary → (operators ts).count o = (operators us).count o :=
    fun o ho => (hcount o ho).symm
  have hinv : Set.InvOn (counterpart us ts) (counterpart ts us) (binaryPositions ts)
      (binaryPositions us) := by
    constructor
    · intro i hi
      obtain ⟨o, ho, hi⟩ := hi
      exact counterpart_counterpart hi (hcount o ho)
    · intro j hj
      obtain ⟨o, ho, hj⟩ := hj
      exact counterpart_counterpart hj (hback o ho)
  refine hinv.bijOn ?_ ?_
  · intro i hi
    obtain ⟨o, ho, hi⟩ := hi
    exact ⟨o, ho, (counterpart_spec hi (hcount o ho)).1⟩
  · intro j hj
    obtain ⟨o, ho, hj⟩ := hj
    exact ⟨o, ho, (counterpart_spec hj (hback o ho)).1⟩

/-- A binary operator comes behind all operands that it used to follow. By the time the next operand
is emitted only what stands before that one has been read, so up to there no operator can have come
out more often than it stands before it. -/
theorem operands_take_isPrefix (ho : o.isBinary) (hj : (arrange ts)[j]? = some (.operator o))
    (hrank : (operators ((arrange ts).take j)).count o = (operators (ts.take i)).count o) :
    operands (ts.take i) <+: operands ((arrange ts).take j) := by
  have hread : operands (ts.take i) <+: operands ts := (List.take_prefix i ts).filterMap _
  have hdone : operands ((arrange ts).take j) <+: operands ts := by
    rw [← operands_arrange ts]
    exact (List.take_prefix j _).filterMap _
  refine List.prefix_of_prefix_length_le hread hdone (Nat.not_lt.mp fun hlt => ?_)
  have hemit : emitted [] (ts.take i) <+: arrange ts := by
    have happend := arrange_append (ts.take i) (ts.drop i)
    rw [List.take_append_drop] at happend
    exact happend ▸ List.prefix_append _ _
  have hbefore : (arrange ts).take (j + 1) <+: emitted [] (ts.take i) := by
    refine (List.prefix_or_prefix_of_prefix (List.take_prefix _ _) hemit).resolve_right fun h => ?_
    have hle := (h.filterMap Term.operand?).length_le
    rw [← operands, ← operands, operands_emitted, operands_take_succ hj] at hle
    omega
  have hout := (hbefore.filterMap Term.operator?).count_le o
  rw [← operators, ← operators, count_take_succ hj, hrank] at hout
  have hin := count_emitted ho (ts.take i)
  omega

end Occurrences

namespace Calculation

/-- What becomes of the terms of a valid calculation. The operands keep their order, each binary
operator comes out as often as it went in, and the operators can be paired off so that each comes
behind all operands that it used to follow; of the parentheses those come out that are opened and
never closed, and no foreign text does. So the postfix terms are shorter by the closing parentheses
and by the open ones that are matched. -/
theorem ofInfix_conserves {ts : List Term} (hv : (ofInfix ts).isValid) :
    let c := ofInfix ts
    operands c.terms = operands ts ∧
    (∀ o, o.isBinary → (operators c.terms).count o = (operators ts).count o) ∧
    (∀ t ∈ c.terms, t.isForeign = false ∧ t.isClosing = false) ∧
    c.terms.countP Term.isOpening = unclosed 0 ts ∧
    (∃ f, Set.BijOn f (binaryPositions ts) (binaryPositions c.terms) ∧
      ∀ i ∈ binaryPositions ts, c.terms[f i]? = ts[i]? ∧
        operands (ts.take i) <+: operands (c.terms.take (f i))) ∧
    ts.countP Term.isOpening = matched 0 ts + unclosed 0 ts ∧
    ts.countP Term.isClosing = matched 0 ts + strays 0 ts ∧
    c.terms.length + ts.countP Term.isClosing + matched 0 ts = ts.length ∧
    ((∀ t ∈ ts, t.isOpening = false ∧ t.isClosing = false) → c.terms.length = ts.length) := by
  intro c
  obtain ⟨ty, hty⟩ := isValid_ofInfix_iff.mp hv
  have hlength := length_arrange hty.native
  have hcount : ∀ o, o.isBinary → (operators (arrange ts)).count o = (operators ts).count o :=
    fun o ho => count_arrange ho ts
  have hterms : c.terms = arrange ts := terms_ofInfix hv
  rw [hterms]
  refine ⟨operands_arrange ts, hcount, fun t ht => ?_, ?_, ⟨counterpart ts (arrange ts),
    bijOn_counterpart hcount, fun i hi => ?_⟩, ?_, countP_isClosing_eq 0 ts, hlength,
    fun hflat => ?_⟩
  · exact ⟨arrange_not_foreign ts t ht, arrange_not_closing ts t ht⟩
  · rw [countP_isOpening_operators, count_openParen_arrange]
  · obtain ⟨o, ho, hi⟩ := hi
    obtain ⟨hj, hrank⟩ := counterpart_spec hi (hcount o ho)
    exact ⟨hj.trans hi.symm, operands_take_isPrefix ho hj hrank⟩
  · rw [← countP_isOpening_eq, Nat.zero_add]
  · have hclosing : ts.countP Term.isClosing = 0 :=
      List.countP_eq_zero.mpr fun t ht => by simp [(hflat t ht).2]
    have hmatched := countP_isClosing_eq 0 ts
    omega

/-- `1 ) * ( ( 2 ) - 3`: one parenthesis closes nothing, one is matched and one is never closed. -/
theorem ofInfix_conserves_unclosed :
    let ts : List Term := [.operand (.integer 1), .operator .closeParen, .operator .multiply,
      .operator .openParen] ++ group [.operand (.integer 2)] ++
      [.operator .subtract, .operand (.integer 3)]
    let c := ofInfix ts
    c.isValid ∧ c.terms = [.operand (.integer 1), .operand (.integer 2), .operand (.integer 3),
      .operator .subtract, .operator .openParen, .operator .multiply] ∧
    operands c.terms = operands ts ∧ c.terms.countP Term.isOpening = 1 ∧
    (∃ f, Set.BijOn f (binaryPositions ts) (binaryPositions c.terms) ∧
      ∀ i ∈ binaryPositions ts, c.terms[f i]? = ts[i]? ∧
        operands (ts.take i) <+: operands (c.terms.take (f i))) ∧
    matched 0 ts = 1 ∧ unclosed 0 ts = 1 ∧ strays 0 ts = 1 ∧
    c.terms.length + ts.countP Term.isClosing + matched 0 ts = ts.length := by
  intro ts c
  have hv : c.isValid := rfl
  obtain ⟨hoperands, -, -, hopen, hpairs, -, -, hlength, -⟩ := ofInfix_conserves hv
  exact ⟨hv, rfl, hoperands, hopen, hpairs, rfl, rfl, rfl, hlength⟩

end Calculation

end CssMath
