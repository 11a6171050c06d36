import CssMath.Proofs.Fault

/-! Parentheses without a partner. A closing one that closes nothing acts as if it were opened
before all terms: a scan with enough open parentheses below emits the same and loses one of them at
each such term. An open one that is never closed acts as if it were closed at the end, but for its
being emitted. -/
namespace CssMath

def strays (depth : Nat) : List Term → Nat
  | [] => 0
  | t :: ts =>
    match t.nest depth with
    | some inner => strays inner ts
    | none => strays 0 ts + 1

def unclosed (depth : Nat) : List Term → Nat
  | [] => depth
  | t :: ts =>
    match t.nest depth with
    | some inner => unclosed inner ts
    | none => unclosed 0 ts

def repaired (ts : List Term) : List Term :=
  List.replicate (strays 0 ts) (.operator .openParen) ++ ts ++
    List.replicate (unclosed 0 ts) (.operator .closeParen)

theorem strays_append (depth : Nat) (ts us : List Term) :
    strays depth (ts ++ us) = strays depth ts + strays (unclosed depth ts) us := by
  induction ts generalizing depth with
  | nil => simp [strays, unclosed]
  | cons t ts ih =>
    rw [List.cons_append, strays, strays, unclosed]
    cases t.nest depth with
    | some inner => exact ih inner
    | none =>
      dsimp only
      rw [ih 0, Nat.add_right_comm]

theorem unclosed_of_nesting {depth inner : Nat} {ts : List Term}
    (h : nesting depth ts = some inner) : unclosed depth ts = inner := by
  induction ts generalizing depth with
  | nil => exact Option.some.inj h
  | cons t ts ih =>
    obtain ⟨mid, hmid, hts⟩ := Option.bind_eq_some_iff.mp h
    rw [unclosed, hmid]
    exact ih hts

namespace Term

theorem nest_eq_none {t : Term} {depth : Nat} (h : t.nest depth = none) :
    depth = 0 ∧ t = operator .closeParen := by
  match depth, t with
  | depth, operand x => cases depth <;> cases h
  | depth, other text => cases depth <;> cases h
  | 0, operator o => cases o <;> first | exact ⟨rfl, rfl⟩ | cases h
  | depth + 1, operator o => cases o <;> cases h

theorem leaves_above {Q : List Operator} {t : Term} {inner : Nat}
    (h : t.nest (Q.count .openParen) = some inner) (n : Nat) :
    t.leaves (Q ++ List.replicate n .openParen) = t.leaves Q ++ List.replicate n .openParen ∧
      t.emits (Q ++ List.replicate n .openParen) = t.emits Q ∧
      (t.leaves Q).count .openParen = inner := by
  cases n with
  | zero => simpa using (leaves_framed h []).2
  | succ n =>
    obtain ⟨hleave, hcount⟩ := leaves_framed h (List.replicate n .openParen)
    exact ⟨hleave, emits_framed Q _ t, hcount⟩

end Term

theorem count_waiting (Q : List Operator) (ts : List Term) :
    (waiting Q ts).count .openParen = unclosed (Q.count .openParen) ts := by
  induction ts generalizing Q with
  | nil => rfl
  | cons t ts ih =>
    rw [waiting, unclosed, ih]
    cases h : t.nest (Q.count .openParen) with
    | some inner => rw [(Term.leaves_above h 0).2.2]
    | none =>
      obtain ⟨hzero, rfl⟩ := Term.nest_eq_none h
      have hQ : .openParen ∉ Q := List.count_eq_zero.mp hzero
      rw [(Term.leaves_closeParen_of_not_mem hQ).1]
      rfl

/-- Open parentheses below are lost to the terms that would close nothing without them. -/
theorem waiting_above {Q : List Operator} {ts : List Term} {n : Nat}
    (h : strays (Q.count .openParen) ts ≤ n) :
    waiting (Q ++ List.replicate n .openParen) ts =
        waiting Q ts ++ List.replicate (n - strays (Q.count .openParen) ts) .openParen ∧
      emitted (Q ++ List.replicate n .openParen) ts = emitted Q ts := by
  induction ts generalizing Q n with
  | nil => exact ⟨rfl, rfl⟩
  | cons t ts ih =>
    rw [strays] at h ⊢
    rw [waiting, emitted, waiting, emitted]
    cases ht : t.nest (Q.count .openParen) with
    | some inner =>
      obtain ⟨hleave, hemit, hcount⟩ := Term.leaves_above ht n
      rw [ht] at h
      dsimp only at h ⊢
      rw [← hcount] at h ⊢
      obtain ⟨hw, he⟩ := ih h
      rw [hleave, hemit, hw, he]
      exact ⟨rfl, rfl⟩
    | none =>
      obtain ⟨hzero, rfl⟩ := Term.nest_eq_none ht
      have hQ : .openParen ∉ Q := List.count_eq_zero.mp hzero
      obtain ⟨hleave, hemit⟩ := Term.leaves_closeParen_of_not_mem hQ
      rw [ht] at h
      dsimp only at h ⊢
      -- The term empties `Q` either way; with parentheses below it takes one of them as well.
      obtain ⟨n, rfl⟩ : ∃ k, n = k + 1 := ⟨n - 1, by omega⟩
      have hrest : strays (([] : List Operator).count .openParen) ts ≤ n := Nat.le_of_succ_le_succ h
      obtain ⟨hw, he⟩ := ih hrest
      rw [List.nil_append] at hw he
      rw [List.replicate_succ, Term.leaves_closeParen hQ, Term.emits_closeParen hQ, hleave, hemit,
        hw, he, Nat.add_sub_add_right]
      exact ⟨rfl, rfl⟩

theorem waiting_replicate (n : Nat) (P : List Operator) :
    waiting P (List.replicate n (.operator .openParen)) = List.replicate n .openParen ++ P ∧
      emitted P (List.replicate n (.operator .openParen)) = [] := by
  induction n generalizing P with
  | zero => exact ⟨rfl, rfl⟩
  | succ n ih =>
    obtain ⟨hw, he⟩ := ih (.openParen :: P)
    rw [List.replicate_succ, waiting, emitted, Term.leaves_openParen, Term.emits_openParen, hw, he,
      List.replicate_succ', List.append_assoc]
    exact ⟨rfl, rfl⟩

theorem filter_ne_openParen {P : List Operator} (hP : .openParen ∉ P) :
    P.filter (· ≠ .openParen) = P := by
  apply List.filter_eq_self.mpr
  intro o ho
  have hne : o ≠ .openParen := fun h => hP (h ▸ ho)
  exact decide_eq_true hne

theorem drained_replicate {n : Nat} {P : List Operator} (h : P.count .openParen = n) :
    drained P (List.replicate n (.operator .closeParen)) =
      (P.filter (· ≠ .openParen)).map .operator := by
  induction n generalizing P with
  | zero =>
    rw [filter_ne_openParen (List.count_eq_zero.mp h)]
    rfl
  | succ n ih =>
    have hmem : .openParen ∈ P := List.count_pos_iff.mp (h ▸ Nat.succ_pos n)
    obtain ⟨Q, R, rfl, hQ⟩ := List.eq_append_cons_of_mem hmem
    have hR : R.count .openParen = n := by
      rw [List.count_append, List.count_eq_zero.mpr hQ, List.count_cons_self] at h
      omega
    rw [List.replicate_succ, drained_cons, Term.leaves_closeParen hQ, Term.emits_closeParen hQ,
      ih hR, List.filter_append, filter_ne_openParen hQ, List.map_append]
    rfl

theorem emitted_repaired {us vs : List Term} :
    emitted [] (List.replicate (strays 0 (us ++ vs)) (.operator .openParen) ++ us) =
      emitted [] us := by
  have hle : strays (([] : List Operator).count .openParen) us ≤ strays 0 (us ++ vs) := by
    rw [strays_append]
    exact Nat.le_add_right _ _
  obtain ⟨-, he⟩ := waiting_above hle
  obtain ⟨hw, hnone⟩ := waiting_replicate (strays 0 (us ++ vs)) []
  rw [emitted_append, hw, hnone, List.append_nil, List.nil_append]
  exact he

theorem arrange_repaired (ts : List Term) :
    arrange (repaired ts) =
      emitted [] ts ++ ((waiting [] ts).filter (· ≠ .openParen)).map .operator := by
  obtain ⟨hopen, hnone⟩ := waiting_replicate (strays 0 ts) []
  obtain ⟨hw, he⟩ := waiting_above (Q := []) (Nat.le_refl (strays 0 ts))
  have hcount : (waiting [] ts).count .openParen = unclosed 0 ts := count_waiting [] ts
  rw [List.append_nil] at hopen
  rw [List.nil_append] at hw he
  rw [repaired, List.append_assoc, arrange_append, hopen, hnone, drained_append, hw, he,
    List.nil_append]
  simp only [List.count_nil, Nat.sub_self, List.replicate_zero, List.append_nil]
  rw [drained_replicate hcount]

/-- `1 ) * ( 2` is `( 1 ) * ( 2 )`. -/
example :
    let ts : List Term := [.operand (.integer 1), .operator .closeParen, .operator .multiply,
      .operator .openParen, .operand (.integer 2)]
    repaired ts = .operator .openParen :: ts ++ [.operator .closeParen] ∧
      arrange (repaired ts) =
        [.operand (.integer 1), .operand (.integer 2), .operator .multiply] :=
  ⟨rfl, rfl⟩

theorem filter_emitted (ts : List Term) :
    (emitted [] ts).filter (fun u => !u.isOpening) = emitted [] ts := by
  apply List.filter_eq_self.mpr
  intro u hu
  rw [(emitted_not_paren ts u hu).1]
  rfl

theorem filter_arrange (ts : List Term) :
    (arrange ts).filter (fun u => !u.isOpening) =
      emitted [] ts ++ ((waiting [] ts).filter (· ≠ .openParen)).map .operator := by
  have hopening : (fun u : Term => !u.isOpening) ∘ Term.operator =
      fun o => decide (o ≠ .openParen) := by
    funext o
    cases o <;> rfl
  rw [arrange, drained, List.filter_append, filter_emitted, List.filter_map, hopening]

namespace Admitted
variable {start ty : Typing} {ts : List Term}

theorem replicate (n : Nat) (o : Operator) :
    Admitted ty (List.replicate n (.operator o)) ty := by
  induction n with
  | zero => exact nil_iff.mpr rfl
  | succ n ih => exact operator_iff.mpr ih

theorem repaired (h : Admitted {} ts ty) : Admitted {} (repaired ts) ty :=
  ((replicate _ _).append h).append (replicate _ _)

end Admitted

namespace Calculation

theorem ofInfix_repaired_of_fault {us : List Term} {ty : Typing} {t : Term} {f : Fault}
    (h : Admitted {} us ty) (hf : t.fault? ty = some f) (ts : List Term) :
    ∃ p, ofInfix (repaired (us ++ t :: ts)) = ⟨emitted [] us, ty, some (p, f)⟩ := by
  have hopened := (Admitted.replicate (strays 0 (us ++ t :: ts)) .openParen).append h
  have hfault := ofInfix_of_fault hopened hf
    (ts ++ List.replicate (unclosed 0 (us ++ t :: ts)) (.operator .closeParen))
  rw [emitted_repaired] at hfault
  rw [repaired, List.append_assoc, List.append_assoc, List.cons_append, ← List.append_assoc]
  exact ⟨_, hfault⟩

/-- Repairing the parentheses changes neither the type nor whether there is a fault, and from the
postfix terms it takes the open parentheses and nothing else. So closing parentheses that close
nothing act as if they were opened before all terms, and an open one that is never closed is only
emitted at the end besides. -/
theorem ofInfix_repaired (ts : List Term) :
    let c := ofInfix ts
    let d := ofInfix (repaired ts)
    d.isValid = c.isValid ∧ d.typing = c.typing ∧
      d.terms = c.terms.filter (fun u => !u.isOpening) ∧
      (unclosed 0 ts = 0 → d.terms = c.terms) ∧
      (c.isValid → c.terms = emitted [] ts ++ (waiting [] ts).map .operator ∧
        d.terms = emitted [] ts ++ ((waiting [] ts).filter (· ≠ .openParen)).map .operator) := by
  intro c d
  cases admitted_or_fault {} ts with
  | inl hall =>
    obtain ⟨ty, hty⟩ := hall
    have hc : c = ⟨arrange ts, ty, none⟩ := ofInfix_of_admitted hty
    have hd : d = ⟨arrange (repaired ts), ty, none⟩ := ofInfix_of_admitted hty.repaired
    rw [hc, hd, arrange_repaired, filter_arrange]
    refine ⟨rfl, rfl, rfl, ?_, fun _ => ⟨rfl, rfl⟩⟩
    intro hclosed
    have hcount : (waiting [] ts).count .openParen = 0 := (count_waiting [] ts).trans hclosed
    rw [filter_ne_openParen (List.count_eq_zero.mp hcount)]
    rfl
  | inr hfault =>
    obtain ⟨us, t, vs, ty, f, rfl, hus, hf⟩ := hfault
    -- The same term ends both scans, at another position if parentheses stand before it.
    have hc : c = ⟨emitted [] us, ty, some (us.length, f)⟩ := ofInfix_of_fault hus hf vs
    obtain ⟨p, hd⟩ : ∃ p, d = ⟨emitted [] us, ty, some (p, f)⟩ :=
      ofInfix_repaired_of_fault hus hf vs
    rw [hc, hd, filter_emitted]
    exact ⟨rfl, rfl, rfl, fun _ => rfl, nofun⟩

end Calculation

end CssMath
