import CssMath.Proofs.Accounting

/-! The first fault of a list of terms. It ends the scan, so nothing behind it counts, and the terms
emitted up to it are where every other scan begins that starts with the terms before it; what still
waits then is dropped. -/
namespace CssMath

def typingAfter (ts : List Term) : Typing := (operands ts).foldl Typing.next {}

def Term.fault? (ty : Typing) : Term → Option Fault
  | operand x =>
    match ty.consider x with
    | .ok _ => none
    | .error m => some (.mismatch m)
  | operator _ => none
  | other text => some (.foreign text)

/-- What is wrong with the term at `p` behind the terms before it. -/
def faultAt? (ts : List Term) (p : Nat) : Option Fault :=
  ts[p]?.bind fun t => t.fault? (typingAfter (ts.take p))

theorem Term.fault?_operand_iff {ty : Typing} {x : Operand} {f : Fault} :
    (operand x).fault? ty = some f ↔ ∃ m, ty.consider x = .error m ∧ f = .mismatch m := by
  rw [fault?]
  cases ty.consider x <;> simp [eq_comm]

theorem Typing.consider_error {ty : Typing} {x : Operand} {m : TypeMismatch}
    (h : ty.consider x = .error m) :
    ty.resultType? = some m.expected ∧ x.dimension? = some m.found ∧
      .dimension m.found ≠ m.expected := by
  rw [consider.eq_def] at h
  split at h
  · rename_i expected found hexpected hfound
    split at h
    · cases h
    · rename_i hne
      obtain rfl := Except.error.inj h
      exact ⟨hexpected, hfound, hne⟩
  · cases h
  · cases h
  · split at h
    · cases h
    · split at h <;> cases h

def Typing.Measured (ty : Typing) : Prop := ∀ v, ty.resultType? = some v → ∃ d, v = .dimension d

theorem Typing.Measured.next {ty : Typing} (h : ty.Measured) (x : Operand) :
    (ty.next x).Measured := by
  rw [Typing.next, consider.eq_def]
  split
  · split <;> exact h
  · exact h
  · exact fun v hv => ⟨_, (Option.some.inj hv).symm⟩
  · split
    · exact fun v hv => ⟨_, (Option.some.inj hv).symm⟩
    · split <;> exact h

theorem Typing.Measured.foldl_next {ty : Typing} (h : ty.Measured) (xs : List Operand) :
    (xs.foldl Typing.next ty).Measured := by
  induction xs generalizing ty with
  | nil => exact h
  | cons x xs ih => exact ih (h.next x)

theorem Typing.measured_foldl_next (xs : List Operand) : (xs.foldl Typing.next {}).Measured := by
  have hopen : ({} : Typing).Measured := nofun
  exact hopen.foldl_next xs

theorem Typing.next_of_ok {ty mid : Typing} {x : Operand} (h : ty.consider x = .ok mid) :
    ty.next x = mid := by
  rw [next, h]
  rfl

namespace Admitted
variable {start mid ty : Typing} {us vs : List Term}

theorem append (hus : Admitted start us mid) (hvs : Admitted mid vs ty) :
    Admitted start (us ++ vs) ty := by
  refine ⟨List.forall_mem_append.mpr ⟨hus.native, hvs.native⟩, ?_⟩
  rw [operands_append, List.foldlM_append, hus.agree]
  exact hvs.agree

theorem singleton {t : Term} (h : t.fault? start = none) :
    Admitted start [t] ((operands [t]).foldl Typing.next start) := by
  cases t with
  | operand x =>
    cases hx : start.consider x with
    | ok mid =>
      have hnext : (operands [.operand x]).foldl Typing.next start = mid := Typing.next_of_ok hx
      rw [hnext]
      exact operand_iff.mpr ⟨mid, hx, nil_iff.mpr rfl⟩
    | error m => cases h.symm.trans (Term.fault?_operand_iff.mpr ⟨m, hx, rfl⟩)
  | operator o => exact operator_iff.mpr (nil_iff.mpr rfl)
  | other text => cases h

end Admitted

theorem admitted_or_fault (start : Typing) (ts : List Term) :
    (∃ ty, Admitted start ts ty) ∨ ∃ us t vs mid f, ts = us ++ t :: vs ∧ Admitted start us mid ∧
      t.fault? mid = some f := by
  induction ts generalizing start with
  | nil => exact .inl ⟨start, Admitted.nil_iff.mpr rfl⟩
  | cons t ts ih =>
    cases ht : t.fault? start with
    | some f => exact .inr ⟨[], t, ts, start, f, rfl, Admitted.nil_iff.mpr rfl, ht⟩
    | none =>
      have hone := Admitted.singleton ht
      cases ih ((operands [t]).foldl Typing.next start) with
      | inl hall =>
        obtain ⟨ty, hty⟩ := hall
        exact .inl ⟨ty, hone.append hty⟩
      | inr hfault =>
        obtain ⟨us, u, vs, mid, f, rfl, hus, hf⟩ := hfault
        exact .inr ⟨t :: us, u, vs, mid, f, rfl, hone.append hus, hf⟩

theorem admitted_take {ts : List Term} {p : Nat} (h : ∀ q < p, faultAt? ts q = none) :
    Admitted {} (ts.take p) (typingAfter (ts.take p)) := by
  induction p with
  | zero => exact Admitted.nil_iff.mpr rfl
  | succ p ih =>
    have hbefore := ih fun q hq => h q (Nat.lt_succ_of_lt hq)
    have hfault := h p (Nat.lt_succ_self p)
    rw [List.take_add_one]
    cases ht : ts[p]? with
    | none => simpa using hbefore
    | some t =>
      rw [faultAt?, ht, Option.bind_some] at hfault
      have happend := hbefore.append (Admitted.singleton hfault)
      rw [typingAfter, ← List.foldl_append, ← operands_append] at happend
      exact happend

/-- No parenthesis is emitted before the end. -/
theorem emitted_not_paren (ts : List Term) :
    ∀ u ∈ emitted [] ts, u.isOpening = false ∧ u.isClosing = false := by
  intro u hu
  cases u with
  | operand x => exact ⟨rfl, rfl⟩
  | other text => exact ⟨rfl, rfl⟩
  | operator o =>
    have hbinary := isBinary_of_mem_emitted (by simp) ts o (mem_operators_iff.mpr hu)
    cases o with
    | openParen => cases hbinary
    | closeParen => cases hbinary
    | _ => exact ⟨rfl, rfl⟩

namespace Scan

theorem step_of_fault {s : Scan} {t : Term} {f : Fault} (h : t.fault? s.typing = some f) :
    s.step t = .error f := by
  cases t with
  | operand x =>
    obtain ⟨m, hx, rfl⟩ := Term.fault?_operand_iff.mp h
    rw [step, hx]
  | operator o => cases h
  | other text =>
    obtain rfl := Option.some.inj h
    rfl

theorem step_output {s s' : Scan} {t : Term} (h : s.step t = .ok s') :
    s.output.toList <+: s'.output.toList := by
  cases t with
  | operand x =>
    rw [step] at h
    split at h
    · obtain rfl := Except.ok.inj h
      simp
    · cases h
  | operator o =>
    obtain rfl := Except.ok.inj h
    simp [enter_output]
  | other text => cases h

theorem output_isPrefix (s : Scan) (position : Nat) (ts : List Term) :
    s.output.toList <+: (s.run position ts).terms := by
  induction ts generalizing s position with
  | nil => simp [run, finish, emit]
  | cons t ts ih =>
    rw [run]
    cases hstep : s.step t with
    | ok s' => exact (step_output hstep).trans (ih s' (position + 1))
    | error f => exact List.prefix_refl _

end Scan

namespace Calculation

theorem ofInfix_of_fault {us : List Term} {ty : Typing} {t : Term} {f : Fault}
    (h : Admitted {} us ty) (hf : t.fault? ty = some f) (ts : List Term) :
    ofInfix (us ++ t :: ts) = ⟨emitted [] us, ty, some (us.length, f)⟩ := by
  have hrun := Scan.run_append (s := {}) 0 h (t :: ts)
  rw [ofInfix, hrun, Scan.run, Scan.step_of_fault hf]
  simp [Scan.abort]

theorem emitted_isPrefix {us : List Term} {ty : Typing} (h : Admitted {} us ty) (ts : List Term) :
    emitted [] us <+: (ofInfix (us ++ ts)).terms := by
  have hrun := Scan.run_append (s := {}) 0 h ts
  have hprefix := Scan.output_isPrefix ⟨(emitted [] us).toArray, waiting [] us, ty⟩ us.length ts
  rw [ofInfix, hrun]
  simpa using hprefix

theorem ofInfix_of_faultAt {ts : List Term} {p : Nat} {f : Fault} (hp : faultAt? ts p = some f)
    (hfirst : ∀ q < p, faultAt? ts q = none) (us : List Term) :
    ofInfix (ts.take (p + 1) ++ us) =
      ⟨emitted [] (ts.take p), typingAfter (ts.take p), some (p, f)⟩ := by
  obtain ⟨t, ht, hf⟩ := Option.bind_eq_some_iff.mp hp
  obtain ⟨hlt, -⟩ := List.getElem?_eq_some_iff.mp ht
  have hlength : (ts.take p).length = p := List.length_take_of_le (Nat.le_of_lt hlt)
  rw [List.take_add_one, ht, Option.toList_some, List.append_assoc, List.singleton_append,
    ofInfix_of_fault (admitted_take hfirst) hf, hlength]

/-- Terms without a fault are a valid calculation, and nothing is logged. The first fault makes the
calculation invalid, whatever comes behind it, and is the one thing logged, with its position and
with what is wrong. The type is then that of the operands before it. The terms hold those operands
and neither a parenthesis nor foreign text, and every list that starts with the terms before the
fault begins with them once it is put in order. -/
theorem ofInfix_first_fault (ts : List Term) :
    ((∀ p, faultAt? ts p = none) → (ofInfix ts).isValid ∧ (ofInfix ts).log = []) ∧
    ∀ p f, faultAt? ts p = some f → (∀ q < p, faultAt? ts q = none) →
      let c := ofInfix ts
      ¬c.isValid ∧ (∀ us, ofInfix (ts.take (p + 1) ++ us) = c) ∧
      (∀ x, ts[p]? = some (.operand x) → ∃ expected found : Dimension,
        c.typing.resultType? = some (.dimension expected) ∧ x.dimension? = some found ∧
        found ≠ expected ∧
        c.log = [⟨.debug, s!"[CALC] type mismatch at term {p}: expected {expected.name}, "
          ++ s!"found {found.name}"⟩]) ∧
      (∀ text, ts[p]? = some (.other text) →
        c.log = [⟨.debug, s!"[CALC] unexpected term {quoted text} at position {p}"⟩]) ∧
      c.typing = typingAfter (ts.take p) ∧ operands c.terms = operands (ts.take p) ∧
      (∀ u ∈ c.terms, u.isForeign = false ∧ u.isOpening = false ∧ u.isClosing = false) ∧
      ∀ us, c.terms <+: (ofInfix (ts.take p ++ us)).terms := by
  constructor
  · intro hnone
    have hadmitted : Admitted {} (ts.take ts.length) _ := admitted_take fun q _ => hnone q
    rw [List.take_length] at hadmitted
    rw [ofInfix_of_admitted hadmitted]
    exact ⟨rfl, rfl⟩
  · intro p f hp hfirst c
    have hcut := ofInfix_of_faultAt hp hfirst
    have hc : c = ⟨emitted [] (ts.take p), typingAfter (ts.take p), some (p, f)⟩ := by
      rw [← hcut (ts.drop (p + 1)), List.take_append_drop]
    have hlog : c.log = [f.record p] := by
      rw [hc]
      rfl
    obtain ⟨t, ht, hf⟩ := Option.bind_eq_some_iff.mp hp
    refine ⟨?_, ?_, ?_, ?_, ?_, ?_, ?_, ?_⟩
    · simp [hc, isValid]
    · intro us
      rw [hcut, hc]
    · intro x hx
      obtain rfl := Option.some.inj (ht.symm.trans hx)
      obtain ⟨m, hconsider, rfl⟩ := Term.fault?_operand_iff.mp hf
      obtain ⟨hexpected, hfound, hne⟩ := Typing.consider_error hconsider
      obtain ⟨expected, hdimension⟩ := Typing.measured_foldl_next _ _ hexpected
      obtain ⟨_, found⟩ := m
      obtain rfl := hdimension
      refine ⟨expected, found, ?_, hfound, fun he => hne (congrArg _ he), hlog⟩
      rw [hc]
      exact hexpected
    · intro text htext
      obtain rfl := Option.some.inj (ht.symm.trans htext)
      obtain rfl := Option.some.inj hf
      exact hlog
    · rw [hc]
    · rw [hc]
      exact operands_emitted [] _
    · rw [hc]
      exact fun u hu => ⟨emitted_not_foreign [] _ u hu, emitted_not_paren _ u hu⟩
    · intro us
      rw [hc]
      exact emitted_isPrefix (admitted_take hfirst) us

/-- An angle meets a length while three operators wait; the foreign text behind it goes unseen. -/
theorem ofInfix_first_fault_pending :
    let ts : List Term := [.operand (.dimension 3 .pixels), .operator .add, .operator .openParen,
      .operand (.integer 2), .operator .multiply, .operand (.dimension 3 .degrees), .other "auto"]
    let c := ofInfix ts
    faultAt? ts 5 = some (.mismatch ⟨.dimension .length, .angle⟩) ∧
      (∀ q < 5, faultAt? ts q = none) ∧
      ¬c.isValid ∧ (∀ us, ofInfix (ts.take 6 ++ us) = c) ∧
      c.log = [⟨.debug, "[CALC] type mismatch at term 5: expected Length, found Angle"⟩] ∧
      c.typing = ⟨some (.dimension .length), true⟩ ∧
      c.terms = [.operand (.dimension 3 .pixels), .operand (.integer 2)] ∧
      ∀ us, c.terms <+: (ofInfix (ts.take 5 ++ us)).terms := by
  intro ts c
  have hp : faultAt? ts 5 = some (.mismatch ⟨.dimension .length, .angle⟩) := by decide
  have hfirst : ∀ q < 5, faultAt? ts q = none := by decide
  obtain ⟨hinvalid, hcut, hmismatch, -, htyping, -, -, hprefix⟩ :=
    (ofInfix_first_fault ts).2 5 _ hp hfirst
  obtain ⟨expected, found, hexpected, hfound, -, hlog⟩ := hmismatch _ rfl
  obtain rfl := ValueType.dimension.inj (Option.some.inj hexpected)
  obtain rfl := Option.some.inj hfound
  exact ⟨hp, hfirst, hinvalid, hcut, hlog, htyping, rfl, hprefix⟩

end Calculation

end CssMath
