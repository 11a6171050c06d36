import CssMath.Calculation

/-! Postfix order apart from types. What a scan emits and what it leaves waiting depends on the
operators that wait and on no operand's type, so the order of a calculation without a fault is a
function of its infix terms alone. -/
namespace CssMath

def Term.operand? : Term → Option Operand
  | .operand x => some x
  | _ => none

def Term.isOperator : Term → Bool
  | .operator _ => true
  | _ => false

def Term.isForeign : Term → Bool
  | .other _ => true
  | _ => false

def operands (ts : List Term) : List Operand := ts.filterMap Term.operand?

/-- Whether `top` is emitted when `o` is read. -/
def Operator.expels : Operator → Operator → Bool
  | .closeParen, top => top ≠ .openParen
  | o, top => o.yieldsTo top

namespace Term

def emits (pending : List Operator) : Term → List Term
  | operand x => [operand x]
  | operator o => (pending.takeWhile o.expels).map operator
  | other _ => []

def leaves (pending : List Operator) : Term → List Operator
  | operator .closeParen => (pending.dropWhile Operator.closeParen.expels).tail
  | operator o => o :: pending.dropWhile o.expels
  | _ => pending

theorem emits_openParen (P : List Operator) : (operator .openParen).emits P = [] := by
  cases P <;> rfl

theorem leaves_openParen (P : List Operator) :
    (operator .openParen).leaves P = .openParen :: P := by
  cases P <;> rfl

end Term

def waiting (pending : List Operator) : List Term → List Operator
  | [] => pending
  | t :: ts => waiting (t.leaves pending) ts

def emitted (pending : List Operator) : List Term → List Term
  | [] => []
  | t :: ts => t.emits pending ++ emitted (t.leaves pending) ts

/-- What is emitted, and what waits at the end behind it. -/
def drained (pending : List Operator) (ts : List Term) : List Term :=
  emitted pending ts ++ (waiting pending ts).map .operator

def arrange (ts : List Term) : List Term := drained [] ts

theorem waiting_append (P : List Operator) (ts us : List Term) :
    waiting P (ts ++ us) = waiting (waiting P ts) us := by
  induction ts generalizing P with
  | nil => rfl
  | cons t ts ih => exact ih (t.leaves P)

theorem emitted_append (P : List Operator) (ts us : List Term) :
    emitted P (ts ++ us) = emitted P ts ++ emitted (waiting P ts) us := by
  induction ts generalizing P with
  | nil => rfl
  | cons t ts ih => simp [emitted, waiting, ih]

theorem drained_cons (P : List Operator) (t : Term) (ts : List Term) :
    drained P (t :: ts) = t.emits P ++ drained (t.leaves P) ts := List.append_assoc _ _ _

theorem drained_append (P : List Operator) (ts us : List Term) :
    drained P (ts ++ us) = emitted P ts ++ drained (waiting P ts) us := by
  rw [drained, emitted_append, waiting_append, List.append_assoc, drained]

theorem arrange_append (ts us : List Term) :
    arrange (ts ++ us) = emitted [] ts ++ drained (waiting [] ts) us := drained_append [] ts us

@[simp] theorem operands_nil : operands [] = [] := rfl

@[simp] theorem operands_operand (x : Operand) (ts : List Term) :
    operands (.operand x :: ts) = x :: operands ts := rfl

@[simp] theorem operands_operator (o : Operator) (ts : List Term) :
    operands (.operator o :: ts) = operands ts := rfl

@[simp] theorem operands_append (ts us : List Term) :
    operands (ts ++ us) = operands ts ++ operands us := List.filterMap_append

@[simp] theorem operands_operators (os : List Operator) :
    operands (os.map Term.operator) = [] := by
  simp [operands, Term.operand?]

@[simp] theorem operands_map (xs : List Operand) : operands (xs.map .operand) = xs := by
  induction xs with
  | nil => rfl
  | cons x xs ih => rw [List.map_cons, operands_operand, ih]

theorem operands_emits (P : List Operator) (t : Term) :
    operands (t.emits P) = operands [t] := by
  cases t with
  | operand x => rfl
  | operator o => exact operands_operators _
  | other text => rfl

theorem operands_emitted (P : List Operator) (ts : List Term) :
    operands (emitted P ts) = operands ts := by
  induction ts generalizing P with
  | nil => rfl
  | cons t ts ih =>
    rw [emitted, operands_append, operands_emits, ih, ← operands_append]
    rfl

theorem operands_arrange (ts : List Term) : operands (arrange ts) = operands ts := by
  simp [arrange, drained, operands_emitted]

theorem emits_not_foreign (P : List Operator) (t u : Term) (hu : u ∈ t.emits P) :
    u.isForeign = false := by
  cases t with
  | operand x => simp_all [Term.emits, Term.isForeign]
  | operator o =>
    obtain ⟨o', -, rfl⟩ := List.mem_map.mp hu
    rfl
  | other text => simp [Term.emits] at hu

theorem emitted_not_foreign (P : List Operator) (ts : List Term) :
    ∀ u ∈ emitted P ts, u.isForeign = false := by
  induction ts generalizing P with
  | nil => simp [emitted]
  | cons t ts ih =>
    intro u hu
    cases List.mem_append.mp hu with
    | inl h => exact emits_not_foreign P t u h
    | inr h => exact ih _ u h

theorem arrange_not_foreign (ts : List Term) : ∀ u ∈ arrange ts, u.isForeign = false := by
  intro u hu
  cases List.mem_append.mp hu with
  | inl h => exact emitted_not_foreign [] ts u h
  | inr h =>
    obtain ⟨o, -, rfl⟩ := List.mem_map.mp h
    rfl

/-- The terms bring the typing from `start` to `ty`: none is foreign, and no operand is refused. -/
structure Admitted (start : Typing) (ts : List Term) (ty : Typing) : Prop where
  native : ∀ t ∈ ts, t.isForeign = false
  agree : (operands ts).foldlM Typing.consider start = .ok ty

namespace Admitted
variable {start ty : Typing} {ts : List Term}

@[simp] theorem nil_iff : Admitted start [] ty ↔ start = ty :=
  ⟨fun h => Except.ok.inj h.agree, fun h => ⟨by simp, congrArg Except.ok h⟩⟩

theorem operand_iff {x : Operand} :
    Admitted start (.operand x :: ts) ty ↔
      ∃ mid, start.consider x = .ok mid ∧ Admitted mid ts ty := by
  constructor
  · intro h
    have hrest := (List.forall_mem_cons.mp h.native).2
    have hagree := h.agree
    cases hx : start.consider x with
    | error m => simp [hx, bind, Except.bind] at hagree
    | ok mid => exact ⟨mid, rfl, hrest, by simpa [hx, bind, Except.bind] using hagree⟩
  · intro h
    obtain ⟨mid, hx, hts⟩ := h
    have hagree := hts.agree
    exact ⟨List.forall_mem_cons.mpr ⟨rfl, hts.native⟩, by simp [hx, bind, Except.bind, hagree]⟩

theorem operator_iff {o : Operator} :
    Admitted start (.operator o :: ts) ty ↔ Admitted start ts ty :=
  ⟨fun h => ⟨(List.forall_mem_cons.mp h.native).2, h.agree⟩,
    fun h => ⟨List.forall_mem_cons.mpr ⟨rfl, h.native⟩, h.agree⟩⟩

theorem not_other {text : String} : ¬Admitted start (.other text :: ts) ty :=
  fun h => by simpa [Term.isForeign] using h.native _ (List.mem_cons_self)

end Admitted

namespace Scan

theorem enter_pending (s : Scan) (o : Operator) :
    (s.enter o).pending = (Term.operator o).leaves s.pending := by
  cases o with
  | openParen => exact (Term.leaves_openParen s.pending).symm
  | _ => rfl

theorem enter_output (s : Scan) (o : Operator) :
    (s.enter o).output = s.output ++ (Term.operator o).emits s.pending := by
  cases o with
  | openParen => simp [enter, Term.emits_openParen]
  | _ => rfl

theorem enter_typing (s : Scan) (o : Operator) : (s.enter o).typing = s.typing := by
  cases o <;> rfl

/-- A scan goes on behind admitted terms with what they have emitted and left waiting. -/
theorem run_append {us : List Term} {s : Scan} {ty : Typing} (position : Nat)
    (h : Admitted s.typing us ty) (ts : List Term) :
    s.run position (us ++ ts) =
      (⟨s.output ++ emitted s.pending us, waiting s.pending us, ty⟩ : Scan).run
        (position + us.length) ts := by
  induction us generalizing s position with
  | nil =>
    obtain rfl := Admitted.nil_iff.mp h
    simp [emitted, waiting]
  | cons u us ih =>
    have hlength : position + (u :: us).length = position + 1 + us.length := by
      rw [List.length_cons, Nat.add_comm us.length, Nat.add_assoc]
    rw [hlength]
    cases u with
    | operand x =>
      obtain ⟨mid, hx, hus⟩ := Admitted.operand_iff.mp h
      simp [run, step, hx, ih (s := ⟨s.output.push (.operand x), s.pending, mid⟩) _ hus,
        emitted, waiting, Term.emits, Term.leaves]
    | operator o =>
      have hus := Admitted.operator_iff.mp h
      rw [← enter_typing s o] at hus
      have houtput : (s.enter o).output ++ emitted (s.enter o).pending us =
          s.output ++ emitted s.pending (.operator o :: us) :=
        Array.ext' (by simp [enter_output, enter_pending, emitted])
      have hstep : s.run position (.operator o :: us ++ ts) =
          (s.enter o).run (position + 1) (us ++ ts) := rfl
      rw [hstep, ih _ hus, houtput, enter_pending, waiting]
    | other text => exact absurd h Admitted.not_other

theorem run_of_admitted {ts : List Term} {s : Scan} {ty : Typing} (position : Nat)
    (h : Admitted s.typing ts ty) :
    s.run position ts =
      ⟨s.output.toList ++ emitted s.pending ts ++ (waiting s.pending ts).map .operator, ty,
        none⟩ := by
  have hrun := run_append position h []
  rw [List.append_nil] at hrun
  rw [hrun]
  simp [run, finish, emit]

theorem admitted_of_isValid {ts : List Term} {s : Scan} {position : Nat}
    (h : (s.run position ts).isValid) : ∃ ty, Admitted s.typing ts ty := by
  induction ts generalizing s position with
  | nil => exact ⟨s.typing, Admitted.nil_iff.mpr rfl⟩
  | cons t ts ih =>
    cases t with
    | operand x =>
      cases hx : s.typing.consider x with
      | error m => simp [run, step, hx, abort, Calculation.isValid] at h
      | ok mid =>
        simp only [run, step, hx] at h
        obtain ⟨ty, hts⟩ := ih h
        exact ⟨ty, Admitted.operand_iff.mpr ⟨mid, hx, hts⟩⟩
    | operator o =>
      obtain ⟨ty, hts⟩ := ih (s := s.enter o) h
      rw [enter_typing] at hts
      exact ⟨ty, Admitted.operator_iff.mpr hts⟩
    | other text => simp [run, step, abort, Calculation.isValid] at h

end Scan

namespace Calculation

theorem ofInfix_of_admitted {ts : List Term} {ty : Typing} (h : Admitted {} ts ty) :
    ofInfix ts = ⟨arrange ts, ty, none⟩ := Scan.run_of_admitted 0 h

theorem isValid_ofInfix_iff {ts : List Term} :
    (ofInfix ts).isValid ↔ ∃ ty, Admitted {} ts ty := by
  constructor
  · exact Scan.admitted_of_isValid
  · intro h
    obtain ⟨ty, hty⟩ := h
    rw [ofInfix_of_admitted hty]
    rfl

theorem terms_ofInfix {ts : List Term} (h : (ofInfix ts).isValid) :
    (ofInfix ts).terms = arrange ts := by
  obtain ⟨ty, hty⟩ := isValid_ofInfix_iff.mp h
  rw [ofInfix_of_admitted hty]

end Calculation

end CssMath
