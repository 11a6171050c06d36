import CssMath.Proofs.Accounting
import CssMath.Proofs.Grammar
import CssMath.Proofs.ReadOutcome
import Mathlib.Data.List.Chain

/-! Sentences of the infix grammar. Balanced terms are a sentence if each of them stands where the
grammar expects it. Their postfix terms tell this by the number of values they leave, except that a
missing operator can make up for one that stands where an atom is expected. -/
namespace CssMath
universe u
variable {α σ : Type u}

def IsSentence (ts : List Term) : Prop := ∃ e : Expr .sum, e.terms = ts

namespace Term

def startsAtom : Term → Bool
  | operand _ => true
  | operator o => o = .openParen
  | other _ => false

def endsAtom : Term → Bool
  | operand _ => true
  | operator o => o = .closeParen
  | other _ => false

theorem startsAtom_of_isBinary {o : Operator} (h : o.isBinary) : (operator o).startsAtom = false :=
  decide_eq_false (Operator.isBinary_iff.mp h).1

theorem endsAtom_of_isBinary {o : Operator} (h : o.isBinary) : (operator o).endsAtom = false :=
  decide_eq_false (Operator.isBinary_iff.mp h).2

/-- Whether the grammar expects the term, `behind` an atom or where one is due. -/
def fits (behind : Bool) : Term → Bool
  | operand _ => !behind
  | operator o => if o = .openParen then !behind else behind
  | other _ => false

end Term

def Apart (ts : List Term) : Prop :=
  ts.IsChain fun t u => ¬(t.endsAtom ∧ u.startsAtom)

instance : DecidablePred Apart := fun ts => inferInstanceAs (Decidable (ts.IsChain _))

/-- Each term stands where the grammar expects it, and the last one ends an atom. -/
def placed (behind : Bool) : List Term → Bool
  | [] => behind
  | t :: ts => t.fits behind && placed t.endsAtom ts

theorem Operator.additive_or_multiplicative {o : Operator} (h : o.isBinary) :
    o.Additive ∨ o.Multiplicative := by
  cases o with
  | add => exact .inl (.inl rfl)
  | subtract => exact .inl (.inr rfl)
  | multiply => exact .inr (.inl rfl)
  | divide => exact .inr (.inr rfl)
  | openParen => cases h
  | closeParen => cases h

namespace IsSentence
variable {ts us : List Term} {o : Operator}

theorem atom (a : Expr .atom) : IsSentence a.terms := ⟨.alone (.single a), rfl⟩

theorem join (h : IsSentence ts) (ho : o.isBinary) (a : Expr .atom) :
    IsSentence (ts ++ .operator o :: a.terms) := by
  obtain ⟨e, rfl⟩ := h
  cases o.additive_or_multiplicative ho with
  | inl hadd => exact ⟨.plus e o hadd (.single a), rfl⟩
  | inr hmul =>
    cases e with
    | alone p => exact ⟨.alone (.scale p o hmul a), rfl⟩
    | plus e o' ho' p => exact ⟨.plus e o' ho' (.scale p o hmul a), by simp [Expr.terms]⟩

end IsSentence

def Begun : Bool → List Term → Prop
  | true, us => IsSentence us
  | false, us => us = [] ∨ ∃ vs o, IsSentence vs ∧ o.isBinary ∧ us = vs ++ [.operator o]

theorem Begun.atom {us : List Term} (h : Begun false us) (a : Expr .atom) :
    Begun true (us ++ a.terms) := by
  cases h with
  | inl hnil =>
    subst hnil
    exact IsSentence.atom a
  | inr hjoin =>
    obtain ⟨vs, o, hvs, ho, rfl⟩ := hjoin
    rw [List.append_assoc, List.singleton_append]
    exact hvs.join ho a

/-- What stands before the group that is read, with the sums around it, the innermost first. -/
def opened : List (List Term) → List Term
  | [] => []
  | us :: frames => opened frames ++ us ++ [.operator .openParen]

/-- Balanced terms that all stand where they are expected are a sentence. The induction carries the
sums that have been begun around the term; a closing parenthesis makes an atom of the innermost. -/
theorem isSentence_of_placed {frames : List (List Term)} {behind : Bool} {us ts : List Term}
    (hframes : ∀ vs ∈ frames, Begun false vs) (hus : Begun behind us)
    (hplaced : placed behind ts = true) (hnest : nesting frames.length ts = some 0) :
    IsSentence (opened frames ++ us ++ ts) := by
  induction ts generalizing frames behind us with
  | nil =>
    obtain rfl := List.length_eq_zero_iff.mp (Option.some.inj hnest)
    obtain rfl : behind = true := hplaced
    rw [opened, List.nil_append, List.append_nil]
    exact hus
  | cons t ts ih =>
    obtain ⟨hfit, hrest⟩ := Bool.and_eq_true_iff.mp hplaced
    cases t with
    | operand x =>
      obtain rfl : behind = false := by simpa [Term.fits] using hfit
      have hbegun : Begun true (us ++ [.operand x]) := hus.atom (.operand x)
      have h := ih hframes hbegun hrest hnest
      simpa using h
    | other text => cases hfit
    | operator o =>
      by_cases hopen : o = .openParen
      · subst hopen
        obtain rfl : behind = false := by simpa [Term.fits] using hfit
        have hinner : ∀ vs ∈ us :: frames, Begun false vs := List.forall_mem_cons.mpr ⟨hus, hframes⟩
        have hbegun : Begun false [] := Or.inl rfl
        have h := ih hinner hbegun hrest hnest
        simpa [opened] using h
      · obtain rfl : behind = true := by simpa [Term.fits, hopen] using hfit
        by_cases hclose : o = .closeParen
        · subst hclose
          cases frames with
          | nil => cases hnest
          | cons vs frames =>
            obtain ⟨hvs, houter⟩ := List.forall_mem_cons.mp hframes
            obtain ⟨e, rfl⟩ : IsSentence us := hus
            have hbegun : Begun true (vs ++ group e.terms) := hvs.atom (.paren e)
            have h := ih houter hbegun hrest hnest
            simpa [opened, group] using h
        · have ho : o.isBinary := Operator.isBinary_iff.mpr ⟨hopen, hclose⟩
          have hbegun : Begun false (us ++ [.operator o]) := Or.inr ⟨us, o, hus, ho, rfl⟩
          rw [Term.endsAtom_of_isBinary ho] at hrest
          rw [nesting, Term.nest_of_isBinary ho, Option.bind_some] at hnest
          have h := ih hframes hbegun hrest hnest
          simpa using h

theorem Term.endsAtom_eq {t : Term} {behind : Bool} (hnative : t.isForeign = false)
    (hapart : behind = true → t.startsAtom = false) :
    (operands [t]).length + behind.toNat + (!t.fits behind).toNat =
      binaries [t] + t.endsAtom.toNat := by
  cases t with
  | operand x =>
    cases behind with
    | false => rfl
    | true => cases hapart rfl
  | operator o =>
    cases behind with
    | false => cases o <;> rfl
    | true =>
      by_cases ho : o = .openParen
      · subst ho
        cases hapart rfl
      · cases o <;> first | rfl | exact absurd rfl ho
  | other text => cases hnative

/-- Terms that stand apart have at most one operand more than binary operators, and with one more
they all stand where they are expected. -/
theorem placed_of_apart {behind : Bool} {ts : List Term} (hnative : ∀ t ∈ ts, t.isForeign = false)
    (hapart : Apart ts) (hhead : behind = true → ∀ u ∈ ts.head?, u.startsAtom = false) :
    (operands ts).length + behind.toNat ≤ binaries ts + 1 ∧
      ((operands ts).length + behind.toNat = binaries ts + 1 → placed behind ts = true) := by
  induction ts generalizing behind with
  | nil => cases behind <;> simp [binaries, placed]
  | cons t ts ih =>
    obtain ⟨ht, hts⟩ := List.forall_mem_cons.mp hnative
    obtain ⟨hnext, hrest⟩ := List.isChain_cons.mp hapart
    have hbehind : t.endsAtom = true → ∀ u ∈ ts.head?, u.startsAtom = false := by
      intro hend u hu
      simpa [hend] using hnext u hu
    have hstep := Term.endsAtom_eq ht fun h => hhead h t rfl
    obtain ⟨hle, hplaced⟩ := ih hts hrest hbehind
    have hoperands :
        (operands (t :: ts)).length = (operands [t]).length + (operands ts).length := by
      rw [← List.length_append, ← operands_append, List.singleton_append]
    have hbinaries : binaries (t :: ts) = binaries [t] + binaries ts := binaries_append [t] ts
    refine ⟨by omega, fun heq => ?_⟩
    -- The bound on the rest leaves no room for a term out of place.
    have hfit : (!t.fits behind) = false := Bool.toNat_eq_zero.mp (by omega)
    rw [placed, hplaced (by omega), Bool.and_true]
    simpa using hfit

namespace Apart
variable {ts us : List Term} {t : Term}

theorem cons (hend : t.endsAtom = false) (hts : Apart ts) : Apart (t :: ts) :=
  List.isChain_cons.mpr ⟨fun u _ => by simp [hend], hts⟩

theorem append (hts : Apart ts) (hus : Apart us) (hhead : ∀ u ∈ us.head?, u.startsAtom = false) :
    Apart (ts ++ us) := by
  refine List.isChain_append.mpr ⟨hts, hus, fun t _ u hu => ?_⟩
  simp [hhead u hu]

theorem join (hts : Apart ts) (hus : Apart us) {o : Operator} (ho : o.isBinary) :
    Apart (ts ++ .operator o :: us) := by
  have hbehind : Apart (.operator o :: us) := hus.cons (Term.endsAtom_of_isBinary ho)
  exact hts.append hbehind fun u hu => Option.some.inj hu ▸ Term.startsAtom_of_isBinary ho

theorem group (hts : Apart ts) : Apart (group ts) := by
  have hclosed : Apart (ts ++ [.operator .closeParen]) :=
    hts.append (List.isChain_singleton _) fun u hu => Option.some.inj hu ▸ rfl
  exact hclosed.cons rfl

end Apart

theorem Expr.apart {l : Level} (e : Expr l) : Apart e.terms := by
  induction e with
  | operand x => exact List.isChain_singleton _
  | paren e ih => exact ih.group
  | single a ih => exact ih
  | scale p o ho a ihp iha =>
    have hl : Level.product.Holds o := ho
    exact ihp.join iha hl.isBinary
  | alone p ih => exact ih
  | plus e o ho p ihe ihp =>
    have hl : Level.sum.Holds o := .inl ho
    exact ihe.join ihp hl.isBinary

namespace Calculation

theorem evaluate_of_isSentence {ts : List Term} (h : IsSentence ts) (hv : (ofInfix ts).isValid)
    (s : Strategy (StateM σ) α) (st : σ) :
    ∃ v, (((ofInfix ts).evaluate s).run st).1 = .ok v := by
  obtain ⟨e, rfl⟩ := h
  rw [evaluate_of_isValid hv, terms_ofInfix hv, e.arrange_terms, Strategy.replay_tree]
  exact ⟨_, rfl⟩

theorem isSentence_of_evaluate {ts : List Term} (hnest : nesting 0 ts = some 0)
    (hv : (ofInfix ts).isValid) (hapart : Apart ts) (s : Strategy (StateM σ) α) (st : σ) {v : α}
    (h : (((ofInfix ts).evaluate s).run st).1 = .ok v) : IsSentence ts := by
  obtain ⟨ty, hty⟩ := isValid_ofInfix_iff.mp hv
  obtain ⟨G, us, hsplit⟩ := Split.exists_of_native (arrange_not_foreign ts)
  rw [evaluate_of_isValid hv, terms_ofInfix hv] at h
  obtain ⟨rfl, hone⟩ := (hsplit.ok_iff s st).mp ⟨v, h⟩
  have hexcess : ((operands ts).length : Int) - binaries ts = 1 := by
    rw [← excess_arrange hnest, hsplit.excess_eq, hone]
    rfl
  have hfirst : false = true → ∀ u ∈ ts.head?, u.startsAtom = false := nofun
  obtain ⟨-, hplaced⟩ := placed_of_apart hty.native hapart hfirst
  rw [Bool.toNat_false, Nat.add_zero] at hplaced
  have hbegun : Begun false [] := Or.inl rfl
  have hframes : ∀ vs ∈ ([] : List (List Term)), Begun false vs := by simp
  exact isSentence_of_placed hframes hbegun (hplaced (by omega)) hnest

/-- A text whose calculation is valid. Its terms are a sentence exactly if they evaluate, under any
strategy, and stand apart; so all that evaluates is a sentence exactly if nothing evaluates but what
stands apart. -/
theorem isSentence_iff {text : String} {ts : List Term} (h : Css.calcTerms text = .ok ts)
    (hv : (ofInfix ts).isValid) (s : Strategy (StateM σ) α) (st : σ) :
    let evaluates := ∃ v, (((ofInfix ts).evaluate s).run st).1 = .ok v
    ofText text = .ok (ofInfix ts) ∧ (IsSentence ts ↔ evaluates ∧ Apart ts) ∧
      ((evaluates → IsSentence ts) ↔ (evaluates → Apart ts)) := by
  intro evaluates
  have hiff : IsSentence ts ↔ evaluates ∧ Apart ts := by
    constructor
    · intro hsentence
      refine ⟨evaluate_of_isSentence hsentence hv s st, ?_⟩
      obtain ⟨e, rfl⟩ := hsentence
      exact e.apart
    · intro hboth
      obtain ⟨⟨v, hok⟩, hapart⟩ := hboth
      exact isSentence_of_evaluate (Css.nesting_calcTerms h) hv hapart s st hok
  refine ⟨by rw [ofText, h]; rfl, hiff, fun hsen hev => (hiff.mp (hsen hev)).2, ?_⟩
  exact fun hap hev => hiff.mpr ⟨hev, hap hev⟩

theorem isSentence_iff_product :
    let ts : List Term := .operand (.integer 2) :: .operator .multiply ::
      group [.operand (.integer 1), .operator .add, .operand (.integer 3)]
    Css.calcTerms "calc(2 * (1 + 3))" = .ok ts ∧ (ofInfix ts).isValid ∧ IsSentence ts := by
  intro ts
  have hlexemes : Css.lexemes "calc(2 * (1 + 3))".toList =
      [.opening (.function "calc"), .token (.number ⟨false, [2], [], none⟩), .token (.delim '*'),
        .opening (.bracket .round), .token (.number ⟨false, [1], [], none⟩), .token (.delim '+'),
        .token (.number ⟨false, [3], [], none⟩), .token (.closing .round),
        .token (.closing .round)] := by decide +kernel
  have hread : Css.calcTerms "calc(2 * (1 + 3))" = .ok ts :=
    Css.calcTerms_of_nested hlexemes (.token nofun (.token nofun
      (.block (.token nofun (.token nofun (.token nofun .closed))) .closed))) rfl
  have hv : (ofInfix ts).isValid := rfl
  let s : Strategy (StateM Unit) Nat := ⟨fun _ => pure 1, fun left right _ => pure (left + right)⟩
  obtain ⟨-, hiff, -⟩ := isSentence_iff hread hv s ()
  exact ⟨hread, hv, hiff.mpr ⟨⟨3, rfl⟩, by decide⟩⟩

/-- The operator stands where no operator can, but the two operands side by side leave it both of
its values: `1 2 +` evaluates as `1 + 2` does. -/
theorem evaluate_adjacent :
    let ts : List Term := [.operand (.integer 1), .operand (.integer 2), .operator .add]
    Css.calcTerms "calc(1 2 +)" = .ok ts ∧ ofText "calc(1 2 +)" = .ok (ofInfix ts) ∧
      (ofInfix ts).isValid ∧
      ((ofInfix ts).evaluate Strategy.tree).run =
        .ok (.node (.leaf (.integer 1)) (.leaf (.integer 2)) .add) ∧ ¬IsSentence ts := by
  intro ts
  have hlexemes : Css.lexemes "calc(1 2 +)".toList =
      [.opening (.function "calc"), .token (.number ⟨false, [1], [], none⟩),
        .token (.number ⟨false, [2], [], none⟩), .token (.delim '+'),
        .token (.closing .round)] := by decide +kernel
  have hread : Css.calcTerms "calc(1 2 +)" = .ok ts :=
    Css.calcTerms_of_nested hlexemes (.token nofun (.token nofun (.token nofun .closed))) rfl
  refine ⟨hread, by rw [ofText, hread]; rfl, rfl, rfl, fun h => ?_⟩
  obtain ⟨e, he⟩ := h
  have hapart : ¬Apart ts := by decide
  exact hapart (he ▸ e.apart)

end Calculation

end CssMath
