import CssMath.Proofs.Tree

/-! How an evaluation ends. The terms alone decide between a value and each of the errors, whatever
the strategy; the strategy is called for the terms before the end, in their order, and for no
other. -/
namespace CssMath
universe u v w
variable {α σ : Type u}

/-- Why no value comes out of `n` values at `position`, with the terms `us` still to come. -/
def shortfall (n position : Nat) : List Term → Option EvalError
  | _ :: _ => some (.stackUnderflow position)
  | [] =>
    match n with
    | 0 => some .empty
    | 1 => none
    | n => some (.leftoverOperands n)

theorem shortfall_eq_underflow_iff {n position p : Nat} {us : List Term} :
    shortfall n position us = some (.stackUnderflow p) ↔ us ≠ [] ∧ p = position := by
  match us, n with
  | _ :: _, n => simp [shortfall, eq_comm]
  | [], 0 => simp [shortfall]
  | [], 1 => simp [shortfall]
  | [], n + 2 => simp [shortfall]

theorem shortfall_ne_invalid {n position : Nat} {us : List Term} :
    shortfall n position us ≠ some .invalid := by
  match us, n with
  | _ :: _, n => simp [shortfall]
  | [], 0 => simp [shortfall]
  | [], 1 => simp [shortfall]
  | [], n + 2 => simp [shortfall]

theorem shortfall_nil_eq_empty_iff {n position : Nat} :
    shortfall n position [] = some .empty ↔ n = 0 := by
  match n with
  | 0 => simp [shortfall]
  | 1 => simp [shortfall]
  | n + 2 => simp [shortfall]

theorem shortfall_nil_eq_leftover_iff {n position c : Nat} :
    shortfall n position [] = some (.leftoverOperands c) ↔ n = c ∧ 2 ≤ c := by
  match n with
  | 0 => simp [shortfall]; omega
  | 1 => simp [shortfall]; omega
  | n + 2 => simp [shortfall]; omega

theorem shortfall_eq_none_iff {n p : Nat} {us : List Term} :
    shortfall n p us = none ↔ us = [] ∧ n = 1 := by
  match us, n with
  | _ :: _, n => simp [shortfall]
  | [], 0 => simp [shortfall]
  | [], 1 => simp [shortfall]
  | [], n + 2 => simp [shortfall]

def halt (vs : List α) (position : Nat) : List Term → Except EvalError α
  | _ :: _ => .error (.stackUnderflow position)
  | [] =>
    match vs with
    | [] => .error .empty
    | [v] => .ok v
    | vs => .error (.leftoverOperands vs.length)

theorem halt_eq_error_iff {vs : List α} {position : Nat} {us : List Term} {e : EvalError} :
    halt vs position us = .error e ↔ shortfall vs.length position us = some e := by
  match us, vs with
  | _ :: _, vs => simp [halt, shortfall]
  | [], [] => simp [halt, shortfall]
  | [], [v] => simp [halt, shortfall]
  | [], _ :: _ :: vs => simp [halt, shortfall]

theorem halt_eq_ok_iff {vs : List α} {position : Nat} {us : List Term} {v : α} :
    halt vs position us = .ok v ↔ us = [] ∧ vs = [v] := by
  match us, vs with
  | _ :: _, vs => simp [halt]
  | [], [] => simp [halt]
  | [], [_] => simp [halt]
  | [], _ :: _ :: vs => simp [halt]

namespace Strategy
variable {m : Type u → Type v} [Monad m]

theorem replay_nil (s : Strategy m α) (vs : List α) (position : Nat) :
    s.replay vs position [] = pure (halt vs position []) := by
  match vs with
  | [] => rfl
  | [_] => rfl
  | _ :: _ :: _ => rfl

theorem replay_starved (s : Strategy m α) {vs : List α} (hvs : vs.length < 2) (position : Nat)
    (o : Operator) (ts : List Term) :
    s.replay vs position (.operator o :: ts) = pure (.error (.stackUnderflow position)) := by
  match vs with
  | [] => rfl
  | [_] => rfl
  | _ :: _ :: vs =>
    simp only [List.length_cons] at hvs
    omega

theorem replay_other (s : Strategy m α) (vs : List α) (position : Nat) (text : String)
    (ts : List Term) : s.replay vs position (.other text :: ts) = pure (.error .invalid) := by
  match vs with
  | [] => rfl
  | [_] => rfl
  | _ :: _ :: _ => rfl

theorem values_length (s : Strategy (StateM σ) α) (G : List Tree) (st : σ) :
    ((Tree.values s G).run st).1.length = G.length := by
  induction G with
  | nil => rfl
  | cons t G ih => exact congrArg (· + 1) ih

theorem values_length_run (s : Strategy Id α) (G : List Tree) :
    (Tree.values s G).run.length = G.length := by
  induction G with
  | nil => rfl
  | cons t G ih => exact congrArg (· + 1) ih

def recorded (s : Strategy (StateM σ) α) : Strategy (StateM (σ × List Term)) α where
  operand x := note (.operand x) (s.operand x)
  operator left right o := note (.operator o) (s.operator left right o)
where
  note (t : Term) (call : StateM σ α) : StateM (σ × List Term) α := fun (st, calls) =>
    let (v, st') := call.run st
    (v, st', calls ++ [t])

/-- The strategy `s'` does what `s` does, and writes into a log beside its state what `f` makes of
each term. -/
structure Logs {ε : Type} (s : Strategy (StateM σ) α) (s' : Strategy (StateM (σ × List ε)) α)
    (f : Term → Option ε) : Prop where
  operand : ∀ x st log, (s'.operand x).run (st, log) =
    (((s.operand x).run st).1, ((s.operand x).run st).2, log ++ [Term.operand x].filterMap f)
  operator : ∀ left right o st log, (s'.operator left right o).run (st, log) =
    (((s.operator left right o).run st).1, ((s.operator left right o).run st).2,
      log ++ [Term.operator o].filterMap f)

namespace Logs
variable {ε : Type} {s : Strategy (StateM σ) α} {s' : Strategy (StateM (σ × List ε)) α}
  {f : Term → Option ε}

theorem fold (h : s.Logs s' f) (t : Tree) (st : σ) (log : List ε) :
    (t.fold s').run (st, log) =
      (((t.fold s).run st).1, ((t.fold s).run st).2, log ++ t.postorder.filterMap f) := by
  induction t generalizing st log with
  | leaf x => exact h.operand x st log
  | node left right o ihl ihr =>
    simp only [Tree.fold, StateT.run_bind, ihl, ihr, Tree.postorder, List.filterMap_append,
      ← List.append_assoc]
    exact h.operator _ _ o _ _

theorem values (h : s.Logs s' f) (G : List Tree) (st : σ) (log : List ε) :
    (Tree.values s' G).run (st, log) =
      (((Tree.values s G).run st).1, ((Tree.values s G).run st).2,
        log ++ (Tree.listing G).filterMap f) := by
  induction G with
  | nil => exact congrArg (fun l => ([], st, l)) (List.append_nil log).symm
  | cons t G ih =>
    change (let p := (Tree.values s' G).run (st, log)
      let q := (t.fold s').run p.2
      (q.1 :: p.1, q.2)) = _
    simp only [ih, h.fold, Tree.listing, List.filterMap_append, List.append_assoc]
    rfl

end Logs

theorem recorded_logs (s : Strategy (StateM σ) α) : s.Logs s.recorded some :=
  ⟨fun _ _ _ => rfl, fun _ _ _ _ _ => rfl⟩

theorem fold_recorded (s : Strategy (StateM σ) α) (t : Tree) (st : σ) (calls : List Term) :
    (t.fold s.recorded).run (st, calls) =
      (((t.fold s).run st).1, ((t.fold s).run st).2, calls ++ t.postorder) := by
  rw [s.recorded_logs.fold, List.filterMap_some]

end Strategy

/-- Terms split at the first operator that lacks a value: before it the listing of a stack of trees,
from it on `us`. -/
structure Split (ts : List Term) (G : List Tree) (us : List Term) : Prop where
  eq : ts = Tree.listing G ++ us
  stop : us = [] ∨ ∃ o vs, us = .operator o :: vs ∧ G.length < 2
  fed : ∀ k < (Tree.listing G).length, ¬Starved ts k

namespace Split
variable {ts us : List Term} {G : List Tree}

theorem exists_of_native (hts : ∀ t ∈ ts, t.isForeign = false) : ∃ G us, Split ts G us := by
  obtain ⟨G, us, heq, hus, hk⟩ := Tree.exists_listing [] ts hts
  exact ⟨G, us, heq, hus, fun k hk' => hk k (Nat.zero_le k) hk'⟩

theorem replay_eq {m : Type u → Type v} [Monad m] [LawfulMonad m] (h : Split ts G us)
    (s : Strategy m α) :
    s.replay [] 0 ts = (halt · (Tree.listing G).length us) <$> Tree.values s G := by
  rw [h.eq, Strategy.replay_listing, Nat.zero_add, map_eq_pure_bind]
  cases h.stop with
  | inl hnil =>
    subst hnil
    exact bind_congr fun vs => s.replay_nil vs _
  | inr hstarved =>
    -- At most one tree stands before the operator, so the number of values is known.
    obtain ⟨o, ts, rfl, hG⟩ := hstarved
    match G with
    | [] => simp [Tree.values, s.replay_starved, halt]
    | [t] => simp [Tree.values, s.replay_starved, halt]
    | _ :: _ :: G =>
      simp only [List.length_cons] at hG
      omega

theorem replay_run (h : Split ts G us) (s : Strategy (StateM σ) α) (st : σ) :
    (s.replay [] 0 ts).run st =
      (halt ((Tree.values s G).run st).1 (Tree.listing G).length us,
        ((Tree.values s G).run st).2) := by
  rw [h.replay_eq]
  rfl

theorem error_iff (h : Split ts G us) (s : Strategy (StateM σ) α) (st : σ) {e : EvalError} :
    ((s.replay [] 0 ts).run st).1 = .error e ↔
      shortfall G.length (Tree.listing G).length us = some e := by
  rw [h.replay_run, halt_eq_error_iff, s.values_length]

theorem replay_logs {ε : Type} {s : Strategy (StateM σ) α} {s' : Strategy (StateM (σ × List ε)) α}
    {f : Term → Option ε} (h : Split ts G us) (hs : s.Logs s' f) (st : σ) :
    (s'.replay [] 0 ts).run (st, []) =
      (((s.replay [] 0 ts).run st).1, ((s.replay [] 0 ts).run st).2,
        (Tree.listing G).filterMap f) := by
  rw [h.replay_run, h.replay_run, hs.values]
  rfl

theorem replay_recorded (h : Split ts G us) (s : Strategy (StateM σ) α) (st : σ) :
    (s.recorded.replay [] 0 ts).run (st, []) =
      (((s.replay [] 0 ts).run st).1, ((s.replay [] 0 ts).run st).2, Tree.listing G) := by
  rw [h.replay_logs s.recorded_logs, List.filterMap_some]

theorem starved_of_ne_nil (h : Split ts G us) (hus : us ≠ []) :
    Starved ts (Tree.listing G).length := by
  obtain ⟨o, vs, rfl, hG⟩ := h.stop.resolve_left hus
  refine ⟨⟨o, by simp [h.eq]⟩, ?_⟩
  rw [h.eq, List.take_left, Tree.excess_listing]
  omega

theorem not_starved_of_nil (h : Split ts G []) (k : Nat) : ¬Starved ts k := by
  intro hk
  obtain ⟨o, ho⟩ := hk.1
  obtain ⟨hlt, -⟩ := List.getElem?_eq_some_iff.mp ho
  rw [h.eq, List.append_nil] at hlt
  exact h.fed k hlt hk

theorem first_starved_iff (h : Split ts G us) (p : Nat) :
    (Starved ts p ∧ ∀ k < p, ¬Starved ts k) ↔ us ≠ [] ∧ p = (Tree.listing G).length := by
  constructor
  · intro hleast
    obtain ⟨hp, hfirst⟩ := hleast
    have hus : us ≠ [] := by
      intro hnil
      subst hnil
      exact h.not_starved_of_nil p hp
    have hle : (Tree.listing G).length ≤ p := Nat.not_lt.mp fun hlt => h.fed p hlt hp
    have hge : p ≤ (Tree.listing G).length :=
      Nat.not_lt.mp fun hlt => hfirst _ hlt (h.starved_of_ne_nil hus)
    exact ⟨hus, Nat.le_antisymm hge hle⟩
  · intro hsplit
    obtain ⟨hus, rfl⟩ := hsplit
    exact ⟨h.starved_of_ne_nil hus, h.fed⟩

theorem underflow_iff (h : Split ts G us) (s : Strategy (StateM σ) α) (st : σ) (p : Nat) :
    ((s.replay [] 0 ts).run st).1 = .error (.stackUnderflow p) ↔
      Starved ts p ∧ ∀ k < p, ¬Starved ts k := by
  rw [h.error_iff, h.first_starved_iff, shortfall_eq_underflow_iff]

theorem not_invalid (h : Split ts G us) (s : Strategy (StateM σ) α) (st : σ) :
    ((s.replay [] 0 ts).run st).1 ≠ .error .invalid := by
  rw [ne_eq, h.error_iff]
  exact shortfall_ne_invalid

theorem excess_eq (h : Split ts G []) : excess ts = G.length := by
  rw [h.eq, List.append_nil, Tree.excess_listing]

theorem empty_iff (h : Split ts G []) (s : Strategy (StateM σ) α) (st : σ) :
    ((s.replay [] 0 ts).run st).1 = .error .empty ↔ ts = [] := by
  rw [h.error_iff, shortfall_nil_eq_empty_iff]
  constructor
  · intro hG
    rw [h.eq, List.length_eq_zero_iff.mp hG]
    rfl
  · intro hts
    subst hts
    exact Int.ofNat_inj.mp h.excess_eq.symm

theorem leftover_iff (h : Split ts G []) (s : Strategy (StateM σ) α) (st : σ) (c : Nat) :
    ((s.replay [] 0 ts).run st).1 = .error (.leftoverOperands c) ↔ excess ts = c ∧ 2 ≤ c := by
  rw [h.error_iff, shortfall_nil_eq_leftover_iff, h.excess_eq, Int.ofNat_inj]

theorem ok_iff (h : Split ts G us) (s : Strategy (StateM σ) α) (st : σ) :
    (∃ v, ((s.replay [] 0 ts).run st).1 = .ok v) ↔ us = [] ∧ G.length = 1 := by
  rw [← shortfall_eq_none_iff (p := (Tree.listing G).length), Option.eq_none_iff_forall_ne_some]
  constructor
  · intro hok e he
    obtain ⟨v, hv⟩ := hok
    rw [(h.error_iff s st).mpr he] at hv
    cases hv
  · intro hnone
    cases hr : ((s.replay [] 0 ts).run st).1 with
    | error e => exact absurd ((h.error_iff s st).mp hr) (hnone e)
    | ok v => exact ⟨v, rfl⟩

theorem take_of_underflow (h : Split ts G us) (s : Strategy (StateM σ) α) (st : σ) {p : Nat}
    (hp : ((s.replay [] 0 ts).run st).1 = .error (.stackUnderflow p)) :
    Tree.listing G = ts.take p := by
  obtain ⟨-, rfl⟩ := shortfall_eq_underflow_iff.mp ((h.error_iff s st).mp hp)
  rw [h.eq, List.take_left]

theorem eq_nil_of_ne_underflow (h : Split ts G us) (s : Strategy (StateM σ) α) (st : σ)
    (hne : ∀ p, ((s.replay [] 0 ts).run st).1 ≠ .error (.stackUnderflow p)) : us = [] := by
  cases us with
  | nil => rfl
  | cons u us => exact absurd ((h.error_iff s st).mpr rfl) (hne _)

theorem eq_nil_of_not_starved (h : Split ts G us) (hs : ∀ k, ¬Starved ts k) : us = [] := by
  cases h.stop with
  | inl hus => exact hus
  | inr hstop =>
    obtain ⟨o, vs, rfl, -⟩ := hstop
    exact absurd (h.starved_of_ne_nil (List.cons_ne_nil _ _)) (hs _)

theorem exists_tree (h : Split ts G us) (s : Strategy (StateM σ) α) (st : σ) {v : α}
    (hv : ((s.replay [] 0 ts).run st).1 = .ok v) :
    ∃ t : Tree, ts = t.postorder ∧ Tree.listing G = t.postorder ∧
      (s.replay [] 0 ts).run st = (.ok ((t.fold s).run st).1, ((t.fold s).run st).2) := by
  obtain ⟨rfl, hlen⟩ := (h.ok_iff s st).mp ⟨v, hv⟩
  obtain ⟨t, rfl⟩ := List.length_eq_one_iff.mp hlen
  have hts : ts = t.postorder := by simpa [Tree.listing] using h.eq
  refine ⟨t, hts, rfl, ?_⟩
  rw [h.replay_run]
  rfl

theorem exists_tree_of_run (h : Split ts G us) (s : Strategy Id α) {v : α}
    (hv : (s.replay [] 0 ts).run = .ok v) : ∃ t : Tree, ts = t.postorder := by
  rw [h.replay_eq, Id.run_map] at hv
  obtain ⟨rfl, hone⟩ := halt_eq_ok_iff.mp hv
  have hlength : G.length = 1 := by rw [← s.values_length_run, hone, List.length_singleton]
  obtain ⟨t, rfl⟩ := List.length_eq_one_iff.mp hlength
  exact ⟨t, by simpa [Tree.listing] using h.eq⟩

end Split

theorem Strategy.replay_tree {m : Type u → Type v} [Monad m] [LawfulMonad m] (s : Strategy m α)
    (t : Tree) : s.replay [] 0 t.postorder = Except.ok <$> t.fold s := by
  have h := s.replay_postorder t [] 0 []
  rw [List.append_nil] at h
  rw [h, map_eq_pure_bind]
  rfl

namespace Calculation

theorem evaluate_of_isValid {m : Type u → Type v} [Monad m] {c : Calculation} (h : c.isValid)
    (s : Strategy m α) : c.evaluate s = s.replay [] 0 c.terms := if_pos h

theorem evaluate_of_not_isValid {m : Type u → Type v} [Monad m] {c : Calculation} (h : ¬c.isValid)
    (s : Strategy m α) : c.evaluate s = pure (.error .invalid) := if_neg h

theorem isValid_of_evaluate {c : Calculation} {s : Strategy Id α} {v : α}
    (h : (c.evaluate s).run = .ok v) : c.isValid := by
  cases hv : c.isValid with
  | true => rfl
  | false =>
    rw [evaluate_of_not_isValid (by simp [hv])] at h
    cases h

theorem evaluate_of_postorder {c : Calculation} (hv : c.isValid) {t : Tree}
    (ht : c.terms = t.postorder) (s : Strategy (StateM σ) α) (st : σ) :
    (c.evaluate s).run st = (.ok ((t.fold s).run st).1, ((t.fold s).run st).2) := by
  rw [evaluate_of_isValid hv, ht, s.replay_tree]
  rfl

/-- How the evaluation of any terms ends. An invalid calculation calls nothing. A valid one fails at
the first operator that lacks a value, if there is one; if not, the number of values left over
decides, and one value is the fold of the only tree with that listing. The strategy has then been
called for the terms before the end and for no other, and no two strategies get different errors. -/
theorem evaluate_outcome (ts : List Term) (s : Strategy (StateM σ) α) (st : σ) :
    let c := ofInfix ts
    let run := (c.evaluate s).run st
    let calls := ((c.evaluate s.recorded).run (st, [])).2.2
    (¬c.isValid → run = (.error .invalid, st) ∧ calls = []) ∧
    (c.isValid →
      run.1 ≠ .error .invalid ∧
      (∀ p, run.1 = .error (.stackUnderflow p) ↔
        Starved c.terms p ∧ ∀ k < p, ¬Starved c.terms k) ∧
      (∀ p, run.1 = .error (.stackUnderflow p) → calls = c.terms.take p) ∧
      ((∀ p, ¬Starved c.terms p) →
        calls = c.terms ∧
        (run.1 = .error .empty ↔ c.terms = []) ∧
        (∀ n, run.1 = .error (.leftoverOperands n) ↔ excess c.terms = n ∧ 2 ≤ n) ∧
        ((∃ v, run.1 = .ok v) ↔ excess c.terms = 1)) ∧
      ∀ v, run.1 = .ok v → ∃ t : Tree, (∀ t' : Tree, t'.postorder = c.terms ↔ t' = t) ∧
        run = (.ok ((t.fold s).run st).1, ((t.fold s).run st).2) ∧ calls = t.postorder) ∧
    (c.evaluate s.recorded).run (st, []) = (run.1, run.2, calls) ∧
    ∀ {α' σ' : Type w} (s' : Strategy (StateM σ') α') (st' : σ') (e : EvalError),
      run.1 = .error e ↔ ((c.evaluate s').run st').1 = .error e := by
  intro c run calls
  by_cases hv : c.isValid
  · have hterms : c.terms = arrange ts := terms_ofInfix hv
    obtain ⟨G, us, hsplit⟩ := Split.exists_of_native (hterms ▸ arrange_not_foreign ts)
    have hrun : run = (s.replay [] 0 c.terms).run st := by
      simp only [run, evaluate_of_isValid hv]
    have hrec : (c.evaluate s.recorded).run (st, []) = (run.1, run.2, Tree.listing G) := by
      rw [hrun, evaluate_of_isValid hv, hsplit.replay_recorded]
    have hcalls : calls = Tree.listing G := congrArg (·.2.2) hrec
    refine ⟨fun hn => absurd hv hn, fun _ => ⟨?_, ?_, ?_, ?_, ?_⟩, ?_, ?_⟩
    · exact hrun ▸ hsplit.not_invalid s st
    · exact fun p => hrun ▸ hsplit.underflow_iff s st p
    · intro p hp
      rw [hcalls]
      exact hsplit.take_of_underflow s st (hrun ▸ hp)
    · intro hfed
      obtain rfl := hsplit.eq_nil_of_not_starved hfed
      rw [hrun, hcalls]
      refine ⟨by rw [hsplit.eq, List.append_nil], hsplit.empty_iff s st,
        hsplit.leftover_iff s st, ?_⟩
      rw [hsplit.ok_iff, hsplit.excess_eq]
      simp only [true_and]
      omega
    · intro v hok
      obtain ⟨t, hts, hG, hfold⟩ := hsplit.exists_tree s st (hrun ▸ hok)
      refine ⟨t, fun t' => ?_, hrun.trans hfold, hcalls.trans hG⟩
      rw [hts]
      exact Tree.postorder_injective.eq_iff
    · rw [hrec, hcalls]
    · intro α' σ' s' st' e
      rw [hrun, evaluate_of_isValid hv, hsplit.error_iff, hsplit.error_iff]
  · have hrun : run = (.error .invalid, st) := by
      simp only [run, evaluate_of_not_isValid hv]
      rfl
    have hcalls : calls = [] := by
      simp only [calls, evaluate_of_not_isValid hv]
      rfl
    refine ⟨fun _ => ⟨hrun, hcalls⟩, fun hn => absurd hn hv, ?_, ?_⟩
    · rw [hrun, hcalls, evaluate_of_not_isValid hv]
      rfl
    · intro α' σ' s' st' e
      rw [hrun, evaluate_of_not_isValid hv]
      exact ⟨fun he => congrArg Except.error (Except.error.inj he),
        fun he => congrArg Except.error (Except.error.inj he)⟩

end Calculation

end CssMath
