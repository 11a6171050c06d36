import CssMath.Evaluation
import CssMath.Proofs.Arrangement

/-! Expression trees and their post-order listings. A listing leaves one value, the fold of its
tree, on whatever stack it is replayed; so the values on a stack stand for a stack of trees, and a
listing has one tree only. -/
namespace CssMath
universe u v
variable {m : Type u → Type v} [Monad m] {α σ : Type u}

inductive Tree where
  | leaf (x : Operand)
  | node (left right : Tree) (o : Operator)
  deriving DecidableEq

namespace Tree

def postorder : Tree → List Term
  | leaf x => [.operand x]
  | node left right o => left.postorder ++ right.postorder ++ [.operator o]

def fold (s : Strategy m α) : Tree → m α
  | leaf x => s.operand x
  | node left right o => do
    let a ← left.fold s
    let b ← right.fold s
    s.operator a b o

def listing : List Tree → List Term
  | [] => []
  | t :: ts => listing ts ++ t.postorder

def values (s : Strategy m α) : List Tree → m (List α)
  | [] => pure []
  | t :: ts => do
    let vs ← values s ts
    let v ← t.fold s
    pure (v :: vs)

end Tree

def excess (ts : List Term) : Int := ((operands ts).length : Int) - ts.countP Term.isOperator

@[simp] theorem excess_append (ts us : List Term) : excess (ts ++ us) = excess ts + excess us := by
  simp only [excess, operands_append, List.length_append, List.countP_append]
  omega

theorem Tree.excess_postorder (t : Tree) : excess t.postorder = 1 := by
  induction t with
  | leaf x => rfl
  | node left right o ihl ihr =>
    have ho : excess [.operator o] = -1 := rfl
    simp [postorder, ihl, ihr, ho]

theorem Tree.excess_listing (F : List Tree) : excess (listing F) = F.length := by
  induction F with
  | nil => rfl
  | cons t F ih => simp [listing, ih, excess_postorder]

namespace Strategy

theorem replay_postorder [LawfulMonad m] (s : Strategy m α) (t : Tree) (stack : List α)
    (position : Nat) (ts : List Term) :
    s.replay stack position (t.postorder ++ ts) =
      t.fold s >>= fun v => s.replay (v :: stack) (position + t.postorder.length) ts := by
  induction t generalizing stack position ts with
  | leaf x => rfl
  | node left right o ihl ihr =>
    simp only [Tree.postorder, List.append_assoc, ihl, ihr, Tree.fold, bind_assoc,
      List.length_append, Nat.add_assoc]
    rfl

theorem replay_listing [LawfulMonad m] (s : Strategy m α) (F : List Tree) (position : Nat)
    (ts : List Term) :
    s.replay [] position (Tree.listing F ++ ts) =
      Tree.values s F >>= fun vs => s.replay vs (position + (Tree.listing F).length) ts := by
  induction F generalizing ts with
  | nil => simp [Tree.listing, Tree.values]
  | cons t F ih =>
    simp only [Tree.listing, List.append_assoc, ih, replay_postorder, Tree.values, bind_assoc,
      pure_bind, List.length_append, Nat.add_assoc]

def tree : Strategy Id Tree where
  operand x := .leaf x
  operator left right o := .node left right o

end Strategy

theorem Tree.fold_tree (t : Tree) : t.fold Strategy.tree = t := by
  induction t with
  | leaf x => rfl
  | node left right o ihl ihr =>
    rw [fold, ihl, ihr]
    rfl

theorem Tree.postorder_injective : Function.Injective Tree.postorder := by
  intro t u h
  have replayed (t : Tree) : Strategy.tree.replay [] 0 t.postorder = .ok t := by
    have ht := Strategy.replay_postorder Strategy.tree t [] 0 []
    rw [List.append_nil, fold_tree] at ht
    exact ht
  have hu : (Except.ok t : Except EvalError Tree) = .ok u := by rw [← replayed t, h, replayed u]
  exact Except.ok.inj hu

/-- An operator at `p` that has fewer than two values before it. -/
def Starved (ts : List Term) (p : Nat) : Prop :=
  (∃ o, ts[p]? = some (.operator o)) ∧ excess (ts.take p) < 2

/-- Terms are the listing of a stack of trees up to the first operator that lacks a value. The
induction moves one term after the other onto the stack. -/
theorem Tree.exists_listing (F : List Tree) (ts : List Term) (hts : ∀ t ∈ ts, t.isForeign = false) :
    ∃ G us, listing F ++ ts = listing G ++ us ∧
      (us = [] ∨ ∃ o vs, us = .operator o :: vs ∧ G.length < 2) ∧
      ∀ k, (listing F).length ≤ k → k < (listing G).length → ¬Starved (listing F ++ ts) k := by
  induction ts generalizing F with
  | nil => exact ⟨F, [], rfl, .inl rfl, fun k hk hk' => absurd hk' (Nat.not_lt.mpr hk)⟩
  | cons t ts ih =>
    have hts' : ∀ t ∈ ts, t.isForeign = false := fun u hu => hts u (List.mem_cons_of_mem t hu)
    cases t with
    | operand x =>
      obtain ⟨G, us, heq, hus, hk⟩ := ih (leaf x :: F) hts'
      simp only [listing, postorder, List.append_assoc, List.singleton_append,
        List.length_append, List.length_singleton] at heq hk
      refine ⟨G, us, heq, hus, fun k hle hlt => ?_⟩
      by_cases hkF : k = (listing F).length
      · subst hkF
        intro hstarved
        obtain ⟨o, ho⟩ := hstarved.1
        simp at ho
      · exact hk k (by omega) hlt
    | operator o =>
      match F with
      | [] => exact ⟨[], _, rfl, .inr ⟨o, ts, rfl, by simp⟩, fun k hle hlt => by omega⟩
      | [r] => exact ⟨[r], _, rfl, .inr ⟨o, ts, rfl, by simp⟩, fun k hle hlt => by omega⟩
      | r :: l :: F =>
        obtain ⟨G, us, heq, hus, hk⟩ := ih (node l r o :: F) hts'
        have hF : listing (node l r o :: F) ++ ts = listing (r :: l :: F) ++ .operator o :: ts := by
          simp [listing, postorder]
        have hlen : (listing (node l r o :: F)).length = (listing (r :: l :: F)).length + 1 := by
          simp [listing, postorder, Nat.add_assoc]
        rw [hF] at heq hk
        rw [hlen] at hk
        refine ⟨G, us, heq, hus, fun k hle hlt => ?_⟩
        by_cases hkF : k = (listing (r :: l :: F)).length
        · subst hkF
          intro hstarved
          have hlow := hstarved.2
          rw [List.take_left, excess_listing] at hlow
          simp only [List.length_cons] at hlow
          omega
        · exact hk k (by omega) hlt
    | other text => simp [Term.isForeign] at hts

end CssMath
