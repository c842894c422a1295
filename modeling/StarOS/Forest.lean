/-
Forests given by a parent function.

A forest is a partial function from nodes to their parents together with a rank that falls along it.
The *chain* of a node lists the node, its parent, and so on up to its root; cut off at a length that
exceeds the rank it is the whole chain, its members are the nodes that the node lies below, and no
node occurs in it twice.

* `Forest.chain` — following the parents for a bounded number of nodes;
* `Forest.Below` — a node and its ancestors;
* `Forest.Ranked` — a rank that falls along the parents;
* `Forest.Ranked.mem_chain_iff`, `Forest.Ranked.chain_nodup` — the members of a chain;
* `Forest.Below.comparable` — two nodes that one node lies below;
* `Forest.climb`, `Forest.Ranked.exists_root` — following the parents ends at a root.
-/

import Mathlib.Data.List.Nodup
import Mathlib.Order.Nat

set_option autoImplicit false

namespace Forest

universe u

variable {ι : Type u} {parent : ι → Option ι} {rank : ι → ℕ} {a b i p : ι} {n m : ℕ}

/-! ### Chains -/

/-- A node, its parent, and so on, for at most `n` nodes. -/
def chain (parent : ι → Option ι) : ℕ → ι → List ι
  | 0, _ => []
  | n + 1, i =>
      match parent i with
      | some p => i :: chain parent n p
      | none => [i]

theorem chain_of_some (h : parent i = some p) :
    chain parent (n + 1) i = i :: chain parent n p := by
  rw [chain, h]

theorem chain_of_none (h : parent i = none) : chain parent (n + 1) i = [i] := by
  rw [chain, h]

theorem self_mem_chain (n : ℕ) (i : ι) : i ∈ chain parent (n + 1) i := by
  rw [chain]
  split <;> exact List.mem_cons_self

/-! ### Ancestors -/

/-- `i` is `a`, or lies below it. -/
inductive Below (parent : ι → Option ι) (a : ι) : ι → Prop
  | refl : Below parent a a
  | step {i p : ι} : parent i = some p → Below parent a p → Below parent a i

theorem Below.trans (h : Below parent a b) (h' : Below parent b i) : Below parent a i := by
  induction h' with
  | refl => exact h
  | step hp _ ih => exact ih.step hp

/-- A node lies below another one exactly if its parent does. -/
theorem below_iff_of_ne (hne : i ≠ a) :
    Below parent a i ↔ ∃ p, parent i = some p ∧ Below parent a p := by
  constructor
  · intro h
    cases h with
    | refl => exact absurd rfl hne
    | step hp h => exact ⟨_, hp, h⟩
  · rintro ⟨p, hp, h⟩
    exact h.step hp

/-- Of two nodes that one node lies below, one lies below the other. -/
theorem Below.comparable (ha : Below parent a i) (hb : Below parent b i) :
    Below parent a b ∨ Below parent b a := by
  induction ha with
  | refl => exact .inr hb
  | step hp ha ih =>
      cases hb with
      | refl => exact .inl (ha.step hp)
      | step hp' hb =>
          cases Option.some.inj (hp.symm.trans hp')
          exact ih hb

/-- The members of a chain are ancestors. -/
theorem below_of_mem_chain (h : a ∈ chain parent n i) : Below parent a i := by
  induction n generalizing i with
  | zero => exact absurd h List.not_mem_nil
  | succ n ih =>
      cases hp : parent i with
      | some p =>
          rw [chain_of_some hp] at h
          rcases List.mem_cons.1 h with rfl | h
          · exact .refl
          · exact (ih h).step hp
      | none =>
          rw [chain_of_none hp, List.mem_singleton] at h
          exact h ▸ .refl

/-! ### Ranks -/

/-- The rank falls along the parents. -/
def Ranked (parent : ι → Option ι) (rank : ι → ℕ) : Prop :=
  ∀ i p, parent i = some p → rank p < rank i

namespace Ranked

variable (h : Ranked parent rank)

include h

theorem rank_le (ha : Below parent a i) : rank a ≤ rank i := by
  induction ha with
  | refl => exact le_rfl
  | step hp _ ih => exact ih.trans (h _ _ hp).le

/-- A parent does not lie below its child. -/
theorem not_below_parent (hp : parent i = some p) : ¬ Below parent i p := fun hi =>
  absurd (h.rank_le hi) (not_le.2 (h _ _ hp))

theorem mem_chain_iff (hn : rank i < n) : a ∈ chain parent n i ↔ Below parent a i := by
  refine ⟨below_of_mem_chain, fun ha => ?_⟩
  induction ha generalizing n with
  | refl =>
      obtain ⟨n, rfl⟩ : ∃ k, n = k + 1 := ⟨n - 1, by omega⟩
      exact self_mem_chain n a
  | step hp _ ih =>
      obtain ⟨n, rfl⟩ : ∃ k, n = k + 1 := ⟨n - 1, by omega⟩
      have hlt := h _ _ hp
      rw [chain_of_some hp]
      exact List.mem_cons_of_mem _ (ih (by omega))

theorem chain_nodup (n : ℕ) (i : ι) : (chain parent n i).Nodup := by
  induction n generalizing i with
  | zero => exact List.nodup_nil
  | succ n ih =>
      cases hp : parent i with
      | some p =>
          rw [chain_of_some hp]
          exact List.nodup_cons.2
            ⟨fun hmem => h.not_below_parent hp (below_of_mem_chain hmem), ih p⟩
      | none =>
          rw [chain_of_none hp]
          exact List.nodup_singleton i

/-- A chain that is cut off above the rank is not cut off. -/
theorem chain_eq (hn : rank i < n) (hm : rank i < m) : chain parent n i = chain parent m i := by
  induction n generalizing i m with
  | zero => exact absurd hn (Nat.not_lt_zero _)
  | succ n ih =>
      obtain ⟨m, rfl⟩ : ∃ k, m = k + 1 := ⟨m - 1, by omega⟩
      cases hp : parent i with
      | some p =>
          have hlt := h _ _ hp
          have heq : chain parent n p = chain parent m p := ih (by omega) (by omega)
          rw [chain_of_some hp, chain_of_some hp, heq]
      | none => rw [chain_of_none hp, chain_of_none hp]

/-- Induction from the roots downwards. -/
theorem induction {P : ι → Prop} (hP : ∀ i, (∀ p, parent i = some p → P p) → P i) (i : ι) :
    P i := by
  induction hr : rank i using Nat.strong_induction_on generalizing i with
  | _ r ih =>
      subst hr
      exact hP i fun p hp => ih _ (h i p hp) p rfl

end Ranked

/-! ### Roots -/

/-- Following the parents of a node for `k` steps. -/
def climb (parent : ι → Option ι) : ℕ → ι → Option ι
  | 0, i => some i
  | k + 1, i => (parent i).bind (climb parent k)

/-- Following the parents ends at a root, after at most as many steps as the rank counts. -/
theorem Ranked.exists_root (h : Ranked parent rank) (i : ι) :
    ∃ k ≤ rank i, ∃ r, climb parent k i = some r ∧ parent r = none := by
  induction i using h.induction with
  | _ i ih =>
      cases hp : parent i with
      | none => exact ⟨0, Nat.zero_le _, i, rfl, hp⟩
      | some p =>
          obtain ⟨k, hk, r, hr, hroot⟩ := ih p hp
          refine ⟨k + 1, hk.trans_lt (h i p hp), r, ?_, hroot⟩
          rw [climb, hp, Option.bind_some, hr]

end Forest
