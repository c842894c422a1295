/-
Radix trees laid out in a store of nodes.

A node has at most one child at each index, and the node at the end of a path of indices is found
by descending from the root.  In a store nothing keeps two paths from ending in one node, and then
an update made along one path shows along the other; a tree that is *unshared* down to a depth has
no such pair.  Below, the two updates such a tree is grown and edited by: hanging a fresh node into
an empty place, and changing a node at the bottom.

* `Radix.descend` — the node at the end of a path;
* `Radix.descend_congr` — a descent reads only the nodes on its way;
* `Radix.Unshared` — down to a depth no two paths end in one node;
* `Radix.graft`, `Radix.descend_graft` — hanging a fresh node into an empty place adds one path and
  moves no other;
* `Radix.Unshared.graft` — the tree stays unshared;
* `Radix.descend_of_bottom` — changing a node at the bottom moves no path.
-/

import Mathlib.Logic.Function.Basic
import Mathlib.Data.List.Induction

set_option autoImplicit false

namespace Radix

universe u v

variable {A : Type u} {I : Type v}

/-! ### Descending -/

/-- The node that a path of indices leads to. -/
def descend (child : A → I → Option A) (a : A) : List I → Option A
  | [] => some a
  | i :: p => (child a i).bind fun b => descend child b p

@[simp] theorem descend_nil (child : A → I → Option A) (a : A) : descend child a [] = some a := rfl

theorem descend_append (child : A → I → Option A) (a : A) (p q : List I) :
    descend child a (p ++ q) = (descend child a p).bind fun b => descend child b q := by
  induction p generalizing a with
  | nil => rfl
  | cons i p ih =>
      rw [List.cons_append, descend, descend]
      cases child a i with
      | none => rfl
      | some b => exact ih b

/-- The last index of a path is looked up in the node the rest leads to. -/
theorem descend_concat (child : A → I → Option A) (a : A) (p : List I) (i : I) :
    descend child a (p ++ [i]) = (descend child a p).bind fun b => child b i := by
  rw [descend_append]
  congr 1
  funext b
  rw [descend]
  cases child b i with
  | none => rfl
  | some c => rfl

/-- A path that goes on where there is no child leads nowhere. -/
theorem descend_eq_none {child : A → I → Option A} {a b : A} {p q : List I} {i : I}
    (hp : descend child a p = some b) (hi : child b i = none) :
    descend child a (p ++ i :: q) = none := by
  rw [descend_append, hp, Option.bind_some, descend, hi, Option.bind_none]

/-- A descent reads only the nodes on its way. -/
theorem descend_congr {child child' : A → I → Option A} {root : A} {N : ℕ}
    (h : ∀ q b, q.length < N → descend child root q = some b → child' b = child b) {p : List I}
    (hp : p.length ≤ N) : descend child' root p = descend child root p := by
  induction p using List.reverseRecOn with
  | nil => rfl
  | append_singleton p i ih =>
      rw [List.length_append, List.length_singleton] at hp
      rw [descend_concat, descend_concat, ih (by omega)]
      cases hb : descend child root p with
      | none => rfl
      | some b => rw [Option.bind_some, Option.bind_some, h p b (by omega) hb]

/-! ### Trees without sharing -/

/-- Down to depth `N`, no two paths lead to one node. -/
def Unshared (child : A → I → Option A) (root : A) (N : ℕ) : Prop :=
  ∀ p q a, p.length ≤ N → q.length ≤ N →
    descend child root p = some a → descend child root q = some a → p = q

/-- A root without children is a tree without sharing. -/
theorem unshared_of_childless {child : A → I → Option A} {root : A} {N : ℕ}
    (h : ∀ i, child root i = none) : Unshared child root N := by
  have hnil : ∀ p a, descend child root p = some a → p = [] := by
    intro p a hp
    cases p with
    | nil => rfl
    | cons i p =>
        rw [descend, h i] at hp
        exact absurd hp (by simp)
  intro p q a _ _ hp hq
  rw [hnil p a hp, hnil q a hq]

/-- Changing a node at the bottom moves no path: on the way to a node no node of full depth is
read. -/
theorem descend_of_bottom {child child' : A → I → Option A} {root b : A} {N : ℕ} {p₀ : List I}
    (hun : Unshared child root N) (hp₀ : descend child root p₀ = some b) (hlen : p₀.length = N)
    (hchild : ∀ c, c ≠ b → child' c = child c) {p : List I} (hp : p.length ≤ N) :
    descend child' root p = descend child root p := by
  refine descend_congr (fun q c hq hc => hchild c ?_) hp
  rintro rfl
  have hqp : q = p₀ := hun q p₀ c (Nat.le_of_lt hq) (Nat.le_of_eq hlen) hc hp₀
  rw [hqp, hlen] at hq
  exact Nat.lt_irrefl N hq

/-! ### Grafting -/

variable [DecidableEq A] [DecidableEq I]

/-- Hanging the node `n`, emptied, under index `i` of the node `a`. -/
def graft (child : A → I → Option A) (a : A) (i : I) (n : A) : A → I → Option A :=
  Function.update (Function.update child n fun _ => none) a (Function.update (child a) i (some n))

section Graft

variable {child : A → I → Option A} {root a n : A} {i : I} {N : ℕ} {p₀ : List I}

/-- Grafting a fresh node adds the path to it and moves no other path. -/
theorem descend_graft (hun : Unshared child root N) (hp₀ : descend child root p₀ = some a)
    (hlen : p₀.length < N) (hi : child a i = none)
    (hn : ∀ p, p.length ≤ N → descend child root p ≠ some n) {p : List I} (hp : p.length ≤ N) :
    descend (graft child a i n) root p =
      if p = p₀ ++ [i] then some n else descend child root p := by
  have hna : n ≠ a := fun he => hn p₀ (Nat.le_of_lt hlen) (he ▸ hp₀)
  have hplace : descend child root (p₀ ++ [i]) = none := descend_eq_none hp₀ hi
  induction p using List.reverseRecOn with
  | nil => rw [if_neg (by simp), descend_nil, descend_nil]
  | append_singleton q j ih =>
      rw [List.length_append, List.length_singleton] at hp
      rw [descend_concat, ih (by omega)]
      by_cases hq : q = p₀ ++ [i]
      · -- the way leads through the fresh node, which has no children
        have hne : q ++ [j] ≠ p₀ ++ [i] := by
          intro he
          have := congrArg List.length he
          rw [hq] at this
          simp at this
        rw [if_pos hq, if_neg hne, Option.bind_some, graft, Function.update_of_ne hna,
          Function.update_self, descend_concat, hq, hplace, Option.bind_none]
      · rw [if_neg hq]
        cases hb : descend child root q with
        | none =>
            have hne : q ++ [j] ≠ p₀ ++ [i] := by
              intro he
              rw [(List.append_inj' he rfl).1, hp₀] at hb
              exact absurd hb (by simp)
            rw [if_neg hne, descend_concat, hb, Option.bind_none, Option.bind_none]
        | some b =>
            rw [Option.bind_some]
            by_cases hba : b = a
            · subst hba
              obtain rfl : q = p₀ := hun q p₀ b (by omega) (Nat.le_of_lt hlen) hb hp₀
              rw [graft, Function.update_self, descend_concat, hb, Option.bind_some]
              by_cases hj : j = i
              · rw [hj, Function.update_self, if_pos rfl]
              · rw [Function.update_of_ne hj, if_neg (by simpa using hj)]
            · have hbn : b ≠ n := fun he => hn q (by omega) (he ▸ hb)
              have hne : q ++ [j] ≠ p₀ ++ [i] := by
                intro he
                rw [(List.append_inj' he rfl).1, hp₀] at hb
                exact hba (Option.some.inj hb).symm
              rw [if_neg hne, graft, Function.update_of_ne hba, Function.update_of_ne hbn,
                descend_concat, hb, Option.bind_some]

/-- Grafting a fresh node keeps the tree without sharing. -/
theorem Unshared.graft (hun : Unshared child root N) (hp₀ : descend child root p₀ = some a)
    (hlen : p₀.length < N) (hi : child a i = none)
    (hn : ∀ p, p.length ≤ N → descend child root p ≠ some n) :
    Unshared (Radix.graft child a i n) root N := by
  intro p q b hp hq hpb hqb
  rw [descend_graft hun hp₀ hlen hi hn hp] at hpb
  rw [descend_graft hun hp₀ hlen hi hn hq] at hqb
  by_cases h1 : p = p₀ ++ [i]
  · by_cases h2 : q = p₀ ++ [i]
    · rw [h1, h2]
    · rw [if_pos h1] at hpb
      rw [if_neg h2] at hqb
      exact absurd (hqb.trans hpb.symm) (hn q hq)
  · rw [if_neg h1] at hpb
    by_cases h2 : q = p₀ ++ [i]
    · rw [if_pos h2] at hqb
      exact absurd (hpb.trans hqb.symm) (hn p hp)
    · rw [if_neg h2] at hqb
      exact hun p q b hp hq hpb hqb

end Graft

end Radix
