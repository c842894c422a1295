/-
Trees of nested ranges.

A tree is given by the list of children of every node, and a range by its two ends.  The ranges are
nested if the children of a node lie inside it, one behind the other: then of two nodes of the tree
one lies below the other, or their ranges are apart.  A parent function that agrees with the lists
makes the paths from the root unique.

* `Nesting.Desc` — a node and those below it;
* `Nesting.Rooted` — a parent function that agrees with the lists of children;
* `Nesting.Rooted.acyclic`, `Nesting.Rooted.exists_parent` — no node lies below its child;
* `Nesting.IsPath`, `Nesting.existsUnique_path` — every node is reached along exactly one path;
* `Nesting.NodeOk`, `Nesting.Nested` — nested ranges;
* `Nesting.Nested.apart` — two nodes of a tree;
* `Nesting.Rooted.desc_prune` — a tree from which a subtree was taken.
-/

import Mathlib.Data.List.Nodup
import Mathlib.Data.List.Chain
import Mathlib.Logic.Relation
import Mathlib.Order.Lattice

set_option autoImplicit false

namespace Nesting

universe u v

variable {ι : Type u} {α : Type v} {kids kids' : ι → List ι} {r n p q : ι}

/-! ### Descendants -/

/-- `n` is `r`, or lies below it. -/
def Desc (kids : ι → List ι) : ι → ι → Prop := Relation.ReflTransGen fun p n => n ∈ kids p

theorem Desc.refl : Desc kids r r := Relation.ReflTransGen.refl

theorem Desc.child (h : Desc kids r p) (hn : n ∈ kids p) : Desc kids r n :=
  Relation.ReflTransGen.tail h hn

theorem Desc.trans (h : Desc kids r p) (h' : Desc kids p n) : Desc kids r n :=
  Relation.ReflTransGen.trans h h'

/-- What holds of a node and goes over to the children holds of all descendants. -/
theorem Desc.closed {S : ι → Prop} (h : Desc kids r n) (hr : S r)
    (hS : ∀ p, S p → ∀ n ∈ kids p, S n) : S n := by
  induction h with
  | refl => exact hr
  | tail _ hn ih => exact hS _ ih _ hn

/-- With more children there are more descendants. -/
theorem Desc.mono (h : Desc kids r n) (hsub : ∀ p, Desc kids r p → ∀ n ∈ kids p, n ∈ kids' p) :
    Desc kids' r n := by
  induction h with
  | refl => exact .refl
  | tail hp hn ih => exact ih.child (hsub _ hp _ hn)

/-! ### Parents -/

/-- The root has no parent, and the children of a node have it as their parent. -/
structure Rooted (kids : ι → List ι) (parent : ι → Option ι) (r : ι) : Prop where
  root : parent r = none
  child : ∀ p, Desc kids r p → ∀ n ∈ kids p, parent n = some p

section Rooted

variable {parent : ι → Option ι}

theorem Rooted.not_root (h : Rooted kids parent r) (hp : Desc kids r p) (hn : n ∈ kids p) :
    n ≠ r := by
  rintro rfl
  exact Option.some_ne_none p ((h.child p hp n hn).symm.trans h.root)

theorem Rooted.parent_unique (h : Rooted kids parent r) (hp : Desc kids r p)
    (hq : Desc kids r q) (hnp : n ∈ kids p) (hnq : n ∈ kids q) : p = q :=
  Option.some.inj ((h.child p hp n hnp).symm.trans (h.child q hq n hnq))

/-- A node below the root is in the list of its parent. -/
theorem Rooted.exists_parent (h : Rooted kids parent r) (hn : Desc kids r n) (hne : n ≠ r) :
    ∃ p, parent n = some p ∧ Desc kids r p ∧ n ∈ kids p := by
  cases hn with
  | refl => exact absurd rfl hne
  | tail hp hn => exact ⟨_, h.child _ hp _ hn, hp, hn⟩

/-- No node lies below its child. -/
theorem Rooted.acyclic (h : Rooted kids parent r) (hp : Desc kids r p) :
    ∀ n ∈ kids p, ¬ Desc kids n p := by
  induction hp with
  | refl =>
      intro n hn hdesc
      cases hdesc with
      | refl => exact h.not_root .refl hn rfl
      | tail hy hroot => exact h.not_root ((Desc.child .refl hn).trans hy) hroot rfl
  | @tail q p hq hp ih =>
      intro n hn hdesc
      have hdp : Desc kids r p := hq.tail hp
      cases hdesc with
      | refl =>
          obtain rfl := h.parent_unique hdp hq hn hp
          exact ih _ hp .refl
      | @tail y _ hy hpy =>
          obtain rfl := h.parent_unique ((hdp.tail hn).trans hy) hq hpy hp
          exact ih _ hp ((Desc.child .refl hn).trans hy)

/-- No node is its own child. -/
theorem Rooted.ne_of_mem (h : Rooted kids parent r) (hp : Desc kids r p) (hn : n ∈ kids p) :
    n ≠ p := by
  rintro rfl
  exact h.acyclic hp n hn .refl

/-- Taking a node out of the list of its parent takes out the nodes below it, and no others. -/
theorem Rooted.desc_prune (h : Rooted kids parent r) (hq : Desc kids r q) {l₁ l₂ : List ι}
    (hkids : kids q = l₁ ++ n :: l₂) (hnodup : (kids q).Nodup) (hself : kids' q = l₁ ++ l₂)
    (hother : ∀ p, p ≠ q → kids' p = kids p) :
    ¬ Desc kids' r n ∧ ∀ x, Desc kids r x → ¬ Desc kids n x → Desc kids' r x := by
  have hmem : n ∈ kids q := by
    rw [hkids]
    exact List.mem_append_right _ List.mem_cons_self
  have hsub : ∀ p x, x ∈ kids' p → x ∈ kids p := by
    intro p x hx
    by_cases hpq : p = q
    · subst hpq
      rw [hself] at hx
      rw [hkids]
      rcases List.mem_append.1 hx with hx | hx
      · exact List.mem_append_left _ hx
      · exact List.mem_append_right _ (List.mem_cons_of_mem _ hx)
    · rwa [hother p hpq] at hx
  have hmono : ∀ x, Desc kids' r x → Desc kids r x := fun x hx =>
    hx.closed (S := fun x => Desc kids r x) .refl fun p hp x hx => hp.child (hsub p x hx)
  constructor
  · intro hn
    cases hn with
    | refl => exact h.not_root hq hmem rfl
    | @tail y _ hy hny =>
        obtain rfl := h.parent_unique (hmono y hy) hq (hsub y n hny) hmem
        rw [hself] at hny
        rw [hkids] at hnodup
        exact (List.nodup_cons.1 (List.nodup_middle.1 hnodup)).1 hny
  · intro x hx
    induction hx with
    | refl => exact fun _ => .refl
    | @tail y x hy hxy ih =>
        intro hnot
        have hxn : x ≠ n := by
          rintro rfl
          exact hnot .refl
        refine (ih fun hny => hnot (hny.child hxy)).child ?_
        by_cases hyq : y = q
        · subst hyq
          rw [hkids, List.mem_append, List.mem_cons] at hxy
          rw [hself, List.mem_append]
          rcases hxy with hx | rfl | hx
          · exact .inl hx
          · exact absurd rfl hxn
          · exact .inr hx
        · rwa [hother y hyq]

end Rooted

/-! ### Paths -/

section Paths

variable {R : ι → ι → Prop} {l l' : List ι}

/-- A path from a node to another one. -/
structure IsPath (R : ι → ι → Prop) (r n : ι) (l : List ι) : Prop where
  head : l.head? = some r
  last : l.getLast? = some n
  chain : l.IsChain R

theorem IsPath.snoc (h : IsPath R r p l) (hn : R p n) : IsPath R r n (l ++ [n]) where
  head := by
    cases l with
    | nil => cases h.head
    | cons a l => exact h.head
  last := by simp
  chain := by
    refine List.isChain_append.2 ⟨h.chain, List.isChain_singleton n, fun x hx y hy => ?_⟩
    obtain rfl : x = p := Option.some.inj (hx.symm.trans h.last)
    obtain rfl : n = y := by simpa using hy
    exact hn

/-- The last step of a path. -/
theorem IsPath.eq_or (h : IsPath R r n l) :
    (n = r ∧ l = [r]) ∨ ∃ p l₀, l = l₀ ++ [n] ∧ IsPath R r p l₀ ∧ R p n := by
  rcases l.eq_nil_or_concat' with rfl | ⟨l₀, x, rfl⟩
  · cases h.head
  obtain rfl : x = n := by simpa using h.last
  cases hlast : l₀.getLast? with
  | none =>
      obtain rfl := List.getLast?_eq_none_iff.1 hlast
      obtain rfl : x = r := by simpa using h.head
      exact .inl ⟨rfl, rfl⟩
  | some p =>
      refine .inr ⟨p, l₀, rfl, ⟨?_, hlast, (List.isChain_append.1 h.chain).1⟩, ?_⟩
      · cases l₀ with
        | nil => cases hlast
        | cons a l₀ => exact h.head
      · exact (List.isChain_append.1 h.chain).2.2 p hlast x rfl

theorem IsPath.reflTransGen (h : IsPath R r n l) : Relation.ReflTransGen R r n := by
  induction hlen : l.length generalizing l n with
  | zero =>
      obtain rfl := List.length_eq_zero_iff.1 hlen
      cases h.head
  | succ k ih =>
      rcases h.eq_or with ⟨rfl, -⟩ | ⟨p, l₀, rfl, hp, hn⟩
      · exact .refl
      · rw [List.length_append, List.length_singleton] at hlen
        exact (ih hp (Nat.succ.inj hlen)).tail hn

/-- With a parent function every node below the root is reached along exactly one path. -/
theorem existsUnique_path {parent : ι → Option ι} (hroot : parent r = none)
    (hparent : ∀ p n, Relation.ReflTransGen R r p → R p n → parent n = some p)
    (hn : Relation.ReflTransGen R r n) : ∃! l, IsPath R r n l := by
  induction hn with
  | refl =>
      refine ⟨[r], ⟨rfl, rfl, List.isChain_singleton r⟩, fun l hl => ?_⟩
      rcases hl.eq_or with ⟨-, hl⟩ | ⟨p, l₀, -, hp, hr⟩
      · exact hl
      · exact absurd ((hparent p r hp.reflTransGen hr).symm.trans hroot) (Option.some_ne_none p)
  | @tail p n hp hn ih =>
      obtain ⟨l, hl, huniq⟩ := ih
      refine ⟨l ++ [n], hl.snoc hn, fun l' hl' => ?_⟩
      rcases hl'.eq_or with ⟨rfl, -⟩ | ⟨p', l₀, rfl, hp', hn'⟩
      · exact absurd ((hparent p n hp hn).symm.trans hroot) (Option.some_ne_none p)
      · have heq : p' = p := Option.some.inj
          ((hparent p' n hp'.reflTransGen hn').symm.trans (hparent p n hp hn))
        rw [huniq l₀ (heq ▸ hp')]

end Paths

/-! ### Ranges -/

section Ranges

variable [LinearOrder α] {lo hi : ι → α}

/-- The range of a node is not empty, and its children lie inside it, one behind the other. -/
structure NodeOk (kids : ι → List ι) (lo hi : ι → α) (p : ι) : Prop where
  ordered : lo p ≤ hi p
  inside : ∀ n ∈ kids p, lo p ≤ lo n ∧ hi n ≤ hi p
  sorted : (kids p).Pairwise fun a b => hi a < lo b

/-- The ranges below a node are nested. -/
def Nested (kids : ι → List ι) (lo hi : ι → α) (r : ι) : Prop :=
  ∀ p, Desc kids r p → NodeOk kids lo hi p

/-- The children of a node are different. -/
theorem Nested.nodup (h : Nested kids lo hi r) (hp : Desc kids r p) : (kids p).Nodup := by
  refine (h p hp).sorted.imp_of_mem fun {a b} ha _ hab => ?_
  rintro rfl
  exact absurd hab (not_lt.2 (h a (hp.child ha)).ordered)

/-- The nodes below a node lie inside it. -/
theorem Nested.inside (h : Nested kids lo hi r) (hp : Desc kids r p) (hn : Desc kids p n) :
    lo p ≤ lo n ∧ hi n ≤ hi p := by
  induction hn with
  | refl => exact ⟨le_rfl, le_rfl⟩
  | tail hq hn ih =>
      obtain ⟨hlo, hhi⟩ := (h _ (hp.trans hq)).inside _ hn
      exact ⟨ih.1.trans hlo, hhi.trans ih.2⟩

/-- Of two children one is behind the other. -/
theorem NodeOk.apart {a b : ι} (h : NodeOk kids lo hi p) (ha : a ∈ kids p) (hb : b ∈ kids p)
    (hne : a ≠ b) : hi a < lo b ∨ hi b < lo a := by
  have hsym : (kids p).Pairwise fun a b => hi a < lo b ∨ hi b < lo a :=
    h.sorted.imp fun hab => .inl hab
  have : Std.Symm fun a b => hi a < lo b ∨ hi b < lo a := ⟨fun _ _ hab => hab.symm⟩
  exact hsym.forall ha hb hne

/-- Of two nodes one lies below the other, or their ranges are apart. -/
theorem Nested.apart {a b : ι} (h : Nested kids lo hi r) (ha : Desc kids r a)
    (hb : Desc kids r b) : Desc kids a b ∨ Desc kids b a ∨ hi a < lo b ∨ hi b < lo a := by
  induction ha using Relation.ReflTransGen.head_induction_on with
  | refl => exact .inl hb
  | @head p x hx hxa ih =>
      rcases Relation.ReflTransGen.cases_head hb with rfl | ⟨y, hy, hyb⟩
      · exact .inr (.inl (Relation.ReflTransGen.head hx hxa))
      · by_cases hxy : x = y
        · subst hxy
          exact ih (fun q hq => h q (Relation.ReflTransGen.head hx hq)) hyb
        · have hxin := h.inside (Desc.child .refl hx) hxa
          have hyin := h.inside (Desc.child .refl hy) hyb
          rcases (h p .refl).apart hx hy hxy with hlt | hlt
          · exact .inr (.inr (.inl (hxin.2.trans_lt (hlt.trans_le hyin.1))))
          · exact .inr (.inr (.inr (hyin.2.trans_lt (hlt.trans_le hxin.1))))

end Ranges

end Nesting
