/-
The shape of a resource tree, and the ways to change it.

The lists of children are read off the chains of siblings.  Five changes keep the shape: a resource
that heads a tree of its own is put between two children of another one, a resource is taken out
with all that is below it, or its children take its place, a resource takes the place of some
neighbours and becomes their parent, and a range is moved inside its bounds.

* `StarOS.Resources.InTree`, `StarOS.Resources.TreeOk` — the resources that are reached from the
  root, and what is asked of them;
* `StarOS.Resources.Fine`, `StarOS.Resources.Heads`, `StarOS.Resources.Tree` — the shape, for given
  lists of children;
* `StarOS.Resources.Tree.treeOk` — a tree is as it should be;
* `StarOS.Resources.Grafting`, `StarOS.Resources.Dissolving`, `StarOS.Resources.Covering` — what
  three of the changes do to the records;
* `StarOS.Resources.Tree.graft`, `StarOS.Resources.Tree.prune`, `StarOS.Resources.Tree.dissolve`,
  `StarOS.Resources.Tree.cover`, `StarOS.Resources.Tree.resize` — the changes.
-/

import StarOS.Nesting
import StarOS.Resource

set_option autoImplicit false

namespace StarOS

namespace Resources

open Nesting (Desc)

variable {h h' : Resources} {kids kids' : ℕ → List ℕ} {r p q n : ℕ}

/-! ### The law -/

/-- `n` is in the chain of children of `p`. -/
def IsChild (h : Resources) (p n : ℕ) : Prop := ∃ l, Links.IsList h (h.child p) l ∧ n ∈ l

/-- `n` is the root `r`, or is reached from it. -/
def InTree (h : Resources) (r n : ℕ) : Prop := Relation.ReflTransGen h.IsChild r n

/-- What is asked of a tree: every resource has a range, and lies inside its parent; the chains of
children end, are sorted, do not overlap, and name their parent; and every resource is reached along
exactly one path. -/
structure TreeOk (h : Resources) (r : ℕ) : Prop where
  ordered : ∀ n, h.InTree r n → h.start n ≤ h.end_ n
  inside : ∀ p n, h.InTree r p → h.IsChild p n →
    h.start p ≤ h.start n ∧ h.end_ n ≤ h.end_ p
  chains : ∀ p, h.InTree r p → ∃ l, Links.IsList h (h.child p) l ∧
    (l.Pairwise fun a b => h.start a < h.start b ∧ h.end_ a < h.start b) ∧
    ∀ n ∈ l, h.parent n = some p
  paths : ∀ n, h.InTree r n → ∃! path, Nesting.IsPath h.IsChild r n path

/-! ### The shape -/

/-- The start of a range, as a number. -/
def lo (h : Resources) (n : ℕ) : ℕ := (h.start n).toNat

/-- The end of a range, as a number. -/
def hi (h : Resources) (n : ℕ) : ℕ := (h.end_ n).toNat

theorem lo_eq (hstart : h'.start = h.start) : h'.lo = h.lo := by
  funext n
  rw [lo, hstart, lo]

theorem hi_eq (hend : h'.end_ = h.end_) : h'.hi = h.hi := by
  funext n
  rw [hi, hend, hi]

/-- The chain of a resource is its list of children, which name it as their parent, and lie inside
it in order. -/
structure Fine (h : Resources) (kids : ℕ → List ℕ) (p : ℕ) : Prop where
  node : Nesting.NodeOk kids h.lo h.hi p
  chain : Links.IsList h (h.child p) (kids p)
  parent : ∀ n ∈ kids p, h.parent n = some p

/-- The shape of the resources below `r`. -/
def Heads (h : Resources) (kids : ℕ → List ℕ) (r : ℕ) : Prop :=
  ∀ p, Desc kids r p → h.Fine kids p

/-- The shape of the tree with root `r`. -/
structure Tree (h : Resources) (kids : ℕ → List ℕ) (r : ℕ) : Prop where
  heads : h.Heads kids r
  root : h.parent r = none

theorem Heads.nested (ht : h.Heads kids r) : Nesting.Nested kids h.lo h.hi r :=
  fun p hp => (ht p hp).node

theorem Tree.rooted (ht : h.Tree kids r) : Nesting.Rooted kids h.parent r :=
  ⟨ht.root, fun p hp => (ht.heads p hp).parent⟩

theorem Heads.nodup (ht : h.Heads kids r) (hp : Desc kids r p) : (kids p).Nodup :=
  ht.nested.nodup hp

/-- A child is not among its siblings. -/
theorem Heads.not_mem_rest {l₁ l₂ : List ℕ} (ht : h.Heads kids r) (hp : Desc kids r p)
    (hk : kids p = l₁ ++ n :: l₂) : n ∉ l₁ ++ l₂ := by
  have hnodup := ht.nodup hp
  rw [hk] at hnodup
  exact (List.nodup_cons.1 (List.nodup_middle.1 hnodup)).1

/-- The children in front are not behind. -/
theorem Heads.not_mem_behind {l₁ l₂ : List ℕ} (ht : h.Heads kids r) (hp : Desc kids r p)
    (hk : kids p = l₁ ++ l₂) (hn : n ∈ l₁) : n ∉ l₂ := by
  have hnodup := ht.nodup hp
  rw [hk] at hnodup
  exact fun hn' => (List.nodup_append.1 hnodup).2.2 n hn n hn' rfl

theorem Fine.isChild_iff (hf : h.Fine kids p) : h.IsChild p n ↔ n ∈ kids p := by
  constructor
  · rintro ⟨l, hl, hn⟩
    rwa [hl.unique hf.chain] at hn
  · exact fun hn => ⟨kids p, hf.chain, hn⟩

/-- The resources that are reached are those below the root. -/
theorem Heads.inTree_iff (ht : h.Heads kids r) : h.InTree r n ↔ Desc kids r n := by
  constructor
  · intro hn
    induction hn with
    | refl => exact .refl
    | tail _ hchild ih => exact ih.child ((ht _ ih).isChild_iff.1 hchild)
  · intro hn
    induction hn with
    | refl => exact .refl
    | tail hp hchild ih => exact ih.tail ((ht _ hp).isChild_iff.2 hchild)

/-- A tree is as it should be. -/
theorem Tree.treeOk (ht : h.Tree kids r) : h.TreeOk r where
  ordered n hn := (ht.heads n (ht.heads.inTree_iff.1 hn)).node.ordered
  inside p n hp hn := by
    have hf := ht.heads p (ht.heads.inTree_iff.1 hp)
    exact hf.node.inside n (hf.isChild_iff.1 hn)
  chains p hp := by
    have hp := ht.heads.inTree_iff.1 hp
    have hf := ht.heads p hp
    refine ⟨kids p, hf.chain, hf.node.sorted.imp_of_mem fun {a b} ha _ hab => ⟨?_, hab⟩, hf.parent⟩
    exact lt_of_le_of_lt (b := h.hi a) (ht.heads a (hp.child ha)).node.ordered hab
  paths n hn := by
    refine Nesting.existsUnique_path ht.root (fun p n hp hn => ?_) hn
    have hf := ht.heads p (ht.heads.inTree_iff.1 hp)
    exact hf.parent n (hf.isChild_iff.1 hn)

/-! ### Places -/

section Places

variable {x y : ResLink} {v : Option ℕ}

@[simp] theorem get_setParent (h : Resources) (n : ℕ) (v : Option ℕ) (x : ResLink) :
    (h.setParent n v).get x = h.get x := by
  cases x <;> rfl

@[simp] theorem get_setRange (h : Resources) (n : ℕ) (s e : BitVec 64) (x : ResLink) :
    (h.setRange n s e).get x = h.get x := by
  cases x <;> rfl

theorem get_setSibling_of_ne (h : Resources) {n : ℕ} (v : Option ℕ) (hy : y ≠ .sibling n) :
    (h.setSibling n v).get y = h.get y := by
  cases y with
  | child a => rfl
  | sibling a => exact Function.update_of_ne (fun han => hy (congrArg _ han)) ..

theorem get_setChild_of_ne (h : Resources) {n : ℕ} (v : Option ℕ) (hy : y ≠ .child n) :
    (h.setChild n v).get y = h.get y := by
  cases y with
  | child a => exact Function.update_of_ne (fun han => hy (congrArg _ han)) ..
  | sibling a => rfl

theorem get_put_self (h : Resources) (v : Option ℕ) (x : ResLink) : (h.put v x).get x = v := by
  cases x <;> exact Function.update_self ..

theorem get_put_of_ne (h : Resources) (v : Option ℕ) (hxy : y ≠ x) :
    (h.put v x).get y = h.get y := by
  cases x with
  | child a =>
      cases y with
      | child b => exact Function.update_of_ne (fun hab => hxy (congrArg _ hab)) ..
      | sibling b => rfl
  | sibling a =>
      cases y with
      | child b => rfl
      | sibling b => exact Function.update_of_ne (fun hab => hxy (congrArg _ hab)) ..

theorem put_parent (h : Resources) (v : Option ℕ) (x : ResLink) :
    (h.put v x).parent = h.parent := by
  cases x <;> rfl

theorem put_start (h : Resources) (v : Option ℕ) (x : ResLink) : (h.put v x).start = h.start := by
  cases x <;> rfl

theorem put_end (h : Resources) (v : Option ℕ) (x : ResLink) : (h.put v x).end_ = h.end_ := by
  cases x <;> rfl

end Places

/-- The place behind the last one of some resources that follow each other. -/
def linkAfter : ResLink → List ℕ → ResLink
  | x, [] => x
  | _, a :: l => linkAfter (.sibling a) l

/-- The resources that follow each other from a place on begin with a list. -/
def Prefix (h : Resources) : ResLink → List ℕ → Prop
  | _, [] => True
  | x, a :: l => h.get x = some a ∧ Prefix h (.sibling a) l

section Chains

variable {x : ResLink} {l l₁ l₂ m m' : List ℕ}

theorem linkAfter_concat (x : ResLink) (l : List ℕ) (a : ℕ) :
    linkAfter x (l ++ [a]) = .sibling a := by
  induction l generalizing x with
  | nil => rfl
  | cons b l ih => exact ih _

theorem linkAfter_cases (x : ResLink) (l : List ℕ) :
    (l = [] ∧ linkAfter x l = x) ∨ ∃ a ∈ l, linkAfter x l = .sibling a := by
  rcases l.eq_nil_or_concat' with rfl | ⟨k, a, rfl⟩
  · exact .inl ⟨rfl, rfl⟩
  · exact .inr ⟨a, List.mem_append_right _ (List.mem_singleton.2 rfl), linkAfter_concat x k a⟩

theorem isList_append : Links.IsList h (h.get x) (l₁ ++ l₂) ↔
    h.Prefix x l₁ ∧ Links.IsList h (h.get (linkAfter x l₁)) l₂ := by
  induction l₁ generalizing x with
  | nil => simp [Prefix, linkAfter]
  | cons a l₁ ih =>
      rw [List.cons_append, Links.isList_cons, Prefix, linkAfter, and_assoc]
      exact and_congr_right fun _ => ih (x := .sibling a)

theorem isList_head {v : Option ℕ} (hl : Links.IsList h v l) : v = l.head? := by
  cases l with
  | nil => exact hl
  | cons a l => exact hl.1

/-- Only the last place of a prefix changes. -/
theorem Prefix.congr (hp : h.Prefix x l) (hnodup : l.Nodup) (hne : ∀ a ∈ l, x ≠ .sibling a)
    (hsame : ∀ y, y ≠ linkAfter x l → (y = x ∨ ∃ a ∈ l, y = .sibling a) → h'.get y = h.get y) :
    h'.Prefix x l := by
  induction l generalizing x with
  | nil => trivial
  | cons a l ih =>
      obtain ⟨hal, hnodup⟩ := List.nodup_cons.1 hnodup
      have hx : x ≠ linkAfter (.sibling a) l := by
        rcases linkAfter_cases (.sibling a) l with ⟨-, hlast⟩ | ⟨b, hb, hlast⟩
        · rw [hlast]
          exact hne a List.mem_cons_self
        · rw [hlast]
          exact hne b (List.mem_cons_of_mem _ hb)
      refine ⟨(hsame x hx (.inl rfl)).trans hp.1, ih hp.2 hnodup (fun b hb hab => ?_) ?_⟩
      · cases hab
        exact hal hb
      · rintro y hy (rfl | ⟨b, hb, rfl⟩)
        · exact hsame _ hy (.inr ⟨a, List.mem_cons_self, rfl⟩)
        · exact hsame _ hy (.inr ⟨b, List.mem_cons_of_mem _ hb, rfl⟩)

/-- A part of a chain is replaced. -/
theorem isList_replace (hl : Links.IsList h (h.child q) (l₁ ++ (m ++ l₂))) (hnodup : l₁.Nodup)
    (hsame : ∀ y, y ≠ linkAfter (.child q) l₁ → (y = .child q ∨ ∃ a ∈ l₁, y = .sibling a) →
      h'.get y = h.get y)
    (hmid : Links.IsList h' (h'.get (linkAfter (.child q) l₁)) (m' ++ l₂)) :
    Links.IsList h' (h'.child q) (l₁ ++ (m' ++ l₂)) := by
  have hfront := (isList_append (x := .child q)).1 hl
  refine (isList_append (x := .child q)).2 ⟨hfront.1.congr hnodup (fun a _ hx => ?_) hsame, hmid⟩
  cases hx

/-- A part of a chain is cut off at its end. -/
theorem isList_cut {first next : ℕ} {k : List ℕ} (hl : Links.IsList h (h.get x) (m ++ l₂))
    (hnodup : m.Nodup) (hfirst : m.head? = some first) (hnext : m = k ++ [next])
    (hsame : ∀ a ∈ m, a ≠ next → h'.get (.sibling a) = h.get (.sibling a))
    (hend : h'.get (.sibling next) = none) : Links.IsList h' (some first) m := by
  have hmid := (isList_append.1 hl).1
  cases m with
  | nil => cases hfirst
  | cons a m =>
      cases hfirst
      obtain ⟨ham, hnodup⟩ := List.nodup_cons.1 hnodup
      have hafter : linkAfter (.sibling first) m = .sibling next := by
        have hlast := linkAfter_concat x k next
        rwa [← hnext] at hlast
      have hfront : h'.Prefix (.sibling first) m := by
        refine hmid.2.congr hnodup (fun b hb heq => ?_) fun y hy hor => ?_
        · cases heq
          exact ham hb
        · rw [hafter] at hy
          have hin : ∃ b ∈ first :: m, y = .sibling b := by
            rcases hor with rfl | ⟨b, hb, rfl⟩
            · exact ⟨first, List.mem_cons_self, rfl⟩
            · exact ⟨b, List.mem_cons_of_mem _ hb, rfl⟩
          obtain ⟨b, hb, rfl⟩ := hin
          exact hsame b hb fun hbn => hy (congrArg _ hbn)
      have hlist : Links.IsList h' (h'.get (.sibling first)) (m ++ []) := by
        refine isList_append.2 ⟨hfront, ?_⟩
        rw [hafter]
        exact hend
      rw [List.append_nil] at hlist
      exact ⟨rfl, hlist⟩

end Chains

/-! ### Changes -/

section Changes

variable {l₁ l₂ m m' : List ℕ}

/-- What is fine on a set of resources that their children stay in is fine below each of them. -/
theorem heads_of_closed {S : ℕ → Prop} (hr : S r) (hS : ∀ p, S p → ∀ n ∈ kids p, S n)
    (hfine : ∀ p, S p → h.Fine kids p) : h.Heads kids r :=
  fun p hp => hfine p (hp.closed hr hS)

theorem Fine.keep (hf : h.Fine kids p) (hk : kids' p = kids p) (hstart : h'.start = h.start)
    (hend : h'.end_ = h.end_) (hchild : h'.get (.child p) = h.get (.child p))
    (hsib : ∀ n ∈ kids p, h'.get (.sibling n) = h.get (.sibling n))
    (hparent : ∀ n ∈ kids p, h'.parent n = h.parent n) : h'.Fine kids' p where
  node := by
    rw [lo_eq hstart, hi_eq hend]
    refine ⟨hf.node.ordered, ?_, ?_⟩
    · rw [hk]
      exact hf.node.inside
    · rw [hk]
      exact hf.node.sorted
  chain := by
    have hchain := hf.chain.congr hsib
    rw [hk]
    rwa [← show h'.child p = h.child p from hchild] at hchain
  parent n hn := by
    rw [hk] at hn
    rw [hparent n hn]
    exact hf.parent n hn

/-- The parent of the resources that are replaced. -/
theorem Fine.replace (hf : h.Fine kids q) (hk : kids q = l₁ ++ (m ++ l₂))
    (hk' : kids' q = l₁ ++ (m' ++ l₂)) (hnodup : (kids q).Nodup) (hstart : h'.start = h.start)
    (hend : h'.end_ = h.end_)
    (hsame : ∀ y, y ≠ linkAfter (.child q) l₁ → (y = .child q ∨ ∃ a ∈ l₁, y = .sibling a) →
      h'.get y = h.get y)
    (hmid : Links.IsList h' (h'.get (linkAfter (.child q) l₁)) (m' ++ l₂))
    (hother : ∀ n ∈ l₁ ++ l₂, h'.parent n = h.parent n)
    (hparent : ∀ n ∈ m', h'.parent n = some q)
    (hinside : ∀ n ∈ m', h.lo q ≤ h.lo n ∧ h.hi n ≤ h.hi q)
    (hsorted : m'.Pairwise fun a b => h.hi a < h.lo b)
    (hbefore : ∀ a ∈ l₁, ∀ n ∈ m', h.hi a < h.lo n)
    (hbehind : ∀ n ∈ m', ∀ b ∈ l₂, h.hi n < h.lo b) : h'.Fine kids' q where
  node := by
    have hold := hf.node.sorted
    rw [hk, List.pairwise_append, List.pairwise_append] at hold
    obtain ⟨h₁, ⟨-, h₂, -⟩, h₁₂⟩ := hold
    rw [lo_eq hstart, hi_eq hend]
    refine ⟨hf.node.ordered, fun n hn => ?_, ?_⟩
    · rw [hk', List.mem_append, List.mem_append] at hn
      rcases hn with hn | hn | hn
      · exact hf.node.inside n (by rw [hk]; simp [hn])
      · exact hinside n hn
      · exact hf.node.inside n (by rw [hk]; simp [hn])
    · rw [hk', List.pairwise_append, List.pairwise_append]
      refine ⟨h₁, ⟨hsorted, h₂, hbehind⟩, fun a ha b hb => ?_⟩
      rcases List.mem_append.1 hb with hb | hb
      · exact hbefore a ha b hb
      · exact h₁₂ a ha b (List.mem_append_right _ hb)
  chain := by
    rw [hk']
    have hchain := hf.chain
    rw [hk] at hchain hnodup
    exact isList_replace hchain (List.nodup_append.1 hnodup).1 hsame hmid
  parent n hn := by
    rw [hk', List.mem_append, List.mem_append] at hn
    rcases hn with hn | hn | hn
    · rw [hother n (List.mem_append_left _ hn)]
      exact hf.parent n (by rw [hk]; simp [hn])
    · exact hparent n hn
    · rw [hother n (List.mem_append_right _ hn)]
      exact hf.parent n (by rw [hk]; simp [hn])

/-- The parent of the resources that are replaced by a single one. -/
theorem Fine.replaceOne {new : ℕ} (hf : h.Fine kids q) (hk : kids q = l₁ ++ (m ++ l₂))
    (hk' : kids' q = l₁ ++ ([new] ++ l₂)) (hnodup : (kids q).Nodup) (hstart : h'.start = h.start)
    (hend : h'.end_ = h.end_)
    (hsame : ∀ y, y ≠ linkAfter (.child q) l₁ → (y = .child q ∨ ∃ a ∈ l₁, y = .sibling a) →
      h'.get y = h.get y)
    (hself : h'.get (linkAfter (.child q) l₁) = some new)
    (htail : Links.IsList h' (h'.get (.sibling new)) l₂)
    (hother : ∀ n ∈ l₁ ++ l₂, h'.parent n = h.parent n) (hparent : h'.parent new = some q)
    (hinside : h.lo q ≤ h.lo new ∧ h.hi new ≤ h.hi q) (hbefore : ∀ a ∈ l₁, h.hi a < h.lo new)
    (hbehind : ∀ b ∈ l₂, h.hi new < h.lo b) : h'.Fine kids' q := by
  refine hf.replace hk hk' hnodup hstart hend hsame ?_ hother (fun n hn => ?_) (fun n hn => ?_)
    (List.pairwise_singleton _ _) (fun a ha n hn => ?_) fun n hn b hb => ?_
  · rw [hself]
    exact ⟨rfl, htail⟩
  all_goals rw [List.mem_singleton.1 hn]
  · exact hparent
  · exact hinside
  · exact hbefore a ha
  · exact hbehind b hb

theorem child_ne_linkAfter (hpq : p ≠ q) : .child p ≠ linkAfter (.child q) l₁ := by
  rcases linkAfter_cases (.child q) l₁ with ⟨-, hlast⟩ | ⟨a, -, hlast⟩
  · rw [hlast]
    intro heq
    cases heq
    exact hpq rfl
  · rw [hlast]
    intro heq
    cases heq

theorem sibling_ne_linkAfter (hn : n ∉ l₁) : .sibling n ≠ linkAfter (.child q) l₁ := by
  rcases linkAfter_cases (.child q) l₁ with ⟨-, hlast⟩ | ⟨a, ha, hlast⟩
  · rw [hlast]
    intro heq
    cases heq
  · rw [hlast]
    intro heq
    cases heq
    exact hn ha

/-- The children of a resource are not among those of another one. -/
theorem Tree.not_mem (ht : h.Tree kids r) (hp : Desc kids r p) (hq : Desc kids r q)
    (hpq : p ≠ q) (hn : n ∈ kids p) : n ∉ kids q :=
  fun hn' => hpq (ht.rooted.parent_unique hp hq hn hn')

/-- A resource elsewhere keeps its children. -/
theorem Tree.fine_elsewhere (ht : h.Tree kids r) (hp : Desc kids r p) (hq : Desc kids r q)
    (hpq : p ≠ q) (hk : kids q = l₁ ++ l₂) (hk' : kids' p = kids p) (hstart : h'.start = h.start)
    (hend : h'.end_ = h.end_)
    (hsame : ∀ y, y ≠ linkAfter (.child q) l₁ → (y = .child p ∨ ∃ n ∈ kids p, y = .sibling n) →
      h'.get y = h.get y)
    (hparent : ∀ n ∈ kids p, h'.parent n = h.parent n) : h'.Fine kids' p := by
  refine (ht.heads p hp).keep hk' hstart hend (hsame _ (child_ne_linkAfter hpq) (.inl rfl))
    (fun n hn => hsame _ (sibling_ne_linkAfter fun hn' => ?_) (.inr ⟨n, hn, rfl⟩)) hparent
  exact ht.not_mem hp hq hpq hn (by simp [hk, hn'])

/-- A resource is taken out of the tree, with all that is below it. -/
theorem Tree.prune {old : ℕ} (ht : h.Tree kids r) (hq : Desc kids r q)
    (hk : kids q = l₁ ++ old :: l₂) :
    ((h.put (h.sibling old) (linkAfter (.child q) l₁)).setParent old none).Tree
      (Function.update kids q (l₁ ++ l₂)) r := by
  have hmem : old ∈ kids q := by simp [hk]
  have hparent : ∀ n, n ≠ old →
      ((h.put (h.sibling old) (linkAfter (.child q) l₁)).setParent old none).parent n =
        h.parent n := by
    intro n hn
    change Function.update (h.put _ _).parent old none n = _
    rw [Function.update_of_ne hn, put_parent]
  refine ⟨heads_of_closed (S := Desc kids r) .refl (fun p hp n hn => ?_) fun p hp => ?_, ?_⟩
  · by_cases hpq : p = q
    · subst hpq
      rw [Function.update_self] at hn
      refine hp.child ?_
      rw [hk]
      rcases List.mem_append.1 hn with hn | hn <;> simp [hn]
    · rw [Function.update_of_ne hpq] at hn
      exact hp.child hn
  · by_cases hpq : p = q
    · subst hpq
      have hchain := (ht.heads p hp).chain
      rw [hk] at hchain
      obtain ⟨-, -, htail⟩ := (isList_append (x := .child p)).1 hchain
      have hmid : kids p = l₁ ++ ([old] ++ l₂) := hk
      have hmid' : Function.update kids p (l₁ ++ l₂) p = l₁ ++ ([] ++ l₂) :=
        Function.update_self ..
      refine (ht.heads p hp).replace hmid hmid' (ht.heads.nodup hp)
        (put_start ..) (put_end ..) (fun y hy _ => ?_) ?_ (fun n hn => ?_)
        (fun n hn => absurd hn List.not_mem_nil) (fun n hn => absurd hn List.not_mem_nil) .nil
        (fun a _ n hn => absurd hn List.not_mem_nil) fun n hn => absurd hn List.not_mem_nil
      · rw [get_setParent, get_put_of_ne _ _ hy]
      · rw [get_setParent, get_put_self]
        refine htail.congr fun a ha => ?_
        change ((h.put _ _).setParent old none).get (.sibling a) = h.get (.sibling a)
        rw [get_setParent, get_put_of_ne]
        refine sibling_ne_linkAfter fun ha' => ?_
        exact ht.heads.not_mem_behind hp hk ha' (List.mem_cons_of_mem _ ha)
      · refine hparent n ?_
        rintro rfl
        exact ht.heads.not_mem_rest hp hk hn
    · refine ht.fine_elsewhere hp hq hpq hk (Function.update_of_ne hpq ..) (put_start ..)
        (put_end ..) (fun y hy _ => ?_) fun n hn => hparent n ?_
      · rw [get_setParent, get_put_of_ne _ _ hy]
      · rintro rfl
        exact ht.not_mem hp hq hpq hn hmem
  · rw [hparent r (ht.rooted.not_root hq hmem).symm]
    exact ht.root

section Graft

variable {new : ℕ}

/-- The records after `new` was put between `l₁` and `l₂`. -/
structure Grafting (h h' : Resources) (q : ℕ) (l₁ l₂ : List ℕ) (new : ℕ) : Prop where
  start : h'.start = h.start
  end_ : h'.end_ = h.end_
  link : h'.get (linkAfter (.child q) l₁) = some new
  sibling_new : h'.get (.sibling new) = l₂.head?
  others : ∀ y, y ≠ linkAfter (.child q) l₁ → y ≠ .sibling new → h'.get y = h.get y
  parent_new : h'.parent new = some q
  parent : ∀ n ≠ new, h'.parent n = h.parent n

theorem grafting (h : Resources) (q : ℕ) (hnew : new ∉ l₁) (l₂ : List ℕ) :
    h.Grafting (((h.setSibling new l₂.head?).put (some new)
      (linkAfter (.child q) l₁)).setParent new (some q)) q l₁ l₂ new where
  start := put_start ..
  end_ := put_end ..
  link := by
    rw [get_setParent, get_put_self]
  sibling_new := by
    rw [get_setParent, get_put_of_ne _ _ (sibling_ne_linkAfter hnew)]
    exact Function.update_self ..
  others y hy hne := by
    rw [get_setParent, get_put_of_ne _ _ hy, get_setSibling_of_ne _ _ hne]
  parent_new := Function.update_self ..
  parent n hn := by
    change Function.update ((h.setSibling new l₂.head?).put _ _).parent new (some q) n = _
    rw [Function.update_of_ne hn, put_parent]
    rfl

/-- The links in front of `new` stay. -/
theorem Grafting.front (hg : h.Grafting h' q l₁ l₂ new) (hnew : new ∉ l₁) {y : ResLink}
    (hy : y ≠ linkAfter (.child q) l₁) (hor : y = .child q ∨ ∃ a ∈ l₁, y = .sibling a) :
    h'.get y = h.get y := by
  refine hg.others y hy ?_
  rintro rfl
  rcases hor with heq | ⟨a, ha, heq⟩
  · cases heq
  · cases heq
    exact hnew ha

/-- The chain behind `new` stays. -/
theorem Grafting.tail (hg : h.Grafting h' q l₁ l₂ new) (hf : h.Fine kids q)
    (hnodup : (kids q).Nodup) (hk : kids q = l₁ ++ l₂) (hnew : new ∉ kids q) :
    Links.IsList h' (h'.get (.sibling new)) l₂ := by
  have hchain := hf.chain
  rw [hk] at hchain hnodup hnew
  have htail := ((isList_append (x := .child q)).1 hchain).2
  rw [hg.sibling_new, ← isList_head htail]
  refine htail.congr fun b hb => hg.others (.sibling b) ?_ ?_
  · refine sibling_ne_linkAfter fun hb' => ?_
    exact (List.nodup_append.1 hnodup).2.2 b hb' b hb rfl
  · intro heq
    cases heq
    exact hnew (List.mem_append_right _ hb)

/-- The chain of children, with the new one among them. -/
theorem Grafting.chain (hg : h.Grafting h' q l₁ l₂ new) (hf : h.Fine kids q)
    (hnodup : (kids q).Nodup) (hk : kids q = l₁ ++ l₂) (hnew : new ∉ kids q) :
    Links.IsList h' (h'.child q) (l₁ ++ ([new] ++ l₂)) := by
  have htail := hg.tail hf hnodup hk hnew
  have hchain : Links.IsList h (h.child q) (l₁ ++ ([] ++ l₂)) := by
    rw [List.nil_append, ← hk]
    exact hf.chain
  rw [hk] at hnodup hnew
  refine isList_replace hchain (List.nodup_append.1 hnodup).1 (fun y hy hor => ?_) ?_
  · exact hg.front (fun hn => hnew (List.mem_append_left _ hn)) hy hor
  · rw [hg.link]
    exact ⟨rfl, htail⟩

/-- The resource that gets the new one. -/
theorem Grafting.fine_host (hg : h.Grafting h' q l₁ l₂ new) (hf : h.Fine kids q)
    (hnodup : (kids q).Nodup) (hk : kids q = l₁ ++ l₂) (hnew : new ∉ kids q)
    (hinside : h.lo q ≤ h.lo new ∧ h.hi new ≤ h.hi q) (hbefore : ∀ a ∈ l₁, h.hi a < h.lo new)
    (hbehind : ∀ b ∈ l₂, h.hi new < h.lo b) (hk' : kids' q = l₁ ++ ([new] ++ l₂)) :
    h'.Fine kids' q := by
  have hmid : kids q = l₁ ++ ([] ++ l₂) := hk
  refine hf.replaceOne hmid hk' hnodup hg.start hg.end_ (fun y hy hor => ?_) hg.link
    (hg.tail hf hnodup hk hnew) (fun n hn => hg.parent n ?_) hg.parent_new hinside hbefore hbehind
  · exact hg.front (fun hn => hnew (by simp [hk, hn])) hy hor
  · rintro rfl
    exact hnew (hk ▸ hn)

/-- The other resources of the tree. -/
theorem Grafting.fine_elsewhere (hg : h.Grafting h' q l₁ l₂ new) (ht : h.Tree kids r)
    (hq : Desc kids r q) (hk : kids q = l₁ ++ l₂) (hnot : ¬ Desc kids r new)
    (hp : Desc kids r p) (hpq : p ≠ q) (hk' : kids' p = kids p) : h'.Fine kids' p := by
  have hmem : new ∉ kids p := fun hn => hnot (hp.child hn)
  refine ht.fine_elsewhere hp hq hpq hk hk' hg.start hg.end_ (fun y hy hor => hg.others y hy ?_)
    fun n hn => hg.parent n ?_
  · rintro rfl
    rcases hor with heq | ⟨n, hn, heq⟩
    · cases heq
    · cases heq
      exact hmem hn
  · rintro rfl
    exact hmem hn

/-- The resource `new` heads a tree of its own, apart from the tree with root `r`. -/
structure Apart (h : Resources) (kids kids' : ℕ → List ℕ) (r new : ℕ) : Prop where
  heads : h.Heads kids' new
  acyclic : ∀ p, Desc kids' new p → new ∉ kids' p
  apart : ∀ x, Desc kids' new x → ¬ Desc kids r x

/-- The resources below the new one. -/
theorem Grafting.fine_below {kids'' : ℕ → List ℕ} (hg : h.Grafting h' q l₁ l₂ new)
    (hq : Desc kids r q) (hk : kids q = l₁ ++ l₂) (hnew : h.Apart kids kids' r new)
    (hp : Desc kids' new p) (hk' : kids'' p = kids' p) : h'.Fine kids'' p := by
  have hpq : p ≠ q := by
    rintro rfl
    exact hnew.apart p hp hq
  refine (hnew.heads p hp).keep hk' hg.start hg.end_ ?_ (fun n hn => hg.others _ ?_ ?_)
    fun n hn => hg.parent n ?_
  · exact hg.others _ (child_ne_linkAfter hpq) fun heq => by cases heq
  · refine sibling_ne_linkAfter fun hn' => ?_
    exact hnew.apart n (hp.child hn) (hq.child (by simp [hk, hn']))
  · intro heq
    cases heq
    exact hnew.acyclic p hp hn
  · rintro rfl
    exact hnew.acyclic p hp hn

/-- A resource is put between two children of another one. -/
theorem Tree.graft (ht : h.Tree kids r) (hq : Desc kids r q)
    (hk : kids q = l₁ ++ l₂) (hnew : h.Apart kids kids' r new)
    (hinside : h.lo q ≤ h.lo new ∧ h.hi new ≤ h.hi q) (hbefore : ∀ a ∈ l₁, h.hi a < h.lo new)
    (hbehind : ∀ b ∈ l₂, h.hi new < h.lo b) :
    ∃ kids'', (((h.setSibling new l₂.head?).put (some new)
      (linkAfter (.child q) l₁)).setParent new (some q)).Tree kids'' r ∧
        kids'' q = l₁ ++ new :: l₂ ∧ (∀ p, Desc kids r p → p ≠ q → kids'' p = kids p) ∧
          ∀ p, Desc kids' new p → kids'' p = kids' p := by
  classical
  have hnot : ¬ Desc kids r new := hnew.apart new .refl
  have hnewq : new ∉ kids q := fun hn => hnot (hq.child hn)
  have hg := h.grafting q (fun hn : new ∈ l₁ => hnewq (by simp [hk, hn])) l₂
  obtain ⟨kids'', hbelow, hself, hother⟩ : ∃ kids'' : ℕ → List ℕ,
      (∀ p, Desc kids' new p → kids'' p = kids' p) ∧ kids'' q = l₁ ++ new :: l₂ ∧
        ∀ p, Desc kids r p → p ≠ q → kids'' p = kids p := by
    refine ⟨fun x => if Desc kids' new x then kids' x else if x = q then l₁ ++ new :: l₂
      else kids x, fun p hp => if_pos hp, ?_, fun p hp hpq => ?_⟩
    · exact (if_neg fun hqnew => hnew.apart q hqnew hq).trans (if_pos rfl)
    · exact (if_neg fun hpnew => hnew.apart p hpnew hp).trans (if_neg hpq)
  refine ⟨kids'', ⟨heads_of_closed (S := fun x => Desc kids r x ∨ Desc kids' new x) (.inl .refl)
    (fun p hp n hn => ?_) fun p hp => ?_, ?_⟩, hself, hother, hbelow⟩
  · rcases hp with hp | hp
    · by_cases hpq : p = q
      · rw [hpq, hself, List.mem_append, List.mem_cons] at hn
        rcases hn with hn | rfl | hn
        · exact .inl (hq.child (by simp [hk, hn]))
        · exact .inr .refl
        · exact .inl (hq.child (by simp [hk, hn]))
      · rw [hother p hp hpq] at hn
        exact .inl (hp.child hn)
    · rw [hbelow p hp] at hn
      exact .inr (hp.child hn)
  · rcases hp with hp | hp
    · by_cases hpq : p = q
      · rw [hpq]
        exact hg.fine_host (ht.heads q hq) (ht.heads.nodup hq) hk hnewq hinside hbefore hbehind
          hself
      · exact hg.fine_elsewhere ht hq hk hnot hp hpq (hother p hp hpq)
    · exact hg.fine_below hq hk hnew hp (hbelow p hp)
  · rw [hg.parent r fun heq => hnot (heq ▸ .refl)]
    exact ht.root

end Graft

/-- The resources of a list get another parent. -/
def adopt (h : Resources) (l : List ℕ) (q : ℕ) : Resources :=
  { h with parent := fun n => if n ∈ l then some q else h.parent n }

@[simp] theorem get_adopt (h : Resources) (l : List ℕ) (q : ℕ) (x : ResLink) :
    (h.adopt l q).get x = h.get x := by
  cases x <;> rfl

section Dissolve

variable {old last : ℕ} {k : List ℕ}

/-- The records after the resources `m` from the first child of `old` to `last` took the place of
`old` behind `l₁`. -/
structure Dissolving (h h' : Resources) (q : ℕ) (l₁ m : List ℕ) (old last : ℕ) : Prop where
  start : h'.start = h.start
  end_ : h'.end_ = h.end_
  link : h'.get (linkAfter (.child q) l₁) = h.child old
  sibling_last : h'.get (.sibling last) = h.sibling old
  others : ∀ y, y ≠ linkAfter (.child q) l₁ → y ≠ .sibling last → h'.get y = h.get y
  parent : ∀ n ≠ old, h'.parent n = if n ∈ m then some q else h.parent n

theorem dissolving (h : Resources) (q : ℕ) (hlast : last ∉ l₁) (old : ℕ) (m : List ℕ) :
    h.Dissolving ((((h.adopt m q).put (h.child old) (linkAfter (.child q) l₁)).setSibling last
      (h.sibling old)).setParent old none) q l₁ m old last where
  start := put_start ..
  end_ := put_end ..
  link := by
    rw [get_setParent, get_setSibling_of_ne _ _ (sibling_ne_linkAfter hlast).symm, get_put_self]
  sibling_last := by
    rw [get_setParent]
    exact Function.update_self ..
  others y hy hne := by
    rw [get_setParent, get_setSibling_of_ne _ _ hne, get_put_of_ne _ _ hy, get_adopt]
  parent n hn := by
    change Function.update ((h.adopt m q).put _ _).parent old none n = _
    rw [Function.update_of_ne hn, put_parent]
    rfl

/-- The parents of the others stay. -/
theorem Dissolving.parent_eq (hd : h.Dissolving h' q l₁ m old last) (hne : n ≠ old) (hn : n ∉ m) :
    h'.parent n = h.parent n := by
  rw [hd.parent n hne, if_neg hn]

/-- The chain of the resource that gets the children: theirs, and behind it the neighbours of
`old`. -/
theorem Dissolving.chain (hd : h.Dissolving h' q l₁ (kids old) old last) (ht : h.Tree kids r)
    (hq : Desc kids r q) (hk : kids q = l₁ ++ old :: l₂) (hold : kids old = k ++ [last]) :
    Links.IsList h' (h'.get (linkAfter (.child q) l₁)) (kids old ++ l₂) := by
  have hmem : old ∈ kids q := by simp [hk]
  have hdesc : Desc kids r old := hq.child hmem
  have hne : old ≠ q := ht.rooted.ne_of_mem hq hmem
  have hapart : ∀ n ∈ kids old, n ∉ kids q := fun n hn => ht.not_mem hdesc hq hne hn
  have hchain := (ht.heads q hq).chain
  rw [hk] at hchain
  obtain ⟨-, -, htail⟩ := (isList_append (x := .child q)).1 hchain
  have hkids : Links.IsList h (h.child old) (kids old ++ ([] ++ [])) := by
    rw [List.append_nil, List.append_nil]
    exact (ht.heads old hdesc).chain
  have hafter : linkAfter (.child old) (kids old) = .sibling last := by
    rw [hold, linkAfter_concat]
  have hchild : h'.get (.child old) = h.child old :=
    hd.others _ (child_ne_linkAfter hne) fun heq => by cases heq
  have happend : Links.IsList h' (h'.child old) (kids old ++ (l₂ ++ [])) := by
    refine isList_replace (h := h) hkids (ht.heads.nodup hdesc) (fun y hy hor => ?_) ?_
    · rw [hafter] at hy
      refine hd.others y ?_ hy
      rcases hor with rfl | ⟨a, ha, rfl⟩
      · exact child_ne_linkAfter hne
      · exact sibling_ne_linkAfter fun ha' => hapart a ha (by simp [hk, ha'])
    · rw [hafter, hd.sibling_last, List.append_nil]
      refine htail.congr fun b hb => hd.others (.sibling b) ?_ ?_
      · refine sibling_ne_linkAfter fun hb' => ?_
        exact ht.heads.not_mem_behind hq hk hb' (List.mem_cons_of_mem _ hb)
      · intro heq
        cases heq
        exact hapart last (by simp [hold]) (by simp [hk, hb])
  rw [hd.link, ← hchild]
  rwa [List.append_nil] at happend

/-- The resource that gets the children. -/
theorem Dissolving.fine_host (hd : h.Dissolving h' q l₁ (kids old) old last) (ht : h.Tree kids r)
    (hq : Desc kids r q) (hk : kids q = l₁ ++ old :: l₂) (hold : kids old = k ++ [last])
    (hk' : kids' q = l₁ ++ (kids old ++ l₂)) : h'.Fine kids' q := by
  have hmem : old ∈ kids q := by simp [hk]
  have hdesc : Desc kids r old := hq.child hmem
  have hne : old ≠ q := ht.rooted.ne_of_mem hq hmem
  have hapart : ∀ n ∈ kids old, n ∉ kids q := fun n hn => ht.not_mem hdesc hq hne hn
  have hf := ht.heads q hq
  have hnot := ht.heads.not_mem_rest hq hk
  have hfold := (ht.heads old hdesc).node
  have hin := hf.node.inside old hmem
  have hsorted := hf.node.sorted
  rw [hk, List.pairwise_append, List.pairwise_cons] at hsorted
  have hmid : kids q = l₁ ++ ([old] ++ l₂) := hk
  have hold' : ∀ n ∈ kids old, n ≠ old := fun n hn => ht.rooted.ne_of_mem hdesc hn
  refine hf.replace hmid hk' (ht.heads.nodup hq) hd.start hd.end_
    (fun y hy hor => hd.others y hy ?_)
    (hd.chain ht hq hk hold) (fun n hn => hd.parent_eq ?_ fun hn' => hapart n hn' ?_)
    (fun n hn => ?_) (fun n hn => ?_) hfold.sorted (fun a ha n hn => ?_) fun n hn b hb => ?_
  · rintro rfl
    rcases hor with heq | ⟨a, ha, heq⟩
    · cases heq
    · cases heq
      exact hapart last (by simp [hold]) (by simp [hk, ha])
  · rintro rfl
    exact hnot hn
  · rcases List.mem_append.1 hn with hn | hn <;> simp [hk, hn]
  · rw [hd.parent n (hold' n hn), if_pos hn]
  · exact ⟨hin.1.trans (hfold.inside n hn).1, (hfold.inside n hn).2.trans hin.2⟩
  · exact (hsorted.2.2 a ha old List.mem_cons_self).trans_le (hfold.inside n hn).1
  · exact (hfold.inside n hn).2.trans_lt (hsorted.2.1.1 b hb)

/-- The other resources. -/
theorem Dissolving.fine_elsewhere (hd : h.Dissolving h' q l₁ (kids old) old last)
    (ht : h.Tree kids r) (hq : Desc kids r q) (hk : kids q = l₁ ++ old :: l₂)
    (hlast : last ∈ kids old) (hp : Desc kids r p) (hpq : p ≠ q) (hpold : p ≠ old)
    (hk' : kids' p = kids p) : h'.Fine kids' p := by
  have hmem : old ∈ kids q := by simp [hk]
  have hapart : ∀ n ∈ kids p, n ∉ kids old := fun n hn =>
    ht.not_mem hp (hq.child hmem) hpold hn
  refine ht.fine_elsewhere hp hq hpq hk hk' hd.start hd.end_ (fun y hy hor => hd.others y hy ?_)
    fun n hn => hd.parent_eq ?_ (hapart n hn)
  · rintro rfl
    rcases hor with heq | ⟨n, hn, heq⟩
    · cases heq
    · cases heq
      exact hapart last hn hlast
  · rintro rfl
    exact ht.not_mem hp hq hpq hn hmem

/-- The children of a resource take its place. -/
theorem Tree.dissolve (ht : h.Tree kids r) (hq : Desc kids r q)
    (hk : kids q = l₁ ++ old :: l₂) (hold : kids old = k ++ [last]) :
    ((((h.adopt (kids old) q).put (h.child old) (linkAfter (.child q) l₁)).setSibling last
      (h.sibling old)).setParent old none).Tree
      (Function.update kids q (l₁ ++ (kids old ++ l₂))) r := by
  have hmem : old ∈ kids q := by simp [hk]
  have hdesc : Desc kids r old := hq.child hmem
  have hlast : last ∈ kids old := by simp [hold]
  have hne : old ≠ q := ht.rooted.ne_of_mem hq hmem
  have hnot := ht.heads.not_mem_rest hq hk
  have hlastl₁ : last ∉ l₁ := fun hn => ht.not_mem hdesc hq hne hlast (by simp [hk, hn])
  have hd := h.dissolving q hlastl₁ old (kids old)
  refine ⟨heads_of_closed (S := fun p => Desc kids r p ∧ p ≠ old)
    ⟨.refl, (ht.rooted.not_root hq hmem).symm⟩ (fun p hp n hn => ?_) fun p hp => ?_, ?_⟩
  · obtain ⟨hp, hpold⟩ := hp
    by_cases hpq : p = q
    · rw [hpq, Function.update_self, List.mem_append, List.mem_append] at hn
      rcases hn with hn | hn | hn
      · refine ⟨hq.child (by simp [hk, hn]), ?_⟩
        rintro rfl
        exact hnot (List.mem_append_left _ hn)
      · exact ⟨hdesc.child hn, ht.rooted.ne_of_mem hdesc hn⟩
      · refine ⟨hq.child (by simp [hk, hn]), ?_⟩
        rintro rfl
        exact hnot (List.mem_append_right _ hn)
    · rw [Function.update_of_ne hpq] at hn
      refine ⟨hp.child hn, ?_⟩
      rintro rfl
      exact ht.not_mem hp hq hpq hn hmem
  · obtain ⟨hp, hpold⟩ := hp
    by_cases hpq : p = q
    · rw [hpq]
      exact hd.fine_host ht hq hk hold (Function.update_self ..)
    · exact hd.fine_elsewhere ht hq hk hlast hp hpq hpold (Function.update_of_ne hpq ..)
  · rw [hd.parent_eq (ht.rooted.not_root hq hmem).symm fun hr => ht.rooted.not_root hdesc hr rfl]
    exact ht.root

end Dissolve

section Cover

variable {new first next : ℕ} {k : List ℕ}

/-- The records after `new` took the place of the neighbours `m` behind `l₁`, whose chain, from
`first` on, ends at `next`. -/
structure Covering (h h' : Resources) (q : ℕ) (l₁ m : List ℕ) (new first next : ℕ) : Prop where
  start : h'.start = h.start
  end_ : h'.end_ = h.end_
  link : h'.get (linkAfter (.child q) l₁) = some new
  sibling_new : h'.get (.sibling new) = h.sibling next
  child_new : h'.get (.child new) = some first
  sibling_next : h'.get (.sibling next) = none
  others : ∀ y, y ≠ linkAfter (.child q) l₁ → y ≠ .sibling next → y ≠ .child new →
    y ≠ .sibling new → h'.get y = h.get y
  parent : ∀ n, h'.parent n = if n ∈ m then some new else Function.update h.parent new (some q) n

theorem covering (h : Resources) (hqnew : q ≠ new) (hnew : new ∉ l₁) (hnext : next ∉ l₁)
    (hne : new ≠ next) (first : ℕ) (m : List ℕ) :
    h.Covering ((((((h.setParent new (some q)).setSibling new (h.sibling next)).setChild new
      (some first)).setSibling next none).adopt m new).put (some new) (linkAfter (.child q) l₁))
      q l₁ m new first next where
  start := put_start ..
  end_ := put_end ..
  link := get_put_self ..
  sibling_new := by
    have hsib : (.sibling new : ResLink) ≠ .sibling next := by
      intro heq
      cases heq
      exact hne rfl
    rw [get_put_of_ne _ _ (sibling_ne_linkAfter hnew), get_adopt, get_setSibling_of_ne _ _ hsib]
    exact Function.update_self ..
  child_new := by
    rw [get_put_of_ne _ _ (child_ne_linkAfter hqnew.symm), get_adopt]
    exact Function.update_self ..
  sibling_next := by
    rw [get_put_of_ne _ _ (sibling_ne_linkAfter hnext), get_adopt]
    exact Function.update_self ..
  others y hy hnext hchild hsib := by
    rw [get_put_of_ne _ _ hy, get_adopt, get_setSibling_of_ne _ _ hnext,
      get_setChild_of_ne _ _ hchild, get_setSibling_of_ne _ _ hsib, get_setParent]
  parent n := by
    rw [put_parent]
    rfl

/-- The parents of the others stay. -/
theorem Covering.parent_eq (hc : h.Covering h' q l₁ m new first next) (hn : n ∉ m)
    (hne : n ≠ new) : h'.parent n = h.parent n := by
  rw [hc.parent, if_neg hn, Function.update_of_ne hne]

/-- The new resource, with the neighbours below it. -/
theorem Covering.fine_new (hc : h.Covering h' q l₁ m new first next) (ht : h.Tree kids r)
    (hq : Desc kids r q) (hk : kids q = l₁ ++ (m ++ l₂)) (hnot : ¬ Desc kids r new)
    (hfirst : m.head? = some first) (hnext : m = k ++ [next]) (hordered : h.lo new ≤ h.hi new)
    (hcovers : ∀ n ∈ m, h.lo new ≤ h.lo n ∧ h.hi n ≤ h.hi new) (hkids : kids' new = m) :
    h'.Fine kids' new where
  node := by
    have hsorted := (ht.heads q hq).node.sorted
    rw [hk, List.pairwise_append, List.pairwise_append] at hsorted
    rw [lo_eq hc.start, hi_eq hc.end_]
    refine ⟨hordered, ?_, ?_⟩ <;> rw [hkids]
    · exact hcovers
    · exact hsorted.2.1.1
  chain := by
    -- the chain from `first` on ends at `next` now
    have hchain := (ht.heads q hq).chain
    have hnodup := ht.heads.nodup hq
    rw [hk] at hchain hnodup
    have hrest := (List.nodup_append.1 hnodup).2.1
    have htail := ((isList_append (x := .child q)).1 hchain).2
    rw [hkids, show h'.child new = some first from hc.child_new]
    refine isList_cut htail (List.nodup_append.1 hrest).1 hfirst hnext (fun a ha hanext => ?_)
      hc.sibling_next
    refine hc.others _ (sibling_ne_linkAfter fun ha' => ?_) (fun heq => ?_)
      (fun heq => by cases heq) fun heq => ?_
    · exact ht.heads.not_mem_behind hq hk ha' (List.mem_append_left _ ha)
    · cases heq
      exact hanext rfl
    · cases heq
      exact hnot (hq.child (by simp [hk, ha]))
  parent n hn := by
    rw [hkids] at hn
    rw [hc.parent, if_pos hn]

/-- The resource that had the neighbours. -/
theorem Covering.fine_host (hc : h.Covering h' q l₁ m new first next) (ht : h.Tree kids r)
    (hq : Desc kids r q) (hk : kids q = l₁ ++ (m ++ l₂)) (hnot : ¬ Desc kids r new)
    (hnext : m = k ++ [next]) (hinside : h.lo q ≤ h.lo new ∧ h.hi new ≤ h.hi q)
    (hbefore : ∀ a ∈ l₁, h.hi a < h.lo new) (hbehind : ∀ b ∈ l₂, h.hi new < h.lo b)
    (hk' : kids' q = l₁ ++ ([new] ++ l₂)) : h'.Fine kids' q := by
  have hmem : ∀ n ∈ kids q, n ≠ new := by
    rintro n hn rfl
    exact hnot (hq.child hn)
  have hqnew : q ≠ new := by
    rintro rfl
    exact hnot hq
  have hnextm : next ∈ m := by simp [hnext]
  have hchain := (ht.heads q hq).chain
  rw [hk] at hchain
  have htail := (isList_append.1 ((isList_append (x := .child q)).1 hchain).2).2
  have hafter : linkAfter (linkAfter (.child q) l₁) m = .sibling next := by
    rw [hnext, linkAfter_concat]
  rw [hafter] at htail
  -- the neighbours are not among the children in front of them or behind them
  have hdisj : ∀ n ∈ l₁, n ∉ m ++ l₂ := fun n hn => ht.heads.not_mem_behind hq hk hn
  have hdisjm : ∀ n ∈ m, n ∉ l₂ := by
    rw [← List.append_assoc] at hk
    exact fun n hn => ht.heads.not_mem_behind hq hk (List.mem_append_right _ hn)
  refine (ht.heads q hq).replaceOne hk hk' (ht.heads.nodup hq) hc.start hc.end_
    (fun y hy hor => ?_) hc.link ?_ (fun n hn => hc.parent_eq ?_ (hmem n ?_)) ?_ hinside hbefore
    hbehind
  · rcases hor with rfl | ⟨a, ha, rfl⟩
    · refine hc.others _ hy (fun heq => by cases heq) (fun heq => ?_) (fun heq => by cases heq)
      cases heq
      exact hqnew rfl
    · refine hc.others _ hy (fun heq => ?_) (fun heq => by cases heq) (fun heq => ?_)
      · cases heq
        exact hdisj next ha (List.mem_append_left _ hnextm)
      · cases heq
        exact hmem new (by simp [hk, ha]) rfl
  · rw [hc.sibling_new]
    refine htail.congr fun b hb => hc.others (.sibling b) ?_ ?_ (fun heq => by cases heq) ?_
    · refine sibling_ne_linkAfter fun hb' => ?_
      exact hdisj b hb' (List.mem_append_right _ hb)
    · intro heq
      cases heq
      exact hdisjm next hnextm hb
    · intro heq
      cases heq
      exact hmem new (by simp [hk, hb]) rfl
  · intro hnm
    rcases List.mem_append.1 hn with hn | hn
    · exact hdisj n hn (List.mem_append_left _ hnm)
    · exact hdisjm n hnm hn
  · rcases List.mem_append.1 hn with hn | hn <;> simp [hk, hn]
  · rw [hc.parent, if_neg fun hn => hmem new (by simp [hk, hn]) rfl, Function.update_self]

/-- The other resources. -/
theorem Covering.fine_elsewhere (hc : h.Covering h' q l₁ m new first next) (ht : h.Tree kids r)
    (hq : Desc kids r q) (hk : kids q = l₁ ++ (m ++ l₂)) (hnot : ¬ Desc kids r new)
    (hnext : next ∈ m) (hp : Desc kids r p) (hpq : p ≠ q) (hk' : kids' p = kids p) :
    h'.Fine kids' p := by
  have hother : ∀ n ∈ kids p, n ∉ kids q := fun n hn => ht.not_mem hp hq hpq hn
  have hmem : ∀ n ∈ kids p, n ≠ new := by
    rintro n hn rfl
    exact hnot (hp.child hn)
  refine ht.fine_elsewhere hp hq hpq hk hk' hc.start hc.end_ (fun y hy hor => ?_)
    fun n hn => hc.parent_eq (fun hn' => hother n hn ?_) (hmem n hn)
  · rcases hor with rfl | ⟨n, hn, rfl⟩
    · refine hc.others _ hy (fun heq => by cases heq) (fun heq => ?_) (fun heq => by cases heq)
      cases heq
      exact hnot hp
    · refine hc.others _ hy (fun heq => ?_) (fun heq => by cases heq) fun heq => ?_
      · cases heq
        exact hother next hn (by simp [hk, hnext])
      · cases heq
        exact hmem new hn rfl
  · simp [hk, hn']

/-- A resource takes the place of some neighbours, and becomes their parent. -/
theorem Tree.cover (ht : h.Tree kids r) (hq : Desc kids r q)
    (hk : kids q = l₁ ++ (m ++ l₂)) (hnot : ¬ Desc kids r new) (hfirst : m.head? = some first)
    (hnext : m = k ++ [next]) (hordered : h.lo new ≤ h.hi new)
    (hcovers : ∀ n ∈ m, h.lo new ≤ h.lo n ∧ h.hi n ≤ h.hi new)
    (hinside : h.lo q ≤ h.lo new ∧ h.hi new ≤ h.hi q) (hbefore : ∀ a ∈ l₁, h.hi a < h.lo new)
    (hbehind : ∀ b ∈ l₂, h.hi new < h.lo b) :
    ((((((h.setParent new (some q)).setSibling new (h.sibling next)).setChild new
      (some first)).setSibling next none).adopt m new).put (some new)
        (linkAfter (.child q) l₁)).Tree
      (Function.update (Function.update kids q (l₁ ++ ([new] ++ l₂))) new m) r := by
  have hmemq : ∀ n, n ∈ kids q ↔ n ∈ l₁ ∨ n ∈ m ∨ n ∈ l₂ := by
    intro n
    rw [hk, List.mem_append, List.mem_append]
  have hqnew : q ≠ new := by
    rintro rfl
    exact hnot hq
  have hnewq : new ∉ kids q := fun hn => hnot (hq.child hn)
  have hnextm : next ∈ m := by simp [hnext]
  have hnextl₁ : next ∉ l₁ := fun hn =>
    ht.heads.not_mem_behind hq hk hn (List.mem_append_left _ hnextm)
  have hne : new ≠ next := by
    rintro rfl
    exact hnewq ((hmemq _).2 (.inr (.inl hnextm)))
  have hc := h.covering hqnew (fun hn => hnewq ((hmemq _).2 (.inl hn))) hnextl₁ hne first m
  have hkids : ∀ p ≠ new, p ≠ q →
      Function.update (Function.update kids q (l₁ ++ ([new] ++ l₂))) new m p = kids p := by
    intro p hpnew hpq
    rw [Function.update_of_ne hpnew, Function.update_of_ne hpq]
  have hkidsq : Function.update (Function.update kids q (l₁ ++ ([new] ++ l₂))) new m q =
      l₁ ++ ([new] ++ l₂) := by
    rw [Function.update_of_ne hqnew, Function.update_self]
  refine ⟨heads_of_closed (S := fun p => Desc kids r p ∨ p = new) (.inl .refl)
    (fun p hp n hn => ?_) fun p hp => ?_, ?_⟩
  · by_cases hpnew : p = new
    · rw [hpnew, Function.update_self] at hn
      exact .inl (hq.child ((hmemq n).2 (.inr (.inl hn))))
    by_cases hpq : p = q
    · rw [hpq, hkidsq, List.mem_append, List.mem_append, List.mem_singleton] at hn
      rcases hn with hn | hn | hn
      · exact .inl (hq.child ((hmemq n).2 (.inl hn)))
      · exact .inr hn
      · exact .inl (hq.child ((hmemq n).2 (.inr (.inr hn))))
    · rw [hkids p hpnew hpq] at hn
      exact .inl ((hp.resolve_right hpnew).child hn)
  · by_cases hpnew : p = new
    · rw [hpnew]
      exact hc.fine_new ht hq hk hnot hfirst hnext hordered hcovers (Function.update_self ..)
    by_cases hpq : p = q
    · rw [hpq]
      exact hc.fine_host ht hq hk hnot hnext hinside hbefore hbehind hkidsq
    · exact hc.fine_elsewhere ht hq hk hnot hnextm (hp.resolve_right hpnew) hpq (hkids p hpnew hpq)
  · have hrnew : r ≠ new := by
      rintro rfl
      exact hnot .refl
    have hr : r ∉ m := fun hn => ht.rooted.not_root hq ((hmemq r).2 (.inr (.inl hn))) rfl
    rw [hc.parent_eq hr hrnew]
    exact ht.root

end Cover

theorem lo_setRange (h : Resources) (n : ℕ) (s e : BitVec 64) :
    (h.setRange n s e).lo = Function.update h.lo n s.toNat := by
  funext m
  change (Function.update h.start n s m).toNat = _
  by_cases hm : m = n
  · rw [hm, Function.update_self, Function.update_self]
  · rw [Function.update_of_ne hm, Function.update_of_ne hm, lo]

theorem hi_setRange (h : Resources) (n : ℕ) (s e : BitVec 64) :
    (h.setRange n s e).hi = Function.update h.hi n e.toNat := by
  funext m
  change (Function.update h.end_ n e m).toNat = _
  by_cases hm : m = n
  · rw [hm, Function.update_self, Function.update_self]
  · rw [Function.update_of_ne hm, Function.update_of_ne hm, hi]

theorem Fine.chain_setRange (hf : h.Fine kids p) (n : ℕ) (s e : BitVec 64) :
    Links.IsList (h.setRange n s e) ((h.setRange n s e).child p) (kids p) := by
  have hsame : ∀ a ∈ kids p,
      Links.LinkStore.getNext (h.setRange n s e) a = Links.LinkStore.getNext h a := fun _ _ => rfl
  exact hf.chain.congr hsame

/-- A resource elsewhere gets another range. -/
theorem Fine.setRange (hf : h.Fine kids p) (hp : p ≠ n) (hn : n ∉ kids p) (s e : BitVec 64) :
    (h.setRange n s e).Fine kids p := by
  have hne : ∀ c ∈ kids p, c ≠ n := by
    rintro c hc rfl
    exact hn hc
  refine ⟨?_, hf.chain_setRange .., hf.parent⟩
  rw [lo_setRange, hi_setRange]
  refine ⟨?_, fun c hc => ?_, hf.node.sorted.imp_of_mem fun {a b} ha hb hab => ?_⟩
  · rw [Function.update_of_ne hp, Function.update_of_ne hp]
    exact hf.node.ordered
  · rw [Function.update_of_ne hp, Function.update_of_ne hp, Function.update_of_ne (hne c hc),
      Function.update_of_ne (hne c hc)]
    exact hf.node.inside c hc
  · rwa [Function.update_of_ne (hne a ha), Function.update_of_ne (hne b hb)]

/-- A resource that is not in the tree gets another range. -/
theorem Heads.setRange_of_not (ht : h.Heads kids r) (hn : ¬ Desc kids r n) (s e : BitVec 64) :
    (h.setRange n s e).Heads kids r := by
  refine fun p hp => (ht p hp).setRange ?_ ?_ s e
  · rintro rfl
    exact hn hp
  · exact fun hnp => hn (hp.child hnp)

theorem Tree.setRange_of_not (ht : h.Tree kids r) (hn : ¬ Desc kids r n) (s e : BitVec 64) :
    (h.setRange n s e).Tree kids r := ⟨ht.heads.setRange_of_not hn s e, ht.root⟩

/-- A range is moved between those of the neighbours. -/
theorem Tree.resize {s e : BitVec 64} (ht : h.Tree kids r) (hn : Desc kids r n)
    (hordered : s.toNat ≤ e.toNat)
    (hkids : ∀ c ∈ kids n, s.toNat ≤ h.lo c ∧ h.hi c ≤ e.toNat)
    (hbounds : ∀ q l₁ l₂, Desc kids r q → kids q = l₁ ++ n :: l₂ →
      (h.lo q ≤ s.toNat ∧ e.toNat ≤ h.hi q) ∧ (∀ a ∈ l₁, h.hi a < s.toNat) ∧
        ∀ b ∈ l₂, e.toNat < h.lo b) : (h.setRange n s e).Tree kids r := by
  refine ⟨fun p hp => ?_, ht.root⟩
  have hf := ht.heads p hp
  by_cases hpn : p = n
  · subst hpn
    have hne : ∀ c ∈ kids p, c ≠ p := fun c hc => ht.rooted.ne_of_mem hp hc
    refine ⟨?_, hf.chain_setRange .., hf.parent⟩
    rw [lo_setRange, hi_setRange]
    refine ⟨?_, fun c hc => ?_, hf.node.sorted.imp_of_mem fun {a b} ha hb hab => ?_⟩
    · rwa [Function.update_self, Function.update_self]
    · rw [Function.update_self, Function.update_self, Function.update_of_ne (hne c hc),
        Function.update_of_ne (hne c hc)]
      exact hkids c hc
    · rwa [Function.update_of_ne (hne a ha), Function.update_of_ne (hne b hb)]
  by_cases hmem : n ∈ kids p
  · obtain ⟨l₁, l₂, hk⟩ := List.append_of_mem hmem
    obtain ⟨hin, hbefore, hbehind⟩ := hbounds p l₁ l₂ hp hk
    have hne : ∀ c, c ∈ l₁ ∨ c ∈ l₂ → c ≠ n := by
      rintro c hc rfl
      exact ht.heads.not_mem_rest hp hk (List.mem_append.2 hc)
    have hsorted := hf.node.sorted
    rw [hk, List.pairwise_append, List.pairwise_cons] at hsorted
    obtain ⟨h₁, ⟨-, h₂⟩, h₁₂⟩ := hsorted
    refine ⟨?_, hf.chain_setRange .., hf.parent⟩
    rw [lo_setRange, hi_setRange]
    refine ⟨?_, fun c hc => ?_, ?_⟩
    · rw [Function.update_of_ne hpn, Function.update_of_ne hpn]
      exact hf.node.ordered
    · rw [Function.update_of_ne hpn, Function.update_of_ne hpn]
      by_cases hcn : c = n
      · rw [hcn, Function.update_self, Function.update_self]
        exact hin
      · rw [Function.update_of_ne hcn, Function.update_of_ne hcn]
        exact hf.node.inside c hc
    · rw [hk, List.pairwise_append, List.pairwise_cons]
      refine ⟨h₁.imp_of_mem fun {a b} ha hb hab => ?_, ⟨fun b hb => ?_,
        h₂.imp_of_mem fun {a b} ha hb hab => ?_⟩, fun a ha b hb => ?_⟩
      · rwa [Function.update_of_ne (hne a (.inl ha)), Function.update_of_ne (hne b (.inl hb))]
      · rw [Function.update_self, Function.update_of_ne (hne b (.inr hb))]
        exact hbehind b hb
      · rwa [Function.update_of_ne (hne a (.inr ha)), Function.update_of_ne (hne b (.inr hb))]
      · rw [Function.update_of_ne (hne a (.inl ha))]
        by_cases hbn : b = n
        · rw [hbn, Function.update_self]
          exact hbefore a ha
        · rw [Function.update_of_ne hbn]
          exact h₁₂ a ha b hb
  · exact hf.setRange hpn hmem s e

end Changes

end Resources

end StarOS
