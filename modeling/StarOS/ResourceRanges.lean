/-
Allocations and adjustments in a resource tree.

The search for a free range passes the children in order, so what it finds lies between two of them,
or around the range that is to be replaced.  A resource then gets a range that holds its own, or one
inside its own, or it is taken out and requested again; an adjustment has checked the neighbours and
the children itself.

* `StarOS.Resources.IsFree`, `StarOS.Resources.findResourceSpace_ok` — the range that is found;
* `StarOS.Resources.Tree.enlarge`, `StarOS.Resources.Tree.shrink`, `StarOS.Resources.Tree.move` —
  another range for a resource;
* `StarOS.Resources.Tree.allocate`, `StarOS.Resources.Tree.adjust` — the operations leave a tree.
-/

import StarOS.ResourceSteps

set_option autoImplicit false

namespace StarOS

namespace Resources

open Nesting (Desc)

variable {h : Resources} {kids : ℕ → List ℕ} {r p q new old : ℕ} {l₁ l₂ : List ℕ}

/-! ### Free ranges -/

/-- The place that a free range gives: the aligned start, and the end for the size. -/
theorem placeIn_eq_some {a b s e size : BitVec 64} {c : ResourceConstraint}
    (hplace : placeIn a b size c = some (s, e)) :
    s = alignUp a c.align ∧ e = s + size - 1#64 ∧ a ≤ s ∧ s ≤ e ∧ e ≤ b := by
  rw [placeIn] at hplace
  split at hplace
  · dsimp only at hplace
    split at hplace
    · rename_i hstart
      split at hplace
      · rename_i hend
        cases hplace
        exact ⟨rfl, rfl, hstart.1, hend⟩
      · cases hplace
    · cases hplace
  · cases hplace

/-- The place that a free range gives lies inside it. -/
theorem placeIn_some {a b s e size : BitVec 64} {c : ResourceConstraint}
    (hplace : placeIn a b size c = some (s, e)) :
    a.toNat ≤ s.toNat ∧ s.toNat ≤ e.toNat ∧ e.toNat ≤ b.toNat := by
  obtain ⟨-, -, hstart, hordered, hend⟩ := placeIn_eq_some hplace
  exact ⟨BitVec.le_def.1 hstart, BitVec.le_def.1 hordered, BitVec.le_def.1 hend⟩

/-- No first child of `q`, other than `old`, covers it to the last address. -/
def EndsBefore (h : Resources) (q : ℕ) (old : Option ℕ) : Prop :=
  ∀ c ∈ h.child q, h.start c = h.start q → some c ≠ old → h.end_ c ≠ BitVec.allOnes 64

/-- The range from `s` to `e` lies inside `q`, and apart from its children other than `old`. -/
structure IsFree (h : Resources) (kids : ℕ → List ℕ) (q : ℕ) (old : Option ℕ) (s e : ℕ) :
    Prop where
  ordered : s ≤ e
  inside : h.lo q ≤ s ∧ e ≤ h.hi q
  apart : ∀ x ∈ kids q, some x ≠ old → h.hi x < s ∨ e < h.lo x

/-- Where the loop of `__find_resource_space` stands: it has passed the children `l₁`. -/
def Scanning (h : Resources) (kids : ℕ → List ℕ) (q : ℕ) (old : Option ℕ)
    (st : Option ℕ × BitVec 64) : Prop :=
  ∃ l₁ l₂, kids q = l₁ ++ l₂ ∧ st.1 = l₂.head? ∧ h.lo q ≤ st.2.toNat ∧
    (∀ x ∈ l₁, some x ≠ old → h.hi x < st.2.toNat) ∧ ∀ x ∈ l₂, 0 < h.lo x

theorem toNat_end_succ {c : ℕ} (hend : h.end_ c ≠ BitVec.allOnes 64) :
    (h.end_ c + 1#64).toNat = h.hi c + 1 := by
  have hmax : (h.end_ c).toNat ≠ (BitVec.allOnes 64).toNat := fun heq =>
    hend (BitVec.eq_of_toNat_eq heq)
  have hlt := (h.end_ c).isLt
  rw [BitVec.toNat_allOnes] at hmax
  rw [BitVec.toNat_add]
  change ((h.end_ c).toNat + 1) % 2 ^ 64 = (h.end_ c).toNat + 1
  omega

/-- The first children are passed. -/
theorem scanning_first {old? : Option ℕ} (ht : h.Heads kids r) (hq : Desc kids r q)
    (hends : h.EndsBefore q old?) :
    h.Scanning kids q old? (match h.child q with
      | some first =>
          if h.start first = h.start q then
            (h.sibling first, if some first = old? then h.start first else h.end_ first + 1#64)
          else (some first, h.start q)
      | none => (none, h.start q)) := by
  have hf := ht q hq
  have hchild : h.child q = (kids q).head? := isList_head hf.chain
  cases hk : kids q with
  | nil =>
      rw [hchild, hk]
      exact ⟨[], [], hk, rfl, Nat.le_refl _, fun x hx => absurd hx List.not_mem_nil,
        fun x hx => absurd hx List.not_mem_nil⟩
  | cons c l =>
      have hc : c ∈ kids q := by simp [hk]
      have hsorted := hf.node.sorted
      rw [hk, List.pairwise_cons] at hsorted
      have hin := hf.node.inside c hc
      have hordered := ht.ordered hq c hc
      have hbehind : ∀ x ∈ l, 0 < h.lo x := fun x hx =>
        lt_of_le_of_lt (Nat.zero_le _) (hsorted.1 x hx)
      rw [hchild, hk]
      dsimp only [List.head?_cons]
      split
      · rename_i hstart
        have hk' : kids q = [] ++ c :: l := hk
        refine ⟨[c], l, hk, hf.sibling_eq hk', ?_, fun x hx hne => ?_, hbehind⟩
        · dsimp only
          split
          · exact hin.1
          · rename_i hne
            have hend := hends c (by rw [hchild, hk]; rfl) hstart hne
            rw [toNat_end_succ hend]
            omega
        · obtain rfl := List.mem_singleton.1 hx
          dsimp only
          rw [if_neg hne]
          have hend := hends x (by rw [hchild, hk]; rfl) hstart hne
          rw [toNat_end_succ hend]
          exact Nat.lt_succ_self _
      · rename_i hstart
        refine ⟨[], c :: l, hk, rfl, Nat.le_refl _, fun x hx => absurd hx List.not_mem_nil,
          fun x hx => ?_⟩
        rcases List.mem_cons.1 hx with rfl | hx
        · have hne : h.lo x ≠ h.lo q := fun heq => hstart (BitVec.eq_of_toNat_eq heq)
          omega
        · exact hbehind x hx

/-- The children `l₁` are passed, and what is free behind them starts at `t`. -/
structure Passed (h : Resources) (kids : ℕ → List ℕ) (q : ℕ) (old : Option ℕ) (l₁ l₂ : List ℕ)
    (t : BitVec 64) : Prop where
  kids_eq : kids q = l₁ ++ l₂
  start_le : h.lo q ≤ t.toNat
  passed : ∀ x ∈ l₁, some x ≠ old → h.hi x < t.toNat
  pos : ∀ x ∈ l₂, 0 < h.lo x

theorem scanning_iff {old? : Option ℕ} {st : Option ℕ × BitVec 64} :
    h.Scanning kids q old? st ↔
      ∃ l₁ l₂, h.Passed kids q old? l₁ l₂ st.2 ∧ st.1 = l₂.head? := by
  constructor
  · rintro ⟨l₁, l₂, hk, hthis, hlo, hpassed, hpos⟩
    exact ⟨l₁, l₂, ⟨hk, hlo, hpassed, hpos⟩, hthis⟩
  · rintro ⟨l₁, l₂, hp, hthis⟩
    exact ⟨l₁, l₂, hp.kids_eq, hthis, hp.start_le, hp.passed, hp.pos⟩

/-- Where a free range in front of the next child ends. -/
def gapEnd (h : Resources) (q : ℕ) (old : Option ℕ) : Option ℕ → BitVec 64
  | some current =>
      if some current = old then h.end_ current
      else if h.start current = 0#64 then 0#64 else h.start current - 1#64
  | none => h.end_ q

/-- One round of the search. -/
theorem spaceRound_eq (h : Resources) (q : ℕ) (old? : Option ℕ) (size : BitVec 64)
    (c : ResourceConstraint) (this : Option ℕ) (t : BitVec 64) :
    h.spaceRound q old? size c (this, t) =
      match placeIn t (h.gapEnd q old? this) size c with
      | some range => .done (.ok range)
      | none =>
          match this with
          | none => .done (.error .busy)
          | some current =>
              if h.end_ current = h.end_ q then .done (.error .busy)
              else if some current = old? then .more (h.sibling current, t)
              else .more (h.sibling current, h.end_ current + 1#64) := by
  cases this <;> rfl

section Passed

variable {old? : Option ℕ} {x : ℕ} {t : BitVec 64}

theorem gapEnd_of_old (hold : some x = old?) : h.gapEnd q old? (some x) = h.end_ x := if_pos hold

/-- In front of another child the range ends one address before it. -/
theorem Passed.toNat_gapEnd (hp : h.Passed kids q old? l₁ (x :: l₂) t) (hold : some x ≠ old?) :
    (h.gapEnd q old? (some x)).toNat + 1 = h.lo x := by
  have hpos : 0 < (h.start x).toNat := hp.pos x List.mem_cons_self
  have hnonzero : h.start x ≠ 0#64 := by
    intro heq
    rw [heq] at hpos
    exact absurd hpos (lt_irrefl _)
  have hlt := (h.start x).isLt
  rw [gapEnd, if_neg hold, if_neg hnonzero, BitVec.toNat_sub, lo]
  change (2 ^ 64 - 1 + (h.start x).toNat) % 2 ^ 64 + 1 = (h.start x).toNat
  omega

/-- One more child is passed. -/
theorem Passed.next (ht : h.Heads kids r) (hq : Desc kids r q)
    (hp : h.Passed kids q old? l₁ (x :: l₂) t) (hne : h.end_ x ≠ h.end_ q) :
    h.Passed kids q old? (l₁ ++ [x]) l₂ (if some x = old? then t else h.end_ x + 1#64) := by
  have hf := ht q hq
  have hx : x ∈ kids q := by simp [hp.kids_eq]
  have hk : kids q = (l₁ ++ [x]) ++ l₂ := by
    rw [hp.kids_eq, List.append_assoc, List.singleton_append]
  have hpos : ∀ y ∈ l₂, 0 < h.lo y := fun y hy => hp.pos y (List.mem_cons_of_mem _ hy)
  split
  · rename_i hold
    refine ⟨hk, hp.start_le, fun y hy hyold => ?_, hpos⟩
    rcases List.mem_append.1 hy with hy | hy
    · exact hp.passed y hy hyold
    · exact absurd (List.mem_singleton.1 hy ▸ hold) hyold
  · have hin := hf.node.inside x hx
    have hordered := ht.ordered hq x hx
    have hend : h.end_ x ≠ BitVec.allOnes 64 := by
      intro heq
      refine hne (BitVec.eq_of_toNat_eq ?_)
      have hle : (h.end_ x).toNat ≤ (h.end_ q).toNat := hin.2
      have hlt := (h.end_ q).isLt
      rw [heq, BitVec.toNat_allOnes] at hle ⊢
      omega
    have hsorted := hf.node.sorted
    rw [hp.kids_eq, List.pairwise_append] at hsorted
    refine ⟨hk, ?_, fun y hy _ => ?_, hpos⟩
    · rw [toNat_end_succ hend]
      omega
    · rw [toNat_end_succ hend]
      rcases List.mem_append.1 hy with hy | hy
      · have hlt := hsorted.2.2 y hy x List.mem_cons_self
        omega
      · rw [List.mem_singleton.1 hy]
        exact Nat.lt_succ_self _

/-- A range behind the children that are passed, and in front of the next one, is free. -/
theorem Passed.free {s e : ℕ} (ht : h.Heads kids r) (hq : Desc kids r q)
    (hp : h.Passed kids q old? l₁ l₂ t) (hts : t.toNat ≤ s) (hse : s ≤ e)
    (hend : e ≤ (h.gapEnd q old? l₂.head?).toNat) : h.IsFree kids q old? s e := by
  have hf := ht q hq
  have hk := hp.kids_eq
  have hbefore : ∀ x ∈ l₁, some x ≠ old? → h.hi x < s :=
    fun x hx hne => (hp.passed x hx hne).trans_le hts
  cases l₂ with
  | nil =>
      rw [List.append_nil] at hk
      exact ⟨hse, ⟨hp.start_le.trans hts, hend⟩, fun x hx hne => .inl (hbefore x (hk ▸ hx) hne)⟩
  | cons x l₂ =>
      have hx : x ∈ kids q := by simp [hk]
      have hin := hf.node.inside x hx
      have hordered := ht.ordered hq x hx
      have hsorted := hf.node.sorted
      rw [hk, List.pairwise_append, List.pairwise_cons] at hsorted
      rw [List.head?_cons] at hend
      -- the range ends at the end of `old`, or in front of the next child
      have hbehind : e ≤ h.hi q ∧ ∀ y ∈ x :: l₂, some y ≠ old? → e < h.lo y := by
        by_cases hold : some x = old?
        · rw [gapEnd_of_old hold] at hend
          have hle : e ≤ h.hi x := hend
          refine ⟨hle.trans hin.2, fun y hy hne => ?_⟩
          rcases List.mem_cons.1 hy with rfl | hy
          · exact absurd hold hne
          · exact hle.trans_lt (hsorted.2.1.1 y hy)
        · have hgap := hp.toNat_gapEnd hold
          refine ⟨by omega, fun y hy _ => ?_⟩
          rcases List.mem_cons.1 hy with rfl | hy
          · omega
          · have hlt := hsorted.2.1.1 y hy
            omega
      refine ⟨hse, ⟨hp.start_le.trans hts, hbehind.1⟩, fun y hy hne => ?_⟩
      rw [hk] at hy
      rcases List.mem_append.1 hy with hy | hy
      · exact .inl (hbefore y hy hne)
      · exact .inr (hbehind.2 y hy hne)

end Passed

/-- The range that `__find_resource_space` finds is free. -/
theorem findResourceSpace_ok {k : ℕ} {old? : Option ℕ} {size s e : BitVec 64}
    {c : ResourceConstraint} (ht : h.Heads kids r) (hq : Desc kids r q)
    (hends : h.EndsBefore q old?)
    (hrun : h.findResourceSpace k q old? size c = some (.ok (s, e))) :
    h.IsFree kids q old? s.toNat e.toNat := by
  refine Loops.run_invariant (I := h.Scanning kids q old?)
    (P := fun out => ∀ s e, out = .ok (s, e) → h.IsFree kids q old? s.toNat e.toNat) ?_ ?_
    (scanning_first ht hq hends) hrun s e rfl
  · rintro ⟨this, t⟩ ⟨this', t'⟩ hscan hround
    obtain ⟨l₁, l₂, hp, hthis⟩ := scanning_iff.1 hscan
    dsimp only at hp hthis
    rw [spaceRound_eq, hthis] at hround
    split at hround
    · cases hround
    cases l₂ with
    | nil => cases hround
    | cons x l₂ =>
        dsimp only [List.head?_cons] at hround
        have hsibling := (ht q hq).sibling_eq hp.kids_eq
        split at hround
        · cases hround
        rename_i hne
        have hnext := hp.next ht hq hne
        split at hround
        · rename_i hold
          cases hround
          rw [if_pos hold] at hnext
          exact scanning_iff.2 ⟨_, l₂, hnext, hsibling⟩
        · rename_i hold
          cases hround
          rw [if_neg hold] at hnext
          exact scanning_iff.2 ⟨_, l₂, hnext, hsibling⟩
  · rintro ⟨this, t⟩ out hscan hround s e rfl
    obtain ⟨l₁, l₂, hp, hthis⟩ := scanning_iff.1 hscan
    dsimp only at hp hthis
    rw [spaceRound_eq, hthis] at hround
    split at hround
    · rename_i range hplace
      cases hround
      obtain ⟨hts, hse, hend⟩ := placeIn_some hplace
      exact hp.free ht hq hts hse hend
    · split at hround
      · cases hround
      split at hround
      · cases hround
      split at hround <;> cases hround

/-! ### Allocations -/

theorem eq_of_desc_nil {n x : ℕ} (hx : Desc (fun _ => []) n x) : x = n :=
  hx.closed (S := fun x => x = n) rfl fun _ _ _ hn => absurd hn List.not_mem_nil

/-- The tree of a resource without children. -/
theorem Heads.leaf {n : ℕ} (hleaf : h.child n = none) (hordered : h.lo n ≤ h.hi n) :
    h.Heads (fun _ => []) n := by
  intro p hp
  rw [eq_of_desc_nil hp]
  exact ⟨⟨hordered, fun n hn => absurd hn List.not_mem_nil, .nil⟩, hleaf,
    fun n hn => absurd hn List.not_mem_nil⟩

/-- A resource without children heads a tree of its own. -/
theorem Apart.leaf (hleaf : h.child new = none) (hordered : h.lo new ≤ h.hi new)
    (hnot : ¬ Desc kids r new) : h.Apart kids (fun _ => []) r new := by
  refine ⟨.leaf hleaf hordered, fun p _ hn => absurd hn List.not_mem_nil, fun x hx => ?_⟩
  rw [eq_of_desc_nil hx]
  exact hnot

/-- A request of a resource without children leaves a tree. -/
theorem Tree.request_leaf {k : ℕ} {out : Option ℕ × Resources} (ht : h.Tree kids r)
    (hq : Desc kids r q) (hnot : ¬ Desc kids r new) (hleaf : h.child new = none)
    (hrun : h.requestResource k q new = some out) : ∃ kids', out.2.Tree kids' r :=
  (requestResource_cases ht.heads hq hrun).tree ht hq fun _ _ _ hfit =>
    ⟨_, .leaf hleaf hfit.within.1 hnot⟩

/-- The place that a release finds holds the address. -/
theorem get_of_run_findRound {k : ℕ} {x y : ResLink}
    (hrun : Loops.run (h.findRound old) k x = some (some y)) : h.get y = some old := by
  refine Loops.run_invariant (I := fun _ => True)
    (P := fun out : Option ResLink => ∀ y, out = some y → h.get y = some old)
    (fun _ _ _ _ => trivial) ?_ trivial hrun y rfl
  rintro z res - hround w rfl
  rw [findRound] at hround
  split at hround
  · rename_i tmp hget
    split at hround
    · rename_i heq
      cases hround
      rw [hget, heq]
    · cases hround
  · cases hround

/-- A place that holds the address of a resource that is not in the tree is not read in it. -/
theorem Tree.put_of_not {y : ResLink} (ht : h.Tree kids r) (hold : ¬ Desc kids r old)
    (hy : h.get y = some old) (v : Option ℕ) : ((h.put v y).setParent old none).Tree kids r := by
  have hne : ∀ p n, Desc kids r p → n ∈ kids p → n ≠ old := by
    rintro p n hp hn rfl
    exact hold (hp.child hn)
  have hparent : ∀ n, n ≠ old → ((h.put v y).setParent old none).parent n = h.parent n := by
    intro n hn
    change Function.update (h.put v y).parent old none n = _
    rw [Function.update_of_ne hn, put_parent]
  have hget : ∀ x, h.get x ≠ some old →
      ((h.put v y).setParent old none).get x = h.get x := by
    rintro x hx
    rw [get_setParent, get_put_of_ne]
    rintro rfl
    exact hx hy
  refine ⟨fun p hp => ?_, ?_⟩
  · have hf := ht.heads p hp
    refine hf.keep rfl (put_start ..) (put_end ..) (hget _ fun heq => ?_) (fun n hn => hget _ ?_)
      fun n hn => hparent n (hne p n hp hn)
    · have hhead : h.get (.child p) = (kids p).head? := isList_head hf.chain
      exact hne p old hp (List.mem_of_mem_head? (hhead.symm.trans heq)) rfl
    · obtain ⟨l₁, l₂, hk⟩ := List.append_of_mem hn
      intro heq
      have hnext : h.get (.sibling n) = l₂.head? := hf.sibling_eq hk
      have hmem := List.mem_of_mem_head? (hnext.symm.trans heq)
      exact hne p old hp (by simp [hk, hmem]) rfl
  · rw [hparent r fun heq => hold (heq ▸ .refl)]
    exact ht.root

/-- A release of a resource that is not in the tree. -/
theorem Tree.release_of_not {k : ℕ} {out : Except ResourceError Unit × Resources}
    (ht : h.Tree kids r) (hold : ¬ Desc kids r old) (hleaf : h.child old = none)
    (hrun : h.releaseResource k old true = some out) :
    out.2.Tree kids r ∧ out.2.child old = none := by
  rw [releaseResource] at hrun
  split at hrun
  · cases hrun
    exact ⟨ht, hleaf⟩
  obtain ⟨place, hfind, hrest⟩ := Option.bind_eq_some_iff.1 hrun
  cases place with
  | none =>
      cases hrest
      exact ⟨ht, hleaf⟩
  | some y =>
      cases hrest
      have hy := get_of_run_findRound hfind
      refine ⟨ht.put_of_not hold hy _, ?_⟩
      have hchild : (.child old : ResLink) ≠ y := by
        rintro rfl
        exact Option.some_ne_none old (hy.symm.trans hleaf)
      exact (get_put_of_ne (y := .child old) _ _ hchild).trans hleaf

/-- A free range that holds `old` is its own range, or `old` is one of the children. -/
theorem IsFree.holds {s e : ℕ} (ht : h.Tree kids r) (hq : Desc kids r q) (hold : Desc kids r old)
    (hfree : h.IsFree kids q (some old) s e) (hstart : s ≤ h.lo old) (hend : h.hi old ≤ e) :
    (s = h.lo old ∧ e = h.hi old) ∨ old ∈ kids q := by
  have hordered := (ht.heads old hold).node.ordered
  have hin := hfree.inside
  rcases ht.heads.nested.apart hold hq with hdesc | hdesc | hlt | hlt
  · have hle := ht.heads.nested.inside hold hdesc
    exact .inl ⟨by omega, by omega⟩
  · rcases Relation.ReflTransGen.cases_head hdesc with rfl | ⟨x, hx, hdesc⟩
    · exact .inl ⟨by omega, by omega⟩
    by_cases hne : x = old
    · exact .inr (hne ▸ hx)
    · -- `old` lies below another child, which the range would have to avoid
      have hle := ht.heads.nested.inside (hq.child hx) hdesc
      rcases hfree.apart x hx fun heq => hne (Option.some.inj heq) with hlt | hlt <;> omega
  · omega
  · omega

theorem setRange_self (h : Resources) (n : ℕ) : h.setRange n (h.start n) (h.end_ n) = h := by
  rw [setRange, Function.update_eq_self, Function.update_eq_self]

/-- A resource gets a free range that holds its own. -/
theorem Tree.enlarge {s e : BitVec 64} (ht : h.Tree kids r) (hq : Desc kids r q)
    (hold : Desc kids r old) (hfree : h.IsFree kids q (some old) s.toNat e.toNat)
    (hstart : s.toNat ≤ h.lo old) (hend : h.hi old ≤ e.toNat) :
    (h.setRange old s e).Tree kids r := by
  rcases hfree.holds ht hq hold hstart hend with ⟨hs, he⟩ | hmem
  · rw [BitVec.eq_of_toNat_eq hs, BitVec.eq_of_toNat_eq he, setRange_self]
    exact ht
  · have hf := ht.heads old hold
    refine ht.resize hold hfree.ordered (fun c hc => ?_) fun q' l₁ l₂ hq' hk => ?_
    · have hin := hf.node.inside c hc
      exact ⟨hstart.trans hin.1, hin.2.trans hend⟩
    · obtain rfl := ht.rooted.parent_unique hq' hq (by simp [hk]) hmem
      have hordered := hf.node.ordered
      have hsorted := (ht.heads q' hq).node.sorted
      rw [hk, List.pairwise_append, List.pairwise_cons] at hsorted
      obtain ⟨-, ⟨hbehind, -⟩, hbefore⟩ := hsorted
      have hapart : ∀ x, x ∈ l₁ ∨ x ∈ l₂ → x ≠ old → h.lo x ≤ h.hi x ∧
          (h.hi x < s.toNat ∨ e.toNat < h.lo x) := by
        intro x hx hne
        have hx' : x ∈ kids q' := by
          rcases hx with hx | hx <;> simp [hk, hx]
        exact ⟨ht.heads.ordered hq x hx', hfree.apart x hx' fun heq => hne (Option.some.inj heq)⟩
      refine ⟨hfree.inside, fun a ha => ?_, fun b hb => ?_⟩
      · have hlt := hbefore a ha old List.mem_cons_self
        have hne : a ≠ old := by
          rintro rfl
          omega
        have hor := hapart a (.inl ha) hne
        omega
      · have hlt := hbehind b hb
        have hne : b ≠ old := by
          rintro rfl
          omega
        have hor := hapart b (.inr hb) hne
        omega

theorem Fine.kids_eq_nil (hf : h.Fine kids p) (hleaf : h.child p = none) : kids p = [] := by
  have hchain := hf.chain
  rw [hleaf] at hchain
  exact Links.isList_none.1 hchain

/-- A resource without children gets a range inside its own. -/
theorem Tree.shrink {s e : BitVec 64} (ht : h.Tree kids r) (hold : Desc kids r old)
    (hleaf : h.child old = none) (hordered : s.toNat ≤ e.toNat) (hstart : h.lo old ≤ s.toNat)
    (hend : e.toNat ≤ h.hi old) : (h.setRange old s e).Tree kids r := by
  refine ht.resize hold hordered (fun c hc => ?_) fun q l₁ l₂ hq hk => ?_
  · rw [(ht.heads old hold).kids_eq_nil hleaf] at hc
    exact absurd hc List.not_mem_nil
  · have hin := (ht.heads q hq).node.inside old (by simp [hk])
    have hsorted := (ht.heads q hq).node.sorted
    rw [hk, List.pairwise_append, List.pairwise_cons] at hsorted
    obtain ⟨-, ⟨hbehind, -⟩, hbefore⟩ := hsorted
    refine ⟨⟨hin.1.trans hstart, hend.trans hin.2⟩, fun a ha => ?_, fun b hb => ?_⟩
    · exact (hbefore a ha old List.mem_cons_self).trans_le hstart
    · exact hend.trans_lt (hbehind b hb)

/-- The tree without a resource that has no children, and what is still in it. -/
theorem Tree.takeOut (ht : h.Tree kids r) (hp : Desc kids r p) (hk : kids p = l₁ ++ old :: l₂)
    (hleaf : h.child old = none) :
    (h.takenOut p old l₁).Tree (Function.update kids p (l₁ ++ l₂)) r ∧
      ¬ Desc (Function.update kids p (l₁ ++ l₂)) r old ∧
      (∀ x, Desc kids r x → x ≠ old → Desc (Function.update kids p (l₁ ++ l₂)) r x) ∧
      (h.takenOut p old l₁).child old = none := by
  have hold : Desc kids r old := hp.child (by simp [hk])
  have hnil := (ht.heads old hold).kids_eq_nil hleaf
  have hpold : old ≠ p := ht.rooted.ne_of_mem hp (by simp [hk])
  have hself : Function.update kids p (l₁ ++ l₂) p = l₁ ++ l₂ := Function.update_self ..
  obtain ⟨hnot, hkeep⟩ := ht.rooted.desc_prune hp hk (ht.heads.nodup hp) hself fun x hx =>
    Function.update_of_ne hx ..
  refine ⟨ht.prune hp hk, hnot, fun x hx hne => hkeep x hx fun hdesc => ?_, ?_⟩
  · rcases Relation.ReflTransGen.cases_head hdesc with heq | ⟨y, hy, -⟩
    · exact hne heq.symm
    · rw [hnil] at hy
      exact List.not_mem_nil hy
  · exact (get_put_of_ne (y := .child old) _ _ (child_ne_linkAfter hpold)).trans hleaf

/-- A resource without children is taken out, gets another range, and is requested again. -/
theorem Tree.move {k j : ℕ} {s e : BitVec 64} {h₁ : Resources}
    {out : Option ℕ × Resources} (ht : h.Tree kids r) (hq : Desc kids r q) (hne : q ≠ old)
    (hold : Desc kids r old) (hleaf : h.child old = none)
    (hrelease : h.releaseResource k old true = some (.ok (), h₁))
    (hrun : (h₁.setRange old s e).requestResource j q old = some out) :
    ∃ kids', out.2.Tree kids' r := by
  rcases releaseResource_cases ht hold hrelease with ⟨-, heq⟩ | ⟨p, l₁, l₂, h', hp, hk, heq, hr⟩
  · cases heq
  cases heq
  cases hr with
  | alone =>
      obtain ⟨ht₁, hnot, hkeep, hleaf₁⟩ := ht.takeOut hp hk hleaf
      exact (ht₁.setRange_of_not hnot s e).request_leaf (hkeep q hq hne) hnot hleaf₁ hrun

/-- A request of a resource that is not in the tree, with another range. -/
theorem Tree.request_setRange {k : ℕ} {s e : BitVec 64} {out : Option ℕ × Resources}
    (ht : h.Tree kids r) (hq : Desc kids r q) (hnot : ¬ Desc kids r new)
    (hleaf : h.child new = none) (hrun : (h.setRange new s e).requestResource k q new = some out) :
    ∃ kids', out.2.Tree kids' r :=
  (ht.setRange_of_not hnot s e).request_leaf hq hnot hleaf hrun

/-- `reallocate_resource` leaves a tree. -/
theorem Tree.reallocate {k : ℕ} {size : BitVec 64} {c : ResourceConstraint}
    {out : Except ResourceError Unit × Resources} (ht : h.Tree kids r) (hq : Desc kids r q)
    (hends : Desc kids r old → h.EndsBefore q (some old))
    (hrun : h.reallocateResource k q old size c = some out) : ∃ kids', out.2.Tree kids' r := by
  obtain ⟨found, hfind, hrest⟩ := Option.bind_eq_some_iff.1 hrun
  clear hrun
  rcases found with err | ⟨s, e⟩
  · cases hrest
    exact ⟨kids, ht⟩
  dsimp only at hrest
  by_cases hold : Desc kids r old
  · have hfree := findResourceSpace_ok ht.heads hq (hends hold) hfind
    split at hrest
    · rename_i hholds
      cases hrest
      exact ⟨kids, ht.enlarge hq hold hfree (BitVec.le_def.1 hholds.1) (BitVec.le_def.1 hholds.2)⟩
    split at hrest
    · cases hrest
      exact ⟨kids, ht⟩
    rename_i hchild
    have hleaf : h.child old = none := by
      rwa [Bool.not_eq_true, Option.isSome_eq_false_iff, Option.isNone_iff_eq_none] at hchild
    split at hrest
    · rename_i hinside
      cases hrest
      exact ⟨kids, ht.shrink hold hleaf hfree.ordered (BitVec.le_def.1 hinside.1)
        (BitVec.le_def.1 hinside.2)⟩
    rename_i hinside
    have hne : q ≠ old := by
      rintro rfl
      exact hinside ⟨BitVec.le_def.2 hfree.inside.1, BitVec.le_def.2 hfree.inside.2⟩
    obtain ⟨⟨res, h₁⟩, hrelease, hrest'⟩ := Option.bind_eq_some_iff.1 hrest
    cases res with
    | error err =>
        cases hrest'
        rcases releaseResource_cases ht hold hrelease with ⟨-, heq⟩ | ⟨_, _, _, _, _, _, heq, _⟩
        · cases heq
          exact ⟨kids, ht⟩
        · cases heq
    | ok u =>
        obtain ⟨⟨conflict, h₂⟩, hrequest, hout⟩ := Option.bind_eq_some_iff.1 hrest'
        cases hout
        exact ht.move hq hne hold hleaf hrelease hrequest
  · split at hrest
    · cases hrest
      exact ⟨kids, ht.setRange_of_not hold s e⟩
    split at hrest
    · cases hrest
      exact ⟨kids, ht⟩
    rename_i hchild
    have hleaf : h.child old = none := by
      rwa [Bool.not_eq_true, Option.isSome_eq_false_iff, Option.isNone_iff_eq_none] at hchild
    split at hrest
    · cases hrest
      exact ⟨kids, ht.setRange_of_not hold s e⟩
    obtain ⟨⟨res, h₁⟩, hrelease, hrest'⟩ := Option.bind_eq_some_iff.1 hrest
    obtain ⟨ht₁, hleaf₁⟩ := ht.release_of_not hold hleaf hrelease
    cases res with
    | error err =>
        cases hrest'
        exact ⟨kids, ht₁⟩
    | ok u =>
        obtain ⟨⟨conflict, h₂⟩, hrequest, hout⟩ := Option.bind_eq_some_iff.1 hrest'
        cases hout
        exact ht₁.request_setRange hq hold hleaf₁ hrequest

/-- `allocate_resource` leaves a tree. -/
theorem Tree.allocate {k : ℕ} {size : BitVec 64} {c : ResourceConstraint}
    {out : Except ResourceError Unit × Resources} (ht : h.Tree kids r) (hq : Desc kids r q)
    (hnot : h.parent new = none → ¬ Desc kids r new ∧ h.child new = none)
    (hends : h.parent new ≠ none → Desc kids r new → h.EndsBefore q (some new))
    (hrun : h.allocateResource k q new size c = some out) : ∃ kids', out.2.Tree kids' r := by
  rw [allocateResource] at hrun
  split at hrun
  · rename_i hparent
    exact ht.reallocate hq (hends (Option.isSome_iff_ne_none.1 hparent)) hrun
  · rename_i hparent
    rw [Bool.not_eq_true, Option.isSome_eq_false_iff, Option.isNone_iff_eq_none] at hparent
    obtain ⟨hnot, hleaf⟩ := hnot hparent
    obtain ⟨found, hfind, hrest⟩ := Option.bind_eq_some_iff.1 hrun
    rcases found with err | ⟨s, e⟩
    · cases hrest
      exact ⟨kids, ht⟩
    · obtain ⟨⟨conflict, h₁⟩, hrequest, hout⟩ := Option.bind_eq_some_iff.1 hrest
      cases hout
      exact ht.request_setRange hq hnot hleaf hrequest

/-! ### Adjustments -/

/-- The loop of an adjustment finds the resource in front. -/
theorem run_frontRound {k a : ℕ} {out : Option ℕ} (hf : h.Fine kids q) (hnodup : (kids q).Nodup)
    (hk : kids q = l₁ ++ a :: old :: l₂)
    (hrun : Loops.run (h.frontRound old) k (h.child q) = some out) : out = some a := by
  have hsplit : kids q = (l₁ ++ [a]) ++ old :: l₂ := by
    rw [hk, List.append_assoc, List.singleton_append]
  have hnot : old ∉ l₁ ++ [a] := by
    rw [hsplit] at hnodup
    intro hmem
    exact (List.nodup_cons.1 (List.nodup_middle.1 hnodup)).1 (List.mem_append_left _ hmem)
  have hhead : h.child q = (l₁ ++ [a]).head? := by
    rw [isList_head hf.chain, hsplit]
    cases l₁ <;> rfl
  -- what is still to be read ends with `a`
  refine Loops.run_invariant (I := fun x => ∃ m m', l₁ ++ [a] = m ++ m' ∧ m' ≠ [] ∧ x = m'.head?)
    (P := fun out => out = some a) ?_ ?_ ⟨[], l₁ ++ [a], rfl, by simp, hhead⟩ hrun
  · rintro x x' ⟨m, m', hm, hne, rfl⟩ hround
    cases m' with
    | nil => exact absurd rfl hne
    | cons b m' =>
        have hsibling : h.sibling b = (m' ++ old :: l₂).head? :=
          hf.sibling_eq (by rw [hsplit, hm, List.append_assoc, List.cons_append])
        unfold frontRound at hround
        dsimp only [List.head?_cons] at hround
        split at hround
        · cases hround
        · rename_i hold
          cases hround
          refine ⟨m ++ [b], m', by rw [hm, List.append_assoc, List.singleton_append], ?_, ?_⟩
          · rintro rfl
            exact hold hsibling
          · rw [hsibling]
            cases m' with
            | nil => exact absurd hsibling hold
            | cons d m' => rfl
  · rintro x res ⟨m, m', hm, hne, rfl⟩ hround
    cases m' with
    | nil => exact absurd rfl hne
    | cons b m' =>
        have hsibling : h.sibling b = (m' ++ old :: l₂).head? :=
          hf.sibling_eq (by rw [hsplit, hm, List.append_assoc, List.cons_append])
        unfold frontRound at hround
        dsimp only [List.head?_cons] at hround
        split at hround
        · rename_i hold
          cases hround
          cases m' with
          | nil => rw [List.singleton_inj.1 (List.append_inj' hm rfl).2]
          | cons d m' =>
              rw [hsibling] at hold
              exact absurd (by rw [hm, ← Option.some.inj hold]; simp) hnot
        · cases hround

/-- The loop of an adjustment over the children. -/
theorem run_insideRound {k : ℕ} {s e : BitVec 64} (hf : h.Fine kids q)
    (hrun : Loops.run (h.insideRound s e) k (h.child q) = some true) :
    ∀ c ∈ kids q, s.toNat ≤ h.lo c ∧ h.hi c ≤ e.toNat := by
  refine Loops.run_invariant (I := fun x => ∃ m m', kids q = m ++ m' ∧ x = m'.head? ∧
      ∀ c ∈ m, s.toNat ≤ h.lo c ∧ h.hi c ≤ e.toNat)
    (P := fun out => out = true → ∀ c ∈ kids q, s.toNat ≤ h.lo c ∧ h.hi c ≤ e.toNat) ?_ ?_
    ⟨[], kids q, rfl, isList_head hf.chain, fun c hc => absurd hc List.not_mem_nil⟩ hrun rfl
  · rintro x x' ⟨m, m', hk, rfl, hinside⟩ hround
    cases m' with
    | nil => cases hround
    | cons c m' =>
        unfold insideRound at hround
        dsimp only [List.head?_cons] at hround
        split at hround
        · cases hround
        · rename_i hin
          cases hround
          rw [not_or, BitVec.lt_def, BitVec.lt_def, Nat.not_lt, Nat.not_lt] at hin
          refine ⟨m ++ [c], m', ?_, hf.sibling_eq hk, fun d hd => ?_⟩
          · rw [hk, List.append_assoc, List.singleton_append]
          · rcases List.mem_append.1 hd with hd | hd
            · exact hinside d hd
            · rw [List.mem_singleton.1 hd]
              exact hin
  · rintro x res ⟨m, m', hk, rfl, hinside⟩ hround htrue
    cases m' with
    | nil =>
        rw [List.append_nil] at hk
        rwa [hk]
    | cons c m' =>
        unfold insideRound at hround
        dsimp only [List.head?_cons] at hround
        split at hround
        · cases hround
          cases htrue
        · cases hround

/-- What `adjust_resource` has checked against the parent and the neighbours. -/
theorem fitsBetween_true {k : ℕ} {s e : BitVec 64} (ht : h.Tree kids r) (hq : Desc kids r q)
    (hk : kids q = l₁ ++ old :: l₂) (hrun : h.fitsBetween k old s e = some true) :
    (h.lo q ≤ s.toNat ∧ e.toNat ≤ h.hi q) ∧ (∀ a ∈ l₁, h.hi a < s.toNat) ∧
      ∀ b ∈ l₂, e.toNat < h.lo b := by
  have hf := ht.heads q hq
  have hnodup := ht.heads.nodup hq
  rw [fitsBetween, hf.parent old (by simp [hk])] at hrun
  dsimp only at hrun
  split at hrun
  · cases hrun
  rename_i hin
  rw [not_or, BitVec.lt_def, BitVec.lt_def, Nat.not_lt, Nat.not_lt] at hin
  split at hrun
  · cases hrun
  rename_i hnext
  refine ⟨hin, ?_, ?_⟩
  · rcases l₁.eq_nil_or_concat' with rfl | ⟨l, a, rfl⟩
    · exact fun a ha => absurd ha List.not_mem_nil
    have hk' : kids q = l ++ a :: old :: l₂ := by
      rw [hk, List.append_assoc, List.singleton_append]
    have hnot : h.child q ≠ some old := by
      intro heq
      rw [hk] at hnodup
      have hhead : h.child q = (l ++ [a]).head? := by
        rw [isList_head hf.chain, hk]
        cases l <;> rfl
      have hmem := List.mem_of_mem_head? (hhead.symm.trans heq)
      exact (List.nodup_cons.1 (List.nodup_middle.1 hnodup)).1 (List.mem_append_left _ hmem)
    rw [if_neg hnot] at hrun
    obtain ⟨front, hfront, hrest⟩ := Option.bind_eq_some_iff.1 hrun
    rw [run_frontRound hf hnodup hk' hfront] at hrest
    have hlt : h.hi a < s.toNat := BitVec.lt_def.1 (of_decide_eq_true (Option.some.inj hrest))
    have hsorted := hf.node.sorted
    rw [hk', List.pairwise_append] at hsorted
    intro b hb
    rcases List.mem_append.1 hb with hb | hb
    · have hordered := ht.heads.ordered hq a (by simp [hk'])
      have hbefore := hsorted.2.2 b hb a List.mem_cons_self
      omega
    · rwa [List.mem_singleton.1 hb]
  · have hsplit : kids q = (l₁ ++ [old]) ++ l₂ := by
      rw [hk, List.append_assoc, List.singleton_append]
    refine hf.behind (ht.heads.ordered hq) hsplit fun b hb => ?_
    · refine Nat.not_le.1 fun hle => hnext ⟨b, ?_, BitVec.le_def.2 hle⟩
      rw [hf.sibling_eq hk]
      exact hb

/-- `adjust_resource` leaves a tree, if the size does not wrap around. -/
theorem Tree.adjust {k : ℕ} {s size : BitVec 64} {out : Except ResourceError Unit × Resources}
    (ht : h.Tree kids r) (hold : Desc kids r old) (hsize : s ≤ s + size - 1#64)
    (hrun : h.adjustResource k old s size = some out) : ∃ kids', out.2.Tree kids' r := by
  obtain ⟨fits, hfits, hrest⟩ := Option.bind_eq_some_iff.1 hrun
  cases fits with
  | false =>
      cases hrest
      exact ⟨kids, ht⟩
  | true =>
      obtain ⟨inside, hinside, hout⟩ := Option.bind_eq_some_iff.1 hrest
      cases inside with
      | false =>
          cases hout
          exact ⟨kids, ht⟩
      | true =>
          cases hout
          exact ⟨kids, ht.resize hold (BitVec.le_def.1 hsize)
            (run_insideRound (ht.heads old hold) hinside)
            fun q l₁ l₂ hq hk => fitsBetween_true ht hq hk hfits⟩

end Resources

end StarOS
