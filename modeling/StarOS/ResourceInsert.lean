/-
Insertions (`drivers/resource/core.rs`).

An insertion goes down to the last resource that holds the new one.  There it enters the chain if no
child meets it, and else it takes the place of the children that lie inside it, which are neighbours
in the chain.  A child that meets it and is on neither side of it is a conflict, and as everything
below a child lies inside it, there is no other conflict further down.

* `StarOS.Resources.PartlyOverlaps`, `StarOS.Resources.Host`, `StarOS.Resources.Inserted`,
  `StarOS.Resources.InsertsWell` — the law;
* `StarOS.Resources.exists_descend` — where the descent ends;
* `StarOS.Resources.settles_reparent` — the children that are covered go below the new resource;
* `StarOS.Resources.Tree.inserted` — a tree in which a resource has got some of the children of
  another one;
* `StarOS.Resources.exists_insertResource` — what an insertion returns, and the tree after it;
* `StarOS.resource_insert_ok` — the law holds.
-/

import StarOS.ResourceMove
import Mathlib.Data.Set.Card

set_option autoImplicit false

namespace StarOS

open Nesting (Desc)

namespace Resources

variable {h h' : Resources} {kids kids' : ℕ → List ℕ} {r p q new : ℕ} {l₁ l₂ m : List ℕ}

/-! ### The law -/

/-- The range of `n` lies inside that of `x`. -/
def Holds (h : Resources) (x n : ℕ) : Prop := h.lo x ≤ h.lo n ∧ h.hi n ≤ h.hi x

/-- The ranges of `x` and `n` have an address in common, and none of them lies inside the other. -/
def PartlyOverlaps (h : Resources) (x n : ℕ) : Prop :=
  h.lo x ≤ h.hi n ∧ h.lo n ≤ h.hi x ∧ ¬ h.Holds x n ∧ ¬ h.Holds n x

/-- The ranges of `x` and `n` are the same. -/
def SameRange (h : Resources) (x n : ℕ) : Prop := h.start x = h.start n ∧ h.end_ x = h.end_ n

/-- The parent of a resource that is inserted below `p`: the smallest resource that holds it, where
those with the same range count as parts of it, apart from `p` itself. -/
structure Host (h : Resources) (p new q : ℕ) : Prop where
  below : h.InTree p q
  holds : h.Holds q new
  proper : q = p ∨ ¬ h.SameRange q new
  smallest : ∀ x, h.InTree p x → h.Holds x new → x = p ∨ ¬ h.SameRange x new → h.InTree x q

/-- The resource `new` is a child of `q`: the tree is as it should be and has one more resource, the
children of `new` are the former children of `q` inside it, in order, every other resource has the
parent that it had, and no range changed. -/
structure Inserted (h h' : Resources) (r q new : ℕ) : Prop where
  treeOk : h'.TreeOk r
  nodes : ∀ n, h'.InTree r n ↔ h.InTree r n ∨ n = new
  parent_new : h'.parent new = some q
  children : ∃ l₁ m l₂, Links.IsList h (h.child q) (l₁ ++ (m ++ l₂)) ∧
    Links.IsList h' (h'.child q) (l₁ ++ new :: l₂) ∧ Links.IsList h' (h'.child new) m ∧
    (∀ n ∈ m, h.Holds new n) ∧ ∀ n ∈ l₁ ++ l₂, ¬ h.Holds new n
  moved : ∀ n, h.IsChild q n → h.Holds new n → h'.parent n = some new
  others : ∀ n, h.InTree r n → ¬ (h.IsChild q n ∧ h.Holds new n) → h'.parent n = h.parent n
  ranges : h'.start = h.start ∧ h'.end_ = h.end_

/-- The law: an insertion returns; it succeeds exactly if the new resource lies inside the parent
and no resource below the parent overlaps it partly; if it succeeds, the new resource goes below the
smallest one that holds it, and else nothing changes. -/
def InsertsWell (h : Resources) (r parent new : ℕ) : Prop :=
  ∃ res h', Loops.Settles (fun n => h.exec n (.insert parent new)) (res, h') ∧
    (res = .ok () ↔ h.Holds parent new ∧ ∀ x, h.InTree parent x → ¬ h.PartlyOverlaps x new) ∧
    (res = .ok () → ∃ q, h.Host parent new q ∧ h.Inserted h' r q new) ∧
    (res ≠ .ok () → h' = h)

/-! ### The host -/

/-- Below `p` the resource `q` holds the new one, and none of its children does, unless it has the
same range. -/
structure Hosts (h : Resources) (kids : ℕ → List ℕ) (p new q : ℕ) : Prop where
  below : h.Below kids p new q
  holds : h.Holds q new
  deepest : ∀ x ∈ kids q, h.Holds x new → h.SameRange x new

/-- A host is the smallest resource that holds the new one. -/
theorem Hosts.host (ht : h.Tree kids r) (hp : Desc kids r p) (hordered : h.lo new ≤ h.hi new)
    (hq : h.Hosts kids p new q) : h.Host p new q := by
  have hdq := hp.trans hq.below.1
  have hbelow : ∀ x, Desc kids r x → h.Heads kids x := fun x hx y hy => ht.heads y (hx.trans hy)
  refine ⟨(hbelow p hp).inTree_iff.2 hq.below.1, hq.holds, hq.below.2, fun x hx hholds hor => ?_⟩
  rw [(hbelow p hp).inTree_iff] at hx
  have hdx := hp.trans hx
  rw [(hbelow x hdx).inTree_iff]
  have hqh := hq.holds
  rcases ht.heads.nested.apart hdx hdq with hdesc | hdesc | hlt | hlt
  · exact hdesc
  · -- `x` is not below a child of `q`
    rcases Relation.ReflTransGen.cases_head hdesc with rfl | ⟨y, hy, hyx⟩
    · exact .refl
    · have hin := ht.heads.nested.inside (hdq.child hy) hyx
      have hsame := hq.deepest y hy ⟨hin.1.trans hholds.1, hholds.2.trans hin.2⟩
      have hsame' : h.lo y = h.lo new ∧ h.hi y = h.hi new := by
        rw [lo, lo, hi, hi, hsame.1, hsame.2]
        exact ⟨rfl, rfl⟩
      have hlo : h.lo x = h.lo new := Nat.le_antisymm hholds.1 (hsame'.1 ▸ hin.1)
      have hhi : h.hi x = h.hi new := Nat.le_antisymm (hsame'.2 ▸ hin.2) hholds.2
      rcases hor with rfl | hne
      · exact absurd (Nesting.Desc.trans hyx hq.below.1) (ht.rooted.acyclic hdq y hy)
      · exact absurd ⟨BitVec.eq_of_toNat_eq hlo, BitVec.eq_of_toNat_eq hhi⟩ hne
  · have hle := hholds.2
    have hle' := hqh.1
    omega
  · have hle := hqh.2
    have hle' := hholds.1
    omega

theorem FitsIn.hosts (hk : kids q = l₁ ++ l₂) (hfit : h.FitsIn q new l₁ l₂)
    (hq : h.Below kids p new q) : h.Hosts kids p new q := by
  have hin := hfit.within
  refine ⟨hq, hin.2, fun x hx hholds => ?_⟩
  have hlo := hholds.1
  have hhi := hholds.2
  rw [hk, List.mem_append] at hx
  rcases hx with hx | hx
  · have hlt := hfit.before x hx
    have hordered := hin.1
    omega
  · have hlt := hfit.behind x hx
    have hordered := hin.1
    omega

/-- The first child that meets the new resource is the only one that may hold it. -/
theorem Meets.hosts {c : ℕ} (hf : h.Fine kids q) (hmeets : h.Meets kids q new c l₁ l₂)
    (hq : h.Below kids p new q) (hstop : h.Holds c new → h.SameRange c new) :
    h.Hosts kids p new q := by
  have hin := hmeets.within
  refine ⟨hq, hin.2, fun x hx hholds => ?_⟩
  have hlo := hholds.1
  have hhi := hholds.2
  have hordered := hin.1
  have hend := hmeets.le_end
  have hsorted := hf.node.sorted
  rw [hmeets.kids_eq, List.pairwise_append, List.pairwise_cons] at hsorted
  rw [hmeets.kids_eq, List.mem_append, List.mem_cons] at hx
  rcases hx with hx | rfl | hx
  · have hlt := hmeets.before x hx
    omega
  · exact hstop hholds
  · have hlt := hsorted.2.1.1 x hx
    omega

/-! ### The descent -/

/-- What the first loop of an insertion ends with. -/
def Descended (h : Resources) (kids : ℕ → List ℕ) (p new : ℕ) : Option Descent → Prop
  | some (.finished none h') => ∃ q l₁ l₂, h.Hosts kids p new q ∧ kids q = l₁ ++ l₂ ∧
      h.FitsIn q new l₁ l₂ ∧ h' = h.putIn q new l₁ l₂
  | some (.finished (some _) h') => h' = h ∧ ¬ h.Holds p new
  | some (.stopped q c) => h.Hosts kids p new q ∧ ∃ l₁ l₂, h.Meets kids q new c l₁ l₂ ∧
      (h.Holds c new → h.SameRange c new)
  | none => False

/-- Below a child there are fewer resources. -/
theorem ncard_desc_lt (ht : h.Tree kids r) (hfin : {n | Desc kids r n}.Finite)
    (hq : Desc kids r q) {c : ℕ} (hc : c ∈ kids q) :
    {n | Desc kids c n}.ncard < {n | Desc kids q n}.ncard := by
  refine Set.ncard_lt_ncard ⟨fun n hn => (Nesting.Desc.refl.child hc).trans hn, fun hsub => ?_⟩
    (hfin.subset fun n hn => hq.trans hn)
  have hcq : Desc kids c q := @hsub q .refl
  exact ht.rooted.acyclic hq c hc hcq

section Rounds

variable {n c : ℕ}

theorem descendRound_entered (hreq : h.requestResource n q new = some (none, h')) :
    h.descendRound n new q = .done (some (.finished none h')) := by
  rw [descendRound, hreq]

theorem descendRound_outside (hreq : h.requestResource n q new = some (some q, h')) :
    h.descendRound n new q = .done (some (.finished (some q) h')) := by
  rw [descendRound, hreq]
  exact if_pos rfl

/-- At a child that does not hold the new resource, or has its range, the descent stops. -/
theorem descendRound_stopped (hreq : h.requestResource n q new = some (some c, h')) (hcq : c ≠ q)
    (hcnew : c ≠ new) (hstop : h.Holds c new → h.SameRange c new) :
    h.descendRound n new q = .done (some (.stopped q c)) := by
  rw [descendRound, hreq]
  dsimp only
  rw [if_neg hcq, if_neg hcnew]
  split
  · rfl
  · rename_i hholds
    rw [not_or, BitVec.lt_def, BitVec.lt_def, not_lt, not_lt] at hholds
    exact if_pos (hstop hholds)

/-- The descent goes on to a child that holds the new resource. -/
theorem descendRound_more (hreq : h.requestResource n q new = some (some c, h')) (hcq : c ≠ q)
    (hcnew : c ≠ new) (hholds : h.Holds c new) (hne : ¬ h.SameRange c new) :
    h.descendRound n new q = .more c := by
  have hin : ¬ (h.start new < h.start c ∨ h.end_ c < h.end_ new) := by
    rw [not_or, BitVec.lt_def, BitVec.lt_def, not_lt, not_lt]
    exact hholds
  rw [descendRound, hreq]
  dsimp only
  rw [if_neg hcq, if_neg hcnew, if_neg hin]
  exact if_neg hne

end Rounds

/-- One round of the descent settles: it ends, or goes on to a child that holds the new resource. -/
theorem exists_descendRound (ht : h.Tree kids r) (hp : Desc kids r p) (hnew : ¬ Desc kids r new)
    (hordered : h.lo new ≤ h.hi new) (hbelow : h.Below kids p new q) (hq : h.Holds q new) :
    ∃ o, (∃ N, ∀ n ≥ N, h.descendRound n new q = o) ∧
      ((∃ d, o = .done d ∧ h.Descended kids p new d) ∨
        ∃ c ∈ kids q, o = .more c ∧ h.Below kids p new c ∧ h.Holds c new) := by
  have hdq := hp.trans hbelow.1
  obtain ⟨out, ⟨N, hN⟩, hreq⟩ := exists_requestResource ht.heads hdq new
  cases hreq with
  | entered l₁ l₂ hk hfit =>
      exact ⟨_, ⟨N, fun n hn => descendRound_entered (hN n hn)⟩,
        .inl ⟨_, rfl, q, l₁, l₂, hfit.hosts hk hbelow, hk, hfit, rfl⟩⟩
  | outside hout => exact absurd ⟨hordered, hq⟩ hout
  | met c l₁ l₂ hmeets =>
      have hc : c ∈ kids q := by simp [hmeets.kids_eq]
      have hcq : c ≠ q := ht.rooted.ne_of_mem hdq hc
      have hcnew : c ≠ new := by
        rintro rfl
        exact hnew (hdq.child hc)
      by_cases hstop : h.Holds c new → h.SameRange c new
      · exact ⟨_, ⟨N, fun n hn => descendRound_stopped (hN n hn) hcq hcnew hstop⟩,
          .inl ⟨_, rfl, hmeets.hosts (ht.heads q hdq) hbelow hstop, l₁, l₂, hmeets, hstop⟩⟩
      · rw [Classical.not_imp] at hstop
        exact ⟨_, ⟨N, fun n hn => descendRound_more (hN n hn) hcq hcnew hstop.1 hstop.2⟩,
          .inr ⟨c, hc, rfl, ⟨hbelow.1.child hc, .inr hstop.2⟩, hstop.1⟩⟩

/-- The first loop of an insertion returns. -/
theorem exists_descend (ht : h.Tree kids r) (hfin : {n | Desc kids r n}.Finite)
    (hp : Desc kids r p) (hnew : ¬ Desc kids r new) (hordered : h.lo new ≤ h.hi new) :
    ∃ d, h.Descended kids p new d ∧
      Loops.Settles (fun n => Loops.run (h.descendRound n new) n p) d := by
  obtain ⟨d, hd, N, hN⟩ : ∃ d, h.Descended kids p new d ∧ ∃ N, ∀ n ≥ N, ∀ k ≥ N,
      Loops.run (h.descendRound n new) k p = some d := by
    by_cases hholds : h.Holds p new
    · -- below the child that the descent goes on to there are fewer resources
      refine Loops.exists_settles_run (I := fun k q => h.Below kids p new q ∧ h.Holds q new ∧
        {n | Desc kids q n}.ncard = k) ?_ ⟨⟨.refl, .inl rfl⟩, hholds, rfl⟩
      rintro k q ⟨hbelow, hq, rfl⟩
      obtain ⟨o, hN, hor⟩ := exists_descendRound ht hp hnew hordered hbelow hq
      refine ⟨o, hN, fun c hmore => ?_, fun d hdone => ?_⟩
      · rcases hor with ⟨d, rfl, -⟩ | ⟨c', hc, rfl, hbelow', hq'⟩
        · cases hmore
        · cases hmore
          exact ⟨_, ncard_desc_lt ht hfin (hp.trans hbelow.1) hc, hbelow', hq', rfl⟩
      · rcases hor with ⟨d', rfl, hd'⟩ | ⟨c', -, rfl, -⟩
        · cases hdone
          exact hd'
        · cases hdone
    · obtain ⟨out, ⟨N, hN⟩, hreq⟩ := exists_requestResource ht.heads hp new
      cases hreq with
      | entered l₁ l₂ _ hfit => exact absurd hfit.within.2 hholds
      | met c l₁ l₂ hmeets => exact absurd hmeets.within.2 hholds
      | outside =>
          refine ⟨some (.finished (some p) h), ⟨rfl, hholds⟩, N + 1, fun n hn k hk => ?_⟩
          obtain ⟨k, rfl⟩ : ∃ j, k = j + 1 := ⟨k - 1, by omega⟩
          exact Loops.run_done (descendRound_outside (hN n (by omega)))
  exact ⟨d, hd, N, fun n hn => hN n hn n hn⟩

/-! ### The children that are covered -/

/-- The end of an insertion returns. -/
theorem settles_reparent {first next : ℕ} (ht : h.Tree kids r) (hq : Desc kids r q)
    (hk : kids q = l₁ ++ (m ++ l₂)) (hnot : ¬ Desc kids r new)
    (hcover : h.Covers new first next m l₂) :
    Loops.Settles (fun n => h.reparent n q new first next)
      (((h.cutOff q new first next).adopt m new).put (some new) (linkAfter (.child q) l₁)) := by
  have hqnew : q ≠ new := by
    rintro rfl
    exact hnot hq
  obtain ⟨hadopt, hscan⟩ := returns_reparent ht hq hk hnot hcover
  refine hadopt.settles.bind ?_
  dsimp only
  rw [child_adopt_cutOff h hqnew]
  rcases hscan with ⟨rfl, hpos⟩ | ⟨a, l, x, rfl, ha, hne, hscan⟩
  · simp only [if_pos hpos]
    exact .const _
  · rw [ha]
    simp only [if_neg fun heq => hne (Option.some.inj heq)]
    rw [linkAfter_concat]
    exact (Loops.Settles.const a).bind (hscan.settles.bind (.const _))

/-- A resource that gets some of the children of `q` is the only one that is new in the tree. -/
theorem desc_inserted_iff (hq : Desc kids r q)
    (hmem : ∀ n, n ∈ kids q ↔ n ∈ l₁ ∨ n ∈ m ∨ n ∈ l₂)
    (hmem' : ∀ n, n ∈ kids' q ↔ n ∈ l₁ ∨ n = new ∨ n ∈ l₂) (hkids : kids' new = m)
    (hother : ∀ x, Desc kids r x → x ≠ q → kids' x = kids x) (n : ℕ) :
    Desc kids' r n ↔ Desc kids r n ∨ n = new := by
  have hkeep : ∀ n, Desc kids r n → Desc kids' r n := by
    intro n hn
    induction hn with
    | refl => exact .refl
    | @tail p n hp hnp ih =>
        have hchild : n ∈ kids p := hnp
        by_cases hpq : p = q
        · subst hpq
          rcases (hmem n).1 hchild with hn | hn | hn
          · exact ih.child ((hmem' n).2 (.inl hn))
          · exact (ih.child ((hmem' new).2 (.inr (.inl rfl)))).child (hkids ▸ hn)
          · exact ih.child ((hmem' n).2 (.inr (.inr hn)))
        · rw [← hother p hp hpq] at hchild
          exact ih.child hchild
  constructor
  · intro hn
    refine hn.closed (S := fun n => Desc kids r n ∨ n = new) (.inl .refl) ?_
    rintro p (hp | rfl) n hn
    · by_cases hpq : p = q
      · subst hpq
        rcases (hmem' n).1 hn with hn | hn | hn
        · exact .inl (hp.child ((hmem n).2 (.inl hn)))
        · exact .inr hn
        · exact .inl (hp.child ((hmem n).2 (.inr (.inr hn))))
      · rw [hother p hp hpq] at hn
        exact .inl (hp.child hn)
    · rw [hkids] at hn
      exact .inl (hq.child ((hmem n).2 (.inr (.inl hn))))
  · rintro (hn | rfl)
    · exact hkeep n hn
    · exact (hkeep q hq).child ((hmem' _).2 (.inr (.inl rfl)))

/-- A resource that got some of the children of `q`, between the others. -/
theorem Tree.inserted (ht : h.Tree kids r) (ht' : h'.Tree kids' r) (hq : Desc kids r q)
    (hk : kids q = l₁ ++ (m ++ l₂))
    (hself : kids' q = l₁ ++ new :: l₂) (hkids : kids' new = m)
    (hother : ∀ x, Desc kids r x → x ≠ q → kids' x = kids x) (hstart : h'.start = h.start)
    (hend : h'.end_ = h.end_)
    (hbefore : ∀ a ∈ l₁, h.hi a < h.lo new) (hinside : ∀ a ∈ m, h.Holds new a)
    (hbehind : ∀ b ∈ l₂, h.hi new < h.lo b) : h.Inserted h' r q new := by
  have hf := ht.heads q hq
  have hmem : ∀ n, n ∈ kids q ↔ n ∈ l₁ ∨ n ∈ m ∨ n ∈ l₂ := by
    intro n
    rw [hk, List.mem_append, List.mem_append]
  have hmem' : ∀ n, n ∈ kids' q ↔ n ∈ l₁ ∨ n = new ∨ n ∈ l₂ := by
    intro n
    rw [hself, List.mem_append, List.mem_cons]
  have hdesc := desc_inserted_iff hq hmem hmem' hkids hother
  have hq' := (hdesc q).2 (.inl hq)
  have hnew' := (hdesc new).2 (.inr rfl)
  have hf' := ht'.heads q hq'
  have hfnew := ht'.heads new hnew'
  have hout : ∀ n, n ∈ l₁ ∨ n ∈ l₂ → ¬ h.Holds new n := by
    rintro n hn ⟨hlo, hhi⟩
    rcases hn with hn | hn
    · have hlt := hbefore n hn
      have hle := ht.heads.ordered hq n ((hmem n).2 (.inl hn))
      omega
    · have hlt := hbehind n hn
      have hle := ht.heads.ordered hq n ((hmem n).2 (.inr (.inr hn)))
      omega
  refine ⟨ht'.treeOk, fun n => ?_, hf'.parent new ((hmem' new).2 (.inr (.inl rfl))),
    ⟨l₁, m, l₂, hk ▸ hf.chain, hself ▸ hf'.chain, hkids ▸ hfnew.chain, hinside, fun n hn => ?_⟩,
    fun n hn hholds => ?_, fun n hn hnot => ?_, hstart, hend⟩
  · rw [ht'.heads.inTree_iff, ht.heads.inTree_iff, hdesc]
  · exact hout n (List.mem_append.1 hn)
  · refine hfnew.parent n ?_
    rw [hkids]
    rcases (hmem n).1 (hf.isChild_iff.1 hn) with hn | hn | hn
    · exact absurd hholds (hout n (.inl hn))
    · exact hn
    · exact absurd hholds (hout n (.inr hn))
  · rw [ht.heads.inTree_iff] at hn
    rw [hf.isChild_iff] at hnot
    by_cases hroot : n = r
    · rw [hroot, ht.root, ht'.root]
    · obtain ⟨p, hparent, hp, hnp⟩ := ht.rooted.exists_parent hn hroot
      rw [hparent]
      by_cases hpq : p = q
      · subst hpq
        refine hf'.parent n ((hmem' n).2 ?_)
        rcases (hmem n).1 hnp with hn | hn | hn
        · exact .inl hn
        · exact absurd ⟨hnp, hinside n hn⟩ hnot
        · exact .inr (.inr hn)
      · refine (ht'.heads p ((hdesc p).2 (.inl hp))).parent n ?_
        rw [hother p hp hpq]
        exact hnp

/-- If no child of the host overlaps the new resource partly, nothing below `p` does. -/
theorem Tree.not_partlyOverlaps {x : ℕ} (ht : h.Tree kids r) (hp : Desc kids r p)
    (hq : Desc kids p q) (hholds : h.Holds q new) (hk : kids q = l₁ ++ (m ++ l₂))
    (hbefore : ∀ a ∈ l₁, h.hi a < h.lo new) (hinside : ∀ a ∈ m, h.Holds new a)
    (hbehind : ∀ b ∈ l₂, h.hi new < h.lo b) (hx : Desc kids p x) : ¬ h.PartlyOverlaps x new := by
  rintro ⟨hstart, hend, hout, hin⟩
  have hdq := hp.trans hq
  have hqlo := hholds.1
  have hqhi := hholds.2
  rcases ht.heads.nested.apart (hp.trans hx) hdq with hdesc | hdesc | hlt | hlt
  · have hle := ht.heads.nested.inside (hp.trans hx) hdesc
    exact hout ⟨hle.1.trans hqlo, hqhi.trans hle.2⟩
  · rcases Relation.ReflTransGen.cases_head hdesc with rfl | ⟨y, hy, hyx⟩
    · exact hout hholds
    · -- `x` lies inside a child of the host
      have hle := ht.heads.nested.inside (hdq.child hy) hyx
      rw [hk, List.mem_append, List.mem_append] at hy
      rcases hy with hy | hy | hy
      · have hlt := hbefore y hy
        omega
      · exact hin ⟨(hinside y hy).1.trans hle.1, hle.2.trans (hinside y hy).2⟩
      · have hlt := hbehind y hy
        omega
  · omega
  · omega

/-- `__insert_resource` returns: the new resource goes below its host, or there is a conflict. -/
theorem exists_insertResource (ht : h.Tree kids r) (hfin : {n | Desc kids r n}.Finite)
    (hp : Desc kids r p) (hnew : ¬ Desc kids r new) (hleaf : h.child new = none)
    (hordered : h.lo new ≤ h.hi new) :
    ∃ conflict h', Loops.Settles (fun n => h.insertResource n p new) (conflict, h') ∧
      ((conflict = none ∧ h.Holds p new ∧ (∀ x, Desc kids p x → ¬ h.PartlyOverlaps x new) ∧
          ∃ q, h.Host p new q ∧ h.Inserted h' r q new) ∨
        (conflict.isSome ∧ h' = h ∧
          (¬ h.Holds p new ∨ ∃ x, Desc kids p x ∧ h.PartlyOverlaps x new))) := by
  obtain ⟨d, hd, hdescend⟩ := exists_descend ht hfin hp hnew hordered
  rcases d with _ | ⟨_ | conflict, h'⟩ | ⟨q, c⟩
  · exact hd.elim
  · -- no child meets the new resource
    obtain ⟨q, l₁, l₂, hhosts, hk, hfit, rfl⟩ := hd
    have hdq := hp.trans hhosts.below.1
    have hk' : kids q = l₁ ++ ([] ++ l₂) := hk
    obtain ⟨kids', ht', hself, hother, hkids⟩ := ht.graft hdq hk (.leaf hleaf hordered hnew)
      hfit.within.2 hfit.before hfit.behind
    refine ⟨none, _, hdescend.bind (.const _), .inl ⟨rfl, ?_, fun x hx => ?_, q,
      hhosts.host ht hp hordered, ht.inserted ht' hdq hk' hself (hkids new .refl) hother
        (put_start ..) (put_end ..) hfit.before (List.forall_mem_nil _) hfit.behind⟩⟩
    · have hle := ht.heads.nested.inside hp hhosts.below.1
      exact ⟨hle.1.trans hhosts.holds.1, hhosts.holds.2.trans hle.2⟩
    · exact ht.not_partlyOverlaps hp hhosts.below.1 hhosts.holds hk' hfit.before
        (List.forall_mem_nil _) hfit.behind hx
  · obtain ⟨rfl, hholds⟩ := hd
    exact ⟨some conflict, h', hdescend.bind (.const _), .inr ⟨rfl, rfl, .inl hholds⟩⟩
  · obtain ⟨hhosts, l₁, l₂, hmeets, hstop⟩ := hd
    have hdq := hp.trans hhosts.below.1
    rcases returns_coverRound ht.heads hdq hmeets.kids_eq hmeets.start_le hmeets.le_end with
      ⟨n, hn, hor, hstart, hend, hout, hcover⟩ | ⟨next, m, l, hl, hcovers, hcover⟩
    · -- a child overlaps the new resource partly
      refine ⟨some n, h, hdescend.bind (hcover.settles.bind (.const _)), .inr ⟨rfl, rfl, .inr
        ⟨n, hhosts.below.1.child ?_, hstart, hend, fun hholds => ?_, hout⟩⟩⟩
      · rw [hmeets.kids_eq]
        exact List.mem_append_right _ hn
      · rcases hor with rfl | hlt
        · have hsame := hstop hholds
          refine hout ⟨?_, ?_⟩
          · rw [lo, lo, hsame.1]
          · rw [hi, hi, hsame.2]
        · exact absurd hholds.1 (Nat.not_le.2 hlt)
    · -- the children from `c` to `next` are covered
      have hk : kids q = l₁ ++ (m ++ l) := by rw [hmeets.kids_eq, hl]
      obtain ⟨j, hnext⟩ := hcovers.next_eq
      have hreparent := settles_reparent ht hdq hk hnew hcovers
      have ht' := ht.cover hdq hk hnew hcovers.first_eq hnext hordered hcovers.covers
        hmeets.within.2 hmeets.before hcovers.behind
      have hqnew : q ≠ new := by
        rintro rfl
        exact hnew hdq
      refine ⟨none, _, hdescend.bind (hcover.settles.bind (hreparent.bind (.const _))),
        .inl ⟨rfl, ?_, fun x hx => ?_, q, hhosts.host ht hp hordered, ht.inserted ht' hdq hk ?_
          (Function.update_self ..) (fun x hx hxq => ?_) (put_start ..) (put_end ..) hmeets.before
            hcovers.covers hcovers.behind⟩⟩
      · have hle := ht.heads.nested.inside hp hhosts.below.1
        exact ⟨hle.1.trans hhosts.holds.1, hhosts.holds.2.trans hle.2⟩
      · exact ht.not_partlyOverlaps hp hhosts.below.1 hhosts.holds hk hmeets.before hcovers.covers
          hcovers.behind hx
      · rw [Function.update_of_ne hqnew, Function.update_self]
        rfl
      · have hxnew : x ≠ new := by
          rintro rfl
          exact hnew hx
        rw [Function.update_of_ne hxnew, Function.update_of_ne hxq]

end Resources

/-- For every finite tree, every resource in it and every resource that is in no tree, has no
children and has a range: an insertion of the one below the other succeeds exactly if it lies inside
it and nothing there overlaps it partly; it then goes below the smallest resource that holds it and
gets the children of this one that lie inside it, and else nothing changes. -/
theorem resource_insert_ok {h : Resources} {r parent new : ℕ} (ht : h.TreeOk r)
    (hr : h.parent r = none) (hfin : {n | h.InTree r n}.Finite) (hparent : h.InTree r parent)
    (hnew : ¬ h.InTree r new) (hleaf : h.child new = none) (hordered : h.start new ≤ h.end_ new) :
    h.InsertsWell r parent new := by
  obtain ⟨kids, ht⟩ := ht.exists_tree hr
  simp only [ht.heads.inTree_iff] at hfin
  rw [ht.heads.inTree_iff] at hparent hnew
  have hbelow : h.Heads kids parent := fun x hx => ht.heads x (hparent.trans hx)
  obtain ⟨conflict, h', hsettles, hout⟩ :=
    Resources.exists_insertResource ht hfin hparent hnew hleaf (BitVec.le_def.1 hordered)
  refine ⟨_, h', hsettles.bind (.const (Resources.ofConflict conflict, h')), ?_⟩
  simp only [hbelow.inTree_iff]
  rcases hout with ⟨rfl, hholds, hnone, q, hhost, hinserted⟩ | ⟨hconflict, rfl, hor⟩
  · exact ⟨iff_of_true rfl ⟨hholds, hnone⟩, fun _ => ⟨q, hhost, hinserted⟩,
      fun hne => absurd rfl hne⟩
  · have herr : Resources.ofConflict conflict ≠ .ok () := by
      rw [Resources.ofConflict, if_pos hconflict]
      simp
    refine ⟨iff_of_false herr ?_, fun hok => absurd hok herr, fun _ => rfl⟩
    rintro ⟨hholds, hnone⟩
    rcases hor with hnot | ⟨x, hx, hpartly⟩
    · exact hnot hholds
    · exact hnone x hx hpartly

/-- The outer range is inserted when the inner one is in the tree, and takes its place. -/
theorem resource_insert_ok_covered :
    (Resources.fresh.next (.request 0 2)).InsertsWell 0 0 1 := by
  have hfresh : Resources.fresh.Tree (fun _ => []) 0 := ⟨.leaf rfl (by decide), rfl⟩
  have hnot : ¬ Desc (fun _ => []) 0 2 := fun hdesc =>
    absurd (Resources.eq_of_desc_nil hdesc) (by decide)
  have hrun : Resources.fresh.requestResource 4 0 2 =
      some (none, Resources.fresh.next (.request 0 2)) := rfl
  obtain ⟨kids, ht⟩ := hfresh.request_leaf .refl hnot rfl hrun
  have hmem : ∀ n, (Resources.fresh.next (.request 0 2)).InTree 0 n → n ∈ [0, 2] := by
    refine fun n hn => hn.mem (by decide) fun p hp => ?_
    rcases List.mem_pair.1 hp with rfl | rfl
    · exact .inr ⟨2, by decide, by decide, by decide⟩
    · exact .inl (by decide)
  refine resource_insert_ok ht.treeOk (by decide) ((List.finite_toSet [0, 2]).subset hmem) .refl
    (fun hin => ?_) (by decide) (by decide)
  exact absurd (hmem 1 hin) (by decide)

end StarOS
