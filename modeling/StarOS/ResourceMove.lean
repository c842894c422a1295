/-
Reallocations (`drivers/resource/core.rs`).

A resource that has a parent is given another range by `reallocate_resource`, which searches as if
its own range were free.  It grows if the new range holds its own, it shrinks if it has no children,
and else it is taken out and requested again; as the new range is free, the request does not fail.
So nothing is changed before the outcome is certain.

* `StarOS.Resources.exists_releaseResource` — a release of a child;
* `StarOS.Resources.Resized`, `StarOS.Resources.ReallocatesWell` — the law;
* `StarOS.Resources.Tree.resized` — a tree with the same children;
* `StarOS.Resources.exists_move` — the resource that is taken out and requested again;
* `StarOS.resource_reallocate_ok` — the law holds.
-/

import StarOS.ResourceSpace

set_option autoImplicit false

namespace StarOS

open Nesting (Desc)

namespace Resources

variable {h h' : Resources} {kids kids' : ℕ → List ℕ} {r root old : ℕ} {l₁ l₂ : List ℕ}
  {s e size : BitVec 64} {c : ResourceConstraint} {k : ℕ}

/-! ### The law -/

/-- The child `old` of `root` got another range: the tree is as it should be and has the same
children, `old` has the size, lies inside the root and apart from its siblings, and holds its own
children; no other range changed. -/
structure Resized (h h' : Resources) (r root old : ℕ) (size : BitVec 64) : Prop where
  treeOk : h'.TreeOk r
  siblings : ∀ x, h'.IsChild root x ↔ h.IsChild root x
  children : ∀ x, h'.IsChild old x ↔ h.IsChild old x
  size_eq : h'.hi old + 1 = h'.lo old + size.toNat
  inside : h'.lo root ≤ h'.lo old ∧ h'.hi old ≤ h'.hi root
  apart : ∀ x, h'.IsChild root x → x ≠ old → h'.hi x < h'.lo old ∨ h'.hi old < h'.lo x
  holds : ∀ x, h'.IsChild old x → h'.lo old ≤ h'.lo x ∧ h'.hi x ≤ h'.hi old
  others : ∀ x ≠ old, h'.start x = h.start x ∧ h'.end_ x = h.end_ x

/-- The law: an allocation of a resource that is placed already returns, and either succeeds and
gives it the size, or changes nothing. -/
def ReallocatesWell (h : Resources) (r root old : ℕ) (size : BitVec 64) (c : ResourceConstraint) :
    Prop :=
  ∃ res h', Loops.Settles (fun n => h.allocateResource n root old size c) (res, h') ∧
    ((res = .ok () ∧ h.Resized h' r root old size) ∨ (res ≠ .ok () ∧ h' = h))

/-! ### Trees -/

/-- A tree that is as it should be, with its lists of children. -/
theorem TreeOk.exists_tree (ht : h.TreeOk r) (hroot : h.parent r = none) :
    ∃ kids, h.Tree kids r := by
  obtain ⟨kids, hheads, -⟩ := ht.exists_kids
  exact ⟨kids, hheads, hroot⟩

/-- A tree with the same children, in which one of them has the size. -/
theorem Tree.resized (ht : h.Tree kids r) (ht' : h'.Tree kids' r) (hroot : Desc kids r root)
    (hroot' : Desc kids' r root) (hold : old ∈ kids root)
    (hsiblings : ∀ x, x ∈ kids' root ↔ x ∈ kids root) (hchildren : kids' old = kids old)
    (hsize : h'.hi old + 1 = h'.lo old + size.toNat)
    (hothers : ∀ x ≠ old, h'.start x = h.start x ∧ h'.end_ x = h.end_ x) :
    h.Resized h' r root old size := by
  have hf := ht.heads root hroot
  have hf' := ht'.heads root hroot'
  have hmem := (hsiblings old).2 hold
  have hfold := ht.heads old (hroot.child hold)
  have hfold' := ht'.heads old (hroot'.child hmem)
  refine ⟨ht'.treeOk, fun x => ?_, fun x => ?_, hsize, hf'.node.inside old hmem, fun x hx hne => ?_,
    fun x hx => hfold'.node.inside x (hfold'.isChild_iff.1 hx), hothers⟩
  · rw [hf'.isChild_iff, hf.isChild_iff, hsiblings]
  · rw [hfold'.isChild_iff, hfold.isChild_iff, hchildren]
  · exact hf'.node.apart (hf'.isChild_iff.1 hx) hmem hne

/-- A range in place. -/
theorem Tree.resized_setRange (ht : h.Tree kids r) (ht' : (h.setRange old s e).Tree kids r)
    (hroot : Desc kids r root) (hold : old ∈ kids root)
    (hsum : e.toNat + 1 = s.toNat + size.toNat) :
    h.Resized (h.setRange old s e) r root old size := by
  refine ht.resized ht' hroot hroot hold (fun _ => Iff.rfl) rfl ?_ fun x hx => ⟨?_, ?_⟩
  · rw [hi_setRange, lo_setRange, Function.update_self, Function.update_self]
    exact hsum
  · exact Function.update_of_ne hx ..
  · exact Function.update_of_ne hx ..

/-! ### Releases -/

/-- The release of a child takes it out of the chain. -/
theorem exists_releaseResource (ht : h.Tree kids r) (hroot : Desc kids r root)
    (hold : old ∈ kids root) :
    ∃ l₁ l₂, kids root = l₁ ++ old :: l₂ ∧
      Loops.Settles (fun n => h.releaseResource n old true) (.ok (), h.takenOut root old l₁) := by
  have hf := ht.heads root hroot
  obtain ⟨out, hout⟩ : ∃ out, Loops.Returns (h.findRound old) (.child root) out := by
    refine hf.exists_returns fun p p' hmore => ?_
    rw [findRound] at hmore
    split at hmore
    · rename_i tmp htmp
      split at hmore
      · cases hmore
      · cases hmore
        exact ⟨tmp, htmp, rfl⟩
    · cases hmore
  obtain ⟨N, hN⟩ := hout
  rcases run_findRound hf hN with ⟨-, hnot⟩ | ⟨l₁, l₂, hk, rfl⟩
  · exact absurd hold hnot
  refine ⟨l₁, l₂, hk, ?_⟩
  have hfind : Loops.Returns (h.findRound old) (.child root) _ := ⟨N, hN⟩
  simp only [releaseResource, hf.parent old hold]
  exact hfind.settles.bind (.const _)

/-! ### Moves -/

/-- A child without children is taken out, gets a range that was free without it, and is requested
again. -/
theorem exists_move (ht : h.Tree kids r) (hroot : Desc kids r root) (hold : old ∈ kids root)
    (hleaf : h.child old = none) (hfree : h.IsFree kids root (some old) s.toNat e.toNat)
    (hsum : e.toNat + 1 = s.toNat + size.toNat) (hk : kids root = l₁ ++ old :: l₂) :
    ∃ h', Loops.Settles (fun n =>
        ((h.takenOut root old l₁).setRange old s e).requestResource n root old) (none, h') ∧
      h.Resized h' r root old size := by
  have hne : root ≠ old := (ht.rooted.ne_of_mem hroot hold).symm
  -- the tree without the resource
  obtain ⟨ht₁, hnot, hkeep, hleaf₁⟩ := ht.takeOut hroot hk hleaf
  have hself : Function.update kids root (l₁ ++ l₂) root = l₁ ++ l₂ := Function.update_self ..
  have hroot₁ := hkeep root hroot hne
  have hlo : (h.takenOut root old l₁).lo = h.lo := lo_eq (put_start ..)
  have hhi : (h.takenOut root old l₁).hi = h.hi := hi_eq (put_end ..)
  have hfree₁ : (h.takenOut root old l₁).IsFree (Function.update kids root (l₁ ++ l₂)) root none
      s.toNat e.toNat := by
    refine ⟨hfree.ordered, ?_, fun x hx _ => ?_⟩ <;> rw [hlo, hhi]
    · exact hfree.inside
    · rw [hself] at hx
      refine hfree.apart x ?_ fun heq => ?_
      · rw [hk, List.mem_append, List.mem_cons]
        exact (List.mem_append.1 hx).imp_right .inr
      · rw [Option.some.inj heq] at hx
        exact ht.heads.not_mem_rest hroot hk hx
  generalize Function.update kids root (l₁ ++ l₂) = kids₁ at *
  -- the request
  have hheads₁ : (h.takenOut root old l₁).Heads kids₁ root := fun p hp =>
    ht₁.heads p (hroot₁.trans hp)
  obtain ⟨out, hout, hcases⟩ := exists_request_setRange (s := s) (e := e) hheads₁ fun hdesc =>
    hnot (hroot₁.trans hdesc)
  rcases hcases with ⟨-, m₁, m₂, hm, hfit, rfl⟩ | ⟨hfalse, -⟩
  · have hapart : ((h.takenOut root old l₁).setRange old s e).Apart kids₁ (fun _ => []) r old :=
      .leaf hleaf₁ hfit.within.1 hnot
    obtain ⟨kids₂, ht₂, hself₂, hother₂, hnew₂⟩ := (ht₁.setRange_of_not hnot s e).graft hroot₁ hm
      hapart hfit.within.2 hfit.before hfit.behind
    refine ⟨_, hout, ht.resized ht₂ hroot ?_ hold (fun x => ?_) ?_ ?_ fun x hx => ?_⟩
    · refine hroot₁.mono fun p hp x hx => ?_
      by_cases hpq : p = root
      · rw [hpq] at hx ⊢
        rw [hm, List.mem_append] at hx
        rw [hself₂, List.mem_append, List.mem_cons]
        exact hx.imp_right .inr
      · rw [hother₂ p hp hpq]
        exact hx
    · have hsame : x ∈ m₁ ∨ x ∈ m₂ ↔ x ∈ l₁ ∨ x ∈ l₂ := by
        rw [← List.mem_append, ← hm, hself, List.mem_append]
      rw [hself₂, hk, List.mem_append, List.mem_cons, List.mem_append, List.mem_cons]
      tauto
    · rw [hnew₂ old .refl, (ht.heads old (hroot.child hold)).kids_eq_nil hleaf]
    · rw [lo_putIn, hi_putIn, lo_setRange, hi_setRange, Function.update_self, Function.update_self]
      exact hsum
    · have hstart : (((h.takenOut root old l₁).setRange old s e).putIn root old m₁ m₂).start =
          Function.update (h.takenOut root old l₁).start old s := put_start ..
      have hend : (((h.takenOut root old l₁).setRange old s e).putIn root old m₁ m₂).end_ =
          Function.update (h.takenOut root old l₁).end_ old e := put_end ..
      rw [hstart, hend, Function.update_of_ne hx, Function.update_of_ne hx]
      exact ⟨congrFun (put_start ..) x, congrFun (put_end ..) x⟩
  · exact absurd hfree₁ hfalse

/-- A first child that is not `old` ends in front of it. -/
theorem Tree.endsBefore (ht : h.Tree kids r) (hroot : Desc kids r root) (hold : old ∈ kids root) :
    h.EndsBefore root (some old) := by
  intro x hx _ hne hend
  have hf := ht.heads root hroot
  have hhead : h.child root = (kids root).head? := isList_head hf.chain
  have hsorted := hf.node.sorted
  cases hk : kids root with
  | nil =>
      rw [hk] at hold
      cases hold
  | cons a l =>
      rw [hk] at hold hsorted hhead
      obtain rfl : x = a := Option.some.inj (hx.symm.trans hhead)
      have hmem : old ∈ l := (List.mem_cons.1 hold).resolve_left fun heq => hne (heq ▸ rfl)
      have hlt := (List.pairwise_cons.1 hsorted).1 old hmem
      have hmax := (h.start old).isLt
      rw [hi, hend, BitVec.toNat_allOnes, lo] at hlt
      omega

/-- `reallocate_resource` gives a child the size, or changes nothing. -/
theorem exists_reallocateResource (ht : h.Tree kids r) (hroot : Desc kids r root)
    (hold : old ∈ kids root) (ha : c.align.toNat = 2 ^ k) (hsize : 1 ≤ size.toNat) :
    ∃ res h', Loops.Settles (fun n => h.reallocateResource n root old size c) (res, h') ∧
      ((res = .ok () ∧ h.Resized h' r root old size) ∨ (res ≠ .ok () ∧ h' = h)) := by
  have hdesc := hroot.child hold
  obtain ⟨found, hsearch, hfound⟩ :=
    exists_findResourceSpace ht.heads hroot (ht.endsBefore hroot hold) ha hsize
  rcases found with err | ⟨s, e⟩
  · exact ⟨.error err, h, hsearch.bind (.const _), .inr ⟨by simp, rfl⟩⟩
  obtain ⟨⟨⟨-, hfree⟩, -⟩, hsum⟩ := hfound
  have hlast : s.toNat + size.toNat - 1 = e.toNat := by omega
  rw [hlast] at hfree
  by_cases hgrow : s ≤ h.start old ∧ h.end_ old ≤ e
  · refine ⟨.ok (), h.setRange old s e, hsearch.bind ?_, .inl ⟨rfl, ?_⟩⟩
    · simp only [if_pos hgrow]
      exact .const _
    · exact ht.resized_setRange (ht.enlarge hroot hdesc hfree (BitVec.le_def.1 hgrow.1)
        (BitVec.le_def.1 hgrow.2)) hroot hold hsum
  by_cases hchild : (h.child old).isSome
  · refine ⟨.error .busy, h, hsearch.bind ?_, .inr ⟨by simp, rfl⟩⟩
    simp only [if_neg hgrow, if_pos hchild]
    exact .const _
  have hleaf : h.child old = none := by
    rwa [Bool.not_eq_true, Option.isSome_eq_false_iff, Option.isNone_iff_eq_none] at hchild
  by_cases hshrink : h.start old ≤ s ∧ e ≤ h.end_ old
  · refine ⟨.ok (), h.setRange old s e, hsearch.bind ?_, .inl ⟨rfl, ?_⟩⟩
    · simp only [if_neg hgrow, if_neg hchild, if_pos hshrink]
      exact .const _
    · exact ht.resized_setRange (ht.shrink hdesc hleaf hfree.ordered (BitVec.le_def.1 hshrink.1)
        (BitVec.le_def.1 hshrink.2)) hroot hold hsum
  · obtain ⟨l₁, l₂, hk, hrelease⟩ := exists_releaseResource ht hroot hold
    obtain ⟨h', hmove, hresized⟩ := exists_move ht hroot hold hleaf hfree hsum hk
    refine ⟨.ok (), h', hsearch.bind ?_, .inl ⟨rfl, hresized⟩⟩
    simp only [if_neg hgrow, if_neg hchild, if_neg hshrink]
    exact hrelease.bind (hmove.bind (.const _))

end Resources

/-- For every tree, every child of a resource in it, every size of at least one address and every
constraint whose alignment is a power of two: an allocation of the child returns, and either
succeeds and gives it the size, or changes nothing. -/
theorem resource_reallocate_ok {h : Resources} {r root old : ℕ} {size : BitVec 64}
    {c : ResourceConstraint} (ht : h.TreeOk r) (hr : h.parent r = none) (hroot : h.InTree r root)
    (hold : h.IsChild root old) (hsize : 1 ≤ size.toNat) (halign : ∃ k, c.align.toNat = 2 ^ k) :
    h.ReallocatesWell r root old size c := by
  obtain ⟨kids, ht⟩ := ht.exists_tree hr
  obtain ⟨k, ha⟩ := halign
  rw [ht.heads.inTree_iff] at hroot
  rw [(ht.heads root hroot).isChild_iff] at hold
  obtain ⟨res, h', hsettles, hout⟩ := Resources.exists_reallocateResource ht hroot hold ha hsize
  refine ⟨res, h', ?_, hout⟩
  have hparent : h.parent old = some root := (ht.heads root hroot).parent old hold
  simp only [Resources.allocateResource, hparent, Option.isSome_some, if_true]
  exact hsettles

/-- A child that has to be moved, as the lowest place lies in front of it. -/
theorem resource_reallocate_ok_moved :
    Resources.requested.ReallocatesWell 0 0 1 0x800#64 ⟨0#64, 0xFFFF#64, 0x10#64⟩ := by
  have hfresh : Resources.fresh.Tree (fun _ => []) 0 := ⟨.leaf rfl (by decide), rfl⟩
  have hnot : ¬ Desc (fun _ => []) 0 1 := fun hdesc =>
    absurd (Resources.eq_of_desc_nil hdesc) (by decide)
  have hrun : Resources.fresh.requestResource 4 0 1 = some (none, Resources.requested) := rfl
  obtain ⟨kids, ht⟩ := hfresh.request_leaf .refl hnot rfl hrun
  have hlast : Resources.requested.sibling 1 = none := by decide
  have hchild : Resources.requested.IsChild 0 1 :=
    ⟨[1], ⟨by decide, hlast⟩, List.mem_singleton.2 rfl⟩
  exact resource_reallocate_ok ht.treeOk (by decide) .refl hchild (by decide) ⟨4, rfl⟩

end StarOS
