/-
Runs of the calls on a resource tree.

A run starts at a root without children, and makes the calls in any order.  The tree stays as it
should be as long as what is put into it heads a sound tree of its own, and no range wraps around:
`remove_resource` lets a resource keep the address of its first child, which has moved up, and
`allocate_resource` and `adjust_resource` compute ends of ranges without a check.

* `StarOS.Resources.Sound`, `StarOS.Resources.Fits` — a resource that heads a tree of its own, and
  one that has room below another one;
* `StarOS.Resources.Proper`, `StarOS.Resources.Safe` — the calls of a run, and the condition;
* `StarOS.resource_tree_ok` — in a run whose calls meet the condition the tree is as it should be;
* `StarOS.resource_adjust_empty`, `StarOS.resource_child_kept` — runs that break the tree.
-/

import StarOS.ResourceRanges
import StarOS.Runs

set_option autoImplicit false

namespace StarOS

open Nesting (Desc)

namespace Resources

variable {h h' : Resources} {kids : ℕ → List ℕ} {r n new : ℕ}

/-! ### Conditions -/

/-- `new` heads a tree that is as it should be, and shares no resource with that of `r`. -/
structure Sound (h : Resources) (r new : ℕ) : Prop where
  ok : h.TreeOk new
  apart : ∀ n, h.InTree new n → ¬ h.InTree r n

/-- The range of `new` lies inside that of `q`, and apart from its children. -/
structure Fits (h : Resources) (q new : ℕ) : Prop where
  within : h.Within q new
  apart : ∀ c, h.IsChild q c → h.hi c < h.lo new ∨ h.hi new < h.lo c

/-- What is requested or inserted is in no tree; what is released, removed or adjusted is in one. -/
def Proper (r : ℕ) (h : Resources) : ResourceCall → Prop
  | .request root new => h.InTree r root ∧ ¬ h.InTree r new
  | .insert parent new => h.InTree r parent ∧ ¬ h.InTree r new
  | .release old => h.InTree r old
  | .remove old => h.InTree r old
  | .allocate root _ _ _ => h.InTree r root
  | .adjust res _ _ => h.InTree r res

/-- What is put into the tree heads a sound tree of its own, and no range wraps around. -/
def Safe (r : ℕ) (h : Resources) : ResourceCall → Prop
  | .request root new => h.Fits root new → h.Sound r new
  | .insert parent new => ∀ q, h.InTree parent q →
      q = parent ∨ ¬ (h.start q = h.start new ∧ h.end_ q = h.end_ new) →
      h.Fits q new → h.Sound r new
  | .release _ => True
  | .remove _ => True
  | .allocate root new _ _ =>
      (h.parent new = none → ¬ h.InTree r new ∧ h.child new = none) ∧
        (h.parent new ≠ none → h.InTree r new → h.EndsBefore root (some new))
  | .adjust _ start size => start ≤ start + size - 1#64

/-- The lists of children of a tree that is as it should be. -/
theorem TreeOk.exists_kids (ht : h.TreeOk n) :
    ∃ kids, h.Heads kids n ∧ ∀ p, Desc kids n p → n ∉ kids p := by
  choose! kids hchain hsorted hparent using ht.chains
  have hchild : ∀ p, h.InTree n p → ∀ c ∈ kids p, h.IsChild p c := fun p hp c hc =>
    ⟨kids p, hchain p hp, hc⟩
  have hin : ∀ p, Desc kids n p → h.InTree n p := fun p hp =>
    hp.closed (S := fun p => h.InTree n p) .refl fun q hq c hc => hq.tail (hchild q hq c hc)
  refine ⟨kids, fun p hp => ⟨⟨?_, fun c hc => ?_, ?_⟩, hchain p (hin p hp), hparent p (hin p hp)⟩,
    fun p hp hn => ?_⟩
  · exact ht.ordered p (hin p hp)
  · exact ht.inside p c (hin p hp) (hchild p (hin p hp) c hc)
  · exact (hsorted p (hin p hp)).imp fun hab => hab.2
  · -- a child that is the root is reached along two paths
    obtain ⟨l, hl, -⟩ := ht.paths p (hin p hp)
    have hpath := hl.snoc (hchild p (hin p hp) n hn)
    have hone : Nesting.IsPath h.IsChild n n [n] := ⟨rfl, rfl, List.isChain_singleton n⟩
    have heq : l ++ [n] = [] ++ [n] := (ht.paths n .refl).unique hpath hone
    rw [List.append_cancel_right heq] at hl
    cases hl.head

theorem Sound.exists_apart (hs : h.Sound r new) (ht : h.Heads kids r) :
    ∃ kids', h.Apart kids kids' r new := by
  obtain ⟨kids', hheads, hacyclic⟩ := hs.ok.exists_kids
  exact ⟨kids', hheads, hacyclic, fun x hx hr =>
    hs.apart x (hheads.inTree_iff.2 hx) (ht.inTree_iff.2 hr)⟩

theorem FitsIn.fits {q : ℕ} {l₁ l₂ : List ℕ} (hf : h.Fine kids q) (hk : kids q = l₁ ++ l₂)
    (hfit : h.FitsIn q new l₁ l₂) : h.Fits q new := by
  refine ⟨hfit.within, fun c hc => ?_⟩
  have hmem := hf.isChild_iff.1 hc
  rw [hk, List.mem_append] at hmem
  rcases hmem with hmem | hmem
  · exact .inl (hfit.before c hmem)
  · exact .inr (hfit.behind c hmem)

/-! ### Runs -/

/-- A call that meets the condition leaves a tree. -/
theorem Tree.exec {k : ℕ} {call : ResourceCall} {out : Except ResourceError Unit × Resources}
    (ht : h.Tree kids r) (hproper : Proper r h call) (hsafe : Safe r h call)
    (hrun : h.exec k call = some out) : ∃ kids', out.2.Tree kids' r := by
  cases call with
  | request root new =>
      obtain ⟨hroot, -⟩ := hproper
      have hroot := ht.heads.inTree_iff.1 hroot
      obtain ⟨⟨conflict, h'⟩, hrequest, hout⟩ := Option.bind_eq_some_iff.1 hrun
      cases hout
      exact (requestResource_cases ht.heads hroot hrequest).tree ht hroot fun l₁ l₂ hk hfit =>
        (hsafe (hfit.fits (ht.heads root hroot) hk)).exists_apart ht.heads
  | insert parent new =>
      obtain ⟨hparent, hnew⟩ := hproper
      rw [ht.heads.inTree_iff] at hparent hnew
      obtain ⟨⟨conflict, h'⟩, hinsert, hout⟩ := Option.bind_eq_some_iff.1 hrun
      cases hout
      have hbelow : h.Heads kids parent := fun p hp => ht.heads p (hparent.trans hp)
      exact ht.insert hparent hnew (fun q l₁ l₂ hq hk hfit =>
        (hsafe q (hbelow.inTree_iff.2 hq.1) hq.2 (hfit.fits (hbelow q hq.1) hk)).exists_apart
          ht.heads) hinsert
  | release old =>
      have hrelease : h.releaseResource k old true = some out := hrun
      exact ht.release (ht.heads.inTree_iff.1 hproper) hrelease
  | remove old =>
      have hremove : h.releaseResource k old false = some out := hrun
      exact ht.release (ht.heads.inTree_iff.1 hproper) hremove
  | allocate root new size constraint =>
      refine ht.allocate (ht.heads.inTree_iff.1 hproper) (fun hnone => ?_)
        (fun hsome hnew => ?_) hrun
      · obtain ⟨hnew, hleaf⟩ := hsafe.1 hnone
        exact ⟨fun hdesc => hnew (ht.heads.inTree_iff.2 hdesc), hleaf⟩
      · exact hsafe.2 hsome (ht.heads.inTree_iff.2 hnew)
  | adjust res start size => exact ht.adjust (ht.heads.inTree_iff.1 hproper) hsafe hrun

end Resources

/-- The runs: they start at a root without children, and make calls that return. -/
def resourceSystem (r : ℕ) : Runs.System Resources ResourceCall where
  init h := h.child r = none ∧ h.parent r = none ∧ h.start r ≤ h.end_ r
  step h call h' := ∃ n res, h.exec n call = some (res, h')

/-- In a run whose calls meet the condition the tree is as it should be in every state. -/
theorem resource_tree_ok {r : ℕ} {h : Resources}
    (hs : (resourceSystem r).Reach (fun h call => h.Proper r call ∧ h.Safe r call) h) :
    h.TreeOk r := by
  have hinv : ∃ kids, h.Tree kids r := by
    refine hs.invariant (P := fun h => ∃ kids, h.Tree kids r) ?_ ?_
    · rintro h ⟨hleaf, hroot, hordered⟩
      exact ⟨fun _ => [], .leaf hleaf (BitVec.le_def.1 hordered), hroot⟩
    · rintro h call h' ⟨kids, ht⟩ ⟨hproper, hsafe⟩ ⟨n, res, hrun⟩
      exact ht.exec hproper hsafe hrun
  obtain ⟨kids, ht⟩ := hinv
  exact ht.treeOk

/-! ### Three resources -/

namespace Resources

variable {h : Resources} {r n : ℕ}

/-- A root, a range inside it, and a range inside that one, before the first call. -/
def fresh : Resources where
  start n := if n = 0 then 0#64 else if n = 1 then 0x1000#64 else 0x1200#64
  end_ n := if n = 0 then 0xFFFF#64 else if n = 1 then 0x1FFF#64 else 0x12FF#64
  parent _ := none
  sibling _ := none
  child _ := none

/-- The records after a call, if it returns. -/
def next (h : Resources) (call : ResourceCall) : Resources :=
  match h.exec 4 call with
  | some out => out.2
  | none => h

theorem step_next {call : ResourceCall} (hsome : (h.exec 4 call).isSome) :
    (resourceSystem r).step h call (h.next call) := by
  obtain ⟨⟨res, h'⟩, hrun⟩ := Option.isSome_iff_exists.1 hsome
  refine ⟨4, res, ?_⟩
  rw [next, hrun]

/-- An only child. -/
theorem InTree.only {p : ℕ} (hp : h.InTree r p) (hchild : h.child p = some n)
    (hlast : h.sibling n = none) : h.InTree r n :=
  hp.tail ⟨[n], ⟨hchild, hlast⟩, List.mem_singleton.2 rfl⟩

/-- The resources below `r`, if there are only children. -/
theorem InTree.mem {S : List ℕ} (hn : h.InTree r n) (hr : r ∈ S)
    (hS : ∀ p ∈ S, h.child p = none ∨ ∃ c ∈ S, h.child p = some c ∧ h.sibling c = none) :
    n ∈ S := by
  induction hn with
  | refl => exact hr
  | @tail p n _ hchild ih =>
      obtain ⟨l, hl, hmem⟩ := hchild
      rcases hS p ih with hnone | ⟨c, hc, hsome, hlast⟩
      · rw [hnone, Links.isList_none] at hl
        rw [hl] at hmem
        exact absurd hmem List.not_mem_nil
      · have hone : Links.IsList h (h.child p) [c] := ⟨hsome, hlast⟩
        rw [hl.unique hone, List.mem_singleton] at hmem
        rwa [hmem]

theorem not_inTree_fresh (hn : n ≠ 0) : ¬ fresh.InTree 0 n := by
  intro hin
  refine hn (List.mem_singleton.1 (hin.mem (S := [0]) (List.mem_singleton.2 rfl) ?_))
  exact fun p _ => .inl rfl

theorem reach_fresh {G : Resources → ResourceCall → Prop} : (resourceSystem 0).Reach G fresh :=
  .init ⟨rfl, rfl, by decide⟩

/-- A request of a range without children. -/
theorem safe_fresh : fresh.Safe 0 (.request 0 1) := by
  intro _
  have heq : ∀ n, fresh.InTree 1 n → n = 1 := fun n hn =>
    List.mem_singleton.1 (hn.mem (S := [1]) (List.mem_singleton.2 rfl) fun p _ => .inl rfl)
  have htree : fresh.Tree (fun _ => []) 1 := ⟨.leaf rfl (by decide), rfl⟩
  refine ⟨htree.treeOk, fun n hn => ?_⟩
  rw [heq n hn]
  exact not_inTree_fresh (by decide)

end Resources

/-- A range is requested, and the tree is as it should be. -/
theorem resource_tree_requested :
    (Resources.fresh.next (.request 0 1)).child 0 = some 1 ∧
      (Resources.fresh.next (.request 0 1)).TreeOk 0 := by
  refine ⟨by decide, resource_tree_ok ?_⟩
  refine Resources.reach_fresh.step (a := .request 0 1) ⟨⟨.refl, ?_⟩, Resources.safe_fresh⟩
    (Resources.step_next (by decide))
  exact Resources.not_inTree_fresh (by decide)

/-- A range is requested, and then adjusted to no byte. -/
theorem resource_adjust_empty :
    (resourceSystem 0).Reach (Resources.Proper 0)
      ((Resources.fresh.next (.request 0 1)).next (.adjust 1 0x1500#64 0#64)) ∧
    ¬ ((Resources.fresh.next (.request 0 1)).next (.adjust 1 0x1500#64 0#64)).TreeOk 0 := by
  constructor
  · have hrequest : (resourceSystem 0).Reach (Resources.Proper 0)
        (Resources.fresh.next (.request 0 1)) :=
      Resources.reach_fresh.step (a := .request 0 1)
        ⟨.refl, Resources.not_inTree_fresh (by decide)⟩ (Resources.step_next (by decide))
    refine hrequest.step (a := .adjust 1 0x1500#64 0#64) ?_
      (Resources.step_next (by decide +kernel))
    exact Resources.InTree.only .refl (by decide) (by decide)
  · intro hok
    have hin := Resources.InTree.only (h := (Resources.fresh.next (.request 0 1)).next
      (.adjust 1 0x1500#64 0#64)) (r := 0) (n := 1) .refl (by decide +kernel) (by decide +kernel)
    exact absurd (hok.ordered 1 hin) (by decide +kernel)

namespace Resources

/-- The first range goes in, the second one below it; the first is removed, the second released. -/
def requested : Resources := fresh.next (.request 0 1)

/-- The second range is requested. -/
def nested : Resources := requested.next (.request 1 2)

/-- The first range is removed. -/
def removed : Resources := nested.next (.remove 1)

/-- The second range is released. -/
def released : Resources := removed.next (.release 2)

end Resources

/-- A removed range keeps the address of its child, and brings it into the tree again. -/
theorem resource_child_kept :
    (resourceSystem 0).Reach (Resources.Proper 0) (Resources.released.next (.request 0 1)) ∧
    ¬ (Resources.released.next (.request 0 1)).TreeOk 0 := by
  constructor
  · have hrequested : (resourceSystem 0).Reach (Resources.Proper 0) Resources.requested :=
      Resources.reach_fresh.step (a := .request 0 1)
        ⟨.refl, Resources.not_inTree_fresh (by decide)⟩ (Resources.step_next (by decide))
    have hnested : (resourceSystem 0).Reach (Resources.Proper 0) Resources.nested := by
      refine hrequested.step (a := .request 1 2)
        ⟨Resources.InTree.only .refl (by decide) (by decide), fun hin => ?_⟩
        (Resources.step_next (by decide +kernel))
      exact absurd (hin.mem (S := [0, 1]) (by decide) (by decide)) (by decide)
    have hremoved : (resourceSystem 0).Reach (Resources.Proper 0) Resources.removed := by
      refine hnested.step (a := .remove 1) ?_ (Resources.step_next (by decide +kernel))
      exact Resources.InTree.only .refl (by decide +kernel) (by decide +kernel)
    have hreleased : (resourceSystem 0).Reach (Resources.Proper 0) Resources.released := by
      refine hremoved.step (a := .release 2) ?_ (Resources.step_next (by decide +kernel))
      exact Resources.InTree.only .refl (by decide +kernel) (by decide +kernel)
    refine hreleased.step (a := .request 0 1) ⟨.refl, fun hin => ?_⟩
      (Resources.step_next (by decide +kernel))
    exact absurd (hin.mem (S := [0]) (by decide) (by decide +kernel)) (by decide)
  · intro hok
    have hin := Resources.InTree.only (h := Resources.released.next (.request 0 1)) (r := 0)
      (n := 1) .refl (by decide +kernel) (by decide +kernel)
    obtain ⟨l, hl, -, hparent⟩ := hok.chains 1 hin
    have hlast : (Resources.released.next (.request 0 1)).sibling 2 = none := by decide +kernel
    have hone : Links.IsList (Resources.released.next (.request 0 1))
        ((Resources.released.next (.request 0 1)).child 1) [2] := ⟨by decide +kernel, hlast⟩
    rw [hl.unique hone] at hparent
    exact absurd (hparent 2 List.mem_cons_self) (by decide +kernel)

end StarOS
