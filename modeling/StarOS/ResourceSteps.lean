/-
Requests, releases and insertions in a resource tree.

Each loop is followed along the list of children that it runs over: a request ends at the place
where the new resource fits, or at the first child that it meets; a release finds the place that
holds the address; an insertion goes down to the last resource that holds the new one, and takes the
children that it covers.  Each operation is then one of the changes that keep the shape.

* `StarOS.Resources.Requested`, `StarOS.Resources.requestResource_cases` — where a request ends;
* `StarOS.Resources.Released`, `StarOS.Resources.releaseResource_cases` — what a release does;
* `StarOS.Resources.Covers`, `StarOS.Resources.returns_coverRound`,
  `StarOS.Resources.reparent_eq` — the children that an insertion covers;
* `StarOS.Resources.Requested.tree`, `StarOS.Resources.Tree.release`,
  `StarOS.Resources.Tree.insert` — the operations leave a tree.
-/

import StarOS.ResourceTree

set_option autoImplicit false

namespace StarOS

namespace Resources

open Nesting (Desc)

variable {h h' : Resources} {kids : ℕ → List ℕ} {r p q n new old : ℕ} {l₁ l₂ : List ℕ}

/-! ### Positions -/

theorem Fine.get_linkAfter (hf : h.Fine kids q) (hk : kids q = l₁ ++ l₂) :
    h.get (linkAfter (.child q) l₁) = l₂.head? := by
  have hchain := hf.chain
  rw [hk] at hchain
  exact isList_head ((isList_append (x := .child q)).1 hchain).2

theorem Fine.sibling_eq {x : ℕ} (hf : h.Fine kids q) (hk : kids q = l₁ ++ x :: l₂) :
    h.sibling x = l₂.head? := by
  have hk' : kids q = (l₁ ++ [x]) ++ l₂ := by rw [hk, List.append_assoc, List.singleton_append]
  have hget := hf.get_linkAfter hk'
  rwa [linkAfter_concat] at hget

/-! ### Requests -/

/-- The resource is put between two children of another one. -/
def putIn (h : Resources) (q new : ℕ) (l₁ l₂ : List ℕ) : Resources :=
  ((h.setSibling new l₂.head?).put (some new) (linkAfter (.child q) l₁)).setParent new (some q)

/-- The range of `new` is one, and lies inside that of `q`. -/
def Within (h : Resources) (q new : ℕ) : Prop :=
  h.lo new ≤ h.hi new ∧ h.lo q ≤ h.lo new ∧ h.hi new ≤ h.hi q

/-- The range of `new` fits between the children `l₁` and `l₂` of `q`. -/
structure FitsIn (h : Resources) (q new : ℕ) (l₁ l₂ : List ℕ) : Prop where
  within : h.Within q new
  before : ∀ a ∈ l₁, h.hi a < h.lo new
  behind : ∀ b ∈ l₂, h.hi new < h.lo b

/-- The range of `new` meets that of the child `c` of `q`, and none in front of it. -/
structure Meets (h : Resources) (kids : ℕ → List ℕ) (q new c : ℕ) (l₁ l₂ : List ℕ) : Prop where
  within : h.Within q new
  kids_eq : kids q = l₁ ++ c :: l₂
  before : ∀ a ∈ l₁, h.hi a < h.lo new
  start_le : h.lo c ≤ h.hi new
  le_end : h.lo new ≤ h.hi c

/-- Where a request ends. -/
inductive Requested (h : Resources) (kids : ℕ → List ℕ) (q new : ℕ) : Option ℕ × Resources → Prop
  | entered (l₁ l₂ : List ℕ) : kids q = l₁ ++ l₂ → h.FitsIn q new l₁ l₂ →
      Requested h kids q new (none, h.putIn q new l₁ l₂)
  | outside : ¬ h.Within q new → Requested h kids q new (some q, h)
  | met (c : ℕ) (l₁ l₂ : List ℕ) : h.Meets kids q new c l₁ l₂ →
      Requested h kids q new (some c, h)

/-- What is behind the first of some children is behind all of them. -/
theorem Fine.behind (hf : h.Fine kids q) (hordered : ∀ c ∈ kids q, h.lo c ≤ h.hi c)
    (hk : kids q = l₁ ++ l₂) {v : ℕ} (hv : ∀ b ∈ l₂.head?, v < h.lo b) : ∀ b ∈ l₂, v < h.lo b := by
  cases l₂ with
  | nil => exact fun b hb => absurd hb List.not_mem_nil
  | cons a l₂ =>
      have hlt := hv a rfl
      have hsorted := hf.node.sorted
      rw [hk, List.pairwise_append, List.pairwise_cons] at hsorted
      intro b hb
      rcases List.mem_cons.1 hb with rfl | hb
      · exact hlt
      · have hle := hordered a (by simp [hk])
        exact hlt.trans (hle.trans_lt (hsorted.2.1.1 b hb))

/-- The ranges of children. -/
theorem Heads.ordered (ht : h.Heads kids r) (hq : Desc kids r q) :
    ∀ c ∈ kids q, h.lo c ≤ h.hi c := fun c hc => (ht c (hq.child hc)).node.ordered

theorem requestResource_cases {k : ℕ} {out : Option ℕ × Resources} (ht : h.Heads kids r)
    (hq : Desc kids r q) (hrun : h.requestResource k q new = some out) :
    h.Requested kids q new out := by
  have hf := ht q hq
  rw [requestResource] at hrun
  split at hrun
  · rename_i hlt
    cases hrun
    exact .outside fun hw => absurd (BitVec.lt_def.1 hlt) (not_lt.2 hw.1)
  split at hrun
  · rename_i hlt
    cases hrun
    exact .outside fun hw => absurd (BitVec.lt_def.1 hlt) (not_lt.2 hw.2.1)
  split at hrun
  · rename_i hlt
    cases hrun
    exact .outside fun hw => absurd (BitVec.lt_def.1 hlt) (not_lt.2 hw.2.2)
  rename_i h₁ h₂ h₃
  have hwithin : h.Within q new := by
    rw [BitVec.lt_def] at h₁ h₂ h₃
    exact ⟨not_lt.1 h₁, not_lt.1 h₂, not_lt.1 h₃⟩
  -- the loop has passed the children in front
  refine Loops.run_invariant (I := fun p => ∃ l₁ l₂, kids q = l₁ ++ l₂ ∧
    p = linkAfter (.child q) l₁ ∧ ∀ a ∈ l₁, h.hi a < h.lo new) ?_ ?_
    ⟨[], kids q, rfl, rfl, fun a ha => absurd ha List.not_mem_nil⟩ hrun
  · rintro p p' ⟨l₁, l₂, hk, rfl, hbefore⟩ hround
    rw [requestRound, hf.get_linkAfter hk] at hround
    cases l₂ with
    | nil => cases hround
    | cons c l₂ =>
        dsimp only [List.head?_cons] at hround
        split at hround
        · cases hround
        split at hround
        · rename_i hlt
          cases hround
          refine ⟨l₁ ++ [c], l₂, ?_, (linkAfter_concat ..).symm, fun a ha => ?_⟩
          · rw [hk, List.append_assoc, List.singleton_append]
          · rcases List.mem_append.1 ha with ha | ha
            · exact hbefore a ha
            · rw [List.mem_singleton.1 ha]
              exact BitVec.lt_def.1 hlt
        · cases hround
  · rintro p res ⟨l₁, l₂, hk, rfl, hbefore⟩ hround
    rw [requestRound, hf.get_linkAfter hk] at hround
    cases l₂ with
    | nil =>
        cases hround
        exact .entered l₁ [] hk ⟨hwithin, hbefore, fun b hb => absurd hb List.not_mem_nil⟩
    | cons c l₂ =>
        dsimp only [List.head?_cons] at hround
        split at hround
        · rename_i hlt
          cases hround
          refine .entered l₁ (c :: l₂) hk ⟨hwithin, hbefore, ?_⟩
          refine hf.behind (ht.ordered hq) hk fun b hb => ?_
          rw [← Option.some.inj hb]
          exact BitVec.lt_def.1 hlt
        split at hround
        · cases hround
        · rename_i hlt hlt'
          cases hround
          rw [BitVec.lt_def] at hlt hlt'
          exact .met c l₁ l₂ ⟨hwithin, hk, hbefore, not_lt.1 hlt, not_lt.1 hlt'⟩

/-! ### Releases -/

/-- The loop of a release finds the place that holds the address. -/
theorem run_findRound {k : ℕ} {out : Option ResLink} (hf : h.Fine kids q)
    (hrun : Loops.run (h.findRound old) k (.child q) = some out) :
    (out = none ∧ old ∉ kids q) ∨
      ∃ l₁ l₂, kids q = l₁ ++ old :: l₂ ∧ out = some (linkAfter (.child q) l₁) := by
  refine Loops.run_invariant (I := fun p => ∃ l₁ l₂, kids q = l₁ ++ l₂ ∧
    p = linkAfter (.child q) l₁ ∧ old ∉ l₁)
    (P := fun out => (out = none ∧ old ∉ kids q) ∨
      ∃ l₁ l₂, kids q = l₁ ++ old :: l₂ ∧ out = some (linkAfter (.child q) l₁)) ?_ ?_
    ⟨[], kids q, rfl, rfl, List.not_mem_nil⟩ hrun
  · rintro p p' ⟨l₁, l₂, hk, rfl, hnot⟩ hround
    rw [findRound, hf.get_linkAfter hk] at hround
    cases l₂ with
    | nil => cases hround
    | cons c l₂ =>
        dsimp only [List.head?_cons] at hround
        split at hround
        · cases hround
        · rename_i hne
          cases hround
          refine ⟨l₁ ++ [c], l₂, ?_, (linkAfter_concat ..).symm, fun hmem => ?_⟩
          · rw [hk, List.append_assoc, List.singleton_append]
          · rcases List.mem_append.1 hmem with hmem | hmem
            · exact hnot hmem
            · exact hne (List.mem_singleton.1 hmem).symm
  · rintro p res ⟨l₁, l₂, hk, rfl, hnot⟩ hround
    rw [findRound, hf.get_linkAfter hk] at hround
    cases l₂ with
    | nil =>
        cases hround
        rw [List.append_nil] at hk
        exact .inl ⟨rfl, hk ▸ hnot⟩
    | cons c l₂ =>
        dsimp only [List.head?_cons] at hround
        split at hround
        · rename_i heq
          cases hround
          exact .inr ⟨l₁, l₂, heq ▸ hk, rfl⟩
        · cases hround

theorem adopt_cons (h : Resources) (a : ℕ) (l : List ℕ) (q : ℕ) :
    (h.setParent a (some q)).adopt l q = h.adopt (a :: l) q := by
  have hparent : ((h.setParent a (some q)).adopt l q).parent = (h.adopt (a :: l) q).parent := by
    funext n
    simp only [adopt, setParent, List.mem_cons]
    by_cases hna : n = a
    · rw [hna, Function.update_self]
      simp
    · rw [Function.update_of_ne hna]
      simp [hna]
  exact congrArg (fun f => { h with parent := f }) hparent

/-- The loop that gives a chain of resources to another parent. -/
theorem returns_adoptRound {a last : ℕ} {l l' : List ℕ} (hl : Links.IsList h (some a) l)
    (hlast : l = l' ++ [last]) : Loops.Returns (adoptRound q) (h, a) (h.adopt l q, last) := by
  induction l generalizing h a l' with
  | nil => cases hl
  | cons b l ih =>
      obtain ⟨heq, hl⟩ := hl
      obtain rfl : b = a := (Option.some.inj heq).symm
      have hnext : h.sibling b = l.head? := isList_head hl
      rw [← adopt_cons]
      cases l with
      | nil =>
          have hround : adoptRound q (h, b) = .done (h.setParent b (some q), b) := by
            unfold adoptRound
            dsimp only [setParent]
            rw [hnext]
            rfl
          have hone : [] ++ [b] = l' ++ [last] := hlast
          obtain rfl := List.singleton_inj.1 (List.append_inj' hone rfl).2
          exact .done hround
      | cons c l =>
          have hround : adoptRound q (h, b) = .more (h.setParent b (some q), c) := by
            unfold adoptRound
            dsimp only [setParent]
            rw [hnext]
            rfl
          have hl' : Links.IsList (h.setParent b (some q)) (some c) (c :: l) := by
            have hsame : ∀ d ∈ c :: l, Links.LinkStore.getNext (h.setParent b (some q)) d =
                Links.LinkStore.getNext h d := fun _ _ => rfl
            rw [← show h.sibling b = some c from hnext]
            exact hl.congr hsame
          cases l' with
          | nil => cases hlast
          | cons d l' => exact (ih hl' (List.cons.inj hlast).2).more hround

theorem run_adoptRound {k a : ℕ} {l : List ℕ} {out : Resources × ℕ}
    (hl : Links.IsList h (some a) l) (hrun : Loops.run (adoptRound q) k (h, a) = some out) :
    ∃ l' last, l = l' ++ [last] ∧ out = (h.adopt l q, last) := by
  rcases l.eq_nil_or_concat' with rfl | ⟨l', last, hlast⟩
  · cases hl
  · exact ⟨l', last, hlast, (returns_adoptRound hl hlast).eq hrun⟩

/-- A resource was taken out of its chain. -/
def takenOut (h : Resources) (q old : ℕ) (l₁ : List ℕ) : Resources :=
  (h.put (h.sibling old) (linkAfter (.child q) l₁)).setParent old none

/-- The children of a resource took its place. -/
def dissolved (h : Resources) (q old last : ℕ) (l₁ l : List ℕ) : Resources :=
  (((h.adopt l q).put (h.child old) (linkAfter (.child q) l₁)).setSibling last
    (h.sibling old)).setParent old none

/-- What a release does to the child `old` of `q`. -/
inductive Released (h : Resources) (kids : ℕ → List ℕ) (q old : ℕ) (l₁ : List ℕ) :
    Bool → Resources → Prop
  | alone (releaseChild : Bool) : Released h kids q old l₁ releaseChild (h.takenOut q old l₁)
  | kept (l : List ℕ) (last : ℕ) : kids old = l ++ [last] →
      Released h kids q old l₁ false (h.dissolved q old last l₁ (kids old))

theorem releaseResource_cases {k : ℕ} {releaseChild : Bool}
    {out : Except ResourceError Unit × Resources} (ht : h.Tree kids r) (hold : Desc kids r old)
    (hrun : h.releaseResource k old releaseChild = some out) :
    (old = r ∧ out = (.error .invalid, h)) ∨ ∃ q l₁ l₂ h', Desc kids r q ∧
      kids q = l₁ ++ old :: l₂ ∧ out = (.ok (), h') ∧ h.Released kids q old l₁ releaseChild h' := by
  rw [releaseResource] at hrun
  by_cases hroot : old = r
  · rw [hroot, ht.root] at hrun
    cases hrun
    exact .inl ⟨hroot, rfl⟩
  obtain ⟨q, hparent, hq, hmem⟩ := ht.rooted.exists_parent hold hroot
  have hf := ht.heads q hq
  have hfold := ht.heads old hold
  have hne : old ≠ q := ht.rooted.ne_of_mem hq hmem
  rw [hparent] at hrun
  obtain ⟨place, hfind, hrest⟩ := Option.bind_eq_some_iff.1 hrun
  rcases run_findRound hf hfind with ⟨-, hnot⟩ | ⟨l₁, l₂, hk, rfl⟩
  · exact absurd hmem hnot
  refine .inr ⟨q, l₁, l₂, ?_⟩
  dsimp only at hrest
  split at hrest
  · rename_i c hchild
    obtain ⟨⟨h₁, last⟩, hadopt, hlast⟩ := Option.bind_eq_some_iff.1 hrest
    have hchain : Links.IsList h (some c) (kids old) := hchild ▸ hfold.chain
    obtain ⟨l, last', hkids, heq⟩ := run_adoptRound hchain hadopt
    cases heq
    cases hlast
    have hnot := ht.heads.not_mem_rest hq hk
    have hsibling : ((h.adopt (kids old) q).put ((h.adopt (kids old) q).child old)
        (linkAfter (.child q) l₁)).sibling old = h.sibling old := by
      refine (get_put_of_ne (y := .sibling old) _ _ (sibling_ne_linkAfter fun hn => ?_)).trans
        (get_adopt ..)
      exact hnot (List.mem_append_left _ hn)
    rw [hsibling]
    exact ⟨_, hq, hk, rfl, .kept l last hkids⟩
  · cases hrest
    exact ⟨_, hq, hk, rfl, .alone _⟩

/-- A release leaves a tree. -/
theorem Released.tree {releaseChild : Bool} (ht : h.Tree kids r) (hq : Desc kids r q)
    (hk : kids q = l₁ ++ old :: l₂) (hr : h.Released kids q old l₁ releaseChild h') :
    ∃ kids', h'.Tree kids' r := by
  cases hr with
  | alone => exact ⟨_, ht.prune hq hk⟩
  | kept l last hkids => exact ⟨_, ht.dissolve hq hk hkids⟩

theorem Tree.release {k : ℕ} {releaseChild : Bool} {out : Except ResourceError Unit × Resources}
    (ht : h.Tree kids r) (hold : Desc kids r old)
    (hrun : h.releaseResource k old releaseChild = some out) : ∃ kids', out.2.Tree kids' r := by
  rcases releaseResource_cases ht hold hrun with ⟨-, rfl⟩ | ⟨q, l₁, l₂, h', hq, hk, rfl, hr⟩
  · exact ⟨kids, ht⟩
  · exact hr.tree ht hq hk

/-- A request leaves a tree, if a resource that fits heads a tree of its own. -/
theorem Requested.tree {out : Option ℕ × Resources} (ht : h.Tree kids r) (hq : Desc kids r q)
    (hreq : h.Requested kids q new out)
    (hnew : ∀ l₁ l₂, kids q = l₁ ++ l₂ → h.FitsIn q new l₁ l₂ → ∃ kids', h.Apart kids kids' r new) :
    ∃ kids', out.2.Tree kids' r := by
  cases hreq with
  | entered l₁ l₂ hk hfit =>
      obtain ⟨kids', hapart⟩ := hnew l₁ l₂ hk hfit
      obtain ⟨kids'', ht', -⟩ := ht.graft hq hk hapart hfit.within.2 hfit.before hfit.behind
      exact ⟨kids'', ht'⟩
  | outside => exact ⟨kids, ht⟩
  | met => exact ⟨kids, ht⟩

/-! ### Insertions -/

/-- An insertion below `p` may go down to `q`. -/
def Below (h : Resources) (kids : ℕ → List ℕ) (p new q : ℕ) : Prop :=
  Desc kids p q ∧ (q = p ∨ ¬ (h.start q = h.start new ∧ h.end_ q = h.end_ new))

/-- The first loop of an insertion stays below the parent that it starts with. -/
theorem run_descendRound {j k : ℕ} {out : Option Descent} (ht : h.Heads kids r)
    (hp : Desc kids r p) (hrun : Loops.run (h.descendRound j new) k p = some out) :
    out = none ∨ ∃ q, h.Below kids p new q ∧
      ((∃ conflict h', h.Requested kids q new (conflict, h') ∧
          out = some (.finished conflict h')) ∨
        ∃ c l₁ l₂, h.Meets kids q new c l₁ l₂ ∧ out = some (.stopped q c)) := by
  refine Loops.run_invariant (I := fun q => h.Below kids p new q)
    (P := fun out => out = none ∨ ∃ q, h.Below kids p new q ∧
      ((∃ conflict h', h.Requested kids q new (conflict, h') ∧
          out = some (.finished conflict h')) ∨
        ∃ c l₁ l₂, h.Meets kids q new c l₁ l₂ ∧ out = some (.stopped q c))) ?_ ?_
    ⟨.refl, .inl rfl⟩ hrun
  · intro q q' hq hround
    rw [descendRound] at hround
    split at hround
    · cases hround
    · cases hround
    · rename_i first h' hreq
      split at hround
      · cases hround
      split at hround
      · cases hround
      split at hround
      · cases hround
      split at hround
      · cases hround
      · rename_i hne _ _ hrange
        cases hround
        cases requestResource_cases ht (hp.trans hq.1) hreq with
        | outside => exact absurd rfl hne
        | met c l₁ l₂ hmeets => exact ⟨hq.1.child (by simp [hmeets.kids_eq]), .inr hrange⟩
  · intro q res hq hround
    rw [descendRound] at hround
    split at hround
    · cases hround
      exact .inl rfl
    · rename_i h' hreq
      cases hround
      exact .inr ⟨q, hq, .inl ⟨none, h', requestResource_cases ht (hp.trans hq.1) hreq, rfl⟩⟩
    · rename_i first h' hreq
      have hcases := requestResource_cases ht (hp.trans hq.1) hreq
      split at hround
      · cases hround
        exact .inr ⟨q, hq, .inl ⟨some first, h', hcases, rfl⟩⟩
      rename_i hne
      split at hround
      · cases hround
        exact .inr ⟨q, hq, .inl ⟨some first, h', hcases, rfl⟩⟩
      have hmeets : ∃ l₁ l₂, h.Meets kids q new first l₁ l₂ := by
        cases hcases with
        | outside => exact absurd rfl hne
        | met c l₁ l₂ hmeets => exact ⟨l₁, l₂, hmeets⟩
      obtain ⟨l₁, l₂, hmeets⟩ := hmeets
      split at hround
      · cases hround
        exact .inr ⟨q, hq, .inr ⟨first, l₁, l₂, hmeets, rfl⟩⟩
      split at hround
      · cases hround
        exact .inr ⟨q, hq, .inr ⟨first, l₁, l₂, hmeets, rfl⟩⟩
      · cases hround

/-- The children that an insertion covers: `m`, which starts with `first` and ends with `next`. -/
structure Covers (h : Resources) (new first next : ℕ) (m l₂ : List ℕ) : Prop where
  first_eq : m.head? = some first
  next_eq : ∃ k, m = k ++ [next]
  covers : ∀ n ∈ m, h.lo new ≤ h.lo n ∧ h.hi n ≤ h.hi new
  behind : ∀ b ∈ l₂, h.hi new < h.lo b

/-- The second loop of an insertion finds a child that meets the new resource and is not inside it,
or the children that it covers. -/
theorem returns_coverRound {c : ℕ} (ht : h.Heads kids r) (hq : Desc kids r q)
    (hk : kids q = l₁ ++ c :: l₂) (hstart : h.lo c ≤ h.hi new) (hend : h.lo new ≤ h.hi c) :
    (∃ n ∈ c :: l₂, (n = c ∨ h.lo new < h.lo n) ∧ h.lo n ≤ h.hi new ∧ h.lo new ≤ h.hi n ∧
      ¬ (h.lo new ≤ h.lo n ∧ h.hi n ≤ h.hi new) ∧
      Loops.Returns (h.coverRound new) c (.inl n)) ∨
    ∃ next m l, c :: l₂ = m ++ l ∧ h.Covers new c next m l ∧
      Loops.Returns (h.coverRound new) c (.inr next) := by
  have hf := ht q hq
  induction l₂ generalizing l₁ c with
  | nil =>
      by_cases hinside : h.lo new ≤ h.lo c ∧ h.hi c ≤ h.hi new
      · refine .inr ⟨c, [c], [], rfl, ⟨rfl, ⟨[], rfl⟩, ?_, ?_⟩, .done ?_⟩
        · exact List.forall_mem_singleton.2 hinside
        · exact List.forall_mem_nil _
        · rw [coverRound, hf.sibling_eq hk, if_neg (not_or.2 ⟨?_, ?_⟩)]
          · rfl
          · rw [BitVec.lt_def]
            exact not_lt.2 hinside.1
          · rw [BitVec.lt_def]
            exact not_lt.2 hinside.2
      · refine .inl ⟨c, List.mem_cons_self, .inl rfl, hstart, hend, hinside, .done ?_⟩
        rw [coverRound, if_pos]
        rw [not_and_or, not_le, not_le] at hinside
        exact hinside
  | cons y l ih =>
      have hk' : kids q = (l₁ ++ [c]) ++ y :: l := by
        rw [hk, List.append_assoc, List.singleton_append]
      by_cases hinside : h.lo new ≤ h.lo c ∧ h.hi c ≤ h.hi new
      · have hround : h.coverRound new c = if h.end_ new < h.start y then .done (.inr c)
            else .more y := by
          rw [coverRound, hf.sibling_eq hk, if_neg (not_or.2 ⟨?_, ?_⟩)]
          · rfl
          · rw [BitVec.lt_def]
            exact not_lt.2 hinside.1
          · rw [BitVec.lt_def]
            exact not_lt.2 hinside.2
        by_cases hlast : h.end_ new < h.start y
        · rw [if_pos hlast] at hround
          refine .inr ⟨c, [c], y :: l, rfl, ⟨rfl, ⟨[], rfl⟩, ?_, ?_⟩, .done hround⟩
          · exact List.forall_mem_singleton.2 hinside
          · refine hf.behind (ht.ordered hq) hk' fun b hb => ?_
            rw [← Option.some.inj hb]
            exact BitVec.lt_def.1 hlast
        · rw [if_neg hlast] at hround
          rw [BitVec.lt_def, not_lt] at hlast
          have hy : y ∈ kids q := by simp [hk]
          have hsorted := hf.node.sorted
          rw [hk, List.pairwise_append, List.pairwise_cons] at hsorted
          have hcy := hsorted.2.1.1 y List.mem_cons_self
          have hordered := ht.ordered hq y hy
          have hcordered := ht.ordered hq c (by simp [hk])
          rcases ih hk' hlast (by omega) with
            ⟨n, hn, hor, hs, he, hnot, hret⟩ | ⟨next, m, l', hl, hcover, hret⟩
          · refine .inl ⟨n, List.mem_cons_of_mem _ hn, .inr ?_, hs, he, hnot, hret.more hround⟩
            rcases hor with rfl | hlt
            · omega
            · exact hlt
          · obtain ⟨k, hnext⟩ := hcover.next_eq
            refine .inr ⟨next, c :: m, l', by rw [hl]; rfl,
              ⟨rfl, ⟨c :: k, by rw [hnext]; rfl⟩, ?_, hcover.behind⟩, hret.more hround⟩
            exact List.forall_mem_cons.2 ⟨hinside, hcover.covers⟩
      · refine .inl ⟨c, List.mem_cons_self, .inl rfl, hstart, hend, hinside, .done ?_⟩
        rw [coverRound, if_pos]
        rw [not_and_or, not_le, not_le] at hinside
        exact hinside

/-- The new resource has got its place, and the chain of its children ends at `next`. -/
def cutOff (h : Resources) (q new first next : ℕ) : Resources :=
  (((h.setParent new (some q)).setSibling new (h.sibling next)).setChild new
    (some first)).setSibling next none

theorem child_adopt_cutOff (h : Resources) (hne : q ≠ new) (first next : ℕ) (m : List ℕ) :
    ((h.cutOff q new first next).adopt m new).child q = h.child q := Function.update_of_ne hne ..

/-- The last loop of an insertion finds the resource in front of `first`. -/
theorem returns_scanRound {a first : ℕ} {l : List ℕ}
    (hsibling : ∀ k x l', a :: l = k ++ x :: l' → h.sibling x = (l' ++ [first]).head?)
    (hfirst : first ∉ a :: l) :
    ∃ k x, a :: l = k ++ [x] ∧ Loops.Returns (h.scanRound first) a (some x) := by
  induction l generalizing a with
  | nil =>
      have hnext : h.sibling a = some first := hsibling [] a [] rfl
      refine ⟨[], a, rfl, .done ?_⟩
      rw [scanRound, if_pos hnext]
  | cons b l ih =>
      have hnext : h.sibling a = some b := hsibling [] a (b :: l) rfl
      have hne : b ≠ first := by
        rintro rfl
        exact hfirst (by simp)
      have hround : h.scanRound first a = .more b := by
        rw [scanRound, hnext, if_neg fun heq => hne (Option.some.inj heq)]
      obtain ⟨k, x, hl, hret⟩ := ih
        (fun k x l' hl => hsibling (a :: k) x l' (by rw [hl]; rfl))
        fun hmem => hfirst (List.mem_cons_of_mem _ hmem)
      exact ⟨a :: k, x, by rw [hl]; rfl, hret.more hround⟩

/-- The loops at the end of an insertion. -/
theorem returns_reparent {first next : ℕ} {m : List ℕ} (ht : h.Tree kids r) (hq : Desc kids r q)
    (hk : kids q = l₁ ++ (m ++ l₂)) (hnot : ¬ Desc kids r new)
    (hcover : h.Covers new first next m l₂) :
    Loops.Returns (adoptRound new) (h.cutOff q new first next, first)
        ((h.cutOff q new first next).adopt m new, next) ∧
      ((l₁ = [] ∧ h.child q = some first) ∨ ∃ a k x, l₁ = k ++ [x] ∧ h.child q = some a ∧
        a ≠ first ∧ Loops.Returns (((h.cutOff q new first next).adopt m new).scanRound first) a
          (some x)) := by
  have hf := ht.heads q hq
  have hmemq : ∀ n, n ∈ l₁ ∨ n ∈ m ∨ n ∈ l₂ → n ∈ kids q := by
    intro n hn
    rwa [hk, List.mem_append, List.mem_append]
  have hmem : ∀ n, n ∈ l₁ ∨ n ∈ m ∨ n ∈ l₂ → n ≠ new := by
    rintro n hn rfl
    exact hnot (hq.child (hmemq n hn))
  have hnodup := ht.heads.nodup hq
  rw [hk] at hnodup
  obtain ⟨-, hrest, hdisj⟩ := List.nodup_append.1 hnodup
  obtain ⟨j, hnext⟩ := hcover.next_eq
  have hnextm : next ∈ m := by simp [hnext]
  have hfirstm : first ∈ m := List.mem_of_mem_head? hcover.first_eq
  have hnextl₁ : ∀ a ∈ l₁, a ≠ next := by
    rintro a ha rfl
    exact hdisj a ha a (List.mem_append_left _ hnextm) rfl
  have hsame : ∀ a, a ≠ new → a ≠ next → (h.cutOff q new first next).sibling a = h.sibling a := by
    intro a hnew hnext
    exact (Function.update_of_ne hnext ..).trans (Function.update_of_ne hnew ..)
  have htail := ((isList_append (x := .child q)).1 (hk ▸ hf.chain)).2
  have hchain : Links.IsList (h.cutOff q new first next) (some first) m := by
    refine isList_cut htail (List.nodup_append.1 hrest).1 hcover.first_eq hnext
      (fun a ha hanext => hsame a (hmem a (.inr (.inl ha))) hanext) ?_
    exact Function.update_self ..
  have hhead : h.child q = (l₁ ++ (m ++ l₂)).head? := by
    rw [← hk]
    exact isList_head hf.chain
  refine ⟨returns_adoptRound hchain hnext, ?_⟩
  cases l₁ with
  | nil =>
      refine .inl ⟨rfl, ?_⟩
      rw [hhead, List.nil_append, List.head?_append, hcover.first_eq]
      rfl
  | cons a l₁ =>
      have hafirst : ∀ b ∈ a :: l₁, b ≠ first := by
        rintro b hb rfl
        exact hdisj b hb b (List.mem_append_left _ hfirstm) rfl
      have hsibling : ∀ k x l', a :: l₁ = k ++ x :: l' →
          ((h.cutOff q new first next).adopt m new).sibling x = (l' ++ [first]).head? := by
        intro k x l' hl
        have hx : x ∈ a :: l₁ := by simp [hl]
        have hsplit : kids q = k ++ x :: (l' ++ (m ++ l₂)) := by
          rw [hk, hl]
          simp
        change (h.cutOff q new first next).sibling x = _
        rw [hsame x (hmem x (.inl hx)) (hnextl₁ x hx),
          hf.sibling_eq hsplit, List.head?_append, List.head?_append, List.head?_append,
          hcover.first_eq]
        rfl
      obtain ⟨k, x, hl, hscan⟩ := returns_scanRound hsibling fun hmem => hafirst first hmem rfl
      exact .inr ⟨a, k, x, hl, hhead, hafirst a List.mem_cons_self, hscan⟩

/-- The end of an insertion. -/
theorem reparent_eq {k first next : ℕ} {m : List ℕ} (ht : h.Tree kids r) (hq : Desc kids r q)
    (hk : kids q = l₁ ++ (m ++ l₂)) (hnot : ¬ Desc kids r new)
    (hcover : h.Covers new first next m l₂) (hrun : h.reparent k q new first next = some h') :
    h' = ((h.cutOff q new first next).adopt m new).put (some new) (linkAfter (.child q) l₁) := by
  obtain ⟨hadopt, hscan⟩ := returns_reparent ht hq hk hnot hcover
  obtain ⟨out, hout, hrest⟩ := Option.bind_eq_some_iff.1 hrun
  rw [hadopt.eq hout] at hrest
  have hqnew : q ≠ new := by
    rintro rfl
    exact hnot hq
  dsimp only at hrest
  rw [child_adopt_cutOff h hqnew] at hrest
  rcases hscan with ⟨rfl, hpos⟩ | ⟨a, l, x, rfl, ha, hne, hscan⟩
  · rw [if_pos hpos] at hrest
    exact (Option.some.inj hrest).symm
  · rw [ha, if_neg fun heq => hne (Option.some.inj heq)] at hrest
    obtain ⟨c, hc, hrest⟩ := Option.bind_eq_some_iff.1 hrest
    cases hc
    obtain ⟨scanned, hscanned, hrest⟩ := Option.bind_eq_some_iff.1 hrest
    rw [hscan.eq hscanned] at hrest
    rw [linkAfter_concat]
    exact (Option.some.inj hrest).symm

/-- An insertion leaves a tree, if a resource that fits heads a tree of its own. -/
theorem Tree.insert {k : ℕ} {out : Option ℕ × Resources} (ht : h.Tree kids r)
    (hp : Desc kids r p) (hnot : ¬ Desc kids r new)
    (hnew : ∀ q l₁ l₂, h.Below kids p new q → kids q = l₁ ++ l₂ → h.FitsIn q new l₁ l₂ →
      ∃ kids', h.Apart kids kids' r new)
    (hrun : h.insertResource k p new = some out) : ∃ kids', out.2.Tree kids' r := by
  obtain ⟨found, hdescend, hfound⟩ := Option.bind_eq_some_iff.1 hrun
  obtain ⟨descent, rfl, hmatch⟩ := Option.bind_eq_some_iff.1 hfound
  clear hrun hfound
  rcases run_descendRound ht.heads hp hdescend with hnone | ⟨q, hq, hend⟩
  · cases hnone
  rcases hend with ⟨conflict, h', hreq, heq⟩ | ⟨c, l₁, l₂, hmeets, heq⟩
  · cases heq
    cases hmatch
    exact hreq.tree ht (hp.trans hq.1) fun l₁ l₂ hk hfit => hnew q l₁ l₂ hq hk hfit
  · cases heq
    obtain ⟨ends, hcover, hends⟩ := Option.bind_eq_some_iff.1 hmatch
    clear hmatch
    rcases returns_coverRound ht.heads (hp.trans hq.1) hmeets.kids_eq hmeets.start_le
      hmeets.le_end with ⟨n, -, -, -, -, -, hreturns⟩ | ⟨next, m, l, hl, hcovers, hreturns⟩
    · rw [hreturns.eq hcover] at hends
      cases hends
      exact ⟨kids, ht⟩
    · rw [hreturns.eq hcover] at hends
      obtain ⟨h', hreparent, hout⟩ := Option.bind_eq_some_iff.1 hends
      cases hout
      have hk : kids q = l₁ ++ (m ++ l) := by rw [hmeets.kids_eq, hl]
      obtain ⟨j, hnext⟩ := hcovers.next_eq
      have heq := reparent_eq ht (hp.trans hq.1) hk hnot hcovers hreparent
      rw [heq]
      exact ⟨_, ht.cover (hp.trans hq.1) hk hnot hcovers.first_eq hnext hmeets.within.1
        hcovers.covers hmeets.within.2 hmeets.before hcovers.behind⟩

end Resources

end StarOS
