/-
The surface under the pointer (`InputManager::hit_test` in `input/mod.rs`).

The surface that is seen at a point is the visible one that covers it and is painted last: the one
of the greatest `z_order`, and of the greatest handle where it is equal.  The hit test goes through
the handles with a running maximum, which a surface replaces only if its `z_order` is greater, so
that among equal ones the first handle is found; and it misses a surface whose far edge is beyond
the greatest coordinate.

* `StarOS.hitTest` — the code;
* `StarOS.Compositor.HitsTop` — the law;
* `StarOS.runningMax_spec` — what a running maximum finds;
* `StarOS.Compositor.hits_iff` — the surfaces that the hit test looks at;
* `StarOS.Compositor.getLast?_painted_iff` — the surface that is painted last;
* `StarOS.hit_test_top_iff` — when the hit test finds the surface that is seen.
-/

import StarOS.Compositor

set_option autoImplicit false

namespace StarOS

/-! ### The code -/

/-- A round of the loop of `hit_test`, with the best handle and the best `z_order`. -/
def hitStep (ds : Compositor) (px py : BitVec 32) (best : Option ℕ × ℤ) (handle : ℕ) :
    Option ℕ × ℤ :=
  match ds.surfaces[handle]?.join with
  | none => best
  | some surf =>
      if !surf.visible then best
      -- the sums wrap around; of equal `z_order`s the first stays
      else if (surf.x ≤ px ∧ px < surf.x + surf.width) ∧
          (surf.y ≤ py ∧ py < surf.y + surf.height) ∧ best.2 < surf.zOrder.toNat then
        (some handle, surf.zOrder.toNat)
      else best

/-- `InputManager::hit_test`, with the display server, if there is one. -/
def hitTest (ds : Option Compositor) (px py : BitVec 32) : Option ℕ :=
  match ds with
  | none => none
  | some ds => ((List.range maxSurfaces).foldl (hitStep ds px py) (none, -1)).1

namespace Compositor

/-- The law: of the surfaces that are visible and cover the point, the hit test finds the one that
is painted last, in the order of `compose`. -/
def HitsTop (c : Compositor) (px py : BitVec 32) : Prop :=
  ∃ order, SwapSort.sort c.zOrderOf ((List.range c.surfaces.length).filter c.isVisible)
      ((List.range c.surfaces.length).filter c.isVisible).length = some order ∧
    hitTest (some c) px py = (order.filter (c.shows px.toNat py.toNat)).getLast?

/-- The surface is visible, covers the point, and is above all others that are visible and cover
it. -/
def IsTop (c : Compositor) (x y i : ℕ) : Prop :=
  c.shows x y i = true ∧ ∀ j, c.shows x y j = true → c.layerKey j ≤ c.layerKey i

/-- The coordinates of the far edges of a surface are numbers of 32 bits. -/
def EdgesFit (c : Compositor) (i : ℕ) : Prop :=
  ∃ s, c.surfaces[i]?.join = some s ∧ s.x.toNat + s.width.toNat < 2 ^ 32 ∧
    s.y.toNat + s.height.toNat < 2 ^ 32

end Compositor

/-! ### A running maximum -/

/-- A running maximum over the first numbers finds the first of the greatest ones. -/
theorem runningMax_spec (p : ℕ → Bool) (f : ℕ → ℕ) {best : Option ℕ × ℤ} {n : ℕ}
    (hbest : (List.range n).foldl
      (fun best i => if p i = true ∧ best.2 < (f i : ℤ) then (some i, (f i : ℤ)) else best)
        (none, -1) = best) :
    (best = (none, -1) ∧ ∀ i < n, p i = false) ∨
      ∃ i < n, best = (some i, (f i : ℤ)) ∧ p i = true ∧
        ∀ j < n, p j = true → f j < f i ∨ (f j = f i ∧ i ≤ j) := by
  induction n generalizing best with
  | zero => exact .inl ⟨hbest.symm, fun i hi => absurd hi (Nat.not_lt_zero i)⟩
  | succ n ih =>
      rw [List.range_succ, List.foldl_append, List.foldl_cons, List.foldl_nil] at hbest
      obtain ⟨hnone, hall⟩ | ⟨i, hi, hsome, hpi, hmax⟩ := ih rfl
      · rw [hnone] at hbest
        by_cases hp : p n = true
        · rw [if_pos ⟨hp, by omega⟩] at hbest
          refine .inr ⟨n, Nat.lt_succ_self n, hbest.symm, hp, fun j hj hpj => ?_⟩
          obtain hlt | rfl := Nat.lt_succ_iff_lt_or_eq.1 hj
          · rw [hall j hlt] at hpj
            cases hpj
          · exact .inr ⟨rfl, Nat.le_refl _⟩
        · rw [if_neg fun h => hp h.1] at hbest
          refine .inl ⟨hbest.symm, fun j hj => ?_⟩
          obtain hlt | rfl := Nat.lt_succ_iff_lt_or_eq.1 hj
          · exact hall j hlt
          · exact Bool.eq_false_iff.2 hp
      · rw [hsome] at hbest
        by_cases hgt : p n = true ∧ f i < f n
        · rw [if_pos ⟨hgt.1, Int.ofNat_lt.2 hgt.2⟩] at hbest
          refine .inr ⟨n, Nat.lt_succ_self n, hbest.symm, hgt.1, fun j hj hpj => ?_⟩
          obtain hlt | rfl := Nat.lt_succ_iff_lt_or_eq.1 hj
          · have hle := hmax j hlt hpj
            exact .inl (by omega)
          · exact .inr ⟨rfl, Nat.le_refl _⟩
        · rw [if_neg fun h => hgt ⟨h.1, Int.ofNat_lt.1 h.2⟩] at hbest
          refine .inr ⟨i, Nat.lt_succ_of_lt hi, hbest.symm, hpi, fun j hj hpj => ?_⟩
          obtain hlt | rfl := Nat.lt_succ_iff_lt_or_eq.1 hj
          · exact hmax j hlt hpj
          · have hle : ¬ f i < f j := fun hlt => hgt ⟨hpj, hlt⟩
            omega

/-! ### What the hit test finds -/

namespace Compositor

variable {c : Compositor} {px py : BitVec 32} {x y i j : ℕ}

/-- The comparisons of the hit test, but for that of the `z_order`. -/
def hits (c : Compositor) (px py : BitVec 32) (i : ℕ) : Bool :=
  match c.surfaces[i]?.join with
  | none => false
  | some s => s.visible && decide ((s.x ≤ px ∧ px < s.x + s.width) ∧
      (s.y ≤ py ∧ py < s.y + s.height))

/-- The `z_order` of a surface. -/
def zOf (c : Compositor) (i : ℕ) : ℕ := (c.zOrderOf i).getD 0

theorem hitStep_eq (best : Option ℕ × ℤ) (i : ℕ) :
    hitStep c px py best i =
      if c.hits px py i = true ∧ best.2 < (c.zOf i : ℤ) then (some i, (c.zOf i : ℤ)) else best := by
  rw [hitStep, hits, zOf, zOrderOf]
  cases hs : c.surfaces[i]?.join with
  | none => simp
  | some s =>
      cases hvisible : s.visible <;> simp [hvisible, and_assoc]

/-- A sum that wraps around is before its first part. -/
theorem between_iff (a b p : BitVec 32) :
    (a ≤ p ∧ p < a + b) ↔
      (a.toNat ≤ p.toNat ∧ p.toNat < a.toNat + b.toNat) ∧ a.toNat + b.toNat < 2 ^ 32 := by
  have hb := b.isLt
  have hp := p.isLt
  rw [BitVec.le_def, BitVec.lt_def, BitVec.toNat_add]
  by_cases hfit : a.toNat + b.toNat < 2 ^ 32
  · rw [Nat.mod_eq_of_lt hfit, and_iff_left hfit]
  · rw [Nat.mod_eq_sub_mod (Nat.not_lt.1 hfit), Nat.mod_eq_of_lt (by omega)]
    omega

/-- The hit test looks at the visible surfaces that cover the point and whose edges fit. -/
theorem hits_iff :
    c.hits px py i = true ↔ c.shows px.toNat py.toNat i = true ∧ c.EdgesFit i := by
  have hshows : c.shows px.toNat py.toNat i = true ↔ ∃ s, c.surfaces[i]?.join = some s ∧
      s.visible = true ∧ s.Covers px.toNat py.toNat := by
    rw [shows]
    split
    · rename_i s hs
      simp [hs]
    · rename_i hno
      simp only [Bool.false_eq_true, false_iff, not_exists, not_and]
      intro s hs
      exact absurd (Option.join_eq_some_iff.1 hs) (hno s)
  rw [hshows, hits, EdgesFit]
  cases hs : c.surfaces[i]?.join with
  | none => simp
  | some s =>
      simp only [Bool.and_eq_true, decide_eq_true_eq, between_iff, Surface.Covers,
        Option.some.injEq, exists_eq_left']
      tauto

theorem lt_of_shows (h : c.shows x y i = true) : i < c.surfaces.length := by
  rw [shows] at h
  split at h
  · rename_i s hs
    exact (List.getElem?_eq_some_iff.1 hs).1
  · cases h

/-- What the hit test finds: nothing, if there is nothing to find, or else the first of the greatest
`z_order`. -/
theorem hitTest_spec (hc : c.Accepted) (px py : BitVec 32) :
    (hitTest (some c) px py = none ∧ ∀ i, c.hits px py i = false) ∨
      ∃ i, hitTest (some c) px py = some i ∧ c.hits px py i = true ∧
        ∀ j, c.hits px py j = true → c.zOf j < c.zOf i ∨ (c.zOf j = c.zOf i ∧ i ≤ j) := by
  have hstep : hitStep c px py = fun best i =>
      if c.hits px py i = true ∧ best.2 < (c.zOf i : ℤ) then (some i, (c.zOf i : ℤ))
      else best := by
    funext best i
    exact hitStep_eq best i
  have hlt : ∀ j, c.hits px py j = true → j < maxSurfaces := by
    intro j hj
    rw [← hc.length]
    exact lt_of_shows (hits_iff.1 hj).1
  obtain ⟨hnone, hall⟩ | ⟨i, -, hsome, hi, hmax⟩ :=
    runningMax_spec (c.hits px py) c.zOf (n := maxSurfaces) rfl
  · refine .inl ⟨?_, fun i => ?_⟩
    · rw [hitTest, hstep, hnone]
    · rw [Bool.eq_false_iff]
      intro hi
      rw [hall i (hlt i hi)] at hi
      cases hi
  · refine .inr ⟨i, ?_, hi, fun j hj => hmax j (hlt j hj) hj⟩
    rw [hitTest, hstep, hsome]

/-! ### What is painted last -/

theorem mem_painted_filter :
    i ∈ c.painted.filter (c.shows x y) ↔ c.shows x y i = true := by
  rw [List.mem_filter, and_iff_right_iff_imp]
  intro h
  have hvisible : c.isVisible i = true := by
    rw [shows_eq, Bool.and_eq_true] at h
    exact h.1
  exact (List.mem_insertionSort _).2
    (List.mem_filter.2 ⟨List.mem_range.2 (lt_of_shows h), hvisible⟩)

/-- The last of the surfaces seen at a pixel is the top one. -/
theorem getLast?_painted_iff :
    (c.painted.filter (c.shows x y)).getLast? = some i ↔ c.IsTop x y i := by
  have hsorted : (c.painted.filter (c.shows x y)).Pairwise fun i j => c.layerKey i ≤ c.layerKey j :=
    (List.pairwise_insertionSort _ _).filter _
  have htop : ∀ k, (c.painted.filter (c.shows x y)).getLast? = some k → c.IsTop x y k := by
    intro k hk
    obtain ⟨front, hfront⟩ := List.getLast?_eq_some_iff.1 hk
    refine ⟨mem_painted_filter.1 (List.mem_of_getLast? hk), fun j hj => ?_⟩
    rw [← mem_painted_filter, hfront, List.mem_append, List.mem_singleton] at hj
    rw [hfront, List.pairwise_append] at hsorted
    obtain hj | rfl := hj
    · exact hsorted.2.2 j hj k (List.mem_singleton.2 rfl)
    · exact le_refl _
  refine ⟨htop i, fun hi => ?_⟩
  have hne : c.painted.filter (c.shows x y) ≠ [] := List.ne_nil_of_mem (mem_painted_filter.2 hi.1)
  have hlast := List.getLast?_eq_some_getLast hne
  obtain ⟨hshows, hmax⟩ := htop _ hlast
  rw [hlast, layerKey_injective (le_antisymm (hmax i hi.1) (hi.2 _ hshows))]

theorem hitsTop_iff : c.HitsTop px py ↔
    hitTest (some c) px py = (c.painted.filter (c.shows px.toNat py.toNat)).getLast? := by
  rw [HitsTop, sort_eq_painted]
  simp only [Option.some.injEq, exists_eq_left']

/-- The keys of two surfaces, by their `z_order` and their handles. -/
theorem layerKey_le_iff : c.layerKey i ≤ c.layerKey j ↔ c.zOf i < c.zOf j ∨
    (c.zOf i = c.zOf j ∧ i ≤ j) := Prod.Lex.toLex_le_toLex

/-- Surfaces with the same `z_order`. -/
theorem zOrderOf_eq_iff (hi : c.shows x y i = true) (hj : c.shows x y j = true) :
    c.zOrderOf j = c.zOrderOf i ↔ c.zOf j = c.zOf i := by
  have hsome : ∀ {k}, c.shows x y k = true → c.zOrderOf k = some (c.zOf k) := by
    intro k hk
    rw [shows_eq, Bool.and_eq_true] at hk
    obtain ⟨s, hs, -⟩ := isVisible_iff.1 hk.1
    simp [zOf, zOrderOf, hs]
  rw [hsome hi, hsome hj, Option.some.injEq]

end Compositor

/-- The hit test finds the surface that is seen exactly when no surface is seen, or the edges of the
top one fit, and no other surface that is visible and covers the point has its `z_order` and edges
that fit. -/
theorem hit_test_top_iff (c : Compositor) (hc : c.Accepted) (px py : BitVec 32) :
    c.HitsTop px py ↔ ∀ i, c.IsTop px.toNat py.toNat i →
      c.EdgesFit i ∧ ∀ j, j ≠ i → c.shows px.toNat py.toNat j = true →
        c.zOrderOf j = c.zOrderOf i → ¬ c.EdgesFit j := by
  rw [Compositor.hitsTop_iff]
  constructor
  · intro hhit i htop
    rw [Compositor.getLast?_painted_iff.2 htop] at hhit
    obtain ⟨hnone, -⟩ | ⟨k, hk, hhits, hmax⟩ := Compositor.hitTest_spec hc px py
    · rw [hhit] at hnone
      cases hnone
    obtain rfl := Option.some.inj (hhit.symm.trans hk)
    refine ⟨(Compositor.hits_iff.1 hhits).2, fun j hne hj hz hfit => ?_⟩
    rw [Compositor.zOrderOf_eq_iff htop.1 hj] at hz
    have hfirst := hmax j (Compositor.hits_iff.2 ⟨hj, hfit⟩)
    have hlast := Compositor.layerKey_le_iff.1 (htop.2 j hj)
    omega
  · intro hcond
    cases hlast : (c.painted.filter (c.shows px.toNat py.toNat)).getLast? with
    | none =>
        obtain ⟨hnone, -⟩ | ⟨k, -, hhits, -⟩ := Compositor.hitTest_spec hc px py
        · exact hnone
        · have hmem := Compositor.mem_painted_filter.2 (Compositor.hits_iff.1 hhits).1
          rw [List.getLast?_eq_none_iff.1 hlast] at hmem
          exact absurd hmem List.not_mem_nil
    | some i =>
        have htop := Compositor.getLast?_painted_iff.1 hlast
        obtain ⟨hfit, hother⟩ := hcond i htop
        have hi := Compositor.hits_iff.2 ⟨htop.1, hfit⟩
        obtain ⟨-, hall⟩ | ⟨k, hk, hhits, hmax⟩ := Compositor.hitTest_spec hc px py
        · rw [hall i] at hi
          cases hi
        obtain ⟨hshows, hfitk⟩ := Compositor.hits_iff.1 hhits
        have hfirst := hmax i hi
        have hbelow := Compositor.layerKey_le_iff.1 (htop.2 k hshows)
        have hik : k = i := by
          by_contra hne
          exact hother k hne hshows
            ((Compositor.zOrderOf_eq_iff htop.1 hshows).2 (by omega)) hfitk
        rw [hk, hik]

/-- Of two surfaces with different `z_order`, the upper one is found. -/
theorem hit_test_top_two : twoSurfaces.HitsTop 0 0 := by
  have hseen : ∀ i, twoSurfaces.shows 0 0 i = true → i = 0 ∨ i = 1 := by
    intro i hi
    have hslots : twoSurfaces.surfaces =
        some greenSurface :: some redSurface :: List.replicate 30 none := by decide
    match i with
    | 0 => exact .inl rfl
    | 1 => exact .inr rfl
    | i + 2 =>
        rw [Compositor.shows, hslots, List.getElem?_cons_succ, List.getElem?_cons_succ,
          List.getElem?_replicate] at hi
        split at hi
        · rename_i s hs
          split at hs <;> cases hs
        · cases hi
  refine (hit_test_top_iff twoSurfaces
    (((Compositor.accepted_new 2 1).addSurface _).addSurface _) 0 0).2 fun i htop => ?_
  obtain rfl | rfl := hseen i htop.1
  · refine ⟨⟨greenSurface, by decide, by decide, by decide⟩, fun j hne hj hz => ?_⟩
    obtain rfl | rfl := hseen j hj
    · exact absurd rfl hne
    · exact absurd hz (by decide)
  · exact absurd (htop.2 0 (by decide)) (by decide)

/-- A screen of 2 × 1 pixels with the same surface twice. -/
def equalSurfaces : Compositor :=
  (((Compositor.new 2 1).addSurface greenSurface).2.addSurface greenSurface).2

/-- Of two surfaces with the same `z_order`, the one that was added first is found, and the other
one is painted last. -/
theorem hit_test_equal_z_order :
    equalSurfaces.Accepted ∧ 0 < equalSurfaces.width ∧ 0 < equalSurfaces.height ∧
      hitTest (some equalSurfaces) 0 0 = some 0 ∧ ¬ equalSurfaces.HitsTop 0 0 := by
  have hhit : hitTest (some equalSurfaces) 0 0 = some 0 := by decide
  have hsort : SwapSort.sort equalSurfaces.zOrderOf
      ((List.range equalSurfaces.surfaces.length).filter equalSurfaces.isVisible)
      ((List.range equalSurfaces.surfaces.length).filter equalSurfaces.isVisible).length =
        some [0, 1] := by decide
  refine ⟨((Compositor.accepted_new 2 1).addSurface _).addSurface _, by decide, by decide, hhit,
    ?_⟩
  rintro ⟨order, horder, hlast⟩
  rw [hsort] at horder
  obtain rfl := Option.some.inj horder
  rw [hhit] at hlast
  exact absurd hlast (by decide)

end StarOS
