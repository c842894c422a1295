/-
Where `allocate_resource` finds room (`drivers/resource/core.rs`).

Aligning an address gives the least multiple that is not below it, or wraps around if there is none.
So each free range between the children gives the lowest address in it at which the resource fits,
and the search, which passes them in order, the lowest one of all.  The request of this range then
succeeds.  But the range is not clipped to the bounds of the constraint, as the clipped copy is
never read.

* `StarOS.Resources.placeIn_spec` — the place in one free range;
* `StarOS.Resources.Rooms`, `StarOS.Resources.exists_findResourceSpace` — the search finds the
  lowest place;
* `StarOS.Resources.exists_requestResource`, `StarOS.Resources.Requested.eq_of_free` — the request
  of a free range;
* `StarOS.Resources.Spots`, `StarOS.Resources.AllocatesWell` — the law;
* `StarOS.resource_allocate_iff` — when it holds;
* `StarOS.resource_allocate_unclipped` — an allocation for which it does not.
-/

import StarOS.ResourceRuns
import Mathlib.Order.Bounds.Basic

set_option autoImplicit false

namespace StarOS

open Nesting (Desc)

namespace Resources

/-! ### Aligned addresses -/

section Align

variable {val align : BitVec 64} {k : ℕ}

theorem lt_of_toNat_eq_two_pow (ha : align.toNat = 2 ^ k) : k < 64 := by
  have hlt := align.isLt
  rw [ha] at hlt
  exact (Nat.pow_lt_pow_iff_right (by decide)).1 hlt

theorem toNat_alignUp (ha : align.toNat = 2 ^ k) :
    (alignUp val align).toNat = (val.toNat + (2 ^ k - 1)) % 2 ^ 64 / 2 ^ k * 2 ^ k := by
  have hpos := Nat.two_pow_pos k
  have hlt := align.isLt
  have hsum : (val + align - 1#64).toNat = (val.toNat + (2 ^ k - 1)) % 2 ^ 64 := by
    rw [BitVec.toNat_sub, BitVec.toNat_add, ha, BitVec.toNat_ofNat]
    omega
  rw [alignUp, toNat_and_not_mask _ ha, hsum]

/-- An aligned address is the least multiple from the given one on. -/
theorem isLeast_alignUp (ha : align.toNat = 2 ^ k) (hle : val ≤ alignUp val align) :
    IsLeast {s | 2 ^ k ∣ s ∧ val.toNat ≤ s} (alignUp val align).toNat := by
  refine ⟨⟨?_, BitVec.le_def.1 hle⟩, fun s hs => ?_⟩
  · rw [toNat_alignUp ha]
    exact Nat.dvd_mul_left _ _
  · obtain ⟨⟨j, rfl⟩, hs⟩ := hs
    have hpos := Nat.two_pow_pos k
    have hmod := Nat.mod_le (val.toNat + (2 ^ k - 1)) (2 ^ 64)
    rw [toNat_alignUp ha, Nat.mul_comm (2 ^ k) j]
    refine Nat.mul_le_mul_right _ (Nat.lt_succ_iff.1 ((Nat.div_lt_iff_lt_mul hpos).2 ?_))
    rw [Nat.succ_mul, Nat.mul_comm j]
    omega

/-- If aligning wraps around, there is no multiple from the address on. -/
theorem not_dvd_of_alignUp_lt (ha : align.toNat = 2 ^ k) (hlt : ¬ val ≤ alignUp val align) {s : ℕ}
    (hs : val.toNat ≤ s) (hs64 : s < 2 ^ 64) : ¬ 2 ^ k ∣ s := by
  intro hdvd
  have hpos := Nat.two_pow_pos k
  have hk := lt_of_toNat_eq_two_pow ha
  have hdvd64 : 2 ^ k ∣ 2 ^ 64 - s := Nat.dvd_sub (Nat.pow_dvd_pow 2 hk.le) hdvd
  have hroom := Nat.le_of_dvd (by omega) hdvd64
  refine hlt (BitVec.le_def.2 ?_)
  rw [toNat_alignUp ha, Nat.mod_eq_of_lt (by omega)]
  have hdiv := Nat.div_add_mod (val.toNat + (2 ^ k - 1)) (2 ^ k)
  have hmod := Nat.mod_lt (val.toNat + (2 ^ k - 1)) hpos
  rw [Nat.mul_comm]
  omega

end Align

/-! ### A place in a free range -/

section Place

variable {a b size s e : BitVec 64} {c : ResourceConstraint} {k : ℕ}

/-- The end of a range, if it does not wrap around. -/
theorem toNat_end_of_le (hsize : 1 ≤ size.toNat) (hle : s ≤ s + size - 1#64) :
    (s + size - 1#64).toNat + 1 = s.toNat + size.toNat := by
  have hs := s.isLt
  have hsz := size.isLt
  have hle := BitVec.le_def.1 hle
  rw [BitVec.toNat_sub, BitVec.toNat_add, BitVec.toNat_ofNat] at hle ⊢
  omega

theorem toNat_end_of_lt (hsize : 1 ≤ size.toNat) (hlt : s.toNat + size.toNat ≤ 2 ^ 64) :
    (s + size - 1#64).toNat + 1 = s.toNat + size.toNat := by
  have hs := s.isLt
  have hsz := size.isLt
  rw [BitVec.toNat_sub, BitVec.toNat_add, BitVec.toNat_ofNat]
  omega

/-- The place that is found is the lowest aligned address. -/
theorem placeIn_spec (ha : c.align.toNat = 2 ^ k) (hsize : 1 ≤ size.toNat)
    (hplace : placeIn a b size c = some (s, e)) :
    IsLeast {x | 2 ^ k ∣ x ∧ a.toNat ≤ x} s.toNat ∧ e.toNat + 1 = s.toNat + size.toNat := by
  obtain ⟨rfl, rfl, hstart, hordered, -⟩ := placeIn_eq_some hplace
  exact ⟨isLeast_alignUp ha hstart, toNat_end_of_le hsize hordered⟩

/-- If no place is found, the range has no room for the size at an aligned address. -/
theorem placeIn_eq_none (ha : c.align.toNat = 2 ^ k) (hsize : 1 ≤ size.toNat)
    (hplace : placeIn a b size c = none) {x : ℕ} (hdvd : 2 ^ k ∣ x) (hax : a.toNat ≤ x) :
    b.toNat + 1 < x + size.toNat := by
  by_contra hroom
  rw [Nat.not_lt] at hroom
  have hb := b.isLt
  have hab : a ≤ b := BitVec.le_def.2 (by omega)
  have hstart : a ≤ alignUp a c.align := by
    by_contra hlt
    exact not_dvd_of_alignUp_lt ha hlt hax (by omega) hdvd
  have hleast := (isLeast_alignUp ha hstart).2 ⟨hdvd, hax⟩
  have hend := toNat_end_of_lt (s := alignUp a c.align) hsize (by omega)
  rw [placeIn, if_pos hab] at hplace
  dsimp only at hplace
  rw [if_pos ⟨hstart, BitVec.le_def.2 (by omega)⟩,
    if_pos ⟨BitVec.le_def.2 (by omega), BitVec.le_def.2 (by omega)⟩] at hplace
  cases hplace

end Place

/-! ### The search -/

section Search

variable {h : Resources} {kids : ℕ → List ℕ} {r q : ℕ} {old? : Option ℕ} {l₁ l₂ : List ℕ}
  {t size : BitVec 64} {c : ResourceConstraint} {k : ℕ}

/-- The multiples of `align` from which on `size` addresses are free. -/
def Rooms (h : Resources) (kids : ℕ → List ℕ) (q : ℕ) (old : Option ℕ) (align size : ℕ) : Set ℕ :=
  {s | align ∣ s ∧ h.IsFree kids q old s (s + size - 1)}

/-- The result of a search: the lowest place, or an error if there is none. -/
def Found (h : Resources) (kids : ℕ → List ℕ) (q : ℕ) (old : Option ℕ) (align size : ℕ) :
    Except ResourceError (BitVec 64 × BitVec 64) → Prop
  | .ok (s, e) => IsLeast (h.Rooms kids q old align size) s.toNat ∧ e.toNat + 1 = s.toNat + size
  | .error err => err = .busy ∧ ∀ s, s ∉ h.Rooms kids q old align size

/-- The place that is found in a free range is the lowest one. -/
theorem Passed.found_place (ht : h.Heads kids r) (hq : Desc kids r q)
    (hp : h.Passed kids q old? l₁ l₂ t) (ha : c.align.toNat = 2 ^ k) (hsize : 1 ≤ size.toNat)
    (hlow : ∀ s ∈ h.Rooms kids q old? (2 ^ k) size.toNat, t.toNat ≤ s)
    {range : BitVec 64 × BitVec 64}
    (hplace : placeIn t (h.gapEnd q old? l₂.head?) size c = some range) :
    h.Found kids q old? (2 ^ k) size.toNat (.ok range) := by
  obtain ⟨s, e⟩ := range
  obtain ⟨hts, hse, hend⟩ := placeIn_some hplace
  obtain ⟨hleast, hsum⟩ := placeIn_spec ha hsize hplace
  have hlast : s.toNat + size.toNat - 1 = e.toNat := by omega
  refine ⟨⟨⟨hleast.1.1, ?_⟩, fun x hx => hleast.2 ⟨hx.1, hlow x hx⟩⟩, hsum⟩
  rw [hlast]
  exact hp.free ht hq hts hse hend

/-- If a free range has no place, each place ends behind the next child, and starts behind it if the
child is not the one to be replaced. -/
theorem Passed.of_not_place (hp : h.Passed kids q old? l₁ l₂ t) (ha : c.align.toNat = 2 ^ k)
    (hsize : 1 ≤ size.toNat) (hplace : placeIn t (h.gapEnd q old? l₂.head?) size c = none) {s : ℕ}
    (hts : t.toNat ≤ s) (hs : s ∈ h.Rooms kids q old? (2 ^ k) size.toNat) :
    ∃ x l, l₂ = x :: l ∧ h.hi x < s + size.toNat - 1 ∧ (some x ≠ old? → h.hi x < s) := by
  have hnone := placeIn_eq_none ha hsize hplace hs.1 hts
  have hin := hs.2.inside
  cases l₂ with
  | nil =>
      have hgap : (h.gapEnd q old? none).toNat = h.hi q := rfl
      rw [List.head?_nil, hgap] at hnone
      omega
  | cons x l =>
      rw [List.head?_cons] at hnone
      refine ⟨x, l, rfl, ?_⟩
      by_cases hold : some x = old?
      · have hgap : (h.gapEnd q old? (some x)).toNat = h.hi x := by rw [gapEnd_of_old hold, hi]
        exact ⟨by omega, fun hne => absurd hold hne⟩
      · have hgap := hp.toNat_gapEnd hold
        have hor := hs.2.apart x (by simp [hp.kids_eq]) hold
        exact ⟨by omega, fun _ => by omega⟩

/-- From every point of the search on, the lowest place is found if there is one. -/
theorem Passed.exists_returns (ht : h.Heads kids r) (hq : Desc kids r q)
    (hp : h.Passed kids q old? l₁ l₂ t) (ha : c.align.toNat = 2 ^ k) (hsize : 1 ≤ size.toNat)
    (hlow : ∀ s ∈ h.Rooms kids q old? (2 ^ k) size.toNat, t.toNat ≤ s) :
    ∃ out, Loops.Returns (h.spaceRound q old? size c) (l₂.head?, t) out ∧
      h.Found kids q old? (2 ^ k) size.toNat out := by
  induction l₂ generalizing l₁ t with
  | nil =>
      have hround := h.spaceRound_eq q old? size c none t
      cases hplace : placeIn t (h.gapEnd q old? none) size c with
      | some range =>
          rw [hplace] at hround
          exact ⟨_, .done hround, hp.found_place ht hq ha hsize hlow hplace⟩
      | none =>
          rw [hplace] at hround
          refine ⟨_, .done hround, rfl, fun s hs => ?_⟩
          obtain ⟨x, l, hl, -⟩ := hp.of_not_place ha hsize hplace (hlow s hs) hs
          cases hl
  | cons x l ih =>
      have hround := h.spaceRound_eq q old? size c (some x) t
      cases hplace : placeIn t (h.gapEnd q old? (some x)) size c with
      | some range =>
          rw [hplace] at hround
          exact ⟨_, .done hround, hp.found_place ht hq ha hsize hlow hplace⟩
      | none =>
          rw [hplace] at hround
          dsimp only at hround
          have hafter : ∀ s ∈ h.Rooms kids q old? (2 ^ k) size.toNat,
              h.hi x < s + size.toNat - 1 ∧ (some x ≠ old? → h.hi x < s) := by
            intro s hs
            obtain ⟨x', l', hl, hbehind⟩ := hp.of_not_place ha hsize hplace (hlow s hs) hs
            rwa [(List.cons.inj hl).1]
          by_cases hend : h.end_ x = h.end_ q
          · rw [if_pos hend] at hround
            refine ⟨_, .done hround, rfl, fun s hs => ?_⟩
            have hlt := (hafter s hs).1
            have hin := hs.2.inside
            rw [hi, hend] at hlt
            exact absurd hin.2 (Nat.not_le.2 hlt)
          · rw [if_neg hend] at hround
            have hnext := hp.next ht hq hend
            rw [(ht q hq).sibling_eq hp.kids_eq] at hround
            by_cases hold : some x = old?
            · rw [if_pos hold] at hround hnext
              obtain ⟨out, hout, hfound⟩ := ih hnext hlow
              exact ⟨out, hout.more hround, hfound⟩
            · rw [if_neg hold] at hround hnext
              refine (ih hnext fun s hs => ?_).imp fun out hout => ⟨hout.1.more hround, hout.2⟩
              have hle : (h.end_ x + 1#64).toNat ≤ h.hi x + 1 := by
                rw [BitVec.toNat_add]
                exact Nat.mod_le _ _
              exact hle.trans ((hafter s hs).2 hold)

/-- Where the search starts. -/
def scanStart (h : Resources) (q : ℕ) (old : Option ℕ) : Option ℕ × BitVec 64 :=
  match h.child q with
  | some first =>
      if h.start first = h.start q then
        (h.sibling first, if some first = old then h.start first else h.end_ first + 1#64)
      else (some first, h.start q)
  | none => (none, h.start q)

/-- No place is in front of where the search starts. -/
theorem scanStart_le (ht : h.Heads kids r) (hq : Desc kids r q) {size : ℕ} (hsize : 1 ≤ size)
    {align s : ℕ} (hs : s ∈ h.Rooms kids q old? align size) :
    (h.scanStart q old?).2.toNat ≤ s := by
  have hin : h.lo q ≤ s := hs.2.inside.1
  have hchild : h.child q = (kids q).head? := isList_head (ht q hq).chain
  rw [scanStart, hchild]
  cases hk : kids q with
  | nil => exact hin
  | cons x l =>
      have hx : x ∈ kids q := by simp [hk]
      dsimp only [List.head?_cons]
      split
      · rename_i hstart
        have hlo : h.lo x = h.lo q := by rw [lo, hstart, lo]
        dsimp only
        split
        · rw [hstart]
          exact hin
        · rename_i hold
          have hor := hs.2.apart x hx hold
          rw [BitVec.toNat_add]
          refine (Nat.mod_le _ _).trans ?_
          change h.hi x + 1 ≤ s
          omega
      · exact hin

/-- The search returns, and what it finds is aligned and has the size. -/
theorem exists_returns_scanStart (old? : Option ℕ) (ht : h.Heads kids r) (hq : Desc kids r q)
    (ha : c.align.toNat = 2 ^ k) (hsize : 1 ≤ size.toNat) :
    ∃ out, Loops.Returns (h.spaceRound q old? size c) (h.scanStart q old?) out ∧
      ∀ s e, out = .ok (s, e) → 2 ^ k ∣ s.toNat ∧ e.toNat + 1 = s.toNat + size.toNat := by
  have hf := ht q hq
  have hreturns : ∃ out, Loops.Returns (h.spaceRound q old? size c) (h.scanStart q old?) out := by
    -- the children that are still to come get fewer
    have hstart : ∃ l₁ l₂, kids q = l₁ ++ l₂ ∧ (h.scanStart q old?).1 = l₂.head? := by
      have hchild : h.child q = (kids q).head? := isList_head hf.chain
      rw [scanStart, hchild]
      cases hk : kids q with
      | nil => exact ⟨[], [], rfl, rfl⟩
      | cons x l =>
          dsimp only [List.head?_cons]
          split
          · have hk' : kids q = [] ++ x :: l := hk
            exact ⟨[x], l, rfl, hf.sibling_eq hk'⟩
          · exact ⟨[], x :: l, rfl, rfl⟩
    obtain ⟨l₁, l₂, hk, hthis⟩ := hstart
    refine Loops.exists_returns (I := fun m st => ∃ l₁ l₂, kids q = l₁ ++ l₂ ∧ st.1 = l₂.head? ∧
      l₂.length = m) ?_ ⟨l₁, l₂, hk, hthis, rfl⟩
    rintro m ⟨this, t⟩ ⟨this', t'⟩ ⟨l₁, l₂, hk, hthis, rfl⟩ hround
    dsimp only at hthis
    rw [spaceRound_eq, hthis] at hround
    split at hround
    · cases hround
    cases l₂ with
    | nil => cases hround
    | cons x l =>
        have hk' : kids q = (l₁ ++ [x]) ++ l := by
          rw [hk, List.append_assoc, List.singleton_append]
        dsimp only [List.head?_cons] at hround
        split at hround
        · cases hround
        refine ⟨l.length, Nat.lt_succ_self _, l₁ ++ [x], l, hk', ?_, rfl⟩
        split at hround <;>
        · cases hround
          exact hf.sibling_eq hk
  obtain ⟨out, hout⟩ := hreturns
  refine ⟨out, hout, hout.invariant (I := fun _ => True) (P := fun out => ∀ s e, out = .ok (s, e) →
    2 ^ k ∣ s.toNat ∧ e.toNat + 1 = s.toNat + size.toNat) (fun _ _ _ _ => trivial) ?_ trivial⟩
  rintro ⟨this, t⟩ out - hround s e rfl
  rw [spaceRound_eq] at hround
  split at hround
  · rename_i range hplace
    cases hround
    obtain ⟨hleast, hsum⟩ := placeIn_spec ha hsize hplace
    exact ⟨hleast.1.1, hsum⟩
  · split at hround
    · cases hround
    split at hround
    · cases hround
    split at hround <;> cases hround

/-- The search finds the lowest place, or reports that there is none. -/
theorem exists_findResourceSpace (ht : h.Heads kids r) (hq : Desc kids r q)
    (hends : h.EndsBefore q old?) (ha : c.align.toNat = 2 ^ k) (hsize : 1 ≤ size.toNat) :
    ∃ out, Loops.Settles (fun n => h.findResourceSpace n q old? size c) out ∧
      h.Found kids q old? (2 ^ k) size.toNat out := by
  obtain ⟨l₁, l₂, hp, hthis⟩ := scanning_iff.1 (scanning_first ht hq hends)
  obtain ⟨out, hout, hfound⟩ := hp.exists_returns ht hq ha hsize
    fun s hs => scanStart_le ht hq hsize hs
  rw [← hthis] at hout
  exact ⟨out, hout.settles, hfound⟩

end Search

/-! ### Requests -/

section Request

variable {h : Resources} {kids : ℕ → List ℕ} {r q new : ℕ} {l₁ l₂ : List ℕ}

/-- A loop returns if it goes on only from a child to the link to the next one. -/
theorem Fine.exists_returns {ρ : Type} {round : ResLink → Loops.Round ResLink ρ}
    (hf : h.Fine kids q)
    (hround : ∀ p p', round p = .more p' → ∃ x, h.get p = some x ∧ p' = .sibling x) :
    ∃ out, Loops.Returns round (.child q) out := by
  -- the children that are still to come get fewer
  refine Loops.exists_returns (I := fun m p => ∃ l₁ l₂, kids q = l₁ ++ l₂ ∧
    p = linkAfter (.child q) l₁ ∧ l₂.length = m) ?_ ⟨[], kids q, rfl, rfl, rfl⟩
  rintro m p p' ⟨l₁, l₂, hk, rfl, rfl⟩ hmore
  obtain ⟨x, hx, rfl⟩ := hround _ _ hmore
  rw [hf.get_linkAfter hk] at hx
  cases l₂ with
  | nil => cases hx
  | cons y l =>
      obtain rfl : y = x := Option.some.inj hx
      refine ⟨l.length, Nat.lt_succ_self _, l₁ ++ [y], l, ?_, (linkAfter_concat ..).symm, rfl⟩
      rw [hk, List.append_assoc, List.singleton_append]

/-- A request returns. -/
theorem exists_requestResource (ht : h.Heads kids r) (hq : Desc kids r q) (new : ℕ) :
    ∃ out, Loops.Settles (fun n => h.requestResource n q new) out ∧
      h.Requested kids q new out := by
  have hsettles : ∃ out, Loops.Settles (fun n => h.requestResource n q new) out := by
    simp only [requestResource]
    split
    · exact ⟨_, .const _⟩
    split
    · exact ⟨_, .const _⟩
    split
    · exact ⟨_, .const _⟩
    obtain ⟨out, hout⟩ : ∃ out, Loops.Returns (h.requestRound q new) (.child q) out := by
      refine (ht q hq).exists_returns fun p p' hmore => ?_
      rw [requestRound] at hmore
      split at hmore
      · rename_i tmp htmp
        split at hmore
        · cases hmore
        split at hmore
        · cases hmore
          exact ⟨tmp, htmp, rfl⟩
        · cases hmore
      · cases hmore
    exact ⟨out, hout.settles⟩
  obtain ⟨out, N, hN⟩ := hsettles
  exact ⟨out, ⟨N, hN⟩, requestResource_cases ht hq (hN N le_rfl)⟩

/-- A free range is entered. -/
theorem Requested.eq_of_free {out : Option ℕ × Resources} (hreq : h.Requested kids q new out)
    (hfree : h.IsFree kids q none (h.lo new) (h.hi new)) :
    ∃ l₁ l₂, kids q = l₁ ++ l₂ ∧ h.FitsIn q new l₁ l₂ ∧ out = (none, h.putIn q new l₁ l₂) := by
  cases hreq with
  | entered l₁ l₂ hk hfit => exact ⟨l₁, l₂, hk, hfit, rfl⟩
  | outside hout => exact absurd ⟨hfree.ordered, hfree.inside⟩ hout
  | met c l₁ l₂ hmeets =>
      have hc : c ∈ kids q := by simp [hmeets.kids_eq]
      have hor := hfree.apart c hc (Option.some_ne_none c)
      have hstart := hmeets.start_le
      have hend := hmeets.le_end
      omega

/-- What is entered was free. -/
theorem FitsIn.isFree (hk : kids q = l₁ ++ l₂) (hfit : h.FitsIn q new l₁ l₂) :
    h.IsFree kids q none (h.lo new) (h.hi new) := by
  refine ⟨hfit.within.1, hfit.within.2, fun x hx _ => ?_⟩
  rw [hk, List.mem_append] at hx
  rcases hx with hx | hx
  · exact .inl (hfit.before x hx)
  · exact .inr (hfit.behind x hx)

@[simp] theorem lo_putIn (h : Resources) (q new : ℕ) (l₁ l₂ : List ℕ) :
    (h.putIn q new l₁ l₂).lo = h.lo := lo_eq (put_start ..)

@[simp] theorem hi_putIn (h : Resources) (q new : ℕ) (l₁ l₂ : List ℕ) :
    (h.putIn q new l₁ l₂).hi = h.hi := hi_eq (put_end ..)

/-- The chain of children with the new one among them. -/
theorem Fine.isList_putIn (hf : h.Fine kids q) (hnodup : (kids q).Nodup) (hk : kids q = l₁ ++ l₂)
    (hnew : new ∉ kids q) :
    Links.IsList (h.putIn q new l₁ l₂) ((h.putIn q new l₁ l₂).child q) (l₁ ++ new :: l₂) := by
  have hnew₁ : new ∉ l₁ := fun hn => hnew (by simp [hk, hn])
  exact (h.grafting q hnew₁ l₂).chain hf hnodup hk hnew

end Request

/-! ### The law -/

/-- The multiples of `align` from which on `root` has `size` addresses that no child has. -/
def Spots (h : Resources) (root align size : ℕ) : Set ℕ :=
  {s | align ∣ s ∧ (h.lo root ≤ s ∧ s + size ≤ h.hi root + 1) ∧
    ∀ x, h.IsChild root x → h.hi x < s ∨ s + size ≤ h.lo x}

/-- A child of `root` whose range has the size and is aligned, inside the root and the bounds, and
apart from the other children. -/
structure PlacedIn (h : Resources) (root new : ℕ) (size : BitVec 64) (c : ResourceConstraint) :
    Prop where
  child : h.IsChild root new
  size_eq : h.hi new + 1 = h.lo new + size.toNat
  aligned : c.align.toNat ∣ h.lo new
  inside : h.lo root ≤ h.lo new ∧ h.hi new ≤ h.hi root
  bounds : c.min.toNat ≤ h.lo new ∧ h.hi new ≤ c.max.toNat
  apart : ∀ x, h.IsChild root x → x ≠ new → h.hi x < h.lo new ∨ h.hi new < h.lo x

/-- The law: an allocation returns; if it succeeds the resource is placed as the constraint asks
for, and else there is no place within its bounds. -/
def AllocatesWell (h : Resources) (root new : ℕ) (size : BitVec 64) (c : ResourceConstraint) :
    Prop :=
  ∃ res h', Loops.Settles (fun n => h.allocateResource n root new size c) (res, h') ∧
    (res = .ok () → h'.PlacedIn root new size c) ∧
    (res ≠ .ok () → ∀ s ∈ h.Spots root c.align.toNat size.toNat,
      ¬ (c.min.toNat ≤ s ∧ s + size.toNat ≤ c.max.toNat + 1))

section Allocate

variable {h : Resources} {kids : ℕ → List ℕ} {r q root new : ℕ} {l₁ l₂ : List ℕ}
  {s e size : BitVec 64} {c : ResourceConstraint} {k : ℕ}

/-- The places of a search are those of the law. -/
theorem rooms_eq_spots (hf : h.Fine kids q) (align : ℕ) {size : ℕ} (hsize : 1 ≤ size) :
    h.Rooms kids q none align size = h.Spots q align size := by
  ext s
  refine and_congr_right fun _ => ⟨fun hfree => ⟨?_, fun x hx => ?_⟩, fun hspot => ?_⟩
  · have hin := hfree.inside
    omega
  · have hor := hfree.apart x (hf.isChild_iff.1 hx) (Option.some_ne_none x)
    omega
  · obtain ⟨hin, hapart⟩ := hspot
    refine ⟨by omega, by omega, fun x hx _ => ?_⟩
    have hor := hapart x (hf.isChild_iff.2 hx)
    omega

/-- Another range for a resource that is not among the children. -/
theorem isFree_setRange_iff (hq : new ≠ q) (hnew : new ∉ kids q) {old? : Option ℕ} {a b : ℕ} :
    (h.setRange new s e).IsFree kids q old? a b ↔ h.IsFree kids q old? a b := by
  have hne : ∀ x ∈ kids q, x ≠ new := by
    rintro x hx rfl
    exact hnew hx
  constructor
  · rintro ⟨hab, hin, hapart⟩
    rw [lo_setRange, hi_setRange] at hin hapart
    rw [Function.update_of_ne hq.symm, Function.update_of_ne hq.symm] at hin
    refine ⟨hab, hin, fun x hx hold => ?_⟩
    have hor := hapart x hx hold
    rwa [Function.update_of_ne (hne x hx), Function.update_of_ne (hne x hx)] at hor
  · rintro ⟨hab, hin, hapart⟩
    refine ⟨hab, ?_, fun x hx hold => ?_⟩ <;> rw [lo_setRange, hi_setRange]
    · rwa [Function.update_of_ne hq.symm, Function.update_of_ne hq.symm]
    · rw [Function.update_of_ne (hne x hx), Function.update_of_ne (hne x hx)]
      exact hapart x hx hold

/-- A child that starts with the root and ends at the last address leaves no place. -/
theorem spots_eq_empty_of_last (ht : h.Heads kids q) (hends : ¬ h.EndsBefore q none)
    {align size : ℕ} (hsize : 1 ≤ size) : h.Spots q align size = ∅ := by
  have hf := ht q .refl
  rw [EndsBefore, not_forall] at hends
  obtain ⟨x, hends⟩ := hends
  rw [Classical.not_imp, Classical.not_imp, Classical.not_imp, not_not] at hends
  obtain ⟨hx, hstart, -, hend⟩ := hends
  have hmem : x ∈ kids q := by
    have hchild : h.child q = (kids q).head? := isList_head hf.chain
    exact List.mem_of_mem_head? (hchild ▸ hx)
  have hlo : h.lo x = h.lo q := by rw [lo, hstart, lo]
  have hhi : h.hi x = 2 ^ 64 - 1 := by rw [hi, hend, BitVec.toNat_allOnes]
  refine Set.eq_empty_of_forall_notMem fun s hs => ?_
  obtain ⟨-, hin, hapart⟩ := hs
  have hlt := (h.end_ q).isLt
  have hor := hapart x (hf.isChild_iff.2 hmem)
  have hle : h.hi q < 2 ^ 64 := hlt
  omega

/-- A resource that gets a range is requested: it goes in exactly if the range is free. -/
theorem exists_request_setRange (ht : h.Heads kids q) (hnew : ¬ Desc kids q new) :
    ∃ out, Loops.Settles (fun n => (h.setRange new s e).requestResource n q new) out ∧
      ((h.IsFree kids q none s.toNat e.toNat ∧ ∃ l₁ l₂, kids q = l₁ ++ l₂ ∧
          (h.setRange new s e).FitsIn q new l₁ l₂ ∧
          out = (none, (h.setRange new s e).putIn q new l₁ l₂)) ∨
        (¬ h.IsFree kids q none s.toNat e.toNat ∧ out.1.isSome)) := by
  have hne : new ≠ q := by
    rintro rfl
    exact hnew .refl
  have hmem : new ∉ kids q := fun hn => hnew (Nesting.Desc.refl.child hn)
  have hlo : (h.setRange new s e).lo new = s.toNat := by rw [lo_setRange, Function.update_self]
  have hhi : (h.setRange new s e).hi new = e.toNat := by rw [hi_setRange, Function.update_self]
  obtain ⟨out, hout, hreq⟩ := exists_requestResource (ht.setRange_of_not hnew s e) .refl new
  refine ⟨out, hout, ?_⟩
  by_cases hfree : h.IsFree kids q none s.toNat e.toNat
  · have hfree' := (isFree_setRange_iff (s := s) (e := e) hne hmem).2 hfree
    rw [← hlo, ← hhi] at hfree'
    exact .inl ⟨hfree, hreq.eq_of_free hfree'⟩
  · refine .inr ⟨hfree, ?_⟩
    cases hreq with
    | entered l₁ l₂ hk hfit =>
        have hfree' := hfit.isFree hk
        rw [isFree_setRange_iff hne hmem, hlo, hhi] at hfree'
        exact absurd hfree' hfree
    | outside => rfl
    | met => rfl

/-- What an allocation does: the resource gets the lowest place, or there is none. -/
theorem exists_allocateResource (ht : h.Heads kids q) (hnew : ¬ Desc kids q new)
    (hparent : h.parent new = none) (ha : c.align.toNat = 2 ^ k) (hsize : 1 ≤ size.toNat) :
    ∃ res h', Loops.Settles (fun n => h.allocateResource n q new size c) (res, h') ∧
      ((res = .ok () ∧ ∃ s e l₁ l₂, IsLeast (h.Spots q (2 ^ k) size.toNat) s.toNat ∧
          e.toNat + 1 = s.toNat + size.toNat ∧ kids q = l₁ ++ l₂ ∧
          h' = (h.setRange new s e).putIn q new l₁ l₂) ∨
        (res ≠ .ok () ∧ h.Spots q (2 ^ k) size.toNat = ∅)) := by
  have hf := ht q .refl
  have hrooms := rooms_eq_spots hf (2 ^ k) hsize
  -- the search, and what it tells about the places
  obtain ⟨found, hsearch, hplace, hspots⟩ : ∃ found,
      Loops.Settles (fun n => h.findResourceSpace n q none size c) found ∧
      (∀ s e, found = .ok (s, e) → 2 ^ k ∣ s.toNat ∧ e.toNat + 1 = s.toNat + size.toNat) ∧
      (h.Spots q (2 ^ k) size.toNat = ∅ ∨
        ∃ s e, found = .ok (s, e) ∧ IsLeast (h.Spots q (2 ^ k) size.toNat) s.toNat) := by
    obtain ⟨found, hreturns, hplace⟩ := exists_returns_scanStart none ht .refl ha hsize
    refine ⟨found, hreturns.settles, hplace, ?_⟩
    by_cases hends : h.EndsBefore q none
    · obtain ⟨found', hfound', hspec⟩ := exists_findResourceSpace ht .refl hends ha hsize
      obtain rfl := hreturns.settles.unique hfound'
      rw [← hrooms]
      rcases found with err | ⟨s, e⟩
      · exact .inl (Set.eq_empty_of_forall_notMem hspec.2)
      · exact .inr ⟨s, e, rfl, hspec.1⟩
    · exact .inl (spots_eq_empty_of_last ht hends hsize)
  simp only [allocateResource, hparent, Option.isSome_none, Bool.false_eq_true, if_false]
  rcases found with err | ⟨s, e⟩
  · refine ⟨.error err, h, hsearch.bind (.const _), .inr ⟨by simp, ?_⟩⟩
    rcases hspots with hempty | ⟨s, e, heq, -⟩
    · exact hempty
    · cases heq
  · obtain ⟨hdvd, hsum⟩ := hplace s e rfl
    obtain ⟨⟨conflict, h'⟩, hrequest, hout⟩ := exists_request_setRange (s := s) (e := e) ht hnew
    refine ⟨_, _, hsearch.bind (hrequest.bind (.const _)), ?_⟩
    have hlast : s.toNat + size.toNat - 1 = e.toNat := by omega
    rcases hout with ⟨hfree, l₁, l₂, hk, -, heq⟩ | ⟨hfree, hconflict⟩
    · cases heq
      refine .inl ⟨rfl, s, e, l₁, l₂, ?_, hsum, hk, rfl⟩
      have hmem : s.toNat ∈ h.Spots q (2 ^ k) size.toNat := by
        rw [← hrooms]
        exact ⟨hdvd, by rwa [hlast]⟩
      rcases hspots with hempty | ⟨s', e', heq, hleast⟩
      · rw [hempty] at hmem
        exact absurd hmem (Set.notMem_empty _)
      · cases heq
        exact hleast
    · have hres : ofConflict conflict = .error .busy := if_pos hconflict
      refine .inr ⟨by rw [hres]; simp, ?_⟩
      rcases hspots with hempty | ⟨s', e', heq, hleast⟩
      · exact hempty
      · cases heq
        rw [← hrooms] at hleast
        have hfree' := hleast.1.2
        rw [hlast] at hfree'
        exact absurd hfree' hfree

/-- The resource that got a place. -/
theorem placedIn_putIn (ht : h.Heads kids q) (hnew : ¬ Desc kids q new)
    (hmem : s.toNat ∈ h.Spots q c.align.toNat size.toNat)
    (hsum : e.toNat + 1 = s.toNat + size.toNat) (hk : kids q = l₁ ++ l₂)
    (hbounds : c.min.toNat ≤ s.toNat ∧ s.toNat + size.toNat ≤ c.max.toNat + 1) :
    ((h.setRange new s e).putIn q new l₁ l₂).PlacedIn q new size c := by
  have hne : q ≠ new := by
    rintro rfl
    exact hnew .refl
  have hnot : new ∉ kids q := fun hn => hnew (Nesting.Desc.refl.child hn)
  have hf' := ht.setRange_of_not hnew s e q .refl
  have hchain := hf'.isList_putIn (ht.nodup .refl) hk hnot
  have hchild : ∀ x, ((h.setRange new s e).putIn q new l₁ l₂).IsChild q x ↔
      x = new ∨ x ∈ kids q := by
    intro x
    rw [hk, List.mem_append]
    constructor
    · rintro ⟨l, hl, hx⟩
      rw [hl.unique hchain, List.mem_append, List.mem_cons] at hx
      tauto
    · intro hx
      refine ⟨_, hchain, ?_⟩
      rw [List.mem_append, List.mem_cons]
      tauto
  have hlo : ((h.setRange new s e).putIn q new l₁ l₂).lo = Function.update h.lo new s.toNat := by
    rw [lo_putIn, lo_setRange]
  have hhi : ((h.setRange new s e).putIn q new l₁ l₂).hi = Function.update h.hi new e.toNat := by
    rw [hi_putIn, hi_setRange]
  obtain ⟨hdvd, hin, hapart⟩ := hmem
  refine ⟨(hchild new).2 (.inl rfl), ?_, ?_, ?_, ?_, fun x hx hxnew => ?_⟩ <;> rw [hlo]
  · rw [hhi, Function.update_self, Function.update_self]
    exact hsum
  · rw [Function.update_self]
    exact hdvd
  · rw [hhi, Function.update_self, Function.update_self, Function.update_of_ne hne,
      Function.update_of_ne hne]
    omega
  · rw [hhi, Function.update_self, Function.update_self]
    omega
  · have hxq := ((hchild x).1 hx).resolve_left hxnew
    have hor := hapart x ((ht q .refl).isChild_iff.2 hxq)
    rw [hhi, Function.update_self, Function.update_self, Function.update_of_ne hxnew,
      Function.update_of_ne hxnew]
    omega

end Allocate

end Resources

/-- For every tree, every resource that is in none, every size of at least one address and every
constraint whose alignment is a power of two: the law holds exactly if the lowest aligned place of
the size in the root lies within the bounds, as long as there is such a place at all. -/
theorem resource_allocate_iff {h : Resources} {root new : ℕ} {size : BitVec 64}
    {c : ResourceConstraint} (ht : h.TreeOk root) (hnew : ¬ h.InTree root new)
    (hparent : h.parent new = none) (hsize : 1 ≤ size.toNat)
    (halign : ∃ k, c.align.toNat = 2 ^ k) :
    h.AllocatesWell root new size c ↔
      ∀ s, IsLeast (h.Spots root c.align.toNat size.toNat) s →
        c.min.toNat ≤ s ∧ s + size.toNat ≤ c.max.toNat + 1 := by
  obtain ⟨kids, hheads, -⟩ := ht.exists_kids
  obtain ⟨k, ha⟩ := halign
  rw [hheads.inTree_iff] at hnew
  obtain ⟨res, h', hsettles, hout⟩ := Resources.exists_allocateResource hheads hnew hparent ha hsize
  rw [← ha] at hout
  constructor
  · rintro ⟨res', h'', hsettles', hok, -⟩ t hleast
    obtain ⟨rfl, rfl⟩ := Prod.mk.inj (hsettles.unique hsettles')
    rcases hout with ⟨hres, s, e, l₁, l₂, hs, hsum, hk, rfl⟩ | ⟨-, hempty⟩
    · have hbounds := (hok hres).bounds
      rw [Resources.lo_putIn, Resources.hi_putIn, Resources.lo_setRange, Resources.hi_setRange,
        Function.update_self, Function.update_self] at hbounds
      rw [hleast.unique hs]
      omega
    · rw [hempty] at hleast
      exact absurd hleast.1 (Set.notMem_empty _)
  · intro hbounds
    refine ⟨res, h', hsettles, fun hres => ?_, fun hres s hs => ?_⟩
    · rcases hout with ⟨-, s, e, l₁, l₂, hs, hsum, hk, rfl⟩ | ⟨hne, -⟩
      · exact Resources.placedIn_putIn hheads hnew hs.1 hsum hk (hbounds _ hs)
      · exact absurd hres hne
    · rcases hout with ⟨hok, -⟩ | ⟨-, hempty⟩
      · exact absurd hok hres
      · rw [hempty] at hs
        exact absurd hs (Set.notMem_empty _)

namespace Resources

/-- In an empty root every aligned address with room behind it is a place. -/
theorem mem_spots_of_leaf {h : Resources} {q align size s : ℕ} (hleaf : h.child q = none)
    (hdvd : align ∣ s) (hin : h.lo q ≤ s ∧ s + size ≤ h.hi q + 1) : s ∈ h.Spots q align size := by
  refine ⟨hdvd, hin, ?_⟩
  rintro x ⟨l, hl, hmem⟩
  rw [hleaf, Links.isList_none] at hl
  rw [hl] at hmem
  exact absurd hmem List.not_mem_nil

end Resources

/-- The bounds hold the lowest place. -/
theorem resource_allocate_iff_fresh :
    Resources.fresh.AllocatesWell 0 1 0x100#64 ⟨0#64, 0xFFF#64, 0x10#64⟩ := by
  have htree : Resources.fresh.Tree (fun _ => []) 0 := ⟨.leaf rfl (by decide), rfl⟩
  refine (resource_allocate_iff htree.treeOk (Resources.not_inTree_fresh (by decide)) rfl
    (by decide) ⟨4, rfl⟩).2 fun s hleast => ?_
  have hzero := hleast.2 (Resources.mem_spots_of_leaf rfl (Nat.dvd_zero _) (by decide))
  rw [Nat.le_zero.1 hzero]
  decide

/-- The range from `0x1000` on is free, but the resource is placed below it. -/
theorem resource_allocate_unclipped :
    (0x1000 ∈ Resources.fresh.Spots 0 0x10 0x100) ∧
    ¬ Resources.fresh.AllocatesWell 0 1 0x100#64 ⟨0x1000#64, 0x1FFF#64, 0x10#64⟩ := by
  refine ⟨Resources.mem_spots_of_leaf rfl (by decide) (by decide), ?_⟩
  rintro ⟨res, h', ⟨N, hN⟩, hok, -⟩
  have hrun : ∀ n, (Resources.fresh.allocateResource (n + 2) 0 1 0x100#64
      ⟨0x1000#64, 0x1FFF#64, 0x10#64⟩).map (fun out => (out.1, out.2.start 1)) =
        some (.ok (), 0#64) := fun n => rfl
  have hlarge := hN (N + 2) (Nat.le_add_right N 2)
  dsimp only at hlarge
  have hout := hrun N
  rw [hlarge] at hout
  obtain ⟨rfl, hstart⟩ := Prod.mk.inj (Option.some.inj hout)
  have hbounds := (hok rfl).bounds.1
  rw [Resources.lo, hstart] at hbounds
  exact absurd hbounds (by decide)

end StarOS
