/-
`memory/kaslr.rs`: the random offset of the kernel's base address.

`init_kaslr` mixes the boot entropy with one round of xorshift64, keeps the page bits of the lowest
512 MB and stores them as the offset; every later call is ignored.  The mixing permutes the nonzero
words, so the offset is as uniform as the entropy: each page of the range comes from equally many
entropy words.

* `Kaslr.foldl_init_kaslr` — the first call decides the offset;
* `xorshift64_bijOn` — one round permutes the nonzero words;
* `card_offset` — how many words have one offset;
* `kaslr_offset_uniform` — after any nonempty sequence of calls, how many first entropies lead to an
  offset.
-/

import StarOS.Word
import StarOS.XorShift
import Mathlib.Data.FinEnum
import Mathlib.Data.Fintype.Prod

set_option autoImplicit false

namespace StarOS

/-- `MAX_OFFSET`: 512 MB. -/
def KASLR_MAX_OFFSET : BitVec 64 := 512 * 1024 * 1024

/-- `PAGE_SIZE`. -/
def KASLR_PAGE_SIZE : BitVec 64 := 4096

/-- `KASLR_OFFSET` and `KASLR_ENABLED`. -/
structure Kaslr where
  offset : BitVec 64
  enabled : Bool
  deriving DecidableEq

/-- The statics before the first call. -/
def Kaslr.boot : Kaslr := { offset := 0, enabled := false }

/-- The word that is mixed: zero entropy is replaced. -/
def xorshiftSeed (x : BitVec 64) : BitVec 64 :=
  if x = 0 then 0xdeadbeefcafe1234 else x

/-- `xorshift64`. -/
def xorshift64 (x : BitVec 64) : BitVec 64 :=
  let x := xorshiftSeed x
  let x := x ^^^ (x <<< 13)
  let x := x ^^^ (x >>> 7)
  x ^^^ (x <<< 17)

/-- The offset that `init_kaslr` takes from the mixed word. -/
def kaslrPage (mixed : BitVec 64) : BitVec 64 :=
  (mixed % KASLR_MAX_OFFSET) &&& ~~~(KASLR_PAGE_SIZE - 1)

namespace Kaslr

/-- `init_kaslr`. -/
def init_kaslr (s : Kaslr) (entropy_source : BitVec 64) : Kaslr :=
  if s.enabled then s
  else { offset := kaslrPage (xorshift64 entropy_source), enabled := true }

/-- `kaslr_offset`. -/
def kaslr_offset (s : Kaslr) : BitVec 64 := s.offset

/-- `is_enabled`. -/
def is_enabled (s : Kaslr) : Bool := s.enabled

/-- `randomize_address`. -/
def randomize_address (s : Kaslr) (base : BitVec 64) : BitVec 64 := base + s.kaslr_offset

/-- Once the offset is set, no call changes it. -/
theorem foldl_of_enabled {s : Kaslr} (h : s.enabled = true) (calls : List (BitVec 64)) :
    calls.foldl init_kaslr s = s := by
  induction calls with
  | nil => rfl
  | cons e calls ih =>
      have hstep : s.init_kaslr e = s := by simp [init_kaslr, h]
      rw [List.foldl_cons, hstep, ih]

theorem foldl_init_kaslr (e : BitVec 64) (calls : List (BitVec 64)) :
    (e :: calls).foldl init_kaslr boot
      = { offset := kaslrPage (xorshift64 e), enabled := true } := by
  have hfirst : boot.init_kaslr e = { offset := kaslrPage (xorshift64 e), enabled := true } := by
    simp [init_kaslr, boot]
  rw [List.foldl_cons, hfirst]
  exact foldl_of_enabled rfl calls

end Kaslr

section Mixing

/-- The three steps of `xorshift64`. -/
theorem xorshift64_eq (x : BitVec 64) :
    xorshift64 x = XorShift.left 17 (XorShift.right 7 (XorShift.left 13 (xorshiftSeed x))) := rfl

/-- The three steps alone permute all words. -/
theorem xorshiftSteps_bijective :
    Function.Bijective fun x : BitVec 64 =>
      XorShift.left 17 (XorShift.right 7 (XorShift.left 13 x)) :=
  (XorShift.left_bijective (by omega)).comp
    ((XorShift.right_bijective (by omega)).comp (XorShift.left_bijective (by omega)))

theorem xorshift64_of_ne {x : BitVec 64} (hx : x ≠ 0) :
    xorshift64 x = XorShift.left 17 (XorShift.right 7 (XorShift.left 13 x)) := by
  rw [xorshift64_eq, xorshiftSeed, if_neg hx]

/-- On the nonzero words, which are its seeds, `xorshift64` is a permutation. -/
theorem xorshift64_bijOn : Set.BijOn xorshift64 {x | x ≠ 0} {x | x ≠ 0} := by
  have hzero : XorShift.left 17 (XorShift.right 7 (XorShift.left 13 (0 : BitVec 64))) = 0 := by
    simp [XorShift.left, XorShift.right]
  refine ⟨fun x hx => ?_, fun x hx y hy h => ?_, fun y hy => ?_⟩
  · intro h
    rw [xorshift64_of_ne hx, ← hzero] at h
    exact hx (xorshiftSteps_bijective.injective h)
  · rw [xorshift64_of_ne hx, xorshift64_of_ne hy] at h
    exact xorshiftSteps_bijective.injective h
  · obtain ⟨x, rfl⟩ := xorshiftSteps_bijective.surjective y
    have hx : x ≠ 0 := by
      rintro rfl
      exact hy hzero
    exact ⟨x, hx, xorshift64_of_ne hx⟩

end Mixing

section Pages

/-- The mask clears what lies below a page. -/
theorem kaslrPage_toNat (m : BitVec 64) :
    (kaslrPage m).toNat = m.toNat % 2 ^ 29 / 2 ^ 12 * 2 ^ 12 := by
  have hsize : KASLR_PAGE_SIZE.toNat = 2 ^ 12 := rfl
  have hmax : KASLR_MAX_OFFSET.toNat = 2 ^ 29 := rfl
  have hmask := toNat_and_not_mask (m % KASLR_MAX_OFFSET) hsize
  rw [BitVec.toNat_umod, hmax] at hmask
  exact hmask

/-- An offset is a page of the range. -/
def IsKaslrPage (o : BitVec 64) : Prop := o.toNat % 4096 = 0 ∧ o.toNat < 512 * 1024 * 1024

instance (o : BitVec 64) : Decidable (IsKaslrPage o) :=
  inferInstanceAs (Decidable (_ ∧ _))

theorem isKaslrPage_kaslrPage (m : BitVec 64) : IsKaslrPage (kaslrPage m) := by
  rw [IsKaslrPage, kaslrPage_toNat]
  omega

/-- The word with the bits `h` above the range, the page `o` and the bits `l` below the page. -/
def wordOf (o : BitVec 64) (p : Fin (2 ^ 35) × Fin (2 ^ 12)) : BitVec 64 :=
  BitVec.ofNat 64 (p.1 * 2 ^ 29 + o.toNat + p.2)

theorem wordOf_toNat {o : BitVec 64} (ho : IsKaslrPage o) (p : Fin (2 ^ 35) × Fin (2 ^ 12)) :
    (wordOf o p).toNat = p.1 * 2 ^ 29 + o.toNat + p.2 := by
  obtain ⟨h, l⟩ := p
  rw [wordOf, BitVec.toNat_ofNat]
  have := ho.1
  have := ho.2
  omega

/-- The words of one page: any bits above the range and below the page. -/
theorem card_page {o : BitVec 64} (ho : IsKaslrPage o) :
    (Finset.univ.filter fun m => kaslrPage m = o).card = 2 ^ 47 := by
  have hcard : (Finset.univ : Finset (Fin (2 ^ 35) × Fin (2 ^ 12))).card = 2 ^ 47 := by
    rw [Finset.card_univ, Fintype.card_prod, Fintype.card_fin, Fintype.card_fin, ← pow_add]
  rw [← hcard]
  symm
  refine Finset.card_bij (fun p _ => wordOf o p) ?_ ?_ ?_
  · intro p _
    have hw := wordOf_toNat ho p
    have hpage : kaslrPage (wordOf o p) = o := by
      apply BitVec.eq_of_toNat_eq
      rw [kaslrPage_toNat, hw]
      have := ho.1
      have := ho.2
      omega
    simpa using hpage
  · intro p _ q _ h
    have hp := wordOf_toNat ho p
    have hq := wordOf_toNat ho q
    rw [h, hq] at hp
    have := ho.1
    have := ho.2
    refine Prod.ext (Fin.ext ?_) (Fin.ext ?_)
    · omega
    · omega
  · intro m hm
    have hpage : kaslrPage m = o := by simpa using hm
    have hnat := kaslrPage_toNat m
    rw [hpage] at hnat
    have hlt := m.isLt
    have hhigh : m.toNat / 2 ^ 29 < 2 ^ 35 := by omega
    have hlow : m.toNat % 2 ^ 12 < 2 ^ 12 := by omega
    refine ⟨(⟨_, hhigh⟩, ⟨_, hlow⟩), by simp only [Finset.mem_univ], ?_⟩
    apply BitVec.eq_of_toNat_eq
    rw [wordOf_toNat ho]
    change m.toNat / 2 ^ 29 * 2 ^ 29 + o.toNat + m.toNat % 2 ^ 12 = m.toNat
    omega

/-- The nonzero words of one page: zero lies in the first. -/
theorem card_page_ne_zero {o : BitVec 64} (ho : IsKaslrPage o) :
    (Finset.univ.filter fun m => m ≠ 0 ∧ kaslrPage m = o).card
      = if o = 0 then 2 ^ 47 - 1 else 2 ^ 47 := by
  have hzero : kaslrPage 0#64 = 0#64 := rfl
  have herase : (Finset.univ.filter fun m => m ≠ 0 ∧ kaslrPage m = o)
      = (Finset.univ.filter fun m => kaslrPage m = o).erase 0 := by
    ext m
    simp
  rw [herase]
  split
  · next h =>
      subst h
      rw [Finset.card_erase_of_mem (by simp [hzero]), card_page ho]
  · next h =>
      rw [Finset.erase_eq_of_notMem (by simpa [hzero] using Ne.symm h), card_page ho]

end Pages

/-- How many nonzero entropies have the offset `o`: mixing permutes the words that are counted. -/
theorem card_offset (o : BitVec 64) :
    (Finset.univ.filter fun e => e ≠ 0 ∧ kaslrPage (xorshift64 e) = o).card
      = (Finset.univ.filter fun m => m ≠ 0 ∧ kaslrPage m = o).card := by
  obtain ⟨hmaps, hinj, hsurj⟩ := xorshift64_bijOn
  refine Finset.card_bij (fun e _ => xorshift64 e) ?_ ?_ ?_
  · intro e he
    simp only [Finset.mem_filter, Finset.mem_univ, true_and] at he ⊢
    exact ⟨hmaps he.1, he.2⟩
  · intro e he e' he' h
    simp only [Finset.mem_filter, Finset.mem_univ, true_and] at he he'
    exact hinj he.1 he'.1 h
  · intro m hm
    simp only [Finset.mem_filter, Finset.mem_univ, true_and] at hm
    obtain ⟨e, he, rfl⟩ := hsurj hm.1
    exact ⟨e, by simpa using ⟨he, hm.2⟩, rfl⟩

/-- However often `init_kaslr` is called, the first call decides the offset.  It is a page of the
range, and each page comes from `2 ^ 47` nonzero entropies: one fewer for the offset zero, since
mixing never gives the word zero.  No other offset occurs, and zero entropy counts as the word that
replaces it. -/
theorem kaslr_offset_uniform (calls : List (BitVec 64)) :
    (∀ o : BitVec 64,
      (Finset.univ.filter fun e : BitVec 64 =>
          e ≠ 0 ∧ ((e :: calls).foldl Kaslr.init_kaslr Kaslr.boot).kaslr_offset = o).card
        = if o.toNat % 4096 = 0 ∧ o.toNat < 512 * 1024 * 1024 then
            (if o = 0 then 2 ^ 47 - 1 else 2 ^ 47)
          else 0) ∧
    ((0 :: calls).foldl Kaslr.init_kaslr Kaslr.boot)
      = ((0xdeadbeefcafe1234 :: calls).foldl Kaslr.init_kaslr Kaslr.boot) := by
  constructor
  · intro o
    simp only [Kaslr.foldl_init_kaslr, Kaslr.kaslr_offset]
    split
    · next ho => rw [card_offset, card_page_ne_zero ho]
    · next ho =>
        rw [Finset.card_eq_zero, Finset.filter_eq_empty_iff]
        rintro e - ⟨-, rfl⟩
        exact ho (isKaslrPage_kaslrPage _)
  · have hseed : xorshift64 0 = xorshift64 0xdeadbeefcafe1234 := by
      rw [xorshift64_eq, xorshift64_eq]
      rfl
    rw [Kaslr.foldl_init_kaslr, Kaslr.foldl_init_kaslr, hseed]

end StarOS
