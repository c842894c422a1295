/-
Sponge functions over sequences of bits.

A message is padded to whole blocks of `r` bits, which are added to the state one after the other,
with a permutation after each of them.  The output is the first `r` bits of the state, and of the
states that come after it.  The same state is reached by a stream that adds single bits, and
permutes as soon as a block is full.

* `Sponge.sponge` — the sponge function, with the padding `Sponge.pad`;
* `Sponge.Stream`, `Sponge.push` — the stream of single bits;
* `Sponge.foldl_push_lt`, `Sponge.foldl_push_eq` — bits that leave a block open, and that fill it;
* `Sponge.foldl_push_blocks` — the stream after whole blocks;
* `Sponge.getElem?_squeeze` — bit `t` of the output is bit `t % r` of state `t / r`.
-/

import Mathlib.Data.Nat.Notation
import Mathlib.Logic.Function.Iterate

set_option autoImplicit false

namespace Sponge

variable {b : ℕ}

/-! ### The sponge function -/

/-- The states: words of `b` bits. -/
abbrev State (b : ℕ) := Fin b → Bool

/-- The state with the bits of a word added, from bit `o` on. -/
def xorAt (s : State b) (o : ℕ) (w : List Bool) : State b :=
  fun i => s i ^^ (decide (o ≤ i.val) && w.getD (i.val - o) false)

/-- `pad10*1`, for a message of `m` bits. -/
def pad (r m : ℕ) : List Bool :=
  true :: (List.replicate ((r - (m + 2) % r) % r) false ++ [true])

/-- Absorbing `n` blocks. -/
def absorbBlocks (f : State b → State b) (r : ℕ) : ℕ → List Bool → State b → State b
  | 0, _, s => s
  | n + 1, p, s => absorbBlocks f r n (p.drop r) (f (xorAt s 0 (p.take r)))

/-- Absorbing a padded message. -/
def absorb (f : State b → State b) (r : ℕ) (p : List Bool) : State b :=
  absorbBlocks f r (p.length / r) p fun _ => false

/-- The first `r` bits of a state. -/
def trunc (r : ℕ) (s : State b) : List Bool := (List.ofFn s).take r

/-- The first `r` bits of `n` states, one after the other. -/
def squeezeBlocks (f : State b → State b) (r : ℕ) : ℕ → State b → List Bool
  | 0, _ => []
  | n + 1, s => trunc r s ++ squeezeBlocks f r n (f s)

/-- Squeezing `d` bits. -/
def squeeze (f : State b → State b) (r d : ℕ) (s : State b) : List Bool :=
  (squeezeBlocks f r (d / r + 1) s).take d

/-- The sponge function. -/
def sponge (f : State b → State b) (r : ℕ) (message : List Bool) (d : ℕ) : List Bool :=
  squeeze f r d (absorb f r (message ++ pad r message.length))

/-! ### Adding words -/

theorem xorAt_nil (s : State b) (o : ℕ) : xorAt s o [] = s := by
  funext i
  rw [xorAt, List.getD_nil, Bool.and_false, Bool.xor_false]

theorem xorAt_cons (s : State b) (o : ℕ) (x : Bool) (w : List Bool) :
    xorAt s o (x :: w) = xorAt (xorAt s o [x]) (o + 1) w := by
  funext i
  rw [xorAt, xorAt, xorAt]
  rcases Nat.lt_trichotomy i.val o with hlt | heq | hgt
  · rw [decide_eq_false (Nat.not_le_of_lt hlt), decide_eq_false (by omega), Bool.false_and,
      Bool.false_and, Bool.false_and, Bool.xor_false, Bool.xor_false]
  · rw [heq, decide_eq_true (Nat.le_refl o), decide_eq_false (Nat.not_succ_le_self o), Nat.sub_self,
      Bool.false_and, Bool.xor_false]
    rfl
  · have hsub : i.val - o = (i.val - (o + 1)) + 1 := by omega
    rw [decide_eq_true (Nat.le_of_lt hgt), decide_eq_true (Nat.succ_le_of_lt hgt), Bool.true_and,
      Bool.true_and, Bool.true_and, hsub, List.getD_cons_succ, List.getD_cons_succ, List.getD_nil,
      Bool.xor_false]

/-! ### The stream -/

/-- A state, and the number of bits in the block that is open. -/
structure Stream (b : ℕ) where
  state : State b
  pos : ℕ

/-- Adding a bit, and permuting if the block is full. -/
def push (f : State b → State b) (r : ℕ) (t : Stream b) (x : Bool) : Stream b :=
  if t.pos + 1 = r then ⟨f (xorAt t.state t.pos [x]), 0⟩
  else ⟨xorAt t.state t.pos [x], t.pos + 1⟩

variable {f : State b → State b} {r : ℕ}

/-- Bits that do not fill the block. -/
theorem foldl_push_lt (w : List Bool) (s : State b) {o : ℕ} (h : o + w.length < r) :
    w.foldl (push f r) ⟨s, o⟩ = ⟨xorAt s o w, o + w.length⟩ := by
  induction w generalizing s o with
  | nil => rw [List.foldl_nil, xorAt_nil, List.length_nil, Nat.add_zero]
  | cons x w ih =>
      rw [List.length_cons] at h
      rw [List.foldl_cons, push]
      dsimp only
      rw [if_neg (by omega), ih _ (by omega), ← xorAt_cons, List.length_cons, Nat.add_assoc,
        Nat.add_comm 1]

/-- Bits that fill the block. -/
theorem foldl_push_eq {w : List Bool} (hw : w ≠ []) (s : State b) {o : ℕ} (h : o + w.length = r) :
    w.foldl (push f r) ⟨s, o⟩ = ⟨f (xorAt s o w), 0⟩ := by
  induction w generalizing s o with
  | nil => exact absurd rfl hw
  | cons x w ih =>
      rw [List.length_cons] at h
      rw [List.foldl_cons, push]
      dsimp only
      by_cases hlast : w = []
      · subst hlast
        rw [List.length_nil] at h
        rw [if_pos (by omega)]
        rfl
      · have hpos := List.length_pos_iff.2 hlast
        rw [if_neg (by omega), ih hlast _ (by omega), ← xorAt_cons]

/-- Whole blocks. -/
theorem foldl_push_absorbBlocks (hr : 0 < r) (n : ℕ) (p : List Bool) (s : State b)
    (h : p.length = r * n) :
    p.foldl (push f r) ⟨s, 0⟩ = ⟨absorbBlocks f r n p s, 0⟩ := by
  induction n generalizing p s with
  | zero =>
      rw [Nat.mul_zero] at h
      rw [List.eq_nil_of_length_eq_zero h]
      rfl
  | succ n ih =>
      rw [Nat.mul_succ] at h
      have htake : (p.take r).length = r := List.length_take_of_le (by omega)
      have hne : p.take r ≠ [] := List.length_pos_iff.1 (by omega)
      have hblock := foldl_push_eq (f := f) (r := r) hne s (o := 0) (by omega)
      rw [← List.take_append_drop r p, List.foldl_append, hblock, List.take_append_drop,
        ih (p.drop r) _ (by rw [List.length_drop]; omega)]
      rfl

theorem foldl_push_blocks (hr : 0 < r) {p : List Bool} (h : r ∣ p.length) :
    p.foldl (push f r) ⟨fun _ => false, 0⟩ = ⟨absorb f r p, 0⟩ :=
  foldl_push_absorbBlocks hr _ p _ (Nat.mul_div_cancel' h).symm

/-- The message is padded to whole blocks. -/
theorem dvd_length_append_pad (hr : 0 < r) (message : List Bool) :
    r ∣ (message ++ pad r message.length).length := by
  have hmod := Nat.mod_lt (message.length + 2) hr
  have hdiv := Nat.mod_add_div (message.length + 2) r
  rw [List.length_append, pad, List.length_cons, List.length_append, List.length_replicate,
    List.length_singleton]
  by_cases hzero : (message.length + 2) % r = 0
  · rw [hzero, Nat.sub_zero, Nat.mod_self]
    exact Nat.dvd_of_mod_eq_zero (by rwa [Nat.add_assoc, Nat.zero_add])
  · rw [Nat.mod_eq_of_lt (show r - (message.length + 2) % r < r by omega)]
    refine ⟨(message.length + 2) / r + 1, ?_⟩
    rw [Nat.mul_succ]
    omega

/-! ### The output -/

theorem length_trunc (hr : r ≤ b) (s : State b) : (trunc r s).length = r := by
  rw [trunc, List.length_take, List.length_ofFn, Nat.min_eq_left hr]

/-- Bit `t` of the blocks. -/
theorem getElem?_squeezeBlocks (hr : 0 < r) (hrb : r ≤ b) {n : ℕ} (s : State b) {t : ℕ}
    (ht : t < r * n) :
    (squeezeBlocks f r n s)[t]? =
      some ((f^[t / r] s) ⟨t % r, Nat.lt_of_lt_of_le (Nat.mod_lt t hr) hrb⟩) := by
  induction n generalizing s t with
  | zero => omega
  | succ n ih =>
      rw [squeezeBlocks, List.getElem?_append, length_trunc hrb]
      by_cases hfirst : t < r
      · have htb : t < b := Nat.lt_of_lt_of_le hfirst hrb
        rw [if_pos hfirst, trunc, List.getElem?_take_of_lt hfirst, List.getElem?_ofFn, dif_pos htb]
        simp only [Nat.mod_eq_of_lt hfirst, Nat.div_eq_of_lt hfirst, Function.iterate_zero, id_eq]
      · have hle : r ≤ t := Nat.le_of_not_lt hfirst
        rw [Nat.mul_succ] at ht
        rw [if_neg hfirst, ih (f s) (by omega), Nat.div_eq_sub_div hr hle,
          Function.iterate_succ_apply]
        simp only [Nat.mod_eq_sub_mod hle]

/-- Bit `t` of the output is bit `t % r` of state `t / r`. -/
theorem getElem?_squeeze (hr : 0 < r) (hrb : r ≤ b) {d : ℕ} (s : State b) {t : ℕ} (ht : t < d) :
    (squeeze f r d s)[t]? =
      some ((f^[t / r] s) ⟨t % r, Nat.lt_of_lt_of_le (Nat.mod_lt t hr) hrb⟩) := by
  have hdiv := Nat.mod_add_div d r
  have hmod := Nat.mod_lt d hr
  rw [squeeze, List.getElem?_take_of_lt ht]
  refine getElem?_squeezeBlocks hr hrb s ?_
  rw [Nat.mul_succ]
  omega

end Sponge
