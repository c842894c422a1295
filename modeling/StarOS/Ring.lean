/-
First-in-first-out queues in a ring of slots.

A ring has `N` slots, and the queue it holds starts at the slot `head` and goes around: the element
at position `k` is in slot `(head + k) % N`, and all other slots are empty.  The lemmas say which
slots a queue operation may write so that the ring holds the queue the operation should leave: the
slot behind the last element for a push, the slot at `head` for a pop, and for a removal only the
slot of the last element, since emptying any other slot leaves a hole in the queue.

* `Ring.Holds` — the slots hold a queue;
* `Ring.Holds.push`, `Ring.Holds.pop`, `Ring.Holds.dropLast` — the writes that keep it;
* `Ring.Holds.slot_eq_some`, `Ring.Holds.mem_iff` — which slot holds which element;
* `Ring.Holds.existsUnique` — an element that occurs once is in one slot;
* `Ring.Recent` — a ring that is written around and around holds the last `N` elements of what was
  written, with `Ring.Recent.latest` and `Ring.Recent.window`.
-/

import Mathlib.Data.Nat.ModEq
import Mathlib.Data.List.Nodup

set_option autoImplicit false

namespace Ring

universe u

variable {α : Type u}

/-! ### Slots -/

/-- Different positions are in different slots. -/
theorem slot_inj {N head j k : ℕ} (hj : j < N) (hk : k < N)
    (h : (head + j) % N = (head + k) % N) : j = k := by
  have hmod : j ≡ k [MOD N] := Nat.ModEq.add_left_cancel' head h
  rwa [Nat.ModEq, Nat.mod_eq_of_lt hj, Nat.mod_eq_of_lt hk] at hmod

/-- Every slot is at some position. -/
theorem exists_position {N i : ℕ} (head : ℕ) (hi : i < N) : ∃ k < N, (head + k) % N = i := by
  have hN : 0 < N := by omega
  have hlt : head % N < N := Nat.mod_lt _ hN
  refine ⟨(i + (N - head % N)) % N, Nat.mod_lt _ hN, ?_⟩
  have hsum : head % N + (i + (N - head % N)) = i + N := by omega
  rw [Nat.add_mod_mod, ← Nat.mod_add_mod, hsum, Nat.add_mod_right, Nat.mod_eq_of_lt hi]

/-- The slots hold the queue `l`, whose first element is at `head`, and nothing else. -/
structure Holds (N : ℕ) (slots : ℕ → Option α) (head : ℕ) (l : List α) : Prop where
  fits : l.length ≤ N
  slot : ∀ k < N, slots ((head + k) % N) = l[k]?

section Holds

variable {N head : ℕ} {slots : ℕ → Option α} {l : List α} {a : α}

theorem holds_nil (hN : 0 < N) (h : ∀ i < N, slots i = none) : Holds N slots head [] where
  fits := Nat.zero_le N
  slot := fun _ _ => h _ (Nat.mod_lt _ hN)

/-- A list and the same with one more element differ only at the end. -/
theorem getElem?_concat_of_ne (a : α) {k : ℕ} (hk : k ≠ l.length) : (l ++ [a])[k]? = l[k]? := by
  rcases Nat.lt_or_ge k l.length with hlt | hge
  · exact List.getElem?_append_left hlt
  · have hlen : (l ++ [a]).length ≤ k := by
      rw [List.length_append, List.length_singleton]
      omega
    rw [List.getElem?_eq_none hge, List.getElem?_eq_none hlen]

/-- The slot behind the last element takes a new one. -/
theorem Holds.push (h : Holds N slots head l) (hroom : l.length < N) (a : α) :
    Holds N (Function.update slots ((head + l.length) % N) (some a)) head (l ++ [a]) := by
  refine ⟨by rw [List.length_append, List.length_singleton]; omega, fun k hk => ?_⟩
  by_cases hkl : k = l.length
  · rw [hkl, Function.update_self, List.getElem?_concat_length]
  · have hslot : (head + k) % N ≠ (head + l.length) % N := fun he =>
      hkl (slot_inj hk hroom he)
    rw [Function.update_of_ne hslot, h.slot k hk, getElem?_concat_of_ne a hkl]

/-- The first element is at `head`. -/
theorem Holds.head_eq (h : Holds N slots head (a :: l)) (hhead : head < N) :
    slots head = some a := by
  have h0 := h.slot 0 (by omega)
  rwa [Nat.add_zero, Nat.mod_eq_of_lt hhead, List.getElem?_cons_zero] at h0

/-- Emptying the slot at `head` and moving on drops the first element. -/
theorem Holds.pop (h : Holds N slots head (a :: l)) (hhead : head < N) :
    Holds N (Function.update slots head none) ((head + 1) % N) l := by
  have hfits := h.fits
  rw [List.length_cons] at hfits
  refine ⟨by omega, fun k hk => ?_⟩
  have hpos : ((head + 1) % N + k) % N = (head + (k + 1)) % N := by
    rw [Nat.mod_add_mod, Nat.add_assoc, Nat.add_comm 1 k]
  rw [hpos]
  by_cases hlast : k + 1 = N
  · -- once around: the slot just emptied
    rw [hlast, Nat.add_mod_right, Nat.mod_eq_of_lt hhead, Function.update_self,
      List.getElem?_eq_none (by omega)]
  · have hslot : (head + (k + 1)) % N ≠ head := by
      intro he
      have h0 : (head + (k + 1)) % N = (head + 0) % N := by
        rw [he, Nat.add_zero, Nat.mod_eq_of_lt hhead]
      exact absurd (slot_inj (by omega) (by omega) h0) (by omega)
    rw [Function.update_of_ne hslot, h.slot (k + 1) (by omega), List.getElem?_cons_succ]

/-- Emptying the slot of the last element drops it. -/
theorem Holds.dropLast (h : Holds N slots head (l ++ [a])) :
    Holds N (Function.update slots ((head + l.length) % N) none) head l := by
  have hfits := h.fits
  rw [List.length_append, List.length_singleton] at hfits
  refine ⟨by omega, fun k hk => ?_⟩
  by_cases hkl : k = l.length
  · rw [hkl, Function.update_self, List.getElem?_eq_none le_rfl]
  · have hslot : (head + k) % N ≠ (head + l.length) % N := fun he =>
      hkl (slot_inj hk (by omega) he)
    rw [Function.update_of_ne hslot, h.slot k hk, getElem?_concat_of_ne a hkl]

/-- The slot of the last element. -/
theorem Holds.last_eq (h : Holds N slots head (l ++ [a])) :
    slots ((head + l.length) % N) = some a := by
  have hfits := h.fits
  rw [List.length_append, List.length_singleton] at hfits
  rw [h.slot l.length (by omega), List.getElem?_concat_length]

/-- What is in a slot is at a position of the queue. -/
theorem Holds.slot_eq_some (h : Holds N slots head l) {i : ℕ} (hi : i < N) :
    slots i = some a ↔ ∃ k, l[k]? = some a ∧ (head + k) % N = i := by
  constructor
  · intro ha
    obtain ⟨k, hk, rfl⟩ := exists_position head hi
    exact ⟨k, by rw [← h.slot k hk, ha], rfl⟩
  · rintro ⟨k, hk, rfl⟩
    have hlt : k < l.length := (List.getElem?_eq_some_iff.1 hk).1
    have hfits := h.fits
    rw [h.slot k (by omega), hk]

theorem Holds.mem_iff (h : Holds N slots head l) (hN : 0 < N) :
    a ∈ l ↔ ∃ i < N, slots i = some a := by
  constructor
  · intro ha
    obtain ⟨k, hk⟩ := List.mem_iff_getElem?.1 ha
    have hi : (head + k) % N < N := Nat.mod_lt _ hN
    exact ⟨_, hi, (h.slot_eq_some hi).2 ⟨k, hk, rfl⟩⟩
  · rintro ⟨i, hi, ha⟩
    obtain ⟨k, hk, -⟩ := (h.slot_eq_some hi).1 ha
    exact List.mem_iff_getElem?.2 ⟨k, hk⟩

/-- An element of a queue without repetitions is in exactly one slot. -/
theorem Holds.existsUnique (h : Holds N slots head l) (hN : 0 < N) (hnodup : l.Nodup)
    (ha : a ∈ l) : ∃! i, i < N ∧ slots i = some a := by
  obtain ⟨i, hi, hia⟩ := (h.mem_iff hN).1 ha
  refine ⟨i, ⟨hi, hia⟩, ?_⟩
  rintro j ⟨hj, hja⟩
  obtain ⟨k, hk, rfl⟩ := (h.slot_eq_some hi).1 hia
  obtain ⟨m, hm, rfl⟩ := (h.slot_eq_some hj).1 hja
  have hlt : m < l.length := (List.getElem?_eq_some_iff.1 hm).1
  rw [(List.getElem?_inj hlt hnodup).1 (hm.trans hk.symm)]

end Holds

/-! ### Writing around and around -/

/-- The slots hold the last `N` elements of `l`, each in the slot of its index. -/
def Recent (N : ℕ) (slots : ℕ → α) (l : List α) : Prop :=
  ∀ i a, l[i]? = some a → l.length ≤ i + N → slots (i % N) = a

section Recent

variable {N : ℕ} {slots : ℕ → α} {l : List α}

theorem recent_nil : Recent N slots [] := by
  intro i a ha
  simp at ha

/-- The next element is written to the slot of its index. -/
theorem Recent.concat (h : Recent N slots l) (hN : 0 < N) (a : α) :
    Recent N (Function.update slots (l.length % N) a) (l ++ [a]) := by
  intro i b hb hlen
  rw [List.length_append, List.length_singleton] at hlen
  by_cases hi : i = l.length
  · rw [hi, List.getElem?_concat_length] at hb
    rw [hi, Function.update_self]
    exact Option.some.inj hb
  · rw [getElem?_concat_of_ne a hi] at hb
    have hlt : i < l.length := (List.getElem?_eq_some_iff.1 hb).1
    have hslot : i % N ≠ l.length % N := by
      intro he
      -- two indices less than a round apart
      have hsub : l.length = i + (l.length - i) := by omega
      rw [hsub] at he
      have hmod := @slot_inj N i 0 (l.length - i) hN (by omega)
        (by rw [Nat.add_zero]; exact he)
      omega
    rw [Function.update_of_ne hslot]
    exact h i b hb (by omega)

/-- What is in the slot of an index that was written: the element of that index, or of a later one
in the same slot. -/
theorem Recent.latest (h : Recent N slots l) (hN : 0 < N) {j : ℕ} (hj : j < l.length) :
    ∃ i, j ≤ i ∧ i % N = j % N ∧ l[i]? = some (slots (j % N)) := by
  have hdiv := Nat.div_add_mod (l.length - 1 - j) N
  have hmod := Nat.mod_lt (l.length - 1 - j) hN
  refine ⟨j + N * ((l.length - 1 - j) / N), Nat.le_add_right _ _, Nat.add_mul_mod_self_left _ _ _,
    ?_⟩
  have hlt : j + N * ((l.length - 1 - j) / N) < l.length := by omega
  have hread := h _ _ (List.getElem?_eq_getElem hlt) (by omega)
  rw [Nat.add_mul_mod_self_left] at hread
  rw [List.getElem?_eq_getElem hlt, hread]

/-- The slots from `head` on hold the end of the list. -/
theorem Recent.window (h : Recent N slots l) (head : ℕ) {n : ℕ} (hlen : l.length = head + n)
    (hn : n ≤ N) : (List.range n).map (fun k => slots ((head + k) % N)) = l.drop head := by
  refine List.ext_getElem? fun k => ?_
  rw [List.getElem?_map, List.getElem?_drop]
  by_cases hk : k < n
  · have hlt : head + k < l.length := by omega
    rw [List.getElem?_range hk, List.getElem?_eq_getElem hlt, Option.map_some,
      h _ _ (List.getElem?_eq_getElem hlt) (by omega)]
  · rw [List.getElem?_eq_none (by rw [List.length_range]; omega),
      List.getElem?_eq_none (by omega)]
    rfl

end Recent

end Ring
