/-
A ring whose slots are handed out by ticket and written later, by several writers.

A writer first takes the next ticket, with what it is going to write, and writes the slot of that
ticket some time later; other writers may take and write later tickets in between.  The ring has `N`
slots and the ticket `k` is for the slot `k % N`, so that a writer that is overtaken by `N` later
tickets shares its slot with one of them.  As long as no ticket is handed out for a slot that is
still to be written, every ticket of the last round that has been written is in its slot.

* `Tickets.Reserved` — the slots, what was taken by ticket, and what each writer is still to write;
* `Tickets.Reserved.take`, `Tickets.Reserved.write` — the two steps of a writer;
* `Tickets.Reserved.window` — when nothing is to be written, the end of the ring reads as the end of
  what was taken.
-/

import StarOS.Ring
import Mathlib.Data.List.Forall2

set_option autoImplicit false

namespace Tickets

universe u v w

variable {ι : Type u} {α : Type v} {β : Type w} {N : ℕ} {R : β → α → Prop}
  {slots : ℕ → α} {taken : List β} {owes : ι → Option (ℕ × β)}

/-- `taken` lists what was taken, by ticket; `owes i` is the slot the writer `i` is still to write
and what it is to write there; and every slot of the last round that is not owed holds what its
ticket was taken for, where `R` says how what is written relates to what was announced. -/
structure Reserved (N : ℕ) (R : β → α → Prop) (slots : ℕ → α) (taken : List β)
    (owes : ι → Option (ℕ × β)) : Prop where
  distinct : ∀ i j q b c, owes i = some (q, b) → owes j = some (q, c) → i = j
  ticket : ∀ i q b, owes i = some (q, b) →
    ∃ k, taken[k]? = some b ∧ taken.length ≤ k + N ∧ k % N = q
  written : ∀ k b, taken[k]? = some b → taken.length ≤ k + N →
    (∀ i c, owes i ≠ some (k % N, c)) → R b (slots (k % N))

/-- Nothing was taken and nothing is owed. -/
theorem reserved_nil (hidle : ∀ i, owes i = none) : Reserved N R slots [] owes where
  distinct := fun i _ _ _ _ hi _ => by simp [hidle i] at hi
  ticket := fun i _ _ hi => by simp [hidle i] at hi
  written := fun k b hk => by simp at hk

/-- Two tickets of one round for the same slot are the same. -/
theorem ticket_unique {n j k : ℕ} (hj : j < n) (hk : k < n) (hjn : n ≤ j + N) (hkn : n ≤ k + N)
    (h : j % N = k % N) : j = k := by
  rcases Nat.lt_trichotomy j k with hlt | heq | hgt
  · have hsub : k = j + (k - j) := by omega
    rw [hsub] at h
    have h0 := @Ring.slot_inj N j 0 (k - j) (by omega) (by omega) (by rw [Nat.add_zero]; exact h)
    omega
  · exact heq
  · have hsub : j = k + (j - k) := by omega
    rw [hsub] at h
    have h0 := @Ring.slot_inj N k 0 (j - k) (by omega) (by omega)
      (by rw [Nat.add_zero]; exact h.symm)
    omega

section Steps

variable [DecidableEq ι] {i : ι} {q : ℕ} {a : α} {b : β}

/-- A writer that owes nothing takes the next ticket, for a slot that nobody is still to write. -/
theorem Reserved.take (h : Reserved N R slots taken owes) (hN : 0 < N) (hi : owes i = none)
    (hfree : ∀ j c, owes j ≠ some (taken.length % N, c)) (b : β) :
    Reserved N R slots (taken ++ [b]) (Function.update owes i (some (taken.length % N, b))) := by
  have howes : ∀ j q c, Function.update owes i (some (taken.length % N, b)) j = some (q, c) →
      (j = i ∧ q = taken.length % N ∧ c = b) ∨ owes j = some (q, c) := by
    intro j q c hj
    by_cases hji : j = i
    · rw [hji, Function.update_self] at hj
      cases hj
      exact .inl ⟨hji, rfl, rfl⟩
    · rw [Function.update_of_ne hji] at hj
      exact .inr hj
  refine ⟨fun j k q c d hj hk => ?_, fun j q c hj => ?_, fun k c hk hlen hnot => ?_⟩
  · rcases howes j q c hj with ⟨rfl, rfl, -⟩ | hj
    · rcases howes k _ d hk with ⟨rfl, -, -⟩ | hk
      · rfl
      · exact absurd hk (hfree k d)
    · rcases howes k q d hk with ⟨-, rfl, -⟩ | hk
      · exact absurd hj (hfree j c)
      · exact h.distinct j k q c d hj hk
  · rcases howes j q c hj with ⟨-, rfl, rfl⟩ | hj
    · exact ⟨taken.length, by simp, by simp; omega, rfl⟩
    · obtain ⟨k, hk, hlen, rfl⟩ := h.ticket j q c hj
      have hlt : k < taken.length := (List.getElem?_eq_some_iff.1 hk).1
      refine ⟨k, by rw [List.getElem?_append_left hlt]; exact hk, ?_, rfl⟩
      -- the slot of the new ticket is not owed, so that this one is less than a round behind
      have hne : taken.length ≠ k + N := by
        intro he
        refine hfree j c ?_
        rw [he, Nat.add_mod_right]
        exact hj
      rw [List.length_append, List.length_singleton]
      omega
  · rw [List.length_append, List.length_singleton] at hlen
    by_cases hlast : k = taken.length
    · rw [hlast] at hnot
      exact absurd (Function.update_self i (some (taken.length % N, b)) owes) (hnot i b)
    · rw [Ring.getElem?_concat_of_ne b hlast] at hk
      refine h.written k c hk (by omega) fun j d hj => hnot j d ?_
      have hji : j ≠ i := by
        rintro rfl
        simp [hi] at hj
      rw [Function.update_of_ne hji]
      exact hj

/-- A writer writes what it owes. -/
theorem Reserved.write (h : Reserved N R slots taken owes) (hi : owes i = some (q, b))
    (ha : R b a) :
    Reserved N R (Function.update slots q a) taken (Function.update owes i none) := by
  have howes : ∀ j p c, Function.update owes i none j = some (p, c) →
      j ≠ i ∧ owes j = some (p, c) := by
    intro j p c hj
    have hji : j ≠ i := by
      rintro rfl
      simp at hj
    rw [Function.update_of_ne hji] at hj
    exact ⟨hji, hj⟩
  refine ⟨fun j k p c d hj hk => ?_, fun j p c hj => h.ticket j p c (howes j p c hj).2,
    fun k c hk hlen hnot => ?_⟩
  · exact h.distinct j k p c d (howes j p c hj).2 (howes k p d hk).2
  · by_cases hslot : k % N = q
    · -- the ticket whose slot is written is the writer's own
      obtain ⟨m, hm, hmlen, hmq⟩ := h.ticket i q b hi
      have hkm : k = m :=
        ticket_unique (List.getElem?_eq_some_iff.1 hk).1 (List.getElem?_eq_some_iff.1 hm).1 hlen
          hmlen (hslot.trans hmq.symm)
      rw [hkm, hm] at hk
      cases hk
      rw [hslot, Function.update_self]
      exact ha
    · rw [Function.update_of_ne hslot]
      refine h.written k c hk hlen fun j d hj => hnot j d ?_
      have hji : j ≠ i := by
        rintro rfl
        rw [hi] at hj
        cases hj
        exact hslot rfl
      rw [Function.update_of_ne hji]
      exact hj

end Steps

/-- When nothing is to be written, the last slots hold what was taken last. -/
theorem Reserved.window (h : Reserved N R slots taken owes) (hidle : ∀ i, owes i = none)
    (head : ℕ) {n : ℕ} (hlen : taken.length = head + n) (hn : n ≤ N) :
    List.Forall₂ R (taken.drop head) ((List.range n).map fun k => slots ((head + k) % N)) := by
  refine List.forall₂_iff_get.2 ⟨by simp; omega, fun k hk _ => ?_⟩
  rw [List.length_drop] at hk
  simp only [List.get_eq_getElem, List.getElem_drop, List.getElem_map, List.getElem_range]
  refine h.written (head + k) _ (List.getElem?_eq_getElem (by omega)) (by omega) fun i c hi => ?_
  simp [hidle i] at hi

end Tickets
