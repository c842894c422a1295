/-
Buffers of a fixed length with checked writes and checked slices.

A buffer is a list whose length no operation changes.  Writing a list at an offset and slicing off a
prefix have no result if they reach behind the end.  A sequence of writes is followed by keeping the
buffer as a concatenation whose parts are overwritten one at a time.

* `Buf.write`, `Buf.slice` — the operations;
* `Buf.write_eq_some` — when a write has a result, and its length;
* `Buf.write_mid` — overwriting a part of a concatenation;
* `Buf.write_front` — writing to the front of a fresh buffer;
* `Buf.put`, `Buf.putAll`, `Buf.Filled` — writing piece by piece, with a position that moves along.
-/

import Mathlib.Data.List.Basic
import Mathlib.Data.Nat.Notation

set_option autoImplicit false

namespace Buf

universe u

variable {α : Type u}

/-- Writing a list to the elements of a buffer from an offset on. -/
def write (buf : List α) (off : ℕ) (xs : List α) : Option (List α) :=
  if off + xs.length ≤ buf.length then
    some (buf.take off ++ xs ++ buf.drop (off + xs.length))
  else none

/-- The first elements of a buffer. -/
def slice (buf : List α) (n : ℕ) : Option (List α) :=
  if n ≤ buf.length then some (buf.take n) else none

theorem write_of_le {buf : List α} {off : ℕ} {xs : List α} (h : off + xs.length ≤ buf.length) :
    write buf off xs = some (buf.take off ++ xs ++ buf.drop (off + xs.length)) := if_pos h

/-- A write that has a result keeps the length. -/
theorem write_eq_some {buf buf' : List α} {off : ℕ} {xs : List α}
    (h : write buf off xs = some buf') :
    off + xs.length ≤ buf.length ∧ buf'.length = buf.length := by
  rw [write] at h
  split at h
  · rename_i hle
    cases h
    simp only [List.length_append, List.length_take, List.length_drop]
    omega
  · cases h

theorem slice_of_le {buf : List α} {n : ℕ} (h : n ≤ buf.length) :
    slice buf n = some (buf.take n) := if_pos h

theorem slice_eq_none {buf : List α} {n : ℕ} (h : buf.length < n) : slice buf n = none :=
  if_neg (Nat.not_le.2 h)

/-- Overwriting a part of a concatenation. -/
theorem write_mid (front old back xs : List α) (h : old.length = xs.length) :
    write (front ++ (old ++ back)) front.length xs = some (front ++ (xs ++ back)) := by
  have hle : front.length + xs.length ≤ (front ++ (old ++ back)).length := by
    simp only [List.length_append]
    omega
  rw [write_of_le hle, List.take_left, List.append_assoc, ← List.drop_drop, List.drop_left, ← h,
    List.drop_left]

/-- Slicing off the front of a concatenation. -/
theorem slice_left {front back : List α} {n : ℕ} (h : n = front.length) :
    slice (front ++ back) n = some front := by
  rw [h, slice_of_le (by simp), List.take_left]

/-- Writing to the front of a fresh buffer, behind what has been written. -/
theorem write_front (front xs : List α) (x : α) (n : ℕ) (h : xs.length ≤ n) :
    write (front ++ List.replicate n x) front.length xs =
      some (front ++ xs ++ List.replicate (n - xs.length) x) := by
  have hsplit : List.replicate n x = List.replicate xs.length x ++
      List.replicate (n - xs.length) x := by
    rw [List.replicate_append_replicate, Nat.add_sub_cancel' h]
  rw [hsplit, write_mid _ _ _ _ List.length_replicate, List.append_assoc]

/-! ### Piece by piece -/

/-- Writing a list at a position, and the position behind it. -/
def put (s : List α × ℕ) (xs : List α) : Option (List α × ℕ) :=
  (write s.1 s.2 xs).map fun buf => (buf, s.2 + xs.length)

/-- Writing lists one after another. -/
def putAll : List α × ℕ → List (List α) → Option (List α × ℕ)
  | s, [] => some s
  | s, xs :: xss => (put s xs).bind fun s => putAll s xss

/-- The front has been written, and there is room for so many more elements. -/
def Filled (s : List α × ℕ) (front : List α) (room : ℕ) : Prop :=
  s.2 = front.length ∧ ∃ back, s.1 = front ++ back ∧ back.length = room

theorem filled_start (buf : List α) {room : ℕ} (h : buf.length = room) : Filled (buf, 0) [] room :=
  ⟨rfl, buf, rfl, h⟩

/-- The next piece. -/
theorem Filled.put {s : List α × ℕ} {front : List α} {room : ℕ} (h : Filled s front room)
    (xs : List α) (hroom : xs.length ≤ room) :
    ∃ s', Buf.put s xs = some s' ∧ Filled s' (front ++ xs) (room - xs.length) := by
  obtain ⟨hpos, back, hbuf, hback⟩ := h
  have hold : (back.take xs.length).length = xs.length := by
    rw [List.length_take, hback, Nat.min_eq_left hroom]
  have hwrite := write_mid front (back.take xs.length) (back.drop xs.length) xs hold
  rw [List.take_append_drop, ← hbuf, ← hpos] at hwrite
  refine ⟨_, congrArg _ hwrite, ?_, back.drop xs.length, (List.append_assoc _ _ _).symm, ?_⟩
  · rw [hpos, List.length_append]
  · rw [List.length_drop, hback]

theorem Filled.putAll {s : List α × ℕ} {front : List α} {room : ℕ} (h : Filled s front room)
    (xss : List (List α)) (hroom : xss.flatten.length ≤ room) :
    ∃ s', Buf.putAll s xss = some s' ∧
      Filled s' (front ++ xss.flatten) (room - xss.flatten.length) := by
  induction xss generalizing s front room with
  | nil => exact ⟨s, rfl, by rwa [List.flatten_nil, List.append_nil]⟩
  | cons xs xss ih =>
      rw [List.flatten_cons, List.length_append] at hroom ⊢
      obtain ⟨s₁, hput, h₁⟩ := h.put xs (by omega)
      obtain ⟨s', hputs, h'⟩ := ih h₁ (by omega)
      refine ⟨s', ?_, ?_⟩
      · rw [Buf.putAll, hput, Option.bind_some, hputs]
      · rwa [← List.append_assoc, ← Nat.sub_sub]

/-- What has been written is sliced off. -/
theorem Filled.slice {s : List α × ℕ} {front : List α} {room : ℕ} (h : Filled s front room) :
    Buf.slice s.1 s.2 = some front := by
  obtain ⟨hpos, back, hbuf, -⟩ := h
  rw [hbuf, slice_left hpos]

theorem Filled.length {s : List α × ℕ} {front : List α} {room : ℕ} (h : Filled s front room) :
    s.1.length = front.length + room := by
  obtain ⟨-, back, hbuf, hback⟩ := h
  rw [hbuf, List.length_append, hback]

end Buf
