/-
Readers of self-delimiting codes.

A reader takes a value off the front of a list.  It *reads* a word as a value if it does so whatever
follows the word; such words are put together by putting the readers together, and are uniquely
decodable: of two lists that begin with a word each, the words, the values and what follows agree if
the lists do.

* `Readers.Reader`, `Readers.give`, `Readers.refuse`, `Readers.Reader.bind`, `Readers.Reader.map` —
  readers;
* `Readers.item`, `Readers.items`, `Readers.vector` — elements;
* `Readers.ReadsAs` — a word is read as a value, with a rule for each reader;
* `Readers.ReadsAs.unique` — unique decodability.
-/

import Mathlib.Data.Nat.Notation
import Mathlib.Tactic.Cases

set_option autoImplicit false

namespace Readers

universe u v w

/-- A reader of values from lists. -/
abbrev Reader (β : Type u) (α : Type v) := List β → Option (α × List β)

variable {β : Type u} {α : Type v} {γ : Type w}

/-- The value without reading. -/
def give (a : α) : Reader β α := fun l => some (a, l)

/-- No value. -/
def refuse : Reader β α := fun _ => none

/-- One reader after another. -/
def Reader.bind (r : Reader β α) (f : α → Reader β γ) : Reader β γ :=
  fun l => (r l).bind fun p => f p.1 p.2

/-- A function of the value that is read. -/
def Reader.map (r : Reader β α) (f : α → γ) : Reader β γ := r.bind fun a => give (f a)

/-- One element. -/
def item : Reader β β
  | [] => none
  | b :: l => some (b, l)

/-- So many elements. -/
def items (n : ℕ) : Reader β (List β) :=
  fun l => if n ≤ l.length then some (l.take n, l.drop n) else none

/-- So many elements, as a vector. -/
def vector (n : ℕ) : Reader β (Vector β n) :=
  fun l => if h : n ≤ l.length then
    some (⟨(l.take n).toArray, by rw [List.size_toArray, List.length_take, Nat.min_eq_left h]⟩,
      l.drop n) else none

/-- The reader reads the word as the value, whatever follows. -/
def ReadsAs (r : Reader β α) (word : List β) (a : α) : Prop :=
  ∀ rest, r (word ++ rest) = some (a, rest)

variable {r : Reader β α} {word word' rest rest' : List β} {a a' : α}

theorem reads_give (a : α) : ReadsAs (give a : Reader β α) [] a := fun _ => rfl

theorem reads_item (b : β) : ReadsAs item [b] b := fun _ => rfl

theorem reads_items (word : List β) : ReadsAs (items word.length) word word := by
  intro rest
  rw [items, if_pos (by rw [List.length_append]; exact Nat.le_add_right _ _), List.take_left,
    List.drop_left]

theorem reads_vector {n : ℕ} (v : Vector β n) : ReadsAs (vector n) v.toList v := by
  intro rest
  have hlen : v.toList.length = n := Vector.length_toList
  rw [vector, dif_pos (by rw [List.length_append, hlen]; exact Nat.le_add_right _ _)]
  refine congrArg some (Prod.ext (Vector.toList_inj.1 ?_) (List.drop_left' hlen))
  exact List.take_left' hlen

/-- The rule for one reader after another. -/
theorem ReadsAs.bind {f : α → Reader β γ} {c : γ} (h : ReadsAs r word a)
    (hf : ReadsAs (f a) word' c) : ReadsAs (r.bind f) (word ++ word') c := by
  intro rest
  rw [Reader.bind, List.append_assoc, h, Option.bind_some, hf]

theorem ReadsAs.map (h : ReadsAs r word a) (f : α → γ) : ReadsAs (r.map f) word (f a) := by
  have hmap := h.bind (f := fun a => give (f a)) (reads_give (f a))
  rwa [List.append_nil] at hmap

/-- Unique decodability. -/
theorem ReadsAs.unique (h : ReadsAs r word a) (h' : ReadsAs r word' a')
    (heq : word ++ rest = word' ++ rest') : a = a' ∧ word = word' ∧ rest = rest' := by
  have hread := h rest
  rw [heq, h' rest', Option.some.injEq, Prod.mk.injEq] at hread
  obtain ⟨rfl, rfl⟩ := hread
  exact ⟨rfl, List.append_cancel_right heq, rfl⟩

end Readers
