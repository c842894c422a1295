/-
Singly linked lists threaded through a store of link headers.

A free list is kept by writing, for each free block, a header that names the next one.  Where the
headers live is left open: a *link store* reads and writes the header at an address, and says which
addresses a header occupies.  Beside-the-block links and headers inside the blocks' own bytes are
both instances, and list operations are proved once, for headers that do not overlap.

* `Links.LinkStore` — reading and writing headers;
* `Links.IsList` — the list that a head pointer and the headers spell out;
* `Links.IsList.push`, `Links.IsList.unlink`, `Links.IsList.link` — adding a block in front, taking
  one out, and joining two lists;
* `Links.Stores` — one memory comes from another by header writes at the listed addresses;
* `Links.pushAll`, `Links.IsList.pushAll` — adding several blocks;
* `Links.Keeps` — one memory differs from another only inside a set of addresses;
* `Links.walk` — reading a list off the memory;
* `Links.SideLinks` — the store that keeps its links beside the blocks.
-/

import Mathlib.Data.Set.Lattice
import Mathlib.Order.CompletePartialOrder

set_option autoImplicit false

namespace Links

universe u v

/-- A store of link headers: a header at an address holds an optional address, occupies a footprint,
and is changed only by writes to a header whose footprint meets its own. -/
class LinkStore (A : outParam (Type u)) (M : Type v) where
  /-- The link in the header at an address. -/
  getNext : M → A → Option A
  /-- Writing the header at an address. -/
  setNext : M → A → Option A → M
  /-- The addresses the header at an address occupies. -/
  foot : A → Set A
  getNext_setNext : ∀ m a v, getNext (setNext m a v) a = v
  getNext_setNext_of_disjoint : ∀ m a b v, Disjoint (foot a) (foot b) →
    getNext (setNext m b v) a = getNext m a

open LinkStore

variable {A : Type u} {M : Type v} [LinkStore A M]

/-! ### Lists -/

/-- The list that starts at a head pointer and follows the headers. -/
def IsList (m : M) : Option A → List A → Prop
  | h, [] => h = none
  | h, a :: l => h = some a ∧ IsList m (getNext m a) l

@[simp] theorem isList_nil {m : M} {h : Option A} : IsList m h [] ↔ h = none := Iff.rfl

@[simp] theorem isList_cons {m : M} {h : Option A} {a : A} {l : List A} :
    IsList m h (a :: l) ↔ h = some a ∧ IsList m (getNext m a) l := Iff.rfl

theorem isList_none {m : M} {l : List A} : IsList m none l ↔ l = [] := by
  cases l <;> simp

theorem isList_some {m : M} {a : A} {l : List A} :
    IsList m (some a) l ↔ ∃ l', l = a :: l' ∧ IsList m (getNext m a) l' := by
  cases l with
  | nil => simp
  | cons b l =>
      simp only [isList_cons, Option.some.injEq, List.cons.injEq]
      constructor
      · rintro ⟨rfl, h⟩
        exact ⟨l, ⟨rfl, rfl⟩, h⟩
      · rintro ⟨l', ⟨rfl, rfl⟩, h⟩
        exact ⟨rfl, h⟩

/-- A head pointer and the headers spell out one list. -/
theorem IsList.unique {m : M} {h : Option A} {l l' : List A} (hl : IsList m h l)
    (hl' : IsList m h l') : l = l' := by
  induction l generalizing h l' with
  | nil =>
      obtain rfl : h = none := hl
      exact (isList_none.1 hl').symm
  | cons a l ih =>
      obtain ⟨rfl, h2⟩ := hl
      obtain ⟨l₂, rfl, h2'⟩ := isList_some.1 hl'
      rw [ih h2 h2']

/-- A list is determined by its headers. -/
theorem IsList.congr {m m' : M} {h : Option A} {l : List A}
    (heq : ∀ a ∈ l, getNext m' a = getNext m a) (hl : IsList m h l) : IsList m' h l := by
  induction l generalizing h with
  | nil => exact hl
  | cons a l ih =>
      obtain ⟨h1, h2⟩ := hl
      refine ⟨h1, ?_⟩
      rw [heq a (List.mem_cons_self ..)]
      exact ih (fun b hb => heq b (List.mem_cons_of_mem _ hb)) h2

theorem IsList.setNext {m : M} {h v : Option A} {b : A} {l : List A} (hl : IsList m h l)
    (hd : ∀ a ∈ l, Disjoint (foot M a) (foot M b)) : IsList (setNext m b v) h l :=
  hl.congr fun a ha => getNext_setNext_of_disjoint m a b v (hd a ha)

/-- Putting a block in front of a list. -/
theorem IsList.push {m : M} {h : Option A} {b : A} {l : List A} (hl : IsList m h l)
    (hd : ∀ a ∈ l, Disjoint (foot M a) (foot M b)) :
    IsList (LinkStore.setNext m b h) (some b) (b :: l) := by
  refine ⟨rfl, ?_⟩
  rw [getNext_setNext]
  exact hl.setNext hd

/-- Taking the block behind `b` out of a list by redirecting the header of `b`. -/
theorem IsList.unlink {m : M} {h : Option A} {b t : A} {l₁ l₂ : List A}
    (hl : IsList m h (l₁ ++ b :: t :: l₂))
    (hd : ∀ a ∈ l₁ ++ l₂, Disjoint (foot M a) (foot M b)) :
    IsList (LinkStore.setNext m b (getNext m t)) h (l₁ ++ b :: l₂) := by
  induction l₁ generalizing h with
  | nil =>
      obtain ⟨h1, -, h2⟩ := hl
      refine ⟨h1, ?_⟩
      rw [getNext_setNext]
      exact h2.setNext fun a ha => hd a ha
  | cons c l₁ ih =>
      obtain ⟨h1, h2⟩ := hl
      refine ⟨h1, ?_⟩
      rw [getNext_setNext_of_disjoint m c b _ (hd c (List.mem_cons_self ..))]
      exact ih h2 fun a ha => hd a (List.mem_cons_of_mem _ ha)

/-- Redirecting the header of the last block of a list to another list. -/
theorem IsList.link {m : M} {h h' : Option A} {b : A} {l₁ l₂ : List A}
    (hl : IsList m h (l₁ ++ [b])) (hl₂ : IsList m h' l₂)
    (hd : ∀ a ∈ l₁ ++ l₂, Disjoint (foot M a) (foot M b)) :
    IsList (LinkStore.setNext m b h') h (l₁ ++ b :: l₂) := by
  induction l₁ generalizing h with
  | nil =>
      refine ⟨hl.1, ?_⟩
      rw [getNext_setNext]
      exact hl₂.setNext fun a ha => hd a ha
  | cons c l₁ ih =>
      obtain ⟨h1, h2⟩ := hl
      refine ⟨h1, ?_⟩
      rw [getNext_setNext_of_disjoint m c b _ (hd c (List.mem_cons_self ..))]
      exact ih h2 fun a ha => hd a (List.mem_cons_of_mem _ ha)

/-! ### Reading a list off the memory -/

/-- Following the headers from a head pointer, for at most `n` blocks. -/
def walk (m : M) : ℕ → Option A → Option (List A)
  | _, none => some []
  | 0, some _ => none
  | n + 1, some a => (walk m n (getNext m a)).map (a :: ·)

theorem IsList.walk_eq {m : M} {h : Option A} {l : List A} (hl : IsList m h l) {n : ℕ}
    (hn : l.length ≤ n) : walk m n h = some l := by
  induction l generalizing h n with
  | nil =>
      obtain rfl : h = none := hl
      cases n <;> rfl
  | cons a l ih =>
      obtain ⟨rfl, h2⟩ := hl
      rw [List.length_cons] at hn
      obtain ⟨k, rfl⟩ : ∃ k, n = k + 1 := ⟨n - 1, by omega⟩
      rw [walk, ih h2 (by omega), Option.map_some]

/-! ### Header writes -/

/-- `m'` comes from `m` by header writes at the listed addresses, in that order. -/
inductive Stores : M → List A → M → Prop
  | nil (m : M) : Stores m [] m
  | cons {m m' : M} {a : A} {as : List A} (v : Option A) (h : Stores (setNext m a v) as m') :
      Stores m (a :: as) m'

theorem Stores.one (m : M) (a : A) (v : Option A) : Stores m [a] (LinkStore.setNext m a v) :=
  .cons v (.nil _)

theorem Stores.trans {m m' m'' : M} {as bs : List A} (h : Stores m as m') (h' : Stores m' bs m'') :
    Stores m (as ++ bs) m'' := by
  induction h with
  | nil => exact h'
  | cons v _ ih => exact .cons v (ih h')

/-- Headers that no write touches keep their links. -/
theorem Stores.getNext_eq {m m' : M} {as : List A} (h : Stores m as m') {b : A}
    (hd : ∀ a ∈ as, Disjoint (foot M b) (foot M a)) : getNext m' b = getNext m b := by
  induction h with
  | nil => rfl
  | cons v _ ih =>
      rw [ih fun a ha => hd a (List.mem_cons_of_mem _ ha)]
      exact getNext_setNext_of_disjoint _ _ _ _ (hd _ (List.mem_cons_self ..))

/-- Putting blocks in front of a list, one after the other. -/
def pushAll (m : M) (h : Option A) : List A → M × Option A
  | [] => (m, h)
  | a :: as => pushAll (setNext m a h) (some a) as

theorem stores_pushAll (m : M) (h : Option A) (as : List A) : Stores m as (pushAll m h as).1 := by
  induction as generalizing m h with
  | nil => exact .nil m
  | cons a as ih => exact .cons h (ih _ _)

theorem IsList.pushAll {m : M} {h : Option A} {l as : List A} (hl : IsList m h l)
    (has : as.Pairwise fun a b => Disjoint (foot M a) (foot M b))
    (hd : ∀ a ∈ as, ∀ b ∈ l, Disjoint (foot M b) (foot M a)) :
    IsList (Links.pushAll m h as).1 (Links.pushAll m h as).2 (as.reverse ++ l) := by
  induction as generalizing m h l with
  | nil => exact hl
  | cons a as ih =>
      obtain ⟨ha, has⟩ := List.pairwise_cons.1 has
      rw [List.reverse_cons, List.append_assoc, List.singleton_append]
      refine ih (hl.push (hd a (List.mem_cons_self ..))) has fun b hb c hc => ?_
      rcases List.mem_cons.1 hc with rfl | hc
      · exact ha b hb
      · exact hd b (List.mem_cons_of_mem _ hb) c hc

/-! ### Changes inside a set of addresses -/

/-- The headers outside a set of addresses are as they were. -/
def Keeps (m m' : M) (S : Set A) : Prop :=
  ∀ a, Disjoint (foot M a) S → getNext m' a = getNext m a

theorem Keeps.mono {m m' : M} {S T : Set A} (h : Keeps m m' S) (hst : S ⊆ T) : Keeps m m' T :=
  fun a hd => h a (Set.disjoint_of_subset_right hst hd)

/-- A list whose headers lie outside the set stays. -/
theorem Keeps.isList {m m' : M} {S : Set A} (h : Keeps m m' S) {hd : Option A} {l : List A}
    (hl : IsList m hd l) (hdisj : ∀ a ∈ l, Disjoint (foot M a) S) : IsList m' hd l :=
  hl.congr fun a ha => h a (hdisj a ha)

/-- Header writes inside a set keep everything outside. -/
theorem Stores.keeps {m m' : M} {as : List A} (h : Stores m as m') {S : Set A}
    (hs : ∀ a ∈ as, foot M a ⊆ S) : Keeps m m' S :=
  fun _ hd => h.getNext_eq fun a ha => Set.disjoint_of_subset_right (hs a ha) hd

/-! ### Links beside the blocks -/

/-- A store that keeps the link of each address beside the memory, in a map of its own. -/
structure SideLinks (A : Type u) where
  next : A → Option A

instance [DecidableEq A] : LinkStore A (SideLinks A) where
  getNext m a := m.next a
  setNext m a v := ⟨Function.update m.next a v⟩
  foot a := {a}
  getNext_setNext m a v := Function.update_self a v m.next
  getNext_setNext_of_disjoint m a b v h := by
    have hne : a ≠ b := by simpa using h
    exact Function.update_of_ne hne v m.next

end Links
