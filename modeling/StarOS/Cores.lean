/-
Cores that are interrupted, and the rules for a lock that their code shares.

Every core runs code, at a place in its program.  While interrupts are not masked on it, an
interrupt may suspend that code: the core masks interrupts and starts a handler, and when the
handler is done it unmasks them and goes on with what it suspended.  Code and handlers run the same
program; they may mask and unmask interrupts themselves, and all of them read and write the shared
state.

* `Cores.State`, `Cores.Act`, `Cores.next`, `Cores.system` — the cores, their steps and their runs;
* `Cores.IsLock`, `Cores.IsLock.exclusive` — a lock excludes, whether the code that holds it runs or
  is suspended;
* `Cores.NeedsMask`, `Cores.NeedsMask.masked` — code that runs only with interrupts masked is never
  suspended.
-/

import StarOS.Runs
import Mathlib.Data.List.Count
import Mathlib.Logic.Function.Basic

set_option autoImplicit false

namespace Cores

variable {ι σ π α : Type}

/-- A core: whether interrupts are masked, where its code is, and where the code is that it has
suspended, the last first. -/
@[ext] structure Core (π : Type) where
  masked : Bool
  running : π
  interrupted : List π

/-- All the places of a core. -/
def Core.places (c : Core π) : List π := c.running :: c.interrupted

/-- A shared state, and the cores. -/
structure State (ι σ π : Type) where
  shared : σ
  core : ι → Core π

/-- What a core can do: take a step of its code, take an interrupt, or return from it. -/
inductive Act (α : Type) where
  | run (a : α)
  | interrupt
  | eret

/-- A step of one core. -/
def Core.next (step : σ → Bool → π → α → Option (σ × Bool × π)) (start : π) (done : π → Bool)
    (a : σ) (c : Core π) : Act α → Option (σ × Core π)
  | .run x => (step a c.masked c.running x).map fun r =>
      (r.1, { c with masked := r.2.1, running := r.2.2 })
  | .interrupt => if c.masked then none else some (a, ⟨true, start, c.running :: c.interrupted⟩)
  | .eret =>
      match c.interrupted with
      | [] => none
      | p :: rest => if done c.running then some (a, ⟨false, p, rest⟩) else none

/-- One core moves on, and the shared state changes with it. -/
def State.move [DecidableEq ι] (s : State ι σ π) (i : ι) (r : σ × Core π) : State ι σ π where
  shared := r.1
  core := Function.update s.core i r.2

/-- One step of one core. -/
def next [DecidableEq ι] (step : σ → Bool → π → α → Option (σ × Bool × π)) (start : π)
    (done : π → Bool) (s : State ι σ π) (e : ι × Act α) : Option (State ι σ π) :=
  ((s.core e.1).next step start done s.shared e.2).map (s.move e.1)

/-- The interleavings of the cores.  They all begin at the same place, with interrupts masked or
not. -/
def system [DecidableEq ι] (step : σ → Bool → π → α → Option (σ × Bool × π)) (start : π)
    (done : π → Bool) (a : σ) : Runs.System (State ι σ π) (ι × Act α) where
  init := fun s => s.shared = a ∧ ∀ i, (s.core i).running = start ∧ (s.core i).interrupted = []
  step := fun s e s' => next step start done s e = some s'

section Steps

variable {step : σ → Bool → π → α → Option (σ × Bool × π)} {start : π} {done : π → Bool} {a a' : σ}
  {c c' : Core π} {x : Act α}

/-- What a step does to a core. -/
theorem Core.next_cases (h : c.next step start done a x = some (a', c')) :
    (∃ y, x = .run y ∧ step a c.masked c.running y = some (a', c'.masked, c'.running) ∧
      c'.interrupted = c.interrupted) ∨
    (x = .interrupt ∧ a' = a ∧ c.masked = false ∧ c' = ⟨true, start, c.running :: c.interrupted⟩) ∨
    (x = .eret ∧ a' = a ∧ done c.running = true ∧ ∃ p rest, c.interrupted = p :: rest ∧
      c' = ⟨false, p, rest⟩) := by
  cases x with
  | run y =>
      obtain ⟨r, hr, heq⟩ := Option.map_eq_some_iff.1 h
      cases heq
      exact .inl ⟨y, rfl, hr, rfl⟩
  | interrupt =>
      rw [Core.next] at h
      split at h
      · cases h
      · rename_i hmasked
        cases h
        exact .inr (.inl ⟨rfl, rfl, by simpa using hmasked, rfl⟩)
  | eret =>
      rw [Core.next] at h
      split at h
      · cases h
      · rename_i p rest hinterrupted
        split at h
        · rename_i hdone
          cases h
          exact .inr (.inr ⟨rfl, rfl, hdone, p, rest, hinterrupted, rfl⟩)
        · cases h

variable [DecidableEq ι] {s s' : State ι σ π} {e : ι × Act α} {i : ι} {r : σ × Core π}

@[simp] theorem move_shared : (s.move i r).shared = r.1 := rfl

@[simp] theorem move_core_self : (s.move i r).core i = r.2 := Function.update_self ..

theorem move_core_of_ne {j : ι} (h : j ≠ i) : (s.move i r).core j = s.core j :=
  Function.update_of_ne h ..

/-- A step of the cores is a step of one of them. -/
theorem next_eq_some (h : next step start done s e = some s') :
    ∃ r, (s.core e.1).next step start done s.shared e.2 = some r ∧ s' = s.move e.1 r := by
  obtain ⟨r, hr, hs⟩ := Option.map_eq_some_iff.1 h
  exact ⟨r, hr, hs.symm⟩

end Steps

/-! ### Locks -/

/-- Every step keeps the flag and the code's hold on it, raises the flag when it is down, or lowers
it in the code that holds it; a handler begins and ends without it. -/
structure IsLock (step : σ → Bool → π → α → Option (σ × Bool × π)) (start : π) (done : π → Bool)
    (locked : σ → Bool) (holds : π → Bool) : Prop where
  start : holds start = false
  done : ∀ p, done p = true → holds p = false
  step_cases : ∀ {a a' : σ} {m m' : Bool} {p p' : π} {x : α}, step a m p x = some (a', m', p') →
    (holds p' = holds p ∧ locked a' = locked a) ∨
      (holds p = false ∧ holds p' = true ∧ locked a = false ∧ locked a' = true) ∨
      (holds p = true ∧ holds p' = false ∧ locked a' = false)

/-- How often the lock is held on a core. -/
def Core.held (holds : π → Bool) (c : Core π) : ℕ := c.places.countP holds

/-- At most one place holds the lock, on whichever core and suspended or not, and the flag is up
exactly while one does. -/
structure Exclusive (locked : σ → Bool) (holds : π → Bool) (s : State ι σ π) : Prop where
  le_one : ∀ i, (s.core i).held holds ≤ 1
  unique : ∀ i j, 0 < (s.core i).held holds → 0 < (s.core j).held holds → i = j
  flag : ∀ i, 0 < (s.core i).held holds → locked s.shared = true
  free : (∀ i, (s.core i).held holds = 0) → locked s.shared = false

variable {step : σ → Bool → π → α → Option (σ × Bool × π)} {start : π} {done : π → Bool}
  {locked : σ → Bool} {holds : π → Bool} {s s' : State ι σ π} {c c' : Core π} {a a' : σ} {x : Act α}

theorem Core.held_eq (c : Core π) :
    c.held holds = c.interrupted.countP holds + (holds c.running).toNat := by
  rw [held, places, List.countP_cons]
  cases holds c.running <;> rfl

/-- Who holds the lock is among the places. -/
theorem Core.held_pos {p : π} (hp : p ∈ c.places) (hh : holds p = true) : 0 < c.held holds :=
  List.countP_pos_iff.2 ⟨p, hp, hh⟩

/-- A step of a core, as far as the lock is concerned. -/
theorem IsLock.core_cases (hlock : IsLock step start done locked holds)
    (h : c.next step start done a x = some (a', c')) :
    (c'.held holds = c.held holds ∧ locked a' = locked a) ∨
      (c'.held holds = c.held holds + 1 ∧ locked a = false ∧ locked a' = true) ∨
      (c'.held holds + 1 = c.held holds ∧ locked a' = false) := by
  obtain ⟨y, -, hstep, hsame⟩ | ⟨-, rfl, -, rfl⟩ | ⟨-, rfl, hdone, p, rest, hrest, rfl⟩ :=
    Core.next_cases h
  · rw [Core.held_eq, Core.held_eq, hsame]
    obtain ⟨hh, hl⟩ | ⟨hp, hp', hl, hl'⟩ | ⟨hp, hp', hl'⟩ := hlock.step_cases hstep
    · exact .inl ⟨by rw [hh], hl⟩
    · exact .inr (.inl ⟨by rw [hp, hp']; rfl, hl, hl'⟩)
    · exact .inr (.inr ⟨by rw [hp, hp']; rfl, hl'⟩)
  · refine .inl ⟨?_, rfl⟩
    rw [Core.held_eq, Core.held_eq, hlock.start, List.countP_cons]
    cases holds c.running <;> rfl
  · refine .inl ⟨?_, rfl⟩
    rw [Core.held_eq, Core.held_eq, hlock.done _ hdone, hrest, List.countP_cons]
    cases holds p <;> rfl

/-- Nobody holds the lock, and the flag is down. -/
theorem Exclusive.of_none (hnone : ∀ i, (s.core i).held holds = 0)
    (hfree : locked s.shared = false) : Exclusive locked holds s := by
  have hnot : ∀ i, ¬ 0 < (s.core i).held holds := fun i => Nat.not_lt.2 (Nat.le_of_eq (hnone i))
  exact ⟨fun i => Nat.le_succ_of_le (Nat.le_of_eq (hnone i)), fun i _ hi => absurd hi (hnot i),
    fun i hi => absurd hi (hnot i), fun _ => hfree⟩

/-- While the running code of a core holds the lock, no other code does. -/
theorem Exclusive.alone (h : Exclusive locked holds s) {i : ι}
    (hi : holds (s.core i).running = true) :
    (∀ p ∈ (s.core i).interrupted, holds p = false) ∧
      ∀ j, j ≠ i → ∀ p ∈ (s.core j).places, holds p = false := by
  have hle := h.le_one i
  have hpos : 0 < (s.core i).held holds := Core.held_pos List.mem_cons_self hi
  refine ⟨fun p hp => ?_, fun j hj p hp => ?_⟩
  · by_contra hne
    have hcount : 0 < (s.core i).interrupted.countP holds :=
      List.countP_pos_iff.2 ⟨p, hp, by simpa using hne⟩
    rw [Core.held_eq, hi, Bool.toNat_true] at hle
    omega
  · by_contra hne
    exact hj (h.unique j i (Core.held_pos hp (by simpa using hne)) hpos)

variable [DecidableEq ι]

/-- Every step keeps the exclusion. -/
theorem IsLock.next (hlock : IsLock step start done locked holds) (h : Exclusive locked holds s)
    {e : ι × Act α} (hs : next step start done s e = some s') : Exclusive locked holds s' := by
  obtain ⟨i, x⟩ := e
  obtain ⟨⟨a, c⟩, hr, rfl⟩ := next_eq_some hs
  dsimp only at hr
  have hother : ∀ j, j ≠ i → ((s.move i (a, c)).core j).held holds = (s.core j).held holds :=
    fun j hj => by rw [move_core_of_ne hj]
  have hself : ((s.move i (a, c)).core i).held holds = c.held holds := by rw [move_core_self]
  have hone := h.le_one i
  obtain ⟨hh, hl⟩ | ⟨hh, hl, hl'⟩ | ⟨hh, hl'⟩ := hlock.core_cases hr
  · have hall : ∀ j, ((s.move i (a, c)).core j).held holds = (s.core j).held holds := by
      intro j
      by_cases hj : j = i
      · rw [hj, hself, hh]
      · exact hother j hj
    refine ⟨fun j => ?_, fun j k hj hk => ?_, fun j hj => ?_, fun hnone => ?_⟩
    · rw [hall]
      exact h.le_one j
    · rw [hall] at hj hk
      exact h.unique j k hj hk
    · rw [hall] at hj
      rw [move_shared, hl]
      exact h.flag j hj
    · rw [move_shared, hl]
      exact h.free fun j => by rw [← hall, hnone j]
  · -- the flag was down, so that nobody held the lock
    have hzero : ∀ j, (s.core j).held holds = 0 := by
      intro j
      by_contra hne
      rw [h.flag j (Nat.pos_of_ne_zero hne)] at hl
      cases hl
    have hthere : ∀ j, 0 < ((s.move i (a, c)).core j).held holds → j = i := by
      intro j hj
      by_contra hne
      rw [hother j hne, hzero j] at hj
      exact absurd hj (Nat.lt_irrefl 0)
    refine ⟨fun j => ?_, fun j k hj hk => ?_, fun j _ => hl', fun hnone => ?_⟩
    · by_cases hj : j = i
      · exact Nat.le_of_eq (by rw [hj, hself, hh, hzero i])
      · rw [hother j hj, hzero j]
        exact Nat.zero_le 1
    · rw [hthere j hj, hthere k hk]
    · have := hnone i
      rw [hself, hh] at this
      cases this
  · refine .of_none (fun j => ?_) hl'
    by_cases hj : j = i
    · rw [hj, hself]
      omega
    · rw [hother j hj]
      by_contra hne
      exact hj (h.unique j i (Nat.pos_of_ne_zero hne) (by omega))

/-- **A lock excludes**, whether the code that holds it runs or is suspended. -/
theorem IsLock.exclusive (hlock : IsLock step start done locked holds)
    {G : State ι σ π → ι × Act α → Prop} (ha : locked a = false)
    (h : (system step start done a).Reach G s) : Exclusive locked holds s := by
  refine h.invariant (P := Exclusive locked holds) (fun s₀ h₀ => ?_)
    fun _ _ _ h₁ _ hs => hlock.next h₁ hs
  obtain ⟨rfl, hcores⟩ := h₀
  refine .of_none (fun i => ?_) ha
  rw [Core.held_eq, (hcores i).1, (hcores i).2, hlock.start]
  rfl

/-! ### Code that needs its interrupts masked -/

/-- Code gets to the places that need a mask only with interrupts masked, and unmasks them only when
it leaves; a handler does not begin at one. -/
structure NeedsMask (step : σ → Bool → π → α → Option (σ × Bool × π)) (start : π)
    (needs : π → Bool) : Prop where
  start : needs start = false
  step : ∀ {a a' : σ} {m m' : Bool} {p p' : π} {x : α}, step a m p x = some (a', m', p') →
    (needs p = true → m = true) → needs p' = true → m' = true

/-- Code at a place that needs a mask runs with interrupts masked, and is not suspended. -/
structure Masked (needs : π → Bool) (s : State ι σ π) : Prop where
  running : ∀ i, needs (s.core i).running = true → (s.core i).masked = true
  interrupted : ∀ i, ∀ p ∈ (s.core i).interrupted, needs p = false

variable {needs : π → Bool}

/-- Every step keeps it. -/
theorem NeedsMask.next (hneeds : NeedsMask step start needs) (h : Masked needs s) {e : ι × Act α}
    (hs : Cores.next step start done s e = some s') : Masked needs s' := by
  obtain ⟨i, x⟩ := e
  obtain ⟨⟨a, c⟩, hr, rfl⟩ := next_eq_some hs
  have hcore : (needs c.running = true → c.masked = true) ∧
      ∀ p ∈ c.interrupted, needs p = false := by
    obtain ⟨y, -, hstep, hsame⟩ | ⟨-, -, hmasked, rfl⟩ | ⟨-, -, -, p, rest, hrest, rfl⟩ :=
      Core.next_cases hr
    · refine ⟨hneeds.step hstep (h.running i), ?_⟩
      rw [hsame]
      exact h.interrupted i
    · refine ⟨fun _ => rfl, fun p hp => ?_⟩
      obtain rfl | hp := List.mem_cons.1 hp
      · by_contra hne
        have := h.running i (by simpa using hne)
        rw [hmasked] at this
        cases this
      · exact h.interrupted i p hp
    · have hmem : ∀ q ∈ p :: rest, needs q = false := fun q hq =>
        h.interrupted i q (hrest ▸ hq)
      refine ⟨fun hp => ?_, fun q hq => hmem q (List.mem_cons_of_mem p hq)⟩
      rw [hmem p List.mem_cons_self] at hp
      cases hp
  refine ⟨fun j => ?_, fun j => ?_⟩
  · by_cases hj : j = i
    · rw [hj, move_core_self]
      exact hcore.1
    · rw [move_core_of_ne hj]
      exact h.running j
  · by_cases hj : j = i
    · rw [hj, move_core_self]
      exact hcore.2
    · rw [move_core_of_ne hj]
      exact h.interrupted j

/-- **Code that needs its interrupts masked is never suspended.** -/
theorem NeedsMask.masked (hneeds : NeedsMask step start needs)
    {G : State ι σ π → ι × Act α → Prop} (h : (system step start done a).Reach G s) :
    Masked needs s := by
  refine h.invariant (P := Masked needs) (fun s₀ h₀ => ?_) fun _ _ _ h₁ _ hs => hneeds.next h₁ hs
  refine ⟨fun i hi => ?_, fun i p hp => ?_⟩
  · rw [(h₀.2 i).1, hneeds.start] at hi
    cases hi
  · rw [(h₀.2 i).2] at hp
    cases hp

end Cores
