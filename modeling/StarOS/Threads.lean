/-
Threads on a shared state, and the rule for what a lock protects.

Every thread has a place in its program.  A step is a step of one thread: it reads and writes the
shared state and moves the thread on, and the other threads stay where they are.  The threads run
the same program and interleave in any order.

A *lock* is a flag of the shared state that a thread raises when it is down and that only the thread
that raised it lowers.  What the lock protects is described by two predicates, one for the time in
which a thread holds the lock and one for the time in which none does; both may speak of the trace
of the run.

* `Threads.State`, `Threads.next`, `Threads.system` — the threads, their steps and their runs;
* `Threads.IsLock` — a step keeps the flag, raises it when it is down, or lowers it as the holder;
* `Threads.IsLock.exclusive` — at most one thread holds the lock, and the flag is up while one does;
* `Threads.Protects`, `Threads.Protects.of_exec` — the rule for what the lock protects.
-/

import StarOS.Runs
import Mathlib.Logic.Function.Basic

set_option autoImplicit false

namespace Threads

variable {ι σ π α : Type}

/-- A shared state, and the place of every thread. -/
structure State (ι σ π : Type) where
  /-- What all threads see. -/
  shared : σ
  /-- Where each thread stands. -/
  pc : ι → π

section Steps

variable [DecidableEq ι]

/-- One thread moves on, and the shared state changes with it. -/
def State.move (s : State ι σ π) (i : ι) (r : σ × π) : State ι σ π where
  shared := r.1
  pc := Function.update s.pc i r.2

/-- One step of one thread. -/
def next (step : σ → π → α → Option (σ × π)) (s : State ι σ π) (e : ι × α) :
    Option (State ι σ π) :=
  (step s.shared (s.pc e.1) e.2).map (s.move e.1)

/-- The interleavings of threads that all start at the same place. -/
def system (step : σ → π → α → Option (σ × π)) (a : σ) (p : π) :
    Runs.System (State ι σ π) (ι × α) where
  init := fun s => s = ⟨a, fun _ => p⟩
  step := fun s e s' => next step s e = some s'

variable {step : σ → π → α → Option (σ × π)} {s s' : State ι σ π} {i j : ι} {r : σ × π}

@[simp] theorem move_shared : (s.move i r).shared = r.1 := rfl

@[simp] theorem move_pc_self : (s.move i r).pc i = r.2 := Function.update_self ..

theorem move_pc_of_ne (h : j ≠ i) : (s.move i r).pc j = s.pc j := Function.update_of_ne h ..

/-- What is read off the places, after one thread has moved. -/
theorem map_pc_move {γ : Type} (f : π → γ) :
    (fun j => f ((s.move i r).pc j)) = Function.update (fun j => f (s.pc j)) i (f r.2) := by
  funext j
  by_cases hj : j = i
  · rw [hj, move_pc_self, Function.update_self]
  · rw [move_pc_of_ne hj, Function.update_of_ne hj]

/-- A step of the threads is a step of one of them. -/
theorem next_eq_some {e : ι × α} (h : next step s e = some s') :
    ∃ r, step s.shared (s.pc e.1) e.2 = some r ∧ s' = s.move e.1 r := by
  obtain ⟨r, hr, hs⟩ := Option.map_eq_some_iff.1 h
  exact ⟨r, hr, hs.symm⟩

/-- A predicate of all places, after one thread has moved. -/
theorem forall_pc_move {P : π → Prop} (hself : P r.2) (hothers : ∀ j, j ≠ i → P (s.pc j)) :
    ∀ j, P ((s.move i r).pc j) := by
  intro j
  by_cases hj : j = i
  · rw [hj, move_pc_self]
    exact hself
  · rw [move_pc_of_ne hj]
    exact hothers j hj

/-- A predicate of the places at which a test holds, after one thread has moved. -/
theorem forall_held_move {holds : π → Bool} {P : π → Prop} (hself : holds r.2 = true → P r.2)
    (hothers : ∀ j, j ≠ i → holds (s.pc j) = true → P (s.pc j)) :
    ∀ j, holds ((s.move i r).pc j) = true → P ((s.move i r).pc j) :=
  forall_pc_move (P := fun p => holds p = true → P p) hself hothers

end Steps

/-! ### Locks -/

/-- Every step keeps the flag and the thread's hold on it, raises the flag when it is down, or
lowers it in the thread that holds it. -/
structure IsLock (step : σ → π → α → Option (σ × π)) (locked : σ → Bool) (holds : π → Bool) :
    Prop where
  step_cases : ∀ {a a' : σ} {p p' : π} {x : α}, step a p x = some (a', p') →
    (holds p' = holds p ∧ locked a' = locked a) ∨
      (holds p = false ∧ holds p' = true ∧ locked a = false ∧ locked a' = true) ∨
      (holds p = true ∧ holds p' = false ∧ locked a' = false)

/-- At most one thread holds the lock, and the flag is up exactly while one does. -/
structure Exclusive (locked : σ → Bool) (holds : π → Bool) (s : State ι σ π) : Prop where
  unique : ∀ i j, holds (s.pc i) = true → holds (s.pc j) = true → i = j
  flag : ∀ i, holds (s.pc i) = true → locked s.shared = true
  free : (∀ i, holds (s.pc i) = false) → locked s.shared = false

variable {step : σ → π → α → Option (σ × π)} {locked : σ → Bool} {holds : π → Bool}
  {s s' : State ι σ π} {i j : ι}

/-- While the flag is down no thread holds the lock. -/
theorem Exclusive.none_holds (h : Exclusive locked holds s) (hl : locked s.shared = false) (j : ι) :
    holds (s.pc j) = false := by
  cases hj : holds (s.pc j) with
  | false => rfl
  | true =>
      rw [h.flag j hj] at hl
      exact absurd hl (by simp)

/-- While a thread holds the lock no other does. -/
theorem Exclusive.others (h : Exclusive locked holds s) (hi : holds (s.pc i) = true) (hj : j ≠ i) :
    holds (s.pc j) = false := by
  cases hh : holds (s.pc j) with
  | false => rfl
  | true => exact absurd (h.unique j i hh hi) hj

variable [DecidableEq ι]

/-- A thread that keeps what it has. -/
theorem Exclusive.keep (h : Exclusive locked holds s) {r : σ × π}
    (hh : holds r.2 = holds (s.pc i)) (hl : locked r.1 = locked s.shared) :
    Exclusive locked holds (s.move i r) := by
  have hpc : ∀ j, holds ((s.move i r).pc j) = holds (s.pc j) := by
    intro j
    by_cases hj : j = i
    · rw [hj, move_pc_self, hh]
    · rw [move_pc_of_ne hj]
  refine ⟨fun j k hj hk => ?_, fun j hj => ?_, fun hnone => ?_⟩
  · rw [hpc] at hj hk
    exact h.unique j k hj hk
  · rw [hpc] at hj
    rw [move_shared, hl]
    exact h.flag j hj
  · rw [move_shared, hl]
    exact h.free fun j => by rw [← hpc j, hnone j]

/-- A thread that raises the flag. -/
theorem Exclusive.take (h : Exclusive locked holds s) {r : σ × π} (hh : holds r.2 = true)
    (hdown : locked s.shared = false) (hup : locked r.1 = true) :
    Exclusive locked holds (s.move i r) := by
  have hothers : ∀ j, holds ((s.move i r).pc j) = true → j = i := by
    intro j hj
    by_contra hji
    rw [move_pc_of_ne hji, h.none_holds hdown j] at hj
    exact absurd hj (by simp)
  refine ⟨fun j k hj hk => ?_, fun j _ => hup, fun hnone => ?_⟩
  · rw [hothers j hj, hothers k hk]
  · have hi := hnone i
    rw [move_pc_self, hh] at hi
    exact absurd hi (by simp)

/-- The holder lowers the flag. -/
theorem Exclusive.release (h : Exclusive locked holds s) {r : σ × π}
    (hi : holds (s.pc i) = true) (hh : holds r.2 = false) (hdown : locked r.1 = false) :
    Exclusive locked holds (s.move i r) := by
  have hnone : ∀ j, holds ((s.move i r).pc j) = false :=
    forall_pc_move (P := fun p => holds p = false) hh fun j hj => h.others hi hj
  refine ⟨fun j _ hj _ => ?_, fun j hj => ?_, fun _ => hdown⟩
  · rw [hnone j] at hj
    exact absurd hj (by simp)
  · rw [hnone j] at hj
    exact absurd hj (by simp)

/-- Every step keeps the exclusion. -/
theorem IsLock.next (hlock : IsLock step locked holds) (h : Exclusive locked holds s) {e : ι × α}
    (hs : next step s e = some s') : Exclusive locked holds s' := by
  obtain ⟨⟨a, p⟩, hr, rfl⟩ := next_eq_some hs
  rcases hlock.step_cases hr with ⟨hh, hl⟩ | ⟨-, hh, hdown, hup⟩ | ⟨hi, hh, hdown⟩
  · exact h.keep hh hl
  · exact h.take hh hdown hup
  · exact h.release hi hh hdown

/-- **A lock excludes.**  In every run at most one thread holds the lock, and the flag is up exactly
while one does. -/
theorem IsLock.exclusive (hlock : IsLock step locked holds) {a : σ} {p : π}
    {G : State ι σ π → ι × α → Prop} (ha : locked a = false) (hp : holds p = false)
    (h : (system step a p).Reach G s) : Exclusive locked holds s := by
  refine h.invariant (P := Exclusive locked holds) (fun s₀ h₀ => ?_)
    fun _ _ _ h₁ _ hs => hlock.next h₁ hs
  obtain rfl : s₀ = ⟨a, fun _ => p⟩ := h₀
  have hnone : ∀ j : ι, holds ((fun _ => p : ι → π) j) = true → False := by
    intro _ hj
    rw [hp] at hj
    exact absurd hj (by simp)
  exact ⟨fun i _ hi _ => (hnone i hi).elim, fun i hi => (hnone i hi).elim, fun _ => ha⟩

/-! ### What a lock protects -/

/-- The discipline of what a lock protects: `P` holds while a thread has the lock, of that thread's
place, and `Q` while none has it.  Threads without the lock disturb neither. -/
structure Protects (step : σ → π → α → Option (σ × π)) (holds : π → Bool)
    (P : List (ι × α) → σ → π → Prop) (Q : List (ι × α) → σ → Prop) : Prop where
  outside : ∀ {tr i x a p a' p'}, step a p x = some (a', p') → holds p = false →
    holds p' = false → (∀ q, P tr a q → P (tr ++ [(i, x)]) a' q) ∧ (Q tr a → Q (tr ++ [(i, x)]) a')
  take : ∀ {tr i x a p a' p'}, step a p x = some (a', p') → holds p = false → holds p' = true →
    Q tr a → P (tr ++ [(i, x)]) a' p'
  inside : ∀ {tr i x a p a' p'}, step a p x = some (a', p') → holds p = true → holds p' = true →
    P tr a p → P (tr ++ [(i, x)]) a' p'
  release : ∀ {tr i x a p a' p'}, step a p x = some (a', p') → holds p = true →
    holds p' = false → P tr a p → Q (tr ++ [(i, x)]) a'

variable {P : List (ι × α) → σ → π → Prop} {Q : List (ι × α) → σ → Prop}

/-- What the lock protects is as the discipline says. -/
structure Protected (holds : π → Bool) (P : List (ι × α) → σ → π → Prop)
    (Q : List (ι × α) → σ → Prop) (tr : List (ι × α)) (s : State ι σ π) : Prop where
  held : ∀ i, holds (s.pc i) = true → P tr s.shared (s.pc i)
  free : (∀ i, holds (s.pc i) = false) → Q tr s.shared

/-- Every step keeps what the lock protects. -/
theorem Protects.next (hP : Protects step holds P Q) (hlock : IsLock step locked holds)
    (hex : Exclusive locked holds s) {tr : List (ι × α)} (h : Protected holds P Q tr s) {e : ι × α}
    (hs : Threads.next step s e = some s') : Protected holds P Q (tr ++ [e]) s' := by
  obtain ⟨i, x⟩ := e
  obtain ⟨⟨a, p⟩, hr, rfl⟩ := next_eq_some hs
  dsimp only at hr
  cases hi : holds (s.pc i) with
  | true =>
      have hothers : ∀ j, j ≠ i → holds (s.pc j) = false := fun j hj => hex.others hi hj
      cases hp : holds p with
      | true =>
          have hin : P (tr ++ [(i, x)]) a p := hP.inside hr hi hp (h.held i hi)
          refine ⟨?_, fun hnone => ?_⟩
          · refine forall_held_move (P := P _ _) (fun _ => hin) fun j hj hholds => ?_
            rw [hothers j hj] at hholds
            exact absurd hholds (by simp)
          · have hself := hnone i
            rw [move_pc_self, hp] at hself
            exact absurd hself (by simp)
      | false =>
          refine ⟨?_, fun _ => hP.release hr hi hp (h.held i hi)⟩
          refine forall_held_move (P := P _ _) (fun hholds => ?_) fun j hj hholds => ?_
          · rw [hp] at hholds
            exact absurd hholds (by simp)
          · rw [hothers j hj] at hholds
            exact absurd hholds (by simp)
  | false =>
      cases hp : holds p with
      | true =>
          -- the flag was down, so that nobody had the lock
          have hdown : locked s.shared = false := by
            rcases hlock.step_cases hr with ⟨hh, -⟩ | ⟨-, -, hdown, -⟩ | ⟨hh, -⟩
            · rw [hi, hp] at hh
              exact absurd hh (by simp)
            · exact hdown
            · rw [hi] at hh
              exact absurd hh (by simp)
          have hnone : ∀ j, holds (s.pc j) = false := hex.none_holds hdown
          have hin : P (tr ++ [(i, x)]) a p := hP.take hr hi hp (h.free hnone)
          refine ⟨?_, fun hfree => ?_⟩
          · refine forall_held_move (P := P _ _) (fun _ => hin) fun j _ hholds => ?_
            rw [hnone j] at hholds
            exact absurd hholds (by simp)
          · have hself := hfree i
            rw [move_pc_self, hp] at hself
            exact absurd hself (by simp)
      | false =>
          obtain ⟨hheld, hfree⟩ : (∀ q, P tr s.shared q → P (tr ++ [(i, x)]) a q) ∧
              (Q tr s.shared → Q (tr ++ [(i, x)]) a) := hP.outside hr hi hp
          refine ⟨?_, fun hnone => hfree (h.free fun j => ?_)⟩
          · refine forall_held_move (P := P _ _) (fun hholds => ?_)
              fun j _ hholds => hheld _ (h.held j hholds)
            rw [hp] at hholds
            exact absurd hholds (by simp)
          · by_cases hj : j = i
            · rw [hj, hi]
            · rw [← hnone j, move_pc_of_ne hj]

/-- **What a lock protects.**  In every run the protected part of the shared state is as the
discipline says. -/
theorem Protects.of_exec (hP : Protects step holds P Q) (hlock : IsLock step locked holds) {a : σ}
    {p : π} {G : State ι σ π → ι × α → Prop} (ha : locked a = false) (hp : holds p = false)
    (hQ : Q [] a) {tr : List (ι × α)} (h : (system step a p).Exec G tr s) :
    Protected holds P Q tr s := by
  induction h with
  | init h₀ =>
      obtain rfl := h₀
      refine ⟨fun _ hholds => ?_, fun _ => hQ⟩
      rw [hp] at hholds
      exact absurd hholds (by simp)
  | step htr _ hs ih => exact hP.next hlock (hlock.exclusive ha hp ⟨_, htr⟩) ih hs

end Threads
