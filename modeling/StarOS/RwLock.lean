/-
The reader-writer lock (`process/sync.rs`): a counter of readers and a flag of the writer.

A reader waits until the flag is down, adds itself to the counter and looks at the flag again; if
the flag has gone up meanwhile it takes itself off and starts over.  A writer raises the flag and
then waits until the counter is zero.  Every atomic access is one step, and the steps of the threads
interleave in any order.  There are as many threads as a `usize` can count, so that the counter does
not wrap.

* `StarOS.RwLock`, `StarOS.RwPc`, `StarOS.RwState` — the lock, where a thread stands, and the state;
* `StarOS.RwPc.access`, `StarOS.rwLockSystem` — the atomic steps, and the runs from a new lock;
* `StarOS.RwState.Sound` — the invariant: the counter counts the readers, also those that will take
  themselves off, and the flag is up for one writer;
* `StarOS.rwLock_exclusion` — a write guard excludes every other guard.
-/

import StarOS.Counting
import StarOS.Runs
import StarOS.Word
import Mathlib.Tactic.Cases

set_option autoImplicit false

namespace StarOS

/-! ### The lock and its threads -/

/-- The lock without its data. -/
structure RwLock where
  /-- The readers that have added themselves. -/
  readers : Usize
  /-- Whether a writer has the lock or waits for the readers to finish. -/
  writer : Bool
  deriving DecidableEq, Repr

/-- `RwLock::new`. -/
def RwLock.new : RwLock := ⟨0#64, false⟩

/-- Where a thread stands: the access it is about to make, or the guard it holds. -/
inductive RwPc where
  /-- No call in flight and no guard. -/
  | idle
  /-- `read`, before the first look at the flag. -/
  | readLoad
  /-- `read`, before the increment. -/
  | readAdd
  /-- `read`, before the second look at the flag. -/
  | readCheck
  /-- `read`, before the decrement that undoes the increment. -/
  | readUndo
  /-- Holding a `RwLockReadGuard`. -/
  | readGuard
  /-- `write`, before the compare-exchange of the flag. -/
  | writeCas
  /-- `write`, before a look at the counter. -/
  | writeLoad
  /-- Holding a `RwLockWriteGuard`. -/
  | writeGuard
  deriving DecidableEq, Repr

/-- What a thread can do next: call `read` or `write`, make its next access, have its weak
compare-exchange fail although the flag is down, or drop its guard. -/
inductive RwAct where
  | read
  | write
  | access
  | spuriousFailure
  | drop
  deriving DecidableEq, Repr

namespace RwPc

/-- The next access of a call in flight. -/
def access (l : RwLock) : RwPc → Option (RwLock × RwPc)
  | readLoad => if l.writer then some (l, readLoad) else some (l, readAdd)
  | readAdd => some ({ l with readers := l.readers + 1#64 }, readCheck)
  | readCheck => if l.writer then some (l, readUndo) else some (l, readGuard)
  | readUndo => some ({ l with readers := l.readers - 1#64 }, readLoad)
  | writeCas => if l.writer then some (l, writeCas) else some ({ l with writer := true }, writeLoad)
  | writeLoad => if 0 < l.readers.toNat then some (l, writeLoad) else some (l, writeGuard)
  | idle => none
  | readGuard => none
  | writeGuard => none

/-- `RwLockReadGuard::drop` and `RwLockWriteGuard::drop`. -/
def drop (l : RwLock) : RwPc → Option (RwLock × RwPc)
  | readGuard => some ({ l with readers := l.readers - 1#64 }, idle)
  | writeGuard => some ({ l with writer := false }, idle)
  | _ => none

/-- One step of a thread. -/
def next (l : RwLock) (pc : RwPc) : RwAct → Option (RwLock × RwPc)
  | .read => if pc = idle then some (l, readLoad) else none
  | .write => if pc = idle then some (l, writeCas) else none
  | .access => pc.access l
  | .spuriousFailure => if pc = writeCas then some (l, writeCas) else none
  | .drop => pc.drop l

/-- The thread is in the counter of readers. -/
def counted : RwPc → Bool
  | readCheck => true
  | readUndo => true
  | readGuard => true
  | _ => false

/-- The thread has raised the flag. -/
def flagged : RwPc → Bool
  | writeLoad => true
  | writeGuard => true
  | _ => false

end RwPc

/-- One lock and its threads. -/
structure RwState (ι : Type) where
  lock : RwLock
  pc : ι → RwPc

variable {ι : Type} [DecidableEq ι]

/-- Moving one thread on, with a new state of the lock. -/
def RwState.move (s : RwState ι) (i : ι) (r : RwLock × RwPc) : RwState ι where
  lock := r.1
  pc := Function.update s.pc i r.2

/-- One step of one thread. -/
def RwState.next (s : RwState ι) (e : ι × RwAct) : Option (RwState ι) :=
  ((s.pc e.1).next s.lock e.2).map (s.move e.1)

/-- A new lock, and no thread at it. -/
def RwState.start (ι : Type) : RwState ι where
  lock := RwLock.new
  pc := fun _ => .idle

/-- The interleavings of the threads on a new lock. -/
def rwLockSystem (ι : Type) [DecidableEq ι] : Runs.System (RwState ι) (ι × RwAct) where
  init := fun s => s = .start ι
  step := fun s e s' => s.next e = some s'

/-! ### The invariant -/

namespace RwState

/-- The counter counts the threads that have added themselves, the flag is up for at most one
thread, and a write guard excludes the read guards. -/
structure Sound [Fintype ι] (s : RwState ι) : Prop where
  count : s.lock.readers.toNat = (Finset.univ.filter fun i => (s.pc i).counted = true).card
  flag : ∀ i, (s.pc i).flagged = true → s.lock.writer = true
  unique : ∀ i j, (s.pc i).flagged = true → (s.pc j).flagged = true → i = j
  excludes : ∀ i j, s.pc i = .writeGuard → s.pc j ≠ .readGuard

omit [DecidableEq ι] in
theorem sound_start [Fintype ι] : (start ι).Sound where
  count := by simp [start, RwLock.new, RwPc.counted]
  flag := fun _ h => absurd h (by simp [start, RwPc.flagged])
  unique := fun _ _ h => absurd h (by simp [start, RwPc.flagged])
  excludes := fun _ _ h => absurd h (by simp [start])

variable {s : RwState ι} {i j : ι} {l : RwLock} {pc : RwPc}

@[simp] theorem move_lock : (s.move i (l, pc)).lock = l := rfl

@[simp] theorem move_pc_self : (s.move i (l, pc)).pc i = pc := Function.update_self ..

theorem move_pc_of_ne (h : j ≠ i) : (s.move i (l, pc)).pc j = s.pc j :=
  Function.update_of_ne h ..

variable [Fintype ι]

/-- One thread moves on, and the lock changes with it. -/
theorem Sound.move (h : s.Sound)
    (hcount : l.readers.toNat + (s.pc i).counted.toNat =
      s.lock.readers.toNat + pc.counted.toNat)
    (hself : pc.flagged = true → l.writer = true ∧ ∀ j, j ≠ i → (s.pc j).flagged = false)
    (hothers : ∀ j, j ≠ i → (s.pc j).flagged = true → l.writer = true)
    (hwrite : pc = .writeGuard → ∀ j, j ≠ i → s.pc j ≠ .readGuard)
    (hread : pc = .readGuard → ∀ j, j ≠ i → s.pc j ≠ .writeGuard) :
    (s.move i (l, pc)).Sound := by
  refine ⟨?_, fun j hj => ?_, fun j k hj hk => ?_, fun j k hj hk => ?_⟩
  · have hadd := Counting.card_filter_add (p := fun j => (s.pc j).counted)
      (q := fun j => ((s.move i (l, pc)).pc j).counted) (c := i)
      (fun j hj => by rw [move_pc_of_ne hj])
    have hbefore := h.count
    rw [move_pc_self] at hadd
    rw [move_lock]
    omega
  · by_cases hji : j = i
    · rw [hji, move_pc_self] at hj
      exact (hself hj).1
    · rw [move_pc_of_ne hji] at hj
      exact hothers j hji hj
  · by_cases hji : j = i
    · by_cases hki : k = i
      · rw [hji, hki]
      · rw [hji, move_pc_self] at hj
        rw [move_pc_of_ne hki, (hself hj).2 k hki] at hk
        exact absurd hk (by decide)
    · by_cases hki : k = i
      · rw [hki, move_pc_self] at hk
        rw [move_pc_of_ne hji, (hself hk).2 j hji] at hj
        exact absurd hj (by decide)
      · rw [move_pc_of_ne hji] at hj
        rw [move_pc_of_ne hki] at hk
        exact h.unique j k hj hk
  · by_cases hji : j = i
    · rw [hji, move_pc_self] at hj
      by_cases hki : k = i
      · rw [hki, move_pc_self, hj] at hk
        exact absurd hk (by decide)
      · rw [move_pc_of_ne hki] at hk
        exact hwrite hj k hki hk
    · rw [move_pc_of_ne hji] at hj
      by_cases hki : k = i
      · rw [hki, move_pc_self] at hk
        exact hread hk j hji hj
      · rw [move_pc_of_ne hki] at hk
        exact h.excludes j k hj hk

omit [DecidableEq ι] in
/-- A thread that has raised the flag is the only one. -/
theorem Sound.others_unflagged (h : s.Sound) (hi : (s.pc i).flagged = true) (hj : j ≠ i) :
    (s.pc j).flagged = false := by
  cases hfj : (s.pc j).flagged with
  | false => rfl
  | true => exact absurd (h.unique j i hfj hi) hj

omit [DecidableEq ι] in
/-- While the flag is down no thread has raised it. -/
theorem Sound.unflagged (h : s.Sound) (hw : s.lock.writer = false) (j : ι) :
    (s.pc j).flagged = false := by
  cases hfj : (s.pc j).flagged with
  | false => rfl
  | true =>
      rw [h.flag j hfj] at hw
      exact absurd hw (by decide)

/-- A thread that moves on without touching the lock, without a part in the counter or the flag
that it did not have, and without taking a guard. -/
theorem Sound.stay (h : s.Sound) (hcount : pc.counted = (s.pc i).counted)
    (hflag : pc.flagged = true → (s.pc i).flagged = true) (hwrite : pc ≠ .writeGuard)
    (hread : pc ≠ .readGuard) : (s.move i (s.lock, pc)).Sound := by
  refine h.move (by rw [hcount]) (fun hf => ?_) (fun j _ hj => h.flag j hj)
    (fun he => absurd he hwrite) (fun he => absurd he hread)
  exact ⟨h.flag i (hflag hf), fun j hj => h.others_unflagged (hflag hf) hj⟩

/-- A reader adds itself; the counter has room for every thread. -/
theorem Sound.addReader (h : s.Sound) (hroom : Fintype.card ι < 2 ^ 64)
    (hi : (s.pc i).counted = false) (hpc : pc = .readCheck) :
    (s.move i ({ s.lock with readers := s.lock.readers + 1#64 }, pc)).Sound := by
  subst hpc
  have hlt := Counting.card_filter_lt (p := fun j => (s.pc j).counted) hi
  have hcount := h.count
  have hadd : (s.lock.readers + 1#64).toNat = s.lock.readers.toNat + 1 := by
    rw [BitVec.toNat_add, BitVec.toNat_ofNat]
    omega
  refine h.move ?_ (fun hf => absurd hf (by decide)) (fun j _ hj => h.flag j hj)
    (fun he => absurd he (by decide)) (fun he => absurd he (by decide))
  rw [hadd, hi]
  rfl

/-- A reader takes itself off. -/
theorem Sound.subReader (h : s.Sound) (hi : (s.pc i).counted = true) (hcount : pc.counted = false)
    (hflag : pc.flagged = false) :
    (s.move i ({ s.lock with readers := s.lock.readers - 1#64 }, pc)).Sound := by
  have hpos := Counting.card_filter_pos (p := fun j => (s.pc j).counted) hi
  have hbefore := h.count
  have hsub : (s.lock.readers - 1#64).toNat + 1 = s.lock.readers.toNat := by
    have hlt := s.lock.readers.isLt
    rw [BitVec.toNat_sub, BitVec.toNat_ofNat]
    omega
  refine h.move ?_ (fun hf => ?_) (fun j _ hj => h.flag j hj) (fun he => ?_) (fun he => ?_)
  · rw [hi, hcount, ← hsub]
    rfl
  · rw [hflag] at hf
    exact absurd hf (by decide)
  · rw [he] at hflag
    exact absurd hflag (by decide)
  · rw [he] at hcount
    exact absurd hcount (by decide)

/-- An access of a call in flight. -/
theorem Sound.access (h : s.Sound) (hroom : Fintype.card ι < 2 ^ 64) {r : RwLock × RwPc}
    (hr : (s.pc i).access s.lock = some r) : (s.move i r).Sound := by
  cases hpc : (s.pc i) with
  | idle => simp [hpc, RwPc.access] at hr
  | readGuard => simp [hpc, RwPc.access] at hr
  | writeGuard => simp [hpc, RwPc.access] at hr
  | readLoad =>
      rw [hpc, RwPc.access] at hr
      split at hr
      · cases hr
        exact h.stay (by rw [hpc]) (fun hf => absurd hf (by decide)) (by decide) (by decide)
      · cases hr
        exact h.stay (by rw [hpc]; rfl) (fun hf => absurd hf (by decide)) (by decide) (by decide)
  | readAdd =>
      rw [hpc, RwPc.access] at hr
      cases hr
      exact h.addReader hroom (by rw [hpc]; rfl) rfl
  | readCheck =>
      rw [hpc, RwPc.access] at hr
      split at hr
      · cases hr
        exact h.stay (by rw [hpc]; rfl) (fun hf => absurd hf (by decide)) (by decide) (by decide)
      · -- the flag is down, so that no writer is past its compare-exchange
        rename_i hw
        cases hr
        have hdown := h.unflagged (Bool.eq_false_iff.2 hw)
        refine h.move (by rw [hpc]; rfl) (fun hf => absurd hf (by decide))
          (fun j _ hj => h.flag j hj) (fun he => absurd he (by decide)) fun _ j _ hj => ?_
        have hflag := hdown j
        rw [hj] at hflag
        exact absurd hflag (by decide)
  | readUndo =>
      rw [hpc, RwPc.access] at hr
      cases hr
      exact h.subReader (by rw [hpc]; rfl) rfl rfl
  | writeCas =>
      rw [hpc, RwPc.access] at hr
      split at hr
      · cases hr
        exact h.stay (by rw [hpc]) (fun hf => absurd hf (by decide)) (by decide) (by decide)
      · rename_i hw
        cases hr
        have hdown := h.unflagged (Bool.eq_false_iff.2 hw)
        exact h.move (by rw [hpc]; rfl) (fun _ => ⟨rfl, fun j _ => hdown j⟩) (fun _ _ _ => rfl)
          (fun he => absurd he (by decide)) (fun he => absurd he (by decide))
  | writeLoad =>
      rw [hpc, RwPc.access] at hr
      split at hr
      · cases hr
        exact h.stay (by rw [hpc]) (fun _ => by rw [hpc]; rfl) (by decide) (by decide)
      · -- the counter is zero: no reader has added itself
        rename_i hzero
        cases hr
        have hflag : (s.pc i).flagged = true := by rw [hpc]; rfl
        have hcount := h.count
        refine h.move (by rw [hpc]; rfl)
          (fun _ => ⟨h.flag i hflag, fun j hj => h.others_unflagged hflag hj⟩)
          (fun j _ hj => h.flag j hj) (fun _ j _ hj => ?_) (fun he => absurd he (by decide))
        have hpos := Counting.card_filter_pos (p := fun j => (s.pc j).counted) (c := j)
          (by rw [hj]; rfl)
        omega

/-- A guard is dropped. -/
theorem Sound.drop (h : s.Sound) {r : RwLock × RwPc} (hr : (s.pc i).drop s.lock = some r) :
    (s.move i r).Sound := by
  cases hpc : (s.pc i) with
  | readGuard =>
      rw [hpc, RwPc.drop] at hr
      cases hr
      exact h.subReader (by rw [hpc]; rfl) rfl rfl
  | writeGuard =>
      rw [hpc, RwPc.drop] at hr
      cases hr
      have hflag : (s.pc i).flagged = true := by rw [hpc]; rfl
      refine h.move (by rw [hpc]; rfl) (fun hf => absurd hf (by decide)) (fun j hj hjf => ?_)
        (fun he => absurd he (by decide)) (fun he => absurd he (by decide))
      rw [h.others_unflagged hflag hj] at hjf
      exact absurd hjf (by decide)
  | _ => simp [hpc, RwPc.drop] at hr

/-- The invariant is kept by every step. -/
theorem Sound.next (h : s.Sound) (hroom : Fintype.card ι < 2 ^ 64) {e : ι × RwAct}
    {s' : RwState ι} (hs : s.next e = some s') : s'.Sound := by
  obtain ⟨r, hr, rfl⟩ := Option.map_eq_some_iff.1 hs
  obtain ⟨i, a⟩ := e
  cases a with
  | read =>
      obtain ⟨hpc, hr⟩ := Option.ite_none_right_eq_some.1 hr
      cases hr
      exact h.stay (by rw [hpc]; rfl) (fun hf => absurd hf (by decide)) (by decide) (by decide)
  | write =>
      obtain ⟨hpc, hr⟩ := Option.ite_none_right_eq_some.1 hr
      cases hr
      exact h.stay (by rw [hpc]; rfl) (fun hf => absurd hf (by decide)) (by decide) (by decide)
  | access => exact h.access hroom hr
  | spuriousFailure =>
      obtain ⟨hpc, hr⟩ := Option.ite_none_right_eq_some.1 hr
      cases hr
      exact h.stay (by rw [hpc]) (fun hf => absurd hf (by decide)) (by decide) (by decide)
  | drop => exact h.drop hr

end RwState

/-! ### Runs -/

/-- **A write guard excludes every other guard.**  In every run of any number of threads on a new
lock, while one thread holds a write guard no other thread holds a guard. -/
theorem rwLock_exclusion {n : Usize} {s : RwState (Fin n.toNat)}
    (h : (rwLockSystem (Fin n.toNat)).Reach Runs.anyStep s) {i j : Fin n.toNat}
    (hi : s.pc i = .writeGuard) (hij : j ≠ i) : s.pc j ≠ .writeGuard ∧ s.pc j ≠ .readGuard := by
  have hroom : Fintype.card (Fin n.toNat) < 2 ^ 64 := by
    rw [Fintype.card_fin]
    exact n.isLt
  have hsound : s.Sound := by
    refine h.invariant (fun s₀ h₀ => ?_) fun s₁ e s₂ h₁ _ hs => h₁.next hroom hs
    obtain rfl : s₀ = RwState.start _ := h₀
    exact RwState.sound_start
  refine ⟨fun hj => hij ?_, hsound.excludes i j hi⟩
  exact hsound.unique j i (by rw [hj]; rfl) (by rw [hi]; rfl)

/-- The trace of a reader that adds itself while a writer raises the flag, and undoes it. -/
def undoTrace (reader writer : Fin (2#64).toNat) : List (Fin (2#64).toNat × RwAct) :=
  [(reader, .read), (reader, .access), (writer, .write), (writer, .access), (reader, .access),
    (reader, .access), (reader, .access), (writer, .access)]

/-- Of two threads that meet at the lock, the reader has taken itself off when the writer gets its
guard. -/
theorem rwLock_exclusion_two :
    ∃ (s : RwState (Fin (2#64).toNat)) (reader writer : Fin (2#64).toNat),
      s.pc writer = .writeGuard ∧ s.pc reader ≠ .writeGuard ∧ s.pc reader ≠ .readGuard := by
  have hrun : ∃ s, Runs.replay RwState.next (fun _ _ => true) (RwState.start (Fin (2#64).toNat))
      (undoTrace ⟨0, by decide⟩ ⟨1, by decide⟩) = some s ∧
        s.pc ⟨1, by decide⟩ = .writeGuard :=
    ⟨_, rfl, rfl⟩
  obtain ⟨s, hs, hw⟩ := hrun
  have hreach := (Runs.System.Reach.replay (M := rwLockSystem (Fin (2#64).toNat))
    (fun _ _ _ h => h) (.init rfl) hs).free
  exact ⟨s, ⟨0, by decide⟩, ⟨1, by decide⟩, hw, rwLock_exclusion hreach hw (by decide)⟩

end StarOS
