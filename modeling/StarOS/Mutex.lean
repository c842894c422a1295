/-
The mutex (`process/sync.rs`): a flag, the holder's id and priority, and the data.

`lock` tries to raise the flag with a weak compare-exchange; if that fails it looks at the holder's
id and priority, which a later version is to boost, and tries again.  `try_lock` tries once.  The
thread that has raised the flag records its id and its priority and gets a guard, through which it
reads and writes the data; dropping the guard clears the id and then the flag.  Every atomic access
and every access to the data is one step, and the steps of the threads interleave in any order.

* `StarOS.Mutex`, `StarOS.MutexPc`, `StarOS.MutexAct` — the mutex, where a thread stands, and what
  it can do next;
* `StarOS.MutexPc.next`, `StarOS.mutexSystem` — the steps of a thread, and the runs from a new
  mutex;
* `StarOS.mutex_isLock` — the flag is a lock;
* `StarOS.mutex_protects` — who writes the record of the holder and the data;
* `StarOS.mutex_no_lost_update` — one guard at a time, no lost update, and a record that names the
  holder.
-/

import StarOS.Scheduler
import StarOS.Threads

set_option autoImplicit false

namespace StarOS

/-- The mutex, with the data it guards. -/
structure Mutex (δ : Type) where
  /-- Whether a thread has raised the flag. -/
  locked : Bool
  /-- The id of the task that holds the mutex, and zero if none does. -/
  owner : Usize
  /-- The priority of the last task that locked the mutex. -/
  originalPriority : Usize
  data : δ

/-- `Mutex::new`. -/
def Mutex.new {δ : Type} (data : δ) : Mutex δ := ⟨false, 0#64, 255#64, data⟩

/-- Where a thread stands: the access it is about to make, or the guard it holds. -/
inductive MutexPc (δ : Type) where
  /-- No call in flight and no guard. -/
  | idle
  /-- `lock`, before the compare-exchange of the flag. -/
  | lockCas (task : TaskId) (priority : Priority)
  /-- `lock`, before it reads the holder's id. -/
  | loadOwner (task : TaskId) (priority : Priority)
  /-- `lock`, before it reads the holder's priority. -/
  | loadPriority (task : TaskId) (priority : Priority)
  /-- `try_lock`, before the compare-exchange of the flag. -/
  | tryCas (task : TaskId) (priority : Priority)
  /-- Both calls, with the flag raised, before the id is stored. -/
  | storeOwner (task : TaskId) (priority : Priority)
  /-- Both calls, before the priority is stored. -/
  | storePriority (task : TaskId) (priority : Priority)
  /-- Holding a `MutexGuard`. -/
  | guard (task : TaskId) (priority : Priority)
  /-- Holding a `MutexGuard` and a copy of the data read through it. -/
  | loaded (task : TaskId) (priority : Priority) (copy : δ)
  /-- `MutexGuard::drop`, before the id is cleared. -/
  | clearOwner
  /-- `MutexGuard::drop`, before the flag is cleared. -/
  | clearLocked

/-- What a thread can do next: call `lock` or `try_lock`, make its next atomic access, have its weak
compare-exchange fail although the flag is down, read the data, write back what it computes from the
copy it read, or drop its guard. -/
inductive MutexAct (δ : Type) where
  | lock (task : TaskId) (priority : Priority)
  | tryLock (task : TaskId) (priority : Priority)
  | access
  | spuriousFailure
  | read
  | write (f : δ → δ)
  | drop

namespace MutexPc

variable {δ : Type}

/-- The next atomic access of a call in flight. -/
def access (m : Mutex δ) : MutexPc δ → Option (Mutex δ × MutexPc δ)
  | lockCas t p =>
      if m.locked then some (m, loadOwner t p) else some ({ m with locked := true }, storeOwner t p)
  | loadOwner t p => if m.owner = 0#64 then some (m, lockCas t p) else some (m, loadPriority t p)
  | loadPriority t p => some (m, lockCas t p)
  | tryCas t p =>
      if m.locked then some (m, idle) else some ({ m with locked := true }, storeOwner t p)
  | storeOwner t p => some ({ m with owner := t.id }, storePriority t p)
  | storePriority t p => some ({ m with originalPriority := p.level.setWidth 64 }, guard t p)
  | clearOwner => some ({ m with owner := 0#64 }, clearLocked)
  | clearLocked => some ({ m with locked := false }, idle)
  | idle => none
  | guard _ _ => none
  | loaded _ _ _ => none

/-- One step of a thread. -/
def next (m : Mutex δ) (pc : MutexPc δ) : MutexAct δ → Option (Mutex δ × MutexPc δ)
  | .lock t p =>
      match pc with
      | idle => some (m, lockCas t p)
      | _ => none
  | .tryLock t p =>
      match pc with
      | idle => some (m, tryCas t p)
      | _ => none
  | .access => pc.access m
  | .spuriousFailure =>
      match pc with
      | lockCas t p => some (m, loadOwner t p)
      | _ => none
  | .read =>
      match pc with
      | guard t p => some (m, loaded t p m.data)
      | loaded t p _ => some (m, loaded t p m.data)
      | _ => none
  | .write f =>
      match pc with
      | loaded t p copy => some ({ m with data := f copy }, guard t p)
      | _ => none
  | .drop =>
      match pc with
      | guard _ _ => some (m, clearOwner)
      | loaded _ _ _ => some (m, clearOwner)
      | _ => none

/-- The thread has raised the flag. -/
def holds : MutexPc δ → Bool
  | storeOwner _ _ => true
  | storePriority _ _ => true
  | guard _ _ => true
  | loaded _ _ _ => true
  | clearOwner => true
  | clearLocked => true
  | _ => false

/-- The thread holds a guard, taken for the given task and priority. -/
def guarding : MutexPc δ → Option (TaskId × Priority)
  | guard t p => some (t, p)
  | loaded t p _ => some (t, p)
  | _ => none

end MutexPc

/-- The interleavings of the threads on a new mutex. -/
def mutexSystem (ι : Type) [DecidableEq ι] {δ : Type} (data : δ) :
    Runs.System (Threads.State ι (Mutex δ) (MutexPc δ)) (ι × MutexAct δ) :=
  Threads.system (fun m pc a => pc.next m a) (Mutex.new data) .idle

/-- The update of the data that a step makes. -/
def MutexAct.written {δ : Type} : MutexAct δ → Option (δ → δ)
  | .write f => some f
  | _ => none

/-- The data after the updates of a trace, one after the other. -/
def updated {ι δ : Type} (data : δ) (tr : List (ι × MutexAct δ)) : δ :=
  (tr.filterMap fun e => e.2.written).foldl (fun d f => f d) data

/-! ### What a step does -/

section Step

variable {δ : Type} {m m' : Mutex δ} {pc pc' : MutexPc δ} {a : MutexAct δ}

/-- What a step of a thread does to the mutex, and where it leaves the thread. -/
inductive MutexStep (m : Mutex δ) : MutexPc δ → MutexAct δ → Mutex δ → MutexPc δ → Prop
  /-- A thread without the flag moves on. -/
  | wait {pc pc' : MutexPc δ} {a : MutexAct δ} : pc.holds = false → pc'.holds = false →
      a.written = none → MutexStep m pc a m pc'
  | raise {pc : MutexPc δ} {a : MutexAct δ} {t : TaskId} {p : Priority} : pc.holds = false →
      m.locked = false → a.written = none →
      MutexStep m pc a { m with locked := true } (.storeOwner t p)
  | storeOwner {t : TaskId} {p : Priority} :
      MutexStep m (.storeOwner t p) .access { m with owner := t.id } (.storePriority t p)
  | storePriority {t : TaskId} {p : Priority} :
      MutexStep m (.storePriority t p) .access
        { m with originalPriority := p.level.setWidth 64 } (.guard t p)
  | read {pc : MutexPc δ} {t : TaskId} {p : Priority} : pc.guarding = some (t, p) →
      MutexStep m pc .read m (.loaded t p m.data)
  | write {t : TaskId} {p : Priority} {copy : δ} {f : δ → δ} :
      MutexStep m (.loaded t p copy) (.write f) { m with data := f copy } (.guard t p)
  | drop {pc : MutexPc δ} {t : TaskId} {p : Priority} : pc.guarding = some (t, p) →
      MutexStep m pc .drop m .clearOwner
  | clearOwner : MutexStep m .clearOwner .access { m with owner := 0#64 } .clearLocked
  | clearLocked : MutexStep m .clearLocked .access { m with locked := false } .idle

/-- An atomic access. -/
theorem MutexPc.step_of_access (h : pc.access m = some (m', pc')) :
    MutexStep m pc .access m' pc' := by
  cases pc with
  | idle => simp [access] at h
  | guard t p => simp [access] at h
  | loaded t p copy => simp [access] at h
  | lockCas t p =>
      rw [access] at h
      split at h
      · cases h
        exact .wait rfl rfl rfl
      · rename_i hlocked
        cases h
        exact .raise rfl (by simpa using hlocked) rfl
  | loadOwner t p =>
      rw [access] at h
      split at h <;> cases h <;> exact .wait rfl rfl rfl
  | loadPriority t p =>
      cases h
      exact .wait rfl rfl rfl
  | tryCas t p =>
      rw [access] at h
      split at h
      · cases h
        exact .wait rfl rfl rfl
      · rename_i hlocked
        cases h
        exact .raise rfl (by simpa using hlocked) rfl
  | storeOwner t p =>
      cases h
      exact .storeOwner
  | storePriority t p =>
      cases h
      exact .storePriority
  | clearOwner =>
      cases h
      exact .clearOwner
  | clearLocked =>
      cases h
      exact .clearLocked

/-- Every step of a thread is one of these. -/
theorem MutexPc.step_of_next (h : pc.next m a = some (m', pc')) : MutexStep m pc a m' pc' := by
  cases a with
  | access => exact step_of_access h
  | lock t p =>
      cases pc <;> cases h
      exact .wait rfl rfl rfl
  | tryLock t p =>
      cases pc <;> cases h
      exact .wait rfl rfl rfl
  | spuriousFailure =>
      cases pc <;> cases h
      exact .wait rfl rfl rfl
  | read => cases pc <;> cases h <;> exact .read rfl
  | write f =>
      cases pc <;> cases h
      exact .write
  | drop => cases pc <;> cases h <;> exact .drop rfl

/-- A thread with a guard has raised the flag. -/
theorem MutexPc.holds_of_guarding {t : TaskId} {p : Priority} (h : pc.guarding = some (t, p)) :
    pc.holds = true := by
  cases pc <;> simp_all [guarding, holds]

/-- The flag is a lock. -/
theorem mutex_isLock : Threads.IsLock (fun (m : Mutex δ) pc a => MutexPc.next m pc a) Mutex.locked
    MutexPc.holds := by
  constructor
  intro m m' pc pc' a h
  cases MutexPc.step_of_next h with
  | wait hpc hpc' => exact .inl ⟨by rw [hpc, hpc'], rfl⟩
  | raise hpc hlocked => exact .inr (.inl ⟨hpc, rfl, hlocked, rfl⟩)
  | storeOwner => exact .inl ⟨rfl, rfl⟩
  | storePriority => exact .inl ⟨rfl, rfl⟩
  | read hpc => exact .inl ⟨(MutexPc.holds_of_guarding hpc).symm, rfl⟩
  | write => exact .inl ⟨rfl, rfl⟩
  | drop hpc => exact .inl ⟨(MutexPc.holds_of_guarding hpc).symm, rfl⟩
  | clearOwner => exact .inl ⟨rfl, rfl⟩
  | clearLocked => exact .inr (.inr ⟨rfl, rfl, rfl⟩)

end Step

/-! ### What the flag protects -/

section Protects

variable {ι δ : Type}

/-- What the record of the holder says while a thread with the flag stands at `pc`. -/
def Mutex.Records (m : Mutex δ) : MutexPc δ → Prop
  | .storeOwner _ _ => m.owner = 0#64
  | .storePriority t _ => m.owner = t.id
  | .guard t p => m.owner = t.id ∧ m.originalPriority = p.level.setWidth 64
  | .loaded t p copy =>
      m.owner = t.id ∧ m.originalPriority = p.level.setWidth 64 ∧ copy = m.data
  | .clearLocked => m.owner = 0#64
  | _ => True

/-- The record while a thread has a guard. -/
theorem Mutex.Records.of_guarding {m : Mutex δ} {pc : MutexPc δ} (h : m.Records pc) {t : TaskId}
    {p : Priority} (hpc : pc.guarding = some (t, p)) :
    m.owner = t.id ∧ m.originalPriority = p.level.setWidth 64 := by
  cases pc with
  | guard t' p' =>
      cases hpc
      exact h
  | loaded t' p' copy =>
      cases hpc
      exact ⟨h.1, h.2.1⟩
  | _ => simp [MutexPc.guarding] at hpc

/-- A step that writes nothing. -/
theorem updated_of_none (data : δ) (tr : List (ι × MutexAct δ)) {e : ι × MutexAct δ}
    (h : e.2.written = none) : updated data (tr ++ [e]) = updated data tr := by
  simp [updated, List.filterMap_append, h]

/-- A step that writes. -/
theorem updated_of_some (data : δ) (tr : List (ι × MutexAct δ)) {e : ι × MutexAct δ} {f : δ → δ}
    (h : e.2.written = some f) : updated data (tr ++ [e]) = f (updated data tr) := by
  simp [updated, List.filterMap_append, h]

/-- Only the thread with the flag writes the record and the data. -/
theorem mutex_protects (data : δ) :
    Threads.Protects (ι := ι) (fun (m : Mutex δ) pc a => MutexPc.next m pc a) MutexPc.holds
      (fun tr m pc => m.Records pc ∧ m.data = updated data tr)
      (fun tr m => m.owner = 0#64 ∧ m.data = updated data tr) := by
  constructor
  · intro tr i x m pc m' pc' h hpc hpc'
    cases MutexPc.step_of_next h with
    | wait _ _ hw =>
        have hdata : updated data (tr ++ [(i, x)]) = updated data tr := updated_of_none data tr hw
        refine ⟨fun q hq => ?_, fun hq => ?_⟩
        · rw [hdata]
          exact hq
        · rw [hdata]
          exact hq
    | raise => simp [MutexPc.holds] at hpc'
    | storeOwner => simp [MutexPc.holds] at hpc
    | storePriority => simp [MutexPc.holds] at hpc
    | read => simp [MutexPc.holds] at hpc'
    | write => simp [MutexPc.holds] at hpc
    | drop => simp [MutexPc.holds] at hpc'
    | clearOwner => simp [MutexPc.holds] at hpc
    | clearLocked => simp [MutexPc.holds] at hpc
  · intro tr i x m pc m' pc' h hpc hpc' hQ
    cases MutexPc.step_of_next h with
    | raise _ _ hw => exact ⟨hQ.1, by rw [updated_of_none data tr hw]; exact hQ.2⟩
    | wait _ hpc'' => simp [hpc''] at hpc'
    | read hg => simp [MutexPc.holds_of_guarding hg] at hpc
    | drop hg => simp [MutexPc.holds_of_guarding hg] at hpc
    | storeOwner => simp [MutexPc.holds] at hpc
    | storePriority => simp [MutexPc.holds] at hpc
    | write => simp [MutexPc.holds] at hpc
    | clearOwner => simp [MutexPc.holds] at hpc
    | clearLocked => simp [MutexPc.holds] at hpc
  · intro tr i x m pc m' pc' h hpc hpc' hP
    obtain ⟨hrec, hdata⟩ := hP
    cases MutexPc.step_of_next h with
    | wait hpc'' => simp [hpc''] at hpc
    | raise hpc'' => simp [hpc''] at hpc
    | storeOwner => exact ⟨rfl, by rw [updated_of_none data tr rfl]; exact hdata⟩
    | storePriority => exact ⟨⟨hrec, rfl⟩, by rw [updated_of_none data tr rfl]; exact hdata⟩
    | read hg =>
        obtain ⟨howner, hprio⟩ := hrec.of_guarding hg
        exact ⟨⟨howner, hprio, rfl⟩, by rw [updated_of_none data tr rfl]; exact hdata⟩
    | write =>
        -- the copy is what the data still is: nobody else has written since it was read
        obtain ⟨howner, hprio, hcopy⟩ := hrec
        refine ⟨⟨howner, hprio⟩, ?_⟩
        rw [updated_of_some data tr rfl, ← hdata, hcopy]
    | drop => exact ⟨trivial, by rw [updated_of_none data tr rfl]; exact hdata⟩
    | clearOwner => exact ⟨rfl, by rw [updated_of_none data tr rfl]; exact hdata⟩
    | clearLocked => simp [MutexPc.holds] at hpc'
  · intro tr i x m pc m' pc' h hpc hpc' hP
    cases MutexPc.step_of_next h with
    | wait hpc'' => simp [hpc''] at hpc
    | clearLocked => exact ⟨hP.1, by rw [updated_of_none data tr rfl]; exact hP.2⟩
    | raise => simp [MutexPc.holds] at hpc'
    | storeOwner => simp [MutexPc.holds] at hpc'
    | storePriority => simp [MutexPc.holds] at hpc'
    | read => simp [MutexPc.holds] at hpc'
    | write => simp [MutexPc.holds] at hpc'
    | drop => simp [MutexPc.holds] at hpc'
    | clearOwner => simp [MutexPc.holds] at hpc'

end Protects

/-- **The mutex excludes, and no update is lost.**  In every run of any threads on a new mutex, with
every access to the mutex and every read and write of the data a step of its own: at most one
thread has raised the flag; the data is what the writes of the run make of it one after the other,
although each writes what it computes from a copy read earlier; while a thread has a guard the
record names its task and its priority; and while the flag is down no task is recorded. -/
theorem mutex_no_lost_update {ι δ : Type} [DecidableEq ι] {data : δ} {tr : List (ι × MutexAct δ)}
    {s : Threads.State ι (Mutex δ) (MutexPc δ)}
    (h : (mutexSystem ι data).Exec Runs.anyStep tr s) :
    (∀ i j, (s.pc i).holds = true → (s.pc j).holds = true → i = j) ∧
      s.shared.data = updated data tr ∧
      (∀ i t p, (s.pc i).guarding = some (t, p) →
        s.shared.owner = t.id ∧ s.shared.originalPriority = p.level.setWidth 64) ∧
      (s.shared.locked = false → s.shared.owner = 0#64) := by
  have hex : Threads.Exclusive Mutex.locked MutexPc.holds s :=
    mutex_isLock.exclusive rfl rfl ⟨tr, h⟩
  have hprot := (mutex_protects data).of_exec mutex_isLock rfl rfl ⟨rfl, rfl⟩ h
  refine ⟨hex.unique, ?_, fun i t p hg => ?_, fun hdown => (hprot.free (hex.none_holds hdown)).1⟩
  · by_cases hany : ∃ i, (s.pc i).holds = true
    · obtain ⟨i, hi⟩ := hany
      exact (hprot.held i hi).2
    · refine (hprot.free fun i => ?_).2
      exact Bool.eq_false_iff.2 fun hi => hany ⟨i, hi⟩
  · exact (hprot.held i (MutexPc.holds_of_guarding hg)).1.of_guarding hg

/-- The trace of two tasks that each add to a counter; the second one has to wait. -/
def contendedTrace : List (Bool × MutexAct ℕ) :=
  [(false, .lock ⟨7#64⟩ ⟨64#8⟩), (true, .lock ⟨9#64⟩ ⟨128#8⟩), (false, .access), (false, .access),
    (true, .access), (true, .access), (false, .access), (false, .read), (true, .access),
    (true, .access), (false, .write (· + 1)), (false, .drop), (false, .access), (true, .access),
    (false, .access), (true, .access), (true, .access), (true, .access), (true, .read),
    (true, .write (· + 2))]

/-- Both additions are in the counter, and the record names the second task. -/
theorem mutex_no_lost_update_two :
    ∃ s : Threads.State Bool (Mutex ℕ) (MutexPc ℕ), (s.pc false).holds = false ∧
      s.shared.data = 3 ∧ s.shared.owner = 9#64 := by
  have hrun : ∃ s, Runs.replay (Threads.next fun m pc a => MutexPc.next m pc a) (fun _ _ => true)
      ⟨Mutex.new 0, fun _ => .idle⟩ contendedTrace = some s ∧
        (s.pc true).guarding = some (⟨9#64⟩, ⟨128#8⟩) := ⟨_, rfl, rfl⟩
  obtain ⟨s, hs, hg⟩ := hrun
  have hexec := (Runs.System.Exec.replay (M := mutexSystem Bool 0) (fun _ _ _ h => h)
    (.init rfl) hs).free
  obtain ⟨hunique, hdata, howner, -⟩ := mutex_no_lost_update hexec
  refine ⟨s, ?_, hdata.trans rfl, (howner true _ _ hg).1⟩
  cases hf : (s.pc false).holds with
  | false => rfl
  | true =>
      have heq := hunique false true hf (MutexPc.holds_of_guarding hg)
      simp at heq

end StarOS
