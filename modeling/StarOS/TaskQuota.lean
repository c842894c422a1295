/-
The resource limits of a task (`process/task.rs`): its pages, descriptors and memory.

`alloc_pages` compares the sum of the pages owned and the pages asked for with the limit, and the
sum wraps around in the release profile.  A request that is large enough to wrap is granted when
what is left of the sum is small, and the task then owns fewer pages than before.  The limit holds
exactly in the runs in which no request wraps around to a sum inside the limit.  `check_limits`
does not notice: the number of pages owned never exceeds the limit.

* `StarOS.TaskResources` — the counters and limits of a task, with `check_limits`, `alloc_pages` and
  `free_pages`;
* `StarOS.TaskResources.QuotaKept`, `StarOS.TaskResources.StaysSmall` — the law, and the condition
  on the state before a call;
* `StarOS.TaskResources.checkLimits_run` — `check_limits` accepts every state of every run;
* `StarOS.task_quota_iff` — the law holds along a run exactly if the condition does;
* `StarOS.task_quota_wrapped` — a request of nearly all pages there are, which is granted.
-/

import StarOS.Error
import StarOS.Runs
import StarOS.Word

set_option autoImplicit false

namespace StarOS

/-- The resources of a task, each with its limit. -/
structure TaskResources where
  ownedPages : BitVec 64
  maxPages : BitVec 64
  openFds : BitVec 64
  maxFds : BitVec 64
  memoryAllocated : BitVec 64
  maxMemory : BitVec 64
  deriving DecidableEq, Repr

namespace TaskResources

/-- `Task::DEFAULT_MAX_FDS`. -/
def defaultMaxFds : BitVec 64 := 1024#64

/-- `Task::DEFAULT_MAX_MEMORY`. -/
def defaultMaxMemory : BitVec 64 := 0x10000000#64

/-- The resources that `Task::new` gives a task. -/
def new (maxPages : BitVec 64) : TaskResources :=
  ⟨0#64, maxPages, 0#64, defaultMaxFds, 0#64, defaultMaxMemory⟩

/-- `Task::check_limits`. -/
def checkLimits (t : TaskResources) : Except KernelError Unit :=
  if t.maxPages < t.ownedPages then .error .resourceExhausted
  else if t.maxFds < t.openFds then .error .resourceExhausted
  else if t.maxMemory < t.memoryAllocated then .error .resourceExhausted
  else .ok ()

/-- `Task::alloc_pages`; the sum wraps around. -/
def allocPages (t : TaskResources) (count : BitVec 64) : Except KernelError Unit × TaskResources :=
  if t.maxPages < t.ownedPages + count then (.error .resourceExhausted, t)
  else (.ok (), { t with ownedPages := t.ownedPages + count })

/-- `Task::free_pages`, with `saturating_sub`. -/
def freePages (t : TaskResources) (count : BitVec 64) : TaskResources :=
  { t with ownedPages := if count ≤ t.ownedPages then t.ownedPages - count else 0#64 }

end TaskResources

/-- A call that changes the pages a task owns. -/
inductive PageCall where
  | alloc (count : BitVec 64)
  | free (count : BitVec 64)
  deriving DecidableEq, Repr

namespace TaskResources

/-- The resources after a call. -/
def next (t : TaskResources) : PageCall → TaskResources
  | .alloc count => (t.allocPages count).2
  | .free count => t.freePages count

/-- What `alloc_pages` should do: pages are granted inside the limit only, and counted in full; a
refusal changes nothing. -/
def QuotaKept (t : TaskResources) : PageCall → Prop
  | .alloc count =>
      ((t.allocPages count).1 = .ok () →
        t.ownedPages.toNat + count.toNat ≤ t.maxPages.toNat ∧
          (t.allocPages count).2.ownedPages.toNat = t.ownedPages.toNat + count.toNat) ∧
      ∀ e, (t.allocPages count).1 = .error e → (t.allocPages count).2 = t
  | .free _ => True

/-- The sum of the pages owned and the pages asked for does not wrap around, or wraps around to more
than the limit. -/
def StaysSmall (t : TaskResources) : PageCall → Prop
  | .alloc count =>
      t.ownedPages.toNat + count.toNat < 2 ^ 64 ∨
        2 ^ 64 + t.maxPages.toNat < t.ownedPages.toNat + count.toNat
  | .free _ => True

instance (t : TaskResources) (c : PageCall) : Decidable (t.StaysSmall c) :=
  match c with
  | .alloc _ => inferInstanceAs (Decidable (_ ∨ _))
  | .free _ => .isTrue trivial

variable {t : TaskResources} {count : BitVec 64}

/-- What `alloc_pages` does: it refuses and changes nothing, or grants what the wrapped sum says. -/
theorem allocPages_cases (t : TaskResources) (count : BitVec 64) :
    (t.maxPages < t.ownedPages + count ∧ t.allocPages count = (.error .resourceExhausted, t)) ∨
      (t.ownedPages + count ≤ t.maxPages ∧
        t.allocPages count = (.ok (), { t with ownedPages := t.ownedPages + count })) := by
  by_cases h : t.maxPages < t.ownedPages + count
  · exact Or.inl ⟨h, if_pos h⟩
  · exact Or.inr ⟨BitVec.not_lt.1 h, if_neg h⟩

/-- One call. -/
theorem quotaKept_iff (t : TaskResources) (c : PageCall) : t.QuotaKept c ↔ t.StaysSmall c := by
  cases c with
  | free count => exact Iff.rfl
  | alloc count =>
      have howned := t.ownedPages.isLt
      have hcount := count.isLt
      have hmax := t.maxPages.isLt
      have hsum : (t.ownedPages + count).toNat = (t.ownedPages.toNat + count.toNat) % 2 ^ 64 :=
        BitVec.toNat_add ..
      rw [QuotaKept, StaysSmall]
      rcases t.allocPages_cases count with ⟨hlt, hres⟩ | ⟨hle, hres⟩
      · rw [BitVec.lt_def, hsum] at hlt
        rw [hres]
        refine iff_of_true ⟨fun hok => (by cases hok), fun _ _ => rfl⟩ ?_
        omega
      · rw [BitVec.le_def, hsum] at hle
        rw [hres]
        constructor
        · rintro ⟨hgranted, -⟩
          have hin := (hgranted rfl).1
          omega
        · intro hsmall
          refine ⟨fun _ => ?_, fun e he => (by cases he)⟩
          change _ ∧ (t.ownedPages + count).toNat = _
          rw [hsum]
          omega

/-- A call leaves at most as many pages as the limit says, whatever was asked for. -/
theorem owned_le_next (h : t.ownedPages ≤ t.maxPages) (c : PageCall) :
    (t.next c).ownedPages ≤ (t.next c).maxPages := by
  cases c with
  | alloc count =>
      rw [next]
      rcases t.allocPages_cases count with ⟨-, hres⟩ | ⟨hle, hres⟩
      · rw [hres]
        exact h
      · rw [hres]
        exact hle
  | free count =>
      rw [next, freePages]
      dsimp only
      split
      · rename_i hle
        rw [BitVec.le_def] at h hle ⊢
        rw [BitVec.toNat_sub_of_le (BitVec.le_def.2 hle)]
        omega
      · exact BitVec.le_def.2 (Nat.zero_le _)

/-- A call changes the pages owned only. -/
theorem next_others (t : TaskResources) (c : PageCall) :
    t.next c = { t with ownedPages := (t.next c).ownedPages } := by
  cases c with
  | alloc count =>
      rw [next]
      rcases t.allocPages_cases count with ⟨-, hres⟩ | ⟨-, hres⟩
      · rw [hres]
      · rw [hres]
  | free count => rfl

/-- `check_limits` accepts every state of every run, those with wrapped counts included. -/
theorem checkLimits_run (maxPages : BitVec 64) (calls : List PageCall) :
    (calls.foldl next (.new maxPages)).checkLimits = .ok () := by
  have hrun : ∀ t : TaskResources, t.ownedPages ≤ t.maxPages → t.openFds ≤ t.maxFds →
      t.memoryAllocated ≤ t.maxMemory → (calls.foldl next t).checkLimits = .ok () := by
    induction calls with
    | nil =>
        intro t hpages hfds hmemory
        rw [List.foldl_nil, checkLimits, if_neg (BitVec.not_lt.2 hpages),
          if_neg (BitVec.not_lt.2 hfds), if_neg (BitVec.not_lt.2 hmemory)]
    | cons c calls ih =>
        intro t hpages hfds hmemory
        have hsame := t.next_others c
        exact ih (t.next c) (owned_le_next hpages c) (by rw [hsame]; exact hfds)
          (by rw [hsame]; exact hmemory)
  have hzero : ∀ w : BitVec 64, 0#64 ≤ w := fun w => BitVec.le_def.2 (Nat.zero_le _)
  exact hrun _ (hzero _) (hzero _) (hzero _)

end TaskResources

/-- **The page quota holds exactly as long as no request wraps around to a small sum.**  Along every
run, whatever the limit and the counts, every request that is granted is inside the limit and is
counted in full, and every refusal changes nothing, if and only if no request of the run makes the
sum wrap around to a number inside the limit. -/
theorem task_quota_iff (maxPages : BitVec 64) (calls : List PageCall) :
    Runs.Along TaskResources.next TaskResources.QuotaKept (.new maxPages) calls ↔
      Runs.Along TaskResources.next TaskResources.StaysSmall (.new maxPages) calls :=
  Runs.along_iff (I := fun _ => True) (fun t c _ _ => t.quotaKept_iff c) (fun _ _ _ _ _ => trivial)
    trivial (Runs.along_true _ _ calls)

/-- A task with a limit of ten pages that owns five is granted 2⁶⁴ - 3 more, and owns two. -/
theorem task_quota_wrapped :
    (((TaskResources.new 10#64).next (.alloc 5#64)).allocPages 0xfffffffffffffffd#64).1 = .ok () ∧
      ((TaskResources.new 10#64).next (.alloc 5#64) |>.next
        (.alloc 0xfffffffffffffffd#64)).ownedPages = 2#64 ∧
      ¬ Runs.Along TaskResources.next TaskResources.QuotaKept (.new 10#64)
        [.alloc 5#64, .alloc 0xfffffffffffffffd#64] := by
  refine ⟨by decide, by decide, fun h => ?_⟩
  obtain ⟨-, ⟨hgranted, -⟩, -⟩ := h
  have hin := (hgranted (by decide)).1
  exact absurd hin (by decide)

end StarOS
