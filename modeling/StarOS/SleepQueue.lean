/-
The queue of sleeping tasks (`sleep.rs`): 128 slots in the order of the wakeup ticks.

The queue refines a list of at most 128 sleepers that is sorted by wakeup tick, and by the order of
arrival where the ticks are equal: `sleep_until` refuses exactly if the list is full, `tick` returns
the sleepers that are due in their order and keeps the others, and `cancel_sleep` removes the first
sleeper of a task.  The slots hold the list at the front and nothing behind it, so that no call
unwraps an empty slot.

* `StarOS.SleepEntry`, `StarOS.SleepQueue` — entries and the queue;
* `StarOS.SleepQueue.sleepUntil`, `StarOS.SleepQueue.sleepFor`, `StarOS.SleepQueue.tick`,
  `StarOS.SleepQueue.cancelSleep` — the operations; a panic is `none`;
* `StarOS.Sleepers` — sorted lists of sleepers, with the operations on them;
* `StarOS.SleepQueue.Rep` — the queue holds a list of sleepers;
* `StarOS.sleepQueue_refines` — every run of the queue returns what the list returns.
-/

import StarOS.Shifts
import StarOS.Word
import Mathlib.Data.List.Pairwise

set_option autoImplicit false

namespace StarOS

/-! ### The code -/

/-- `MAX_SLEEPING`. -/
def maxSleeping : ℕ := 128

/-- `SleepEntry`. -/
structure SleepEntry where
  taskId : BitVec 64
  wakeupTick : BitVec 64
  deriving DecidableEq, Repr

/-- `SleepQueue`. -/
structure SleepQueue where
  entries : List (Option SleepEntry)
  count : ℕ
  deriving DecidableEq, Repr

namespace SleepQueue

/-- `SleepQueue::new`. -/
def new : SleepQueue := ⟨List.replicate maxSleeping none, 0⟩

/-- The loops over the entries: the first of the `n` slots from `i` on whose entry passes the test.
Each slot is unwrapped. -/
def scan (entries : List (Option SleepEntry)) (test : SleepEntry → Bool) :
    ℕ → ℕ → Option (Option ℕ)
  | _, 0 => some none
  | i, n + 1 =>
      match entries[i]? with
      | some (some e) => if test e then some (some i) else scan entries test (i + 1) n
      | _ => none

/-- `SleepQueue::sleep_until`. -/
def sleepUntil (q : SleepQueue) (taskId wakeupTick : BitVec 64) : Option (Bool × SleepQueue) :=
  if maxSleeping ≤ q.count then some (false, q)
  else
    (scan q.entries (fun e => decide (wakeupTick < e.wakeupTick)) 0 q.count).bind fun found =>
      let pos := found.getD q.count
      ((Shifts.shiftRight q.entries pos q.count).bind fun entries =>
        Shifts.setCell entries pos (some ⟨taskId, wakeupTick⟩)).map fun entries =>
          (true, ⟨entries, q.count + 1⟩)

/-- `SleepQueue::sleep_for`. -/
def sleepFor (q : SleepQueue) (taskId currentTick durationTicks : BitVec 64) :
    Option (Bool × SleepQueue) :=
  q.sleepUntil taskId (currentTick + durationTicks)

/-- The first loop of `tick`: the tasks of the entries that are due. -/
def collect (entries : List (Option SleepEntry)) (currentTick : BitVec 64) :
    ℕ → ℕ → Option (List (BitVec 64))
  | _, 0 => some []
  | i, n + 1 =>
      match entries[i]? with
      | some (some e) =>
          if e.wakeupTick ≤ currentTick then
            (collect entries currentTick (i + 1) n).map fun woken => e.taskId :: woken
          else some []
      | _ => none

/-- `SleepQueue::tick`. -/
def tick (q : SleepQueue) (currentTick : BitVec 64) : Option (List (BitVec 64) × SleepQueue) :=
  (collect q.entries currentTick 0 q.count).bind fun woken =>
    if 0 < woken.length then
      ((Shifts.shiftLeft q.entries 0 (q.count - woken.length) woken.length).bind fun entries =>
        Shifts.fill entries (q.count - woken.length) q.count none).map fun entries =>
          (woken, ⟨entries, q.count - woken.length⟩)
    else some (woken, q)

/-- `SleepQueue::cancel_sleep`. -/
def cancelSleep (q : SleepQueue) (taskId : BitVec 64) : Option (Bool × SleepQueue) :=
  (scan q.entries (fun e => decide (e.taskId = taskId)) 0 q.count).bind fun
    | some i =>
        ((Shifts.shiftLeft q.entries i (q.count - 1) 1).bind fun entries =>
          Shifts.setCell entries (q.count - 1) none).map fun entries =>
            (true, ⟨entries, q.count - 1⟩)
    | none => some (false, q)

/-- `SleepQueue::sleeping_count`. -/
def sleepingCount (q : SleepQueue) : ℕ := q.count

end SleepQueue

/-- The calls on a queue; `sleep_for` is called with ticks whose sum fits. -/
inductive SleepOp where
  | sleepUntil (taskId wakeupTick : BitVec 64)
  | sleepFor (taskId currentTick durationTicks : BitVec 64)
      (fits : currentTick.toNat + durationTicks.toNat < 2 ^ 64)
  | tick (currentTick : BitVec 64)
  | cancelSleep (taskId : BitVec 64)

/-- What a call returns. -/
inductive SleepResult where
  | accepted (b : Bool)
  | woken (tasks : List (BitVec 64))
  | cancelled (b : Bool)
  deriving DecidableEq, Repr

namespace SleepQueue

/-- A call on the queue, with its result. -/
def apply (q : SleepQueue) : SleepOp → Option (SleepResult × SleepQueue)
  | .sleepUntil id wakeup => (q.sleepUntil id wakeup).map fun r => (.accepted r.1, r.2)
  | .sleepFor id current duration _ =>
      (q.sleepFor id current duration).map fun r => (.accepted r.1, r.2)
  | .tick current => (q.tick current).map fun r => (.woken r.1, r.2)
  | .cancelSleep id => (q.cancelSleep id).map fun r => (.cancelled r.1, r.2)

/-- A run of calls, with their results. -/
def run : SleepQueue → List SleepOp → Option (List SleepResult × SleepQueue)
  | q, [] => some ([], q)
  | q, op :: ops =>
      (q.apply op).bind fun r => (run r.2 ops).map fun out => (r.1 :: out.1, out.2)

end SleepQueue

/-! ### Sorted lists of sleepers -/

/-- A sleeping task, with the tick at which it wakes and its place in the order of arrival. -/
structure Sleeper where
  task : BitVec 64
  wakeup : ℕ
  arrival : ℕ

/-- The order of the list: by wakeup, and by arrival where the wakeups are equal. -/
def Sleeper.Before (a b : Sleeper) : Prop :=
  a.wakeup < b.wakeup ∨ (a.wakeup = b.wakeup ∧ a.arrival < b.arrival)

/-- At most 128 sleepers in their order, and the number of those that have arrived so far. -/
structure Sleepers where
  list : List Sleeper
  arrived : ℕ
  bounded : list.length ≤ maxSleeping
  sorted : list.Pairwise Sleeper.Before
  arrival_lt : ∀ a ∈ list, a.arrival < arrived

namespace Sleepers

/-- No sleepers. -/
def empty : Sleepers := ⟨[], 0, Nat.zero_le _, List.Pairwise.nil, by simp⟩

/-- The sleepers that wake by a tick, and the ones that wake later. -/
def due (l : List Sleeper) (t : ℕ) : List Sleeper := l.filter fun a => decide (a.wakeup ≤ t)

/-- The sleepers that wake after a tick. -/
def later (l : List Sleeper) (t : ℕ) : List Sleeper := l.filter fun a => !decide (a.wakeup ≤ t)

theorem later_sublist (l : List Sleeper) (t : ℕ) : (later l t).Sublist l := List.filter_sublist

theorem wakeup_le_of_mem_due {l : List Sleeper} {t : ℕ} {a : Sleeper} (h : a ∈ due l t) :
    a.wakeup ≤ t := by
  simpa using (List.mem_filter.1 h).2

theorem lt_wakeup_of_mem_later {l : List Sleeper} {t : ℕ} {a : Sleeper} (h : a ∈ later l t) :
    t < a.wakeup := by
  simpa using (List.mem_filter.1 h).2

theorem length_due_add_later (l : List Sleeper) (t : ℕ) :
    (due l t).length + (later l t).length = l.length := by
  induction l with
  | nil => rfl
  | cons a l ih =>
      by_cases ha : a.wakeup ≤ t
      · simp [due, later, ha] at ih ⊢
        omega
      · simp [due, later, ha] at ih ⊢
        omega

/-- The next sleeper goes behind those that wake no later, and before those that wake later. -/
def place (s : Sleepers) (task : BitVec 64) (wakeup : ℕ) : List Sleeper :=
  due s.list wakeup ++ ⟨task, wakeup, s.arrived⟩ :: later s.list wakeup

theorem length_place (s : Sleepers) (task : BitVec 64) (wakeup : ℕ) :
    (s.place task wakeup).length = s.list.length + 1 := by
  have hlen := length_due_add_later s.list wakeup
  simp only [place, List.length_append, List.length_cons]
  omega

theorem mem_place {s : Sleepers} {task : BitVec 64} {wakeup : ℕ} {a : Sleeper}
    (h : a ∈ s.place task wakeup) : a ∈ s.list ∨ a = ⟨task, wakeup, s.arrived⟩ := by
  rw [place, List.mem_append, List.mem_cons] at h
  rcases h with h | h | h
  · exact .inl (List.mem_filter.1 h).1
  · exact .inr h
  · exact .inl (List.mem_filter.1 h).1

theorem sorted_place (s : Sleepers) (task : BitVec 64) (wakeup : ℕ) :
    (s.place task wakeup).Pairwise Sleeper.Before := by
  refine List.pairwise_append.2 ⟨s.sorted.sublist List.filter_sublist, ?_, ?_⟩
  · refine List.pairwise_cons.2 ⟨fun b hb => ?_, s.sorted.sublist List.filter_sublist⟩
    exact .inl (lt_wakeup_of_mem_later hb)
  · intro a ha b hb
    have hle := wakeup_le_of_mem_due ha
    rcases List.mem_cons.1 hb with rfl | hb
    · -- the new sleeper comes last among those that wake at the same tick
      rcases Nat.lt_or_eq_of_le hle with hlt | heq
      · exact .inl hlt
      · exact .inr ⟨heq, s.arrival_lt a (List.mem_filter.1 ha).1⟩
    · exact .inl (Nat.lt_of_le_of_lt hle (lt_wakeup_of_mem_later hb))

/-- A sleeper is added, if there is room. -/
def sleep (s : Sleepers) (task : BitVec 64) (wakeup : ℕ) : Bool × Sleepers :=
  if h : s.list.length < maxSleeping then
    (true,
      { list := s.place task wakeup
        arrived := s.arrived + 1
        bounded := (s.length_place task wakeup).trans_le h
        sorted := s.sorted_place task wakeup
        arrival_lt := by
          intro a ha
          rcases mem_place ha with ha | rfl
          · exact Nat.lt_succ_of_lt (s.arrival_lt a ha)
          · exact Nat.lt_succ_self _ })
  else (false, s)

/-- A list without some of the sleepers. -/
def only (s : Sleepers) (l : List Sleeper) (h : l.Sublist s.list) : Sleepers where
  list := l
  arrived := s.arrived
  bounded := h.length_le.trans s.bounded
  sorted := s.sorted.sublist h
  arrival_lt := fun a ha => s.arrival_lt a (h.subset ha)

/-- The sleepers that are due are woken, in their order. -/
def wake (s : Sleepers) (t : ℕ) : List (BitVec 64) × Sleepers :=
  ((due s.list t).map Sleeper.task, s.only (later s.list t) (later_sublist s.list t))

/-- The first sleeper of a task is removed. -/
def cancel (s : Sleepers) (task : BitVec 64) : Bool × Sleepers :=
  (s.list.any fun a => a.task = task,
    s.only (s.list.eraseP fun a => a.task = task) List.eraseP_sublist)

/-- The calls on a list of sleepers, with ticks as numbers. -/
def apply (s : Sleepers) : SleepOp → SleepResult × Sleepers
  | .sleepUntil id wakeup =>
      (.accepted (s.sleep id wakeup.toNat).1, (s.sleep id wakeup.toNat).2)
  | .sleepFor id current duration _ =>
      (.accepted (s.sleep id (current.toNat + duration.toNat)).1,
        (s.sleep id (current.toNat + duration.toNat)).2)
  | .tick current => (.woken (s.wake current.toNat).1, (s.wake current.toNat).2)
  | .cancelSleep id => (.cancelled (s.cancel id).1, (s.cancel id).2)

/-- A run of calls, with their results. -/
def run : Sleepers → List SleepOp → List SleepResult × Sleepers
  | s, [] => ([], s)
  | s, op :: ops => ((s.apply op).1 :: (run (s.apply op).2 ops).1, (run (s.apply op).2 ops).2)

end Sleepers

/-! ### Slots that hold entries -/

namespace SleepQueue

/-- The slots that hold the entries at the front, and nothing behind them. -/
def slots (es : List SleepEntry) : List (Option SleepEntry) :=
  es.map some ++ List.replicate (maxSleeping - es.length) none

/-- The loop finds the first entry that passes the test. -/
theorem scan_eq (front back : List (Option SleepEntry)) (es : List SleepEntry)
    (test : SleepEntry → Bool) :
    scan (front ++ (es.map some ++ back)) test front.length es.length =
      some ((es.findIdx? test).map fun i => front.length + i) := by
  induction es generalizing front with
  | nil => simp [scan]
  | cons e es ih =>
      have hslot : (front ++ ((e :: es).map some ++ back))[front.length]? = some (some e) := by
        simp
      have htail := ih (front ++ [some e])
      rw [List.length_cons, scan, hslot]
      cases he : test e with
      | true => simp [List.findIdx?_cons, he]
      | false =>
          simp only [List.length_append, List.length_singleton, List.append_assoc,
            List.singleton_append] at htail
          simp only [List.map_cons, List.cons_append, htail, List.findIdx?_cons, he]
          cases es.findIdx? test with
          | none => rfl
          | some i => simp [Nat.add_assoc, Nat.add_comm 1 i]

theorem scan_slots (es : List SleepEntry) (test : SleepEntry → Bool) :
    scan (slots es) test 0 es.length = some (es.findIdx? test) := by
  have h := scan_eq [] (List.replicate (maxSleeping - es.length) none) es test
  simpa [slots] using h

/-- The first loop of `tick` collects the tasks up to the first entry that is not due. -/
theorem collect_eq (front back : List (Option SleepEntry)) (es : List SleepEntry)
    (t : BitVec 64) :
    collect (front ++ (es.map some ++ back)) t front.length es.length =
      some ((es.takeWhile fun e => decide (e.wakeupTick ≤ t)).map SleepEntry.taskId) := by
  induction es generalizing front with
  | nil => simp [collect]
  | cons e es ih =>
      have hslot : (front ++ ((e :: es).map some ++ back))[front.length]? = some (some e) := by
        simp
      have htail := ih (front ++ [some e])
      rw [List.length_cons, collect, hslot]
      by_cases he : e.wakeupTick ≤ t
      · simp only [List.length_append, List.length_singleton, List.append_assoc,
          List.singleton_append] at htail
        simp [he, htail]
      · simp [he]

/-- An entry is put before the ones from `pos` on. -/
theorem insert_slots (es : List SleepEntry) (pos : ℕ) (hroom : es.length < maxSleeping)
    (hpos : pos ≤ es.length)
    (e : SleepEntry) :
    ((Shifts.shiftRight (slots es) pos es.length).bind fun cells =>
      Shifts.setCell cells pos (some e)) = some (slots (es.take pos ++ e :: es.drop pos)) := by
  have hfree : List.replicate (maxSleeping - es.length) (none : Option SleepEntry) =
      none :: List.replicate (maxSleeping - (es.length + 1)) none := by
    rw [← List.replicate_succ]
    congr 1
    omega
  have h := Shifts.insert_eq ((es.take pos).map some) ((es.drop pos).map some)
    (List.replicate (maxSleeping - (es.length + 1)) none) none (some e)
  rw [← List.append_assoc, ← List.map_append, List.take_append_drop, ← hfree, List.length_map,
    List.length_take_of_le hpos, List.length_map, List.length_drop,
    Nat.add_sub_cancel' hpos] at h
  have hlen : (es.take pos ++ e :: es.drop pos).length = es.length + 1 := by
    simp only [List.length_append, List.length_take, List.length_cons, List.length_drop]
    omega
  rw [slots, h, slots, hlen]
  simp

/-- The first `k` of the entries from `pos` on are removed. -/
theorem remove_slots (es : List SleepEntry) (pos : ℕ) {k : ℕ} (hk : 0 < k)
    (hpos : pos + k ≤ es.length)
    (hfits : es.length ≤ maxSleeping) :
    ((Shifts.shiftLeft (slots es) pos (es.length - k) k).bind fun cells =>
      Shifts.fill cells (es.length - k) es.length none) =
        some (slots (es.take pos ++ es.drop (pos + k))) := by
  have hgone : ((es.drop pos).take k).map some ≠ [] := by
    intro hnil
    have hlen := congrArg List.length hnil
    simp only [List.length_map, List.length_take, List.length_drop, List.length_nil] at hlen
    omega
  have hsplit : es = es.take pos ++ ((es.drop pos).take k ++ es.drop (pos + k)) := by
    rw [← List.drop_drop, List.take_append_drop, List.take_append_drop]
  have h := Shifts.remove_eq ((es.take pos).map some) ((es.drop (pos + k)).map some)
    (List.replicate (maxSleeping - es.length) none) hgone none
  have hlens : ((es.drop pos).take k).length = k := by
    rw [List.length_take, List.length_drop]
    omega
  have hkeep : pos + (es.length - (pos + k)) = es.length - k := by omega
  have hall : es.length - k + k = es.length := by omega
  have hcells : slots es = (es.take pos).map some ++ (((es.drop pos).take k).map some ++
      ((es.drop (pos + k)).map some ++ List.replicate (maxSleeping - es.length) none)) := by
    have hmap := congrArg (List.map some) hsplit
    rw [List.map_append, List.map_append] at hmap
    rw [slots, hmap, List.append_assoc, List.append_assoc]
  have hlen : (es.take pos ++ es.drop (pos + k)).length = es.length - k := by
    rw [List.length_append, List.length_take, List.length_drop]
    omega
  have hrest : maxSleeping - (es.length - k) = k + (maxSleeping - es.length) := by omega
  rw [← hcells, List.length_map, List.length_map, List.length_map, hlens, List.length_drop,
    List.length_take_of_le (by omega), hkeep, hall] at h
  rw [h, slots, hlen, hrest, ← List.replicate_append_replicate]
  simp [List.append_assoc]

/-! ### The queue holds a list of sleepers -/

/-- The entry of a sleeper. -/
def entry (a : Sleeper) : SleepEntry := ⟨a.task, BitVec.ofNat 64 a.wakeup⟩

/-- The slots hold the entries of the sleepers in their order. -/
structure Rep (q : SleepQueue) (s : Sleepers) : Prop where
  entries : q.entries = slots (s.list.map entry)
  count : q.count = s.list.length
  fits : ∀ a ∈ s.list, a.wakeup < 2 ^ 64

variable {q : SleepQueue} {s : Sleepers}

theorem rep_new : new.Rep Sleepers.empty where
  entries := rfl
  count := rfl
  fits := by simp [Sleepers.empty]

/-- Comparing the ticks of entries is comparing those of the sleepers. -/
theorem entry_le {a : Sleeper} (ha : a.wakeup < 2 ^ 64) (t : BitVec 64) :
    (entry a).wakeupTick ≤ t ↔ a.wakeup ≤ t.toNat := by
  rw [BitVec.le_def, entry, BitVec.toNat_ofNat, Nat.mod_eq_of_lt ha]

theorem lt_entry {a : Sleeper} (ha : a.wakeup < 2 ^ 64) (t : BitVec 64) :
    t < (entry a).wakeupTick ↔ ¬ a.wakeup ≤ t.toNat := by
  rw [← entry_le ha t, BitVec.not_le]

/-- Whether a sleeper is due does not hold again behind one that is not. -/
theorem pairwise_due (s : Sleepers) (t : ℕ) : s.list.Pairwise fun a b =>
    decide (b.wakeup ≤ t) = true → decide (a.wakeup ≤ t) = true := by
  refine s.sorted.imp ?_
  intro a b hab hb
  have hle : b.wakeup ≤ t := of_decide_eq_true hb
  refine decide_eq_true ?_
  rcases hab with hlt | ⟨heq, -⟩ <;> omega

/-- Where the queue cuts the entries at a tick. -/
def cut (s : Sleepers) (t : ℕ) : ℕ := s.list.findIdx fun a => !decide (a.wakeup ≤ t)

theorem due_eq (s : Sleepers) (t : ℕ) : Sleepers.due s.list t = s.list.take (cut s t) :=
  Shifts.filter_eq_take (pairwise_due s t)

theorem later_eq (s : Sleepers) (t : ℕ) : Sleepers.later s.list t = s.list.drop (cut s t) :=
  Shifts.filter_not_eq_drop (pairwise_due s t)

theorem cut_le (s : Sleepers) (t : ℕ) : cut s t ≤ s.list.length := List.findIdx_le_length

/-- The insertion point is behind the sleepers that are due by the new tick. -/
theorem Rep.scan_cut (h : q.Rep s) (t : BitVec 64) :
    (scan q.entries (fun e => decide (t < e.wakeupTick)) 0 q.count).map
      (fun found => found.getD q.count) = some (cut s t.toNat) := by
  have hscan := scan_slots (s.list.map entry) fun e => decide (t < e.wakeupTick)
  rw [List.length_map] at hscan
  have hidx : (s.list.map entry).findIdx (fun e => decide (t < e.wakeupTick)) =
      cut s t.toNat := by
    rw [List.findIdx_map, cut]
    refine Shifts.findIdx_congr fun a ha => ?_
    simp only [Function.comp_apply, lt_entry (h.fits a ha) t, decide_not]
  rw [h.entries, h.count, hscan, Option.map_some, ← hidx]
  simp [List.findIdx_eq_getD_findIdx?]

/-- A list of which the entries were cut and put together again. -/
theorem Rep.of_place (h : q.Rep s) (hroom : s.list.length < maxSleeping) (id t : BitVec 64) :
    Rep ⟨slots ((s.list.map entry).take (cut s t.toNat) ++
        ⟨id, t⟩ :: (s.list.map entry).drop (cut s t.toNat)), q.count + 1⟩
      (s.sleep id t.toNat).2 := by
  have hnew : entry ⟨id, t.toNat, s.arrived⟩ = ⟨id, t⟩ := by simp [entry]
  rw [Sleepers.sleep, dif_pos hroom]
  refine ⟨?_, ?_, fun a ha => ?_⟩
  · simp only [Sleepers.place, due_eq, later_eq, List.map_append, List.map_cons, List.map_take,
      List.map_drop, hnew]
  · exact (congrArg (· + 1) h.count).trans (s.length_place id t.toNat).symm
  · rcases Sleepers.mem_place ha with ha | rfl
    · exact h.fits a ha
    · exact t.isLt

theorem Rep.sleepUntil (h : q.Rep s) (id t : BitVec 64) :
    ∃ q', q.sleepUntil id t = some ((s.sleep id t.toNat).1, q') ∧
      q'.Rep (s.sleep id t.toNat).2 := by
  by_cases hroom : s.list.length < maxSleeping
  · obtain ⟨found, hfound, hpos⟩ := Option.map_eq_some_iff.1 (h.scan_cut t)
    have hlen : (s.list.map entry).length = s.list.length := List.length_map ..
    have hinsert := insert_slots (s.list.map entry) (cut s t.toNat)
      (by rwa [hlen]) ((cut_le s _).trans_eq hlen.symm) ⟨id, t⟩
    rw [hlen, ← h.entries, ← h.count] at hinsert
    refine ⟨_, ?_, h.of_place hroom id t⟩
    rw [SleepQueue.sleepUntil, if_neg (by rw [h.count]; omega), hfound, Option.bind_some, hpos]
    dsimp only
    rw [hinsert, Sleepers.sleep, dif_pos hroom]
    rfl
  · have hfull : maxSleeping ≤ q.count := by rw [h.count]; omega
    refine ⟨q, ?_, ?_⟩
    · rw [SleepQueue.sleepUntil, if_pos hfull, Sleepers.sleep, dif_neg hroom]
    · rwa [Sleepers.sleep, dif_neg hroom]

/-- A queue whose entries are those of some of the sleepers. -/
theorem Rep.only (h : q.Rep s) {l : List Sleeper} (hl : l.Sublist s.list)
    {es : List SleepEntry} {n : ℕ} (hes : es = l.map entry) (hn : n = l.length) :
    Rep ⟨slots es, n⟩ (s.only l hl) :=
  ⟨congrArg slots hes, hn, fun a ha => h.fits a (hl.subset ha)⟩

theorem Rep.tick (h : q.Rep s) (t : BitVec 64) :
    ∃ q', q.tick t = some ((s.wake t.toNat).1, q') ∧ q'.Rep (s.wake t.toNat).2 := by
  have hlen : (s.list.map entry).length = s.list.length := List.length_map ..
  have hidx : (s.list.map entry).findIdx (fun e => !decide (e.wakeupTick ≤ t)) =
      cut s t.toNat := by
    rw [List.findIdx_map, cut]
    refine Shifts.findIdx_congr fun a ha => ?_
    simp only [Function.comp_apply, entry_le (h.fits a ha) t]
  have hwoken : ((s.list.map entry).takeWhile fun e => decide (e.wakeupTick ≤ t)).map
      SleepEntry.taskId = (Sleepers.due s.list t.toNat).map Sleeper.task := by
    rw [List.takeWhile_eq_take_findIdx_not, hidx, due_eq, ← List.map_take, List.map_map]
    rfl
  have hcollect : collect q.entries t 0 q.count =
      some ((Sleepers.due s.list t.toNat).map Sleeper.task) := by
    have hloop := collect_eq [] (List.replicate (maxSleeping - s.list.length) none)
      (s.list.map entry) t
    rw [hwoken, hlen] at hloop
    rw [h.entries, h.count, slots, hlen]
    exact hloop
  have hdue : ((Sleepers.due s.list t.toNat).map Sleeper.task).length = cut s t.toNat := by
    rw [List.length_map, due_eq, List.length_take_of_le (cut_le s _)]
  rw [SleepQueue.tick, hcollect, Option.bind_some, hdue]
  by_cases hpos : 0 < cut s t.toNat
  · have hle := cut_le s t.toNat
    have hremove := remove_slots (s.list.map entry) 0 hpos
      (by rw [hlen]; omega) (by rw [hlen]; exact s.bounded)
    rw [hlen, ← h.entries, ← h.count] at hremove
    rw [if_pos hpos, hremove]
    refine ⟨_, rfl, h.only (Sleepers.later_sublist _ _) ?_ ?_⟩
    · rw [later_eq, List.take_zero, List.nil_append, Nat.zero_add, List.map_drop]
    · rw [later_eq, List.length_drop, h.count]
  · have hzero : cut s t.toNat = 0 := Nat.eq_zero_of_not_pos hpos
    have hlater : Sleepers.later s.list t.toNat = s.list := by
      rw [later_eq, hzero, List.drop_zero]
    rw [if_neg hpos]
    refine ⟨q, rfl, ?_⟩
    have hrep := h.only (Sleepers.later_sublist s.list t.toNat)
      (congrArg (List.map entry) hlater.symm) (show q.count = _ by rw [hlater, h.count])
    rwa [← h.entries] at hrep

theorem Rep.cancelSleep (h : q.Rep s) (id : BitVec 64) :
    ∃ q', q.cancelSleep id = some ((s.cancel id).1, q') ∧ q'.Rep (s.cancel id).2 := by
  have hlen : (s.list.map entry).length = s.list.length := List.length_map ..
  have hscan := scan_slots (s.list.map entry) fun e => decide (e.taskId = id)
  have hfind : (s.list.map entry).findIdx? (fun e => decide (e.taskId = id)) =
      s.list.findIdx? fun a => decide (a.task = id) := by
    rw [List.findIdx?_map]
    rfl
  rw [hlen, hfind, ← h.entries, ← h.count] at hscan
  rw [SleepQueue.cancelSleep, hscan, Option.bind_some]
  have herase : s.list.eraseP (fun a => decide (a.task = id)) = _ := List.eraseP_eq_eraseIdx
  cases hi : s.list.findIdx? fun a => decide (a.task = id) with
  | none =>
      rw [hi] at herase
      have hany : (s.list.any fun a => decide (a.task = id)) = false :=
        List.any_eq_false.2 fun a ha => by simp [List.findIdx?_eq_none_iff.1 hi a ha]
      refine ⟨q, by rw [Sleepers.cancel, hany], ?_⟩
      have hrep := h.only (List.eraseP_sublist (p := fun a => decide (a.task = id)))
        (congrArg (List.map entry) herase.symm) (show q.count = _ by rw [herase, h.count])
      rwa [← h.entries] at hrep
  | some i =>
      rw [hi] at herase
      dsimp only at herase
      obtain ⟨hlt, htask, -⟩ := List.findIdx?_eq_some_iff_getElem.1 hi
      have hany : (s.list.any fun a => decide (a.task = id)) = true :=
        List.any_eq_true.2 ⟨_, List.getElem_mem hlt, htask⟩
      have hremove := remove_slots (s.list.map entry) i Nat.one_pos
        (by rw [hlen]; omega) (by rw [hlen]; exact s.bounded)
      have hlast : s.list.length = s.list.length - 1 + 1 := by omega
      rw [hlen] at hremove
      nth_rewrite 3 [hlast] at hremove
      simp only [Shifts.fill_one] at hremove
      rw [← h.entries, ← h.count] at hremove
      dsimp only
      rw [hremove, Sleepers.cancel, hany]
      refine ⟨_, rfl, h.only List.eraseP_sublist ?_ ?_⟩
      · rw [herase, List.eraseIdx_eq_take_drop_succ, List.map_append, List.map_take, List.map_drop]
      · rw [herase, List.length_eraseIdx_of_lt hlt, h.count]

/-- Every call returns, and returns what it returns on the list. -/
theorem Rep.apply (h : q.Rep s) (op : SleepOp) :
    ∃ q', q.apply op = some ((s.apply op).1, q') ∧ q'.Rep (s.apply op).2 := by
  cases op with
  | sleepUntil id t =>
      obtain ⟨q', hq, hrep⟩ := h.sleepUntil id t
      exact ⟨q', by rw [SleepQueue.apply, hq]; rfl, hrep⟩
  | sleepFor id current duration fits =>
      have hadd : (current + duration).toNat = current.toNat + duration.toNat :=
        BitVec.toNat_add_of_lt fits
      obtain ⟨q', hq, hrep⟩ := h.sleepUntil id (current + duration)
      rw [hadd] at hq hrep
      exact ⟨q', by rw [SleepQueue.apply, SleepQueue.sleepFor, hq]; rfl, hrep⟩
  | tick t =>
      obtain ⟨q', hq, hrep⟩ := h.tick t
      exact ⟨q', by rw [SleepQueue.apply, hq]; rfl, hrep⟩
  | cancelSleep id =>
      obtain ⟨q', hq, hrep⟩ := h.cancelSleep id
      exact ⟨q', by rw [SleepQueue.apply, hq]; rfl, hrep⟩

theorem Rep.run (h : q.Rep s) (ops : List SleepOp) :
    ∃ q', q.run ops = some ((s.run ops).1, q') ∧ q'.Rep (s.run ops).2 := by
  induction ops generalizing q s with
  | nil => exact ⟨q, rfl, h⟩
  | cons op ops ih =>
      obtain ⟨q', hq, hrep⟩ := h.apply op
      obtain ⟨q'', hrun, hrep'⟩ := ih hrep
      exact ⟨q'', by rw [SleepQueue.run, hq, Option.bind_some, hrun]; rfl, hrep'⟩

end SleepQueue

/-- **The queue is a sorted list of sleepers.**  Every run of calls on a new queue goes through
without a panic, and returns what the same calls on the list return. -/
theorem sleepQueue_refines (ops : List SleepOp) :
    ∃ q, SleepQueue.new.run ops = some ((Sleepers.empty.run ops).1, q) ∧
      q.Rep (Sleepers.empty.run ops).2 :=
  SleepQueue.rep_new.run ops

end StarOS
