/-
Socket buffers that share their data (`net/skbuff.rs`): `clone` and `drop`.

A clone points to the same data buffer, but the reference count is kept in the handle and not in
the buffer: `clone` increments the count of the handle it is called on, and starts the clone with a
count of its own.  So a handle releases the data when it is dropped exactly if it was never cloned
itself, whatever other handles there are.  The data is released with the last handle, and not
before, exactly in the runs that drop a handle early only if it was cloned, and the last one only
if it was not.

* `StarOS.SkBuff.clone`, `StarOS.SkBuff.drop`, `StarOS.Release` — the operations, and a buffer that
  is handed back;
* `StarOS.Handles`, `StarOS.HandleCall` — the handles of one buffer, and the calls;
* `StarOS.ReleasesLast` — the law for one call;
* `StarOS.ClonedUnlessLast` — the condition on the calls made so far;
* `StarOS.Counted` — the invariant: a handle counts its own clones;
* `StarOS.skb_release_iff` — the law holds exactly if all calls meet the condition;
* `StarOS.skb_clone_frees` — a clone whose drop releases the data of the original.
-/

import StarOS.SkBuff

set_option autoImplicit false

namespace StarOS

/-! ### Clone and drop -/

/-- A data buffer that is handed back to the allocator. -/
structure Release where
  /-- Address. -/
  head : ℕ
  /-- Size in bytes. -/
  size : ℕ
  deriving DecidableEq, Repr

namespace SkBuff

/-- The data buffer of a socket buffer. -/
def buffer (s : SkBuff) : Release := ⟨s.head, s.end_.toNat + skbSharedInfoSize⟩

/-- `SkBuff::clone`: the handle it is called on, and the clone. -/
def clone (s : SkBuff) : SkBuff × SkBuff :=
  ({ s with users := s.users + 1#32 }, { s with users := 1#32 })

/-- `Drop::drop`: the data buffer, if it is released. -/
def drop (s : SkBuff) : Option Release := if s.users = 1#32 then some s.buffer else none

end SkBuff

/-! ### Runs -/

/-- The handles of one data buffer, `none` for those dropped, and the buffers released so far. -/
structure Handles where
  handles : List (Option SkBuff)
  released : List Release
  deriving DecidableEq, Repr

/-- The calls on a handle. -/
inductive HandleCall where
  | clone (i : ℕ)
  | drop (i : ℕ)
  deriving DecidableEq, Repr

namespace Handles

/-- One handle, and nothing released. -/
def start (s : SkBuff) : Handles := ⟨[some s], []⟩

/-- The handle `i`, if it is live. -/
def handle (t : Handles) (i : ℕ) : Option SkBuff := t.handles[i]?.join

/-- The handles after a call. -/
def next (t : Handles) : HandleCall → Handles
  | .clone i =>
      match t.handle i with
      | some s => { t with handles := t.handles.set i (some s.clone.1) ++ [some s.clone.2] }
      | none => t
  | .drop i =>
      match t.handle i with
      | some s => ⟨t.handles.set i none, t.released ++ s.drop.toList⟩
      | none => t

/-- The call is on a live handle. -/
def OnLive (t : Handles) : HandleCall → Prop
  | .clone i => (t.handle i).isSome
  | .drop i => (t.handle i).isSome

/-- No handle but `i` is live. -/
def LastLive (t : Handles) (i : ℕ) : Prop := ∀ j, (t.handle j).isSome → j = i

theorem handle_lt {t : Handles} {i : ℕ} {s : SkBuff} (h : t.handle i = some s) :
    i < t.handles.length := by
  rw [handle, Option.join_eq_some_iff] at h
  exact (List.getElem?_eq_some_iff.1 h).1

theorem handle_next_clone {t : Handles} {i : ℕ} {s : SkBuff} (h : t.handle i = some s) (j : ℕ) :
    (t.next (.clone i)).handle j =
      if j = t.handles.length then some s.clone.2
      else if j = i then some s.clone.1 else t.handle j := by
  have hi : i < t.handles.length := handle_lt h
  rw [next, h]
  dsimp only [handle]
  rcases Nat.lt_trichotomy j t.handles.length with hj | rfl | hj
  · rw [if_neg (Nat.ne_of_lt hj), List.getElem?_append_left (by simpa using hj),
      List.getElem?_set]
    by_cases hij : i = j
    · rw [if_pos hij, if_pos hij.symm, if_pos hi]
      rfl
    · rw [if_neg hij, if_neg (Ne.symm hij)]
  · rw [List.getElem?_append_right (by simp), if_pos rfl]
    simp
  · rw [List.getElem?_eq_none (by simp; omega), if_neg (by omega), if_neg (by omega),
      List.getElem?_eq_none (by omega)]

theorem length_next_clone {t : Handles} {i : ℕ} {s : SkBuff} (h : t.handle i = some s) :
    (t.next (.clone i)).handles.length = t.handles.length + 1 := by
  rw [next, h]
  simp

theorem handle_next_drop {t : Handles} {i : ℕ} {s : SkBuff} (h : t.handle i = some s) (j : ℕ) :
    (t.next (.drop i)).handle j = if j = i then none else t.handle j := by
  have hi : i < t.handles.length := handle_lt h
  rw [next, h]
  dsimp only [handle]
  rw [List.getElem?_set]
  by_cases hij : i = j
  · rw [if_pos hij, if_pos hij.symm, if_pos (by omega)]
    rfl
  · rw [if_neg hij, if_neg (Ne.symm hij)]

theorem length_next_drop (t : Handles) (i : ℕ) :
    (t.next (.drop i)).handles.length = t.handles.length := by
  rw [next]
  split <;> simp

theorem released_next_clone (t : Handles) (i : ℕ) :
    (t.next (.clone i)).released = t.released := by
  rw [next]
  split <;> rfl

theorem released_next_drop {t : Handles} {i : ℕ} {s : SkBuff} (h : t.handle i = some s) :
    (t.next (.drop i)).released = t.released ++ s.drop.toList := by
  rw [next, h]

end Handles

/-- The calls made so far, the last one first, and the handles. -/
structure HandleRun where
  past : List HandleCall
  handles : Handles

namespace HandleRun

/-- A run after one more call. -/
def next (r : HandleRun) (c : HandleCall) : HandleRun := ⟨c :: r.past, r.handles.next c⟩

/-- The law for one call: the data buffer is released if the last live handle is dropped, and
nothing is released otherwise. -/
def ReleasesLast (buffer : Release) (r : HandleRun) : HandleCall → Prop
  | .clone i => (r.handles.next (.clone i)).released = r.handles.released
  | .drop i =>
      (r.handles.LastLive i →
        (r.handles.next (.drop i)).released = r.handles.released ++ [buffer]) ∧
      (¬ r.handles.LastLive i →
        (r.handles.next (.drop i)).released = r.handles.released)

/-- The number of times that the handle was cloned. -/
def clones (r : HandleRun) (i : ℕ) : ℕ := r.past.count (.clone i)

/-- The condition: a handle is dropped while another one is live only if it was cloned, and the last
one only if it was not.  The count of clones is taken modulo 2³², the width of the counter. -/
def ClonedUnlessLast (r : HandleRun) : HandleCall → Prop
  | .clone _ => True
  | .drop i => 2 ^ 32 ∣ r.clones i ↔ r.handles.LastLive i

/-- The invariant: all live handles are of one buffer, and each counts its own clones. -/
structure Counted (buffer : Release) (r : HandleRun) : Prop where
  buffer : ∀ i s, r.handles.handle i = some s → s.buffer = buffer
  users : ∀ i s, r.handles.handle i = some s → s.users = BitVec.ofNat 32 (1 + r.clones i)
  fresh : ∀ i, r.handles.handles.length ≤ i → r.clones i = 0

theorem clones_next_clone (r : HandleRun) (i j : ℕ) :
    (r.next (.clone i)).clones j = r.clones j + if j = i then 1 else 0 := by
  have hsame : (HandleCall.clone i == .clone j) = decide (j = i) := by
    rw [Bool.eq_iff_iff, beq_iff_eq, HandleCall.clone.injEq, decide_eq_true_eq]
    exact eq_comm
  rw [next, clones, clones, List.count_cons, hsame]
  simp only [decide_eq_true_eq]

theorem clones_next_drop (r : HandleRun) (i j : ℕ) :
    (r.next (.drop i)).clones j = r.clones j := by
  rw [next, clones, clones, List.count_cons]
  simp

theorem Counted.start {s : SkBuff} (h : s.users = 1#32) :
    Counted s.buffer ⟨[], Handles.start s⟩ := by
  have hone : ∀ i s', (Handles.start s).handle i = some s' → i = 0 ∧ s' = s := by
    intro i s' hi
    cases i with
    | zero => exact ⟨rfl, (Option.some.inj hi).symm⟩
    | succ i => cases hi
  constructor
  case buffer =>
    intro i s' hi
    rw [(hone i s' hi).2]
  case users =>
    intro i s' hi
    rw [(hone i s' hi).2, h]
    rfl
  case fresh => exact fun _ _ => rfl

/-- A clone starts to count its clones, and the handle it was made from counts one more. -/
theorem Counted.clone {buffer : Release} {r : HandleRun} (h : Counted buffer r) {i : ℕ} {s : SkBuff}
    (hs : r.handles.handle i = some s) : Counted buffer (r.next (.clone i)) := by
  have hi : i < r.handles.handles.length := Handles.handle_lt hs
  constructor
  case buffer =>
    intro j s' hj
    rw [HandleRun.next, Handles.handle_next_clone hs] at hj
    split at hj
    · cases hj
      exact h.buffer i s hs
    · split at hj
      · cases hj
        exact h.buffer i s hs
      · exact h.buffer j s' hj
  case users =>
    intro j s' hj
    rw [clones_next_clone]
    rw [HandleRun.next, Handles.handle_next_clone hs] at hj
    split at hj
    · -- the clone itself has never been cloned
      rename_i hnew
      cases hj
      rw [h.fresh j (by omega), if_neg (by omega)]
      rfl
    · split at hj
      · rename_i hij
        cases hj
        rw [if_pos hij, hij]
        change s.users + 1#32 = _
        rw [h.users i s hs, ← BitVec.ofNat_add, Nat.add_assoc]
      · rename_i hij
        rw [if_neg hij]
        exact h.users j s' hj
  case fresh =>
    intro j hj
    rw [HandleRun.next, Handles.length_next_clone hs] at hj
    rw [clones_next_clone, h.fresh j (by omega), if_neg (by omega)]

/-- The handles that stay are as they were. -/
theorem Counted.drop {buffer : Release} {r : HandleRun} (h : Counted buffer r) {i : ℕ} {s : SkBuff}
    (hs : r.handles.handle i = some s) : Counted buffer (r.next (.drop i)) := by
  have hold : ∀ j s', (r.next (.drop i)).handles.handle j = some s' →
      r.handles.handle j = some s' := by
    intro j s' hj
    rw [HandleRun.next, Handles.handle_next_drop hs] at hj
    split at hj
    · cases hj
    · exact hj
  constructor
  case buffer => exact fun j s' hj => h.buffer j s' (hold j s' hj)
  case users =>
    intro j s' hj
    rw [clones_next_drop]
    exact h.users j s' (hold j s' hj)
  case fresh =>
    intro j hj
    rw [HandleRun.next, Handles.length_next_drop] at hj
    rw [clones_next_drop]
    exact h.fresh j hj

/-- The invariant holds after every call. -/
theorem Counted.next {buffer : Release} {r : HandleRun} (h : Counted buffer r) {c : HandleCall}
    (hlive : r.handles.OnLive c) : Counted buffer (r.next c) := by
  cases c with
  | clone i =>
      obtain ⟨s, hs⟩ := Option.isSome_iff_exists.1 hlive
      exact h.clone hs
  | drop i =>
      obtain ⟨s, hs⟩ := Option.isSome_iff_exists.1 hlive
      exact h.drop hs

/-- A handle releases the buffer exactly if it was never cloned. -/
theorem Counted.drop_eq {buffer : Release} {r : HandleRun} (h : Counted buffer r) {i : ℕ}
    {s : SkBuff} (hs : r.handles.handle i = some s) :
    s.drop = if 2 ^ 32 ∣ r.clones i then some buffer else none := by
  have husers : s.users = 1#32 ↔ 2 ^ 32 ∣ r.clones i := by
    rw [h.users i s hs, ← BitVec.toNat_inj, BitVec.toNat_ofNat, BitVec.toNat_ofNat]
    omega
  rw [SkBuff.drop, h.buffer i s hs]
  exact if_congr husers rfl rfl

/-- A call meets the law exactly if it meets the condition. -/
theorem Counted.releasesLast_iff {buffer : Release} {r : HandleRun} (h : Counted buffer r)
    {c : HandleCall} (hlive : r.handles.OnLive c) :
    ReleasesLast buffer r c ↔ ClonedUnlessLast r c := by
  cases c with
  | clone i => exact iff_of_true (Handles.released_next_clone _ _) trivial
  | drop i =>
      obtain ⟨s, hs⟩ := Option.isSome_iff_exists.1 hlive
      rw [ReleasesLast, ClonedUnlessLast, Handles.released_next_drop hs, h.drop_eq hs]
      -- where the handle was never cloned, the buffer is released, and otherwise it is not
      by_cases hcloned : 2 ^ 32 ∣ r.clones i
      · rw [if_pos hcloned, Option.toList_some]
        constructor
        · intro h
          exact iff_of_true hcloned (by_contra fun hlast => absurd (h.2 hlast) (by simp))
        · intro h
          exact ⟨fun _ => rfl, fun hlast => absurd (h.1 hcloned) hlast⟩
      · rw [if_neg hcloned, Option.toList_none, List.append_nil]
        constructor
        · intro h
          exact iff_of_false hcloned fun hlast => absurd (h.1 hlast) (by simp)
        · intro h
          exact ⟨fun hlast => absurd (h.2 hlast) hcloned, fun _ => rfl⟩

end HandleRun

/-- For every buffer and every run of clones and drops of live handles: the data buffer is released
when the last live handle is dropped, and never before, exactly if every call meets the
condition. -/
theorem skb_release_iff (head size : ℕ) (s : SkBuff) (halloc : SkBuff.alloc head size = .ok s)
    (calls : List HandleCall)
    (hlive : Runs.Along HandleRun.next (fun r => r.handles.OnLive) ⟨[], .start s⟩ calls) :
    Runs.Along HandleRun.next (HandleRun.ReleasesLast ⟨head, size + skbSharedInfoSize⟩)
        ⟨[], .start s⟩ calls ↔
      Runs.Along HandleRun.next HandleRun.ClonedUnlessLast ⟨[], .start s⟩ calls := by
  obtain ⟨-, hhead, hsize, husers⟩ := SkBuff.alloc_eq_ok halloc
  have hbuffer : s.buffer = ⟨head, size + skbSharedInfoSize⟩ := by
    rw [SkBuff.buffer, hhead, hsize]
  refine Runs.along_iff (fun _ _ h hl => HandleRun.Counted.releasesLast_iff h hl)
    (fun _ _ h hl _ => HandleRun.Counted.next h hl) ?_ hlive
  rw [← hbuffer]
  exact .start husers

/-- A handle that is cloned and dropped before its clone. -/
theorem skb_release_in_turn :
    Runs.Along HandleRun.next (HandleRun.ReleasesLast ⟨0, 1500 + skbSharedInfoSize⟩)
      ⟨[], .start etherBuffer⟩ [.clone 0, .drop 0, .drop 1] := by
  refine (skb_release_iff 0 1500 etherBuffer rfl [.clone 0, .drop 0, .drop 1]
    ⟨rfl, rfl, rfl, trivial⟩).2 ⟨trivial, ?_, ?_, trivial⟩
  · refine iff_of_false (by decide) fun hlast => ?_
    exact absurd (hlast 1 rfl) (by decide)
  · refine iff_of_true (by decide) fun j hj => ?_
    match j with
    | 0 => cases hj
    | 1 => rfl
    | j + 2 => cases hj

/-- Dropping a clone releases the data of the original, which is still live; dropping the original
after that releases nothing. -/
theorem skb_clone_frees :
    SkBuff.alloc 0 1500 = .ok etherBuffer ∧
    ((Handles.start etherBuffer).next (.clone 0)).handle 0 = some etherBuffer.clone.1 ∧
    (((Handles.start etherBuffer).next (.clone 0)).next (.drop 1)).released = [⟨0, 1820⟩] ∧
    (((Handles.start etherBuffer).next (.clone 0)).next (.drop 1)).handle 0 =
      some etherBuffer.clone.1 ∧
    ¬ Runs.Along HandleRun.next (HandleRun.ReleasesLast ⟨0, 1500 + skbSharedInfoSize⟩)
      ⟨[], .start etherBuffer⟩ [.clone 0, .drop 1] := by
  refine ⟨rfl, rfl, by decide, rfl, fun h => absurd (h.2.1.2 fun hlast => ?_) (by decide)⟩
  exact absurd (hlast 0 rfl) (by decide)

end StarOS
