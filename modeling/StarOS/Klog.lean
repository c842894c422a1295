/-
The kernel log (`klog.rs`): a ring of the last 256 entries.

`log` discards what is below the level of the moment; otherwise it takes the next position of the
ring with one atomic increment, counts the message with another, and then writes the entry, with the
time, to the slot it has taken.  `read_last` reads the last entries back.  Loggers on several cores
and in interrupts interleave in any order, with every atomic access, and the writing of an entry, a
step of its own.

Every logger writes to a slot of its own as long as none is overtaken by a whole round of the ring:
the slot that is handed out next is not one that another logger is still to write.  Under that
condition `read_last` gives, whenever no call is in flight, the entries that were logged last, in
the order in which their positions were taken.

* `StarOS.Level`, `StarOS.LogRecord`, `StarOS.LogEntry`, `StarOS.Klog` — the data;
* `StarOS.Klog.readLast` — reading back;
* `StarOS.KlogPc.next`, `StarOS.klogSystem` — the steps of a logger, and the runs;
* `StarOS.KlogState.Unshared` — no slot is handed out that is still to be written;
* `StarOS.KlogState.Inv` — the invariant, over `Tickets.Reserved`;
* `StarOS.klog_readLast` — what is read back.
-/

import StarOS.Counting
import StarOS.Threads
import StarOS.Tickets
import StarOS.Word

set_option autoImplicit false

namespace StarOS

/-! ### The log -/

/-- Log levels; lower is more critical. -/
inductive Level where
  | emergency | alert | critical | error | warning | notice | info | debug
  deriving DecidableEq, Repr

/-- `level as u8`. -/
def Level.asU8 : Level → BitVec 8
  | emergency => 0#8
  | alert => 1#8
  | critical => 2#8
  | error => 3#8
  | warning => 4#8
  | notice => 5#8
  | info => 6#8
  | debug => 7#8

/-- An entry of the ring. -/
structure LogEntry where
  level : Level
  timestampUs : Usize
  module : String
  /-- The 120 bytes of the message. -/
  message : List (BitVec 8)
  msgLen : BitVec 8
  deriving DecidableEq, Repr

/-- `LogEntry::empty`. -/
def LogEntry.empty : LogEntry := ⟨.debug, 0#64, "", List.replicate 120 0#8, 0#8⟩

/-- What `log` is called with. -/
structure LogRecord where
  level : Level
  module : String
  msg : List (BitVec 8)
  deriving DecidableEq, Repr

/-- The entry that `log` makes at the given time: at most 120 bytes of the message. -/
def LogRecord.entry (r : LogRecord) (timestampUs : Usize) : LogEntry where
  level := r.level
  timestampUs := timestampUs
  module := r.module
  message := r.msg.take 120 ++ List.replicate (120 - (r.msg.take 120).length) 0#8
  msgLen := BitVec.ofNat 8 (min r.msg.length 120)

/-- `LOG_BUFFER_SIZE`. -/
def logBufferSize : ℕ := 256

/-- The statics of the log.  Only the slots below `logBufferSize` exist. -/
structure Klog where
  /-- `LOG_BUFFER`. -/
  buffer : ℕ → LogEntry
  /-- `LOG_WRITE_POS`. -/
  writePos : Usize
  /-- `LOG_COUNT`. -/
  count : Usize
  /-- `LOG_LEVEL`. -/
  logLevel : BitVec 8

namespace Klog

/-- The log at boot. -/
def new : Klog := ⟨fun _ => .empty, 0#64, 0#64, Level.info.asU8⟩

/-- `total_messages`. -/
def totalMessages (k : Klog) : Usize := k.count

/-- `read_last`.  None of the sums wraps: the indices stay below the positions taken, or below twice
the size of the ring. -/
def readLast (k : Klog) (count : Usize) : List LogEntry :=
  let readCount := min count.toNat (min k.count.toNat logBufferSize)
  let start :=
    if readCount ≤ k.writePos.toNat then k.writePos.toNat - readCount
    else logBufferSize - (readCount - k.writePos.toNat)
  (List.range readCount).map fun i => k.buffer ((start + i) % logBufferSize)

end Klog

/-! ### The loggers -/

/-- Where a logger stands. -/
inductive KlogPc where
  | idle
  /-- The level was let through, before the increment of `LOG_WRITE_POS`. -/
  | taking (r : LogRecord)
  /-- With a slot, before the increment of `LOG_COUNT`. -/
  | counting (slot : ℕ) (r : LogRecord)
  /-- Before the entry is written. -/
  | storing (slot : ℕ) (r : LogRecord)
  deriving DecidableEq, Repr

/-- What a logger can do next: set the level, call `log`, which loads the level, make the next
atomic access, or read the time and write the entry. -/
inductive KlogAct where
  | setLevel (level : Level)
  | log (r : LogRecord)
  | access
  | store (timestampUs : Usize)
  deriving DecidableEq, Repr

/-- The log, and the records whose positions were taken, in that order.  No step reads `issued`. -/
structure KlogShared where
  log : Klog
  issued : List LogRecord

namespace KlogPc

/-- One step of a logger. -/
def next (k : KlogShared) : KlogPc → KlogAct → Option (KlogShared × KlogPc)
  | idle, .setLevel level => some ({ k with log.logLevel := level.asU8 }, idle)
  | idle, .log r => if k.log.logLevel < r.level.asU8 then some (k, idle) else some (k, taking r)
  | taking r, .access =>
      some (⟨{ k.log with writePos := k.log.writePos + 1#64 }, k.issued ++ [r]⟩,
        counting (k.log.writePos.toNat % logBufferSize) r)
  | counting slot r, .access =>
      some ({ k with log.count := k.log.count + 1#64 }, storing slot r)
  | storing slot r, .store timestampUs =>
      some ({ k with log.buffer := Function.update k.log.buffer slot (r.entry timestampUs) }, idle)
  | _, _ => none

/-- The slot the logger is still to write, and for which record. -/
def owes : KlogPc → Option (ℕ × LogRecord)
  | counting slot r => some (slot, r)
  | storing slot r => some (slot, r)
  | _ => none

/-- The logger has taken a position and not counted its message. -/
def uncounted : KlogPc → Bool
  | counting _ _ => true
  | _ => false

end KlogPc

/-- The log and its loggers. -/
abbrev KlogState (ι : Type) := Threads.State ι KlogShared KlogPc

/-- The interleavings of the loggers from boot. -/
def klogSystem (ι : Type) [DecidableEq ι] : Runs.System (KlogState ι) (ι × KlogAct) :=
  Threads.system KlogPc.next ⟨.new, []⟩ .idle

namespace KlogState

variable {ι : Type}

/-- A position that is taken is not for a slot that a logger is still to write. -/
def Unshared (s : KlogState ι) (e : ι × KlogAct) : Prop :=
  ∀ r, s.pc e.1 = .taking r → e.2 = .access →
    ∀ j c, (s.pc j).owes ≠ some (s.shared.log.writePos.toNat % logBufferSize, c)

/-- The invariant: the slots are as the tickets say, and the two counters count the positions taken
and the messages counted. -/
structure Inv [Fintype ι] (s : KlogState ι) : Prop where
  reserved : Tickets.Reserved logBufferSize (fun (r : LogRecord) e => ∃ t, e = r.entry t)
    s.shared.log.buffer s.shared.issued fun i => (s.pc i).owes
  writePos : s.shared.log.writePos = BitVec.ofNat 64 s.shared.issued.length
  count : s.shared.log.count +
      BitVec.ofNat 64 (Finset.univ.filter fun i => (s.pc i).uncounted = true).card =
    BitVec.ofNat 64 s.shared.issued.length

/-- The position that is taken next is for the slot of the next ticket. -/
theorem Inv.slot [Fintype ι] {s : KlogState ι} (h : s.Inv) :
    s.shared.log.writePos.toNat % logBufferSize = s.shared.issued.length % logBufferSize := by
  rw [h.writePos, BitVec.toNat_ofNat, logBufferSize]
  omega

variable [DecidableEq ι] [Fintype ι] {s : KlogState ι} {i : ι} {k : KlogShared} {pc : KlogPc}

/-- A logger moves on: what is to be shown of the slots, of the position and of the count, where `n`
loggers had not counted before and `m` have not after. -/
theorem Inv.move (h : s.Inv)
    (hres : Tickets.Reserved logBufferSize (fun (r : LogRecord) e => ∃ t, e = r.entry t)
      k.log.buffer k.issued (Function.update (fun j => (s.pc j).owes) i pc.owes))
    (hpos : k.log.writePos = BitVec.ofNat 64 k.issued.length)
    (hcount : ∀ n m, m + (s.pc i).uncounted.toNat = n + pc.uncounted.toNat →
      s.shared.log.count + BitVec.ofNat 64 n = BitVec.ofNat 64 s.shared.issued.length →
      k.log.count + BitVec.ofNat 64 m = BitVec.ofNat 64 k.issued.length) :
    Inv (s.move i (k, pc)) := by
  refine ⟨?_, hpos, hcount _ _ ?_ h.count⟩
  · rw [Threads.map_pc_move KlogPc.owes]
    exact hres
  · have hadd := Counting.card_filter_add (p := fun j => (s.pc j).uncounted)
      (q := fun j => ((s.move i (k, pc)).pc j).uncounted) (c := i)
      (fun j hj => by rw [Threads.move_pc_of_ne hj])
    rwa [Threads.move_pc_self] at hadd

/-- A logger moves on, neither taking nor counting nor writing. -/
theorem Inv.stay (h : s.Inv) (hbuf : k.log.buffer = s.shared.log.buffer)
    (hpos : k.log.writePos = s.shared.log.writePos) (hcount : k.log.count = s.shared.log.count)
    (hissued : k.issued = s.shared.issued) (howes : pc.owes = (s.pc i).owes)
    (huncounted : pc.uncounted = (s.pc i).uncounted) : Inv (s.move i (k, pc)) := by
  refine h.move ?_ ?_ fun n m hn hc => ?_
  · rw [hbuf, hissued, howes, Function.update_eq_self]
    exact h.reserved
  · rw [hpos, hissued]
    exact h.writePos
  · rw [huncounted] at hn
    rw [Nat.add_right_cancel hn, hcount, hissued]
    exact hc

/-- A logger takes a position. -/
theorem Inv.take (h : s.Inv) {r : LogRecord} (hpc : s.pc i = .taking r)
    (hfree : ∀ j c, (s.pc j).owes ≠ some (s.shared.log.writePos.toNat % logBufferSize, c)) :
    Inv (s.move i (⟨{ s.shared.log with writePos := s.shared.log.writePos + 1#64 },
      s.shared.issued ++ [r]⟩,
      .counting (s.shared.log.writePos.toNat % logBufferSize) r)) := by
  refine h.move ?_ ?_ fun n m hn hc => ?_
  · rw [h.slot] at hfree ⊢
    exact h.reserved.take (by decide) (by rw [hpc]; rfl) hfree r
  · simp [h.writePos, BitVec.ofNat_add]
  · rw [hpc] at hn
    obtain rfl : m = n + 1 := hn
    rw [BitVec.ofNat_add, ← BitVec.add_assoc, hc]
    simp [BitVec.ofNat_add]

/-- A logger counts its message. -/
theorem Inv.countOne (h : s.Inv) {slot : ℕ} {r : LogRecord} (hpc : s.pc i = .counting slot r) :
    Inv (s.move i ({ s.shared with log.count := s.shared.log.count + 1#64 },
      .storing slot r)) := by
  refine h.move ?_ h.writePos fun n m hn hc => ?_
  · have howes : (KlogPc.storing slot r).owes = (s.pc i).owes := by rw [hpc]; rfl
    rw [howes, Function.update_eq_self]
    exact h.reserved
  · rw [hpc] at hn
    obtain rfl : m + 1 = n := hn
    rw [BitVec.add_assoc, BitVec.add_comm 1#64, ← hc, BitVec.ofNat_add]

/-- A logger writes its entry. -/
theorem Inv.store (h : s.Inv) {slot : ℕ} {r : LogRecord} (hpc : s.pc i = .storing slot r)
    (t : Usize) :
    Inv (s.move i ({ s.shared with
      log.buffer := Function.update s.shared.log.buffer slot (r.entry t) }, .idle)) := by
  refine h.move ?_ h.writePos fun n m hn hc => ?_
  · exact h.reserved.write (i := i) (b := r) (by rw [hpc]; rfl) ⟨t, rfl⟩
  · rw [hpc] at hn
    obtain rfl : m = n := hn
    exact hc

/-- Every step keeps the invariant, as long as no slot is shared. -/
theorem Inv.next (h : s.Inv) {e : ι × KlogAct} {s' : KlogState ι} (hfree : s.Unshared e)
    (hs : Threads.next KlogPc.next s e = some s') : s'.Inv := by
  obtain ⟨r, hr, rfl⟩ := Threads.next_eq_some hs
  obtain ⟨i, a⟩ := e
  cases hpc : s.pc i with
  | idle =>
      rw [hpc] at hr
      cases a with
      | setLevel level =>
          cases hr
          exact h.stay rfl rfl rfl rfl (by rw [hpc]) (by rw [hpc])
      | log r =>
          simp only [KlogPc.next] at hr
          split at hr
          · cases hr
            exact h.stay rfl rfl rfl rfl (by rw [hpc]) (by rw [hpc])
          · cases hr
            exact h.stay rfl rfl rfl rfl (by rw [hpc]; rfl) (by rw [hpc]; rfl)
      | access => simp [KlogPc.next] at hr
      | store t => simp [KlogPc.next] at hr
  | taking r =>
      rw [hpc] at hr
      cases a with
      | access =>
          cases hr
          exact h.take hpc (hfree r hpc rfl)
      | _ => simp [KlogPc.next] at hr
  | counting slot r =>
      rw [hpc] at hr
      cases a with
      | access =>
          cases hr
          exact h.countOne hpc
      | _ => simp [KlogPc.next] at hr
  | storing slot r =>
      rw [hpc] at hr
      cases a with
      | store t =>
          cases hr
          exact h.store hpc t
      | _ => simp [KlogPc.next] at hr

omit [DecidableEq ι] in
/-- At boot. -/
theorem inv_start : Inv (⟨⟨.new, []⟩, fun _ => .idle⟩ : KlogState ι) where
  reserved := Tickets.reserved_nil fun _ => rfl
  writePos := rfl
  count := by simp [Klog.new, KlogPc.uncounted]

end KlogState

/-! ### What is read back -/

/-- `read_last` reads the end of what was written, when both counters count the positions taken. -/
theorem Klog.readLast_eq {k : Klog} {n : ℕ} (hpos : k.writePos.toNat = n % 2 ^ 64)
    (hcount : k.count.toNat = n % 2 ^ 64) (count : Usize) :
    k.readLast count = (List.range (min count.toNat (min (n % 2 ^ 64) 256))).map fun i =>
      k.buffer ((n - min count.toNat (min (n % 2 ^ 64) 256) + i) % logBufferSize) := by
  have hle : min count.toNat (min (n % 2 ^ 64) 256) ≤ n % 2 ^ 64 := by omega
  simp only [readLast, hpos, hcount, logBufferSize, if_pos hle]
  refine List.map_congr_left fun i _ => ?_
  -- a wrap of the counter moves the position by a multiple of the size of the ring
  congr 1
  omega

/-- **The log reads back what was logged last.**  In every run of loggers on any number of cores, in
which no slot is handed out that a logger is still to write: whenever no call is in flight, the
total is the number of messages let through, up to a wrap of the counter, and `read_last` gives the
last of them, at most 256 and at most as many as are asked for, in the order in which they took
their positions, each as `log` makes an entry of it at some time. -/
theorem klog_readLast {ι : Type} [DecidableEq ι] [Fintype ι] {s : KlogState ι}
    (h : (klogSystem ι).Reach KlogState.Unshared s) (hidle : ∀ i, s.pc i = .idle) (count : Usize) :
    s.shared.log.totalMessages.toNat = s.shared.issued.length % 2 ^ 64 ∧
      List.Forall₂ (fun (r : LogRecord) e => ∃ t, e = r.entry t)
        (s.shared.issued.drop (s.shared.issued.length -
          min count.toNat (min (s.shared.issued.length % 2 ^ 64) 256)))
        (s.shared.log.readLast count) := by
  have hinv : s.Inv := by
    refine h.invariant (P := KlogState.Inv) (fun s₀ h₀ => ?_)
      fun _ _ _ h₁ hfree hs => h₁.next hfree hs
    obtain rfl := h₀
    exact KlogState.inv_start
  have hcount : s.shared.log.count.toNat = s.shared.issued.length % 2 ^ 64 := by
    have hc := hinv.count
    simp only [hidle, KlogPc.uncounted] at hc
    simp at hc
    rw [hc, BitVec.toNat_ofNat]
  have hpos : s.shared.log.writePos.toNat = s.shared.issued.length % 2 ^ 64 := by
    rw [hinv.writePos, BitVec.toNat_ofNat]
  refine ⟨hcount, ?_⟩
  rw [Klog.readLast_eq hpos hcount count]
  refine hinv.reserved.window (fun i => by rw [hidle i]; rfl) _ ?_ ?_
  · have hmod := Nat.mod_le s.shared.issued.length (2 ^ 64)
    omega
  · rw [logBufferSize]
    omega

/-- No slot is shared if the next one is none of those still to be written. -/
theorem KlogState.unshared_of {ι : Type} {s : KlogState ι} {e : ι × KlogAct}
    (h : ∀ j, (s.pc j).owes.map Prod.fst ≠
      some (s.shared.log.writePos.toNat % logBufferSize)) : s.Unshared e := by
  intro _ _ _ j c hj
  have hslot := h j
  rw [hj] at hslot
  exact hslot rfl

/-- Of two loggers the second takes its position last and writes first, and its message is the one
that is read back. -/
theorem klog_readLast_two :
    ∃ (s : KlogState (Fin 2)) (t : Usize),
      s.shared.log.readLast 1#64 = [LogRecord.entry ⟨.debug, "fs", [66#8]⟩ t] := by
  have h₀ : (klogSystem (Fin 2)).Reach KlogState.Unshared ⟨⟨.new, []⟩, fun _ => .idle⟩ := .init rfl
  have hlevel := h₀.step (a := (0, KlogAct.setLevel .debug)) (KlogState.unshared_of (by decide)) rfl
  have hlog := hlevel.step (a := (0, KlogAct.log ⟨.error, "mm", [65#8]⟩))
    (KlogState.unshared_of (by decide)) rfl
  have hlog' := hlog.step (a := (1, KlogAct.log ⟨.debug, "fs", [66#8]⟩))
    (KlogState.unshared_of (by decide)) rfl
  have htake := hlog'.step (a := (0, KlogAct.access)) (KlogState.unshared_of (by decide)) rfl
  have htake' := htake.step (a := (1, KlogAct.access)) (KlogState.unshared_of (by decide)) rfl
  have hcount' := htake'.step (a := (1, KlogAct.access)) (KlogState.unshared_of (by decide)) rfl
  have hstore' := hcount'.step (a := (1, KlogAct.store 20#64))
    (KlogState.unshared_of (by decide)) rfl
  have hcount := hstore'.step (a := (0, KlogAct.access)) (KlogState.unshared_of (by decide)) rfl
  have hstore := hcount.step (a := (0, KlogAct.store 30#64)) (KlogState.unshared_of (by decide)) rfl
  obtain ⟨-, hread⟩ := klog_readLast hstore (by decide) 1#64
  have hlast : List.Forall₂ (fun (r : LogRecord) e => ∃ t, e = r.entry t)
      [⟨.debug, "fs", [66#8]⟩] _ := hread
  obtain ⟨e, rest, ⟨t, rfl⟩, hnil, hentries⟩ := List.forall₂_cons_left_iff.1 hlast
  rw [List.forall₂_nil_left_iff.1 hnil] at hentries
  exact ⟨_, t, hentries⟩

end StarOS
