/-
The monotonic clock (`time.rs`): a counter of cycles that is turned into nanoseconds.

At every update the nanoseconds since the last one are added up, and full seconds are moved to a
counter of their own.  A reader adds the nanoseconds since the update to what is left over, and
leaves out the seconds: the clock falls back with the first second that is completed.  Before that
it does not go back, and it is exact but for the fractions that the updates cut off.

* `StarOS.Timekeeper`, `StarOS.TkFast`, `StarOS.TimeState.init`, `StarOS.TimeState.ktimeGetNs`,
  `StarOS.TimeState.updateWallTime` — the code;
* `StarOS.carry_eq` — what is left of the nanoseconds, and how many seconds there are;
* `StarOS.TimeRun` — runs, with the readings of the counter and the values returned;
* `StarOS.TimeRun.Inv` — the invariant: what has been added up, and what was cut off;
* `StarOS.ktime_monotonic_iff` — when the clock is right all along a run.
-/

import StarOS.Runs
import StarOS.Word

set_option autoImplicit false

namespace StarOS

/-! ### The code -/

/-- `NSEC_PER_SEC`. -/
def nsecPerSec : BitVec 64 := 1000000000#64

/-- `Timekeeper`, without the offsets for suspended time. -/
structure Timekeeper where
  cycleLast : BitVec 64
  mult : BitVec 32
  shift : BitVec 32
  xtimeNsec : BitVec 64
  xtimeSec : BitVec 64
  deriving DecidableEq, Repr

/-- `TkFast`. -/
structure TkFast where
  seq : BitVec 32
  cycleNow : BitVec 64
  nsec : BitVec 64
  deriving DecidableEq, Repr

/-- `TK_CORE` and `TK_FAST_MONO`. -/
structure TimeState where
  core : Timekeeper
  fast : TkFast
  deriving DecidableEq, Repr

/-- The quotient that `init` casts to the multiplier. -/
def clockMult (freq : BitVec 64) : BitVec 64 := (nsecPerSec <<< 24) / freq

/-- A frequency of the counter for which the multiplier fits 32 bits. -/
structure CounterFreq where
  freq : BitVec 64
  pos : 0 < freq.toNat
  fits : (clockMult freq).toNat < 2 ^ 32

/-- The multiplier. -/
def CounterFreq.mult (f : CounterFreq) : BitVec 32 := (clockMult f.freq).setWidth 32

/-- The nanoseconds of a number of cycles. -/
def Timekeeper.cyclesToNs (tk : Timekeeper) (delta : BitVec 64) : BitVec 64 :=
  (delta * tk.mult.setWidth 64) >>> tk.shift.toNat

/-- The loop that moves full seconds, for at most as many rounds as are asked for. -/
def carry : ℕ → BitVec 64 → BitVec 64 → BitVec 64 × BitVec 64
  | 0, nsec, sec => (nsec, sec)
  | n + 1, nsec, sec =>
      if nsecPerSec ≤ nsec then carry n (nsec - nsecPerSec) (sec + 1#64) else (nsec, sec)

namespace TimeState

/-- `init`, with the frequency and the counter as they are read. -/
def init (st : TimeState) (f : CounterFreq) (cycles : BitVec 64) : TimeState where
  core :=
    { cycleLast := cycles
      mult := f.mult
      shift := 24#32
      xtimeNsec := 0#64
      xtimeSec := 0#64 }
  fast := { st.fast with cycleNow := cycles, nsec := 0#64 }

/-- `ktime_get_ns`, with the counter as it is read.  No other call runs meanwhile, so that the two
looks at `seq` agree. -/
def ktimeGetNs (st : TimeState) (now : BitVec 64) : BitVec 64 :=
  st.fast.nsec + st.core.cyclesToNs (now - st.fast.cycleNow)

/-- `update_wall_time`, with the counter as it is read. -/
def updateWallTime (st : TimeState) (now : BitVec 64) : TimeState :=
  let nsec := st.core.xtimeNsec + st.core.cyclesToNs (now - st.core.cycleLast)
  let out := carry nsec.toNat nsec st.core.xtimeSec
  { core := { st.core with xtimeNsec := out.1, xtimeSec := out.2, cycleLast := now }
    fast := { seq := st.fast.seq + 1#32, cycleNow := now, nsec := out.1 } }

end TimeState

/-! ### Words and numbers -/

theorem toNat_nsecPerSec : nsecPerSec.toNat = 10 ^ 9 := rfl

/-- As many rounds as there are nanoseconds move all full seconds. -/
theorem carry_eq {n : ℕ} {nsec sec : BitVec 64} (hn : nsec.toNat ≤ n)
    (hsec : sec.toNat + nsec.toNat / 10 ^ 9 < 2 ^ 64) :
    (carry n nsec sec).1.toNat = nsec.toNat % 10 ^ 9 ∧
      (carry n nsec sec).2.toNat = sec.toNat + nsec.toNat / 10 ^ 9 := by
  induction n generalizing nsec sec with
  | zero =>
      have hzero : nsec.toNat = 0 := Nat.le_zero.1 hn
      simp [carry, hzero]
  | succ n ih =>
      rw [carry]
      split
      · rename_i hle
        rw [BitVec.le_def, toNat_nsecPerSec] at hle
        have hlt := nsec.isLt
        have hsub : (nsec - nsecPerSec).toNat = nsec.toNat - 10 ^ 9 := by
          rw [BitVec.toNat_sub, toNat_nsecPerSec]
          omega
        have hadd : (sec + 1#64).toNat = sec.toNat + 1 := by
          rw [BitVec.toNat_add, BitVec.toNat_ofNat]
          omega
        obtain ⟨hrest, hcount⟩ := @ih (nsec - nsecPerSec) (sec + 1#64)
          (by rw [hsub]; omega) (by rw [hsub, hadd]; omega)
        rw [hrest, hcount, hsub, hadd]
        omega
      · rename_i hlt
        rw [BitVec.le_def, toNat_nsecPerSec] at hlt
        dsimp only
        omega

/-- Nanoseconds of less than 2^32 cycles. -/
theorem toNat_cyclesToNs {tk : Timekeeper} {delta : BitVec 64} (hshift : tk.shift = 24#32)
    (hdelta : delta.toNat < 2 ^ 32) :
    (tk.cyclesToNs delta).toNat = delta.toNat * tk.mult.toNat / 2 ^ 24 := by
  have hmult : (tk.mult.setWidth 64).toNat = tk.mult.toNat :=
    BitVec.toNat_setWidth_of_le (by omega)
  have hprod : delta.toNat * tk.mult.toNat < 2 ^ 64 := by
    have hlt := Nat.mul_lt_mul'' hdelta tk.mult.isLt
    omega
  rw [Timekeeper.cyclesToNs, hshift, BitVec.toNat_ushiftRight, BitVec.toNat_mul, hmult,
    Nat.mod_eq_of_lt hprod, Nat.shiftRight_eq_div_pow]
  rfl

/-! ### Runs -/

/-- A call, with the counter as it is read. -/
inductive TimeOp where
  | update (now : BitVec 64)
  | get (now : BitVec 64)
  deriving DecidableEq, Repr

namespace TimeOp

/-- The reading of the counter. -/
def now : TimeOp → BitVec 64
  | update now => now
  | get now => now

/-- The call is an update. -/
def isUpdate : TimeOp → Bool
  | update _ => true
  | get _ => false

end TimeOp

/-- A run: the state, the readings of the counter by `init` and by the last call, the number of
updates, and the value that `ktime_get_ns` returned last. -/
structure TimeRun where
  st : TimeState
  start : BitVec 64
  last : BitVec 64
  updates : ℕ
  value : Option (BitVec 64)

namespace TimeRun

/-- After `init`. -/
def fresh (st : TimeState) (f : CounterFreq) (cycles : BitVec 64) : TimeRun :=
  ⟨st.init f cycles, cycles, cycles, 0, none⟩

/-- The next call. -/
def next (r : TimeRun) : TimeOp → TimeRun
  | .update now =>
      { r with st := r.st.updateWallTime now, last := now, updates := r.updates + 1 }
  | .get now => { r with last := now, value := some (r.st.ktimeGetNs now) }

/-- The nanoseconds since `init`, computed on unbounded integers. -/
def elapsed (r : TimeRun) (now : BitVec 64) : ℕ :=
  (now.toNat - r.start.toNat) * r.st.core.mult.toNat / 2 ^ 24

/-- What is asked of the readings: they do not decrease, each is less than 2^32 cycles after the
last update or `init`, and the time since `init` is less than 2^63 nanoseconds. -/
structure Allowed (r : TimeRun) (op : TimeOp) : Prop where
  mono : r.last.toNat ≤ op.now.toNat
  recent : op.now.toNat - r.st.core.cycleLast.toNat < 2 ^ 32
  total : r.elapsed op.now < 2 ^ 63

/-- What is claimed of a value: it is not below the last one, and it differs from the time since
`init` by one nanosecond for each update at most. -/
def StepOk (r : TimeRun) : TimeOp → Prop
  | .update _ => True
  | .get now =>
      (∀ v, r.value = some v → v.toNat ≤ (r.st.ktimeGetNs now).toNat) ∧
        (r.st.ktimeGetNs now).toNat ≤ r.elapsed now + r.updates ∧
        r.elapsed now ≤ (r.st.ktimeGetNs now).toNat + r.updates

/-- The clock is not read after a second was completed. -/
def FirstSecond (r : TimeRun) : TimeOp → Prop
  | .update _ => True
  | .get _ => r.st.core.xtimeSec = 0#64

/-! ### The invariant -/

/-- The nanoseconds that the updates have added up. -/
def added (r : TimeRun) : ℕ :=
  r.st.core.xtimeSec.toNat * 10 ^ 9 + r.st.core.xtimeNsec.toNat

/-- The nanoseconds since the last update, for a reading of the counter. -/
def since (r : TimeRun) (now : BitVec 64) : ℕ :=
  (now.toNat - r.st.core.cycleLast.toNat) * r.st.core.mult.toNat / 2 ^ 24

/-- The readers' copy agrees with the timekeeper; every update has cut off less than a nanosecond;
and no value was beyond what has been added up and has passed since. -/
structure Inv (r : TimeRun) : Prop where
  shift : r.st.core.shift = 24#32
  nsec_lt : r.st.core.xtimeNsec.toNat < 10 ^ 9
  fast_nsec : r.st.fast.nsec = r.st.core.xtimeNsec
  fast_cycle : r.st.fast.cycleNow = r.st.core.cycleLast
  start_le : r.start.toNat ≤ r.st.core.cycleLast.toNat
  le_last : r.st.core.cycleLast.toNat ≤ r.last.toNat
  cut : ∃ R ≤ r.updates * (2 ^ 24 - 1),
    (r.st.core.cycleLast.toNat - r.start.toNat) * r.st.core.mult.toNat = r.added * 2 ^ 24 + R
  value : ∀ v, r.value = some v → v.toNat ≤ r.added + r.since r.last

theorem inv_fresh (st : TimeState) (f : CounterFreq) (cycles : BitVec 64) :
    (fresh st f cycles).Inv where
  shift := rfl
  nsec_lt := by simp [fresh, TimeState.init]
  fast_nsec := rfl
  fast_cycle := rfl
  start_le := Nat.le_refl _
  le_last := Nat.le_refl _
  cut := ⟨0, Nat.zero_le _, by simp [fresh, TimeState.init, added]⟩
  value := by simp [fresh]

variable {r : TimeRun} {op : TimeOp} {now : BitVec 64}

theorem since_mono (r : TimeRun) {now now' : BitVec 64} (hle : now.toNat ≤ now'.toNat) :
    r.since now ≤ r.since now' := by
  refine Nat.div_le_div_right (Nat.mul_le_mul_right _ ?_)
  omega

/-- The time since `init` is what was added up, what has passed since, and what was cut off. -/
theorem Inv.elapsed (h : r.Inv) (hop : r.Allowed op) :
    r.added + r.since op.now ≤ r.elapsed op.now ∧
      r.elapsed op.now ≤ r.added + r.since op.now + r.updates := by
  obtain ⟨R, hR, hcut⟩ := h.cut
  have hlast := h.le_last.trans hop.mono
  have hsplit : op.now.toNat - r.start.toNat = (r.st.core.cycleLast.toNat - r.start.toNat) +
      (op.now.toNat - r.st.core.cycleLast.toNat) := by
    have hstart := h.start_le
    omega
  -- what the last division cuts off is less than a nanosecond, too
  have hmod := Nat.div_add_mod
    ((op.now.toNat - r.st.core.cycleLast.toNat) * r.st.core.mult.toNat) (2 ^ 24)
  have hlt := Nat.mod_lt
    ((op.now.toNat - r.st.core.cycleLast.toNat) * r.st.core.mult.toNat) (by omega : 0 < 2 ^ 24)
  rw [TimeRun.elapsed, hsplit, Nat.add_mul, hcut]
  rw [TimeRun.since]
  omega

theorem Inv.toNat_cyclesToNs (h : r.Inv) (hop : r.Allowed op) :
    (r.st.core.cyclesToNs (op.now - r.st.core.cycleLast)).toNat = r.since op.now := by
  have hle := h.le_last.trans hop.mono
  have hsub : (op.now - r.st.core.cycleLast).toNat =
      op.now.toNat - r.st.core.cycleLast.toNat := BitVec.toNat_sub_of_le hle
  rw [StarOS.toNat_cyclesToNs h.shift (by rw [hsub]; exact hop.recent), hsub, since]

/-- What `ktime_get_ns` returns: the nanoseconds without the seconds. -/
theorem Inv.toNat_ktimeGetNs (h : r.Inv) (hop : r.Allowed (.get now)) :
    (r.st.ktimeGetNs now).toNat = r.st.core.xtimeNsec.toNat + r.since now := by
  have hns := h.toNat_cyclesToNs hop
  obtain ⟨hle, -⟩ := h.elapsed hop
  have htotal := hop.total
  rw [added] at hle
  rw [TimeState.ktimeGetNs, h.fast_nsec, h.fast_cycle, BitVec.toNat_add]
  simp only [TimeOp.now] at *
  rw [hns]
  omega

/-- An update adds up the nanoseconds since the last one, and leaves less than a second over. -/
theorem Inv.updateWallTime (h : r.Inv) (hop : r.Allowed (.update now)) :
    (r.next (.update now)).added = r.added + r.since now ∧
      (r.next (.update now)).st.core.xtimeNsec.toNat < 10 ^ 9 := by
  have hns := h.toNat_cyclesToNs hop
  obtain ⟨hle, -⟩ := h.elapsed hop
  have htotal := hop.total
  rw [added] at hle
  simp only [TimeOp.now] at hns hle htotal
  have hsum : (r.st.core.xtimeNsec +
      r.st.core.cyclesToNs (now - r.st.core.cycleLast)).toNat =
        r.st.core.xtimeNsec.toNat + r.since now := by
    rw [BitVec.toNat_add, hns]
    omega
  obtain ⟨hrest, hcount⟩ := @carry_eq _ _ r.st.core.xtimeSec hsum.le (by rw [hsum]; omega)
  rw [hsum] at hrest hcount
  have hdiv := Nat.div_add_mod (r.st.core.xtimeNsec.toNat + r.since now) (10 ^ 9)
  have hmod := Nat.mod_lt (r.st.core.xtimeNsec.toNat + r.since now) (by omega : 0 < 10 ^ 9)
  simp only [added, next, TimeState.updateWallTime, hsum, hrest, hcount]
  omega

/-- Every call keeps the invariant. -/
theorem Inv.next (h : r.Inv) (hop : r.Allowed op) : (r.next op).Inv := by
  have hlast := h.le_last.trans hop.mono
  cases op with
  | update now =>
      obtain ⟨hadd, hlt⟩ := h.updateWallTime hop
      obtain ⟨R, hR, hcut⟩ := h.cut
      have hzero : (r.next (.update now)).since now = 0 := by
        simp [since, TimeRun.next, TimeState.updateWallTime]
      refine ⟨h.shift, hlt, rfl, rfl, h.start_le.trans hlast, Nat.le_refl _, ?cut, ?value⟩
      case cut =>
        have hmod := Nat.div_add_mod
          ((now.toNat - r.st.core.cycleLast.toNat) * r.st.core.mult.toNat) (2 ^ 24)
        have hrem := Nat.mod_lt
          ((now.toNat - r.st.core.cycleLast.toNat) * r.st.core.mult.toNat)
          (by omega : 0 < 2 ^ 24)
        have hsplit : now.toNat - r.start.toNat =
            (r.st.core.cycleLast.toNat - r.start.toNat) +
              (now.toNat - r.st.core.cycleLast.toNat) := by
          have hstart := h.start_le
          simp only [TimeOp.now] at hlast
          omega
        refine ⟨R + (now.toNat - r.st.core.cycleLast.toNat) * r.st.core.mult.toNat % 2 ^ 24,
          ?_, ?_⟩
        · simp only [TimeRun.next]
          omega
        · rw [hadd, since]
          simp only [TimeRun.next, TimeState.updateWallTime]
          rw [hsplit, Nat.add_mul, hcut]
          omega
      case value =>
        intro v hv
        have hle := h.value v hv
        have hmono := r.since_mono hop.mono
        rw [show (r.next (.update now)).last = now from rfl, hzero, hadd]
        simp only [TimeOp.now] at hmono
        omega
  | get now =>
      refine ⟨h.shift, h.nsec_lt, h.fast_nsec, h.fast_cycle, h.start_le, hlast, h.cut, ?_⟩
      intro v hv
      have hval : v = r.st.ktimeGetNs now := (Option.some.inj hv).symm
      have heq : v.toNat = r.st.core.xtimeNsec.toNat + r.since now := by
        rw [hval, h.toNat_ktimeGetNs hop]
      have hadd : r.st.core.xtimeNsec.toNat ≤ r.added := Nat.le_add_left _ _
      exact heq.trans_le (Nat.add_le_add_right hadd _)

/-! ### Whole runs -/

/-- Before the first second is completed, nothing is missing from the value. -/
theorem Inv.stepOk (h : r.Inv) (hop : r.Allowed op) (hfirst : r.FirstSecond op) :
    r.StepOk op := by
  cases op with
  | update now => trivial
  | get now =>
      have hget := h.toNat_ktimeGetNs hop
      obtain ⟨hlow, hhigh⟩ := h.elapsed hop
      have hadded : r.added = r.st.core.xtimeNsec.toNat := by
        rw [added, show r.st.core.xtimeSec = 0#64 from hfirst]
        simp
      simp only [TimeOp.now] at hlow hhigh
      refine ⟨fun v hv => ?_, by omega, by omega⟩
      have hle := h.value v hv
      have hmono := r.since_mono hop.mono
      simp only [TimeOp.now] at hmono
      omega

/-- With fewer updates than nanoseconds in a second, a missing second is seen. -/
theorem Inv.firstSecond (h : r.Inv) (hop : r.Allowed op) (hfew : r.updates < 10 ^ 9)
    (hok : r.StepOk op) : r.FirstSecond op := by
  cases op with
  | update now => trivial
  | get now =>
      obtain ⟨-, -, hlow⟩ := hok
      have hget := h.toNat_ktimeGetNs hop
      obtain ⟨hle, -⟩ := h.elapsed hop
      simp only [TimeOp.now, added] at hle
      refine BitVec.eq_of_toNat_eq ?_
      simp only [BitVec.toNat_ofNat, Nat.zero_mod]
      omega

/-- The number of updates along a run. -/
theorem updates_lt {ops : List TimeOp} {n : ℕ} (r : TimeRun)
    (h : r.updates + ops.countP TimeOp.isUpdate < n) :
    Runs.Along next (fun r _ => r.updates < n) r ops := by
  induction ops generalizing r with
  | nil => trivial
  | cons op ops ih =>
      refine ⟨by omega, ih (r.next op) ?_⟩
      cases op with
      | update now =>
          rw [List.countP_cons_of_pos (by rfl)] at h
          simp only [next]
          omega
      | get now =>
          rw [List.countP_cons_of_neg (by simp [TimeOp.isUpdate])] at h
          exact h

end TimeRun

open TimeRun

/-- The clock is right along a run in which it is read only before the first second is completed;
and with fewer than 10^9 updates it is right along no other run. -/
theorem ktime_monotonic_iff (st : TimeState) (f : CounterFreq) (cycles : BitVec 64)
    (ops : List TimeOp) (hops : Runs.Along next Allowed (fresh st f cycles) ops) :
    (Runs.Along next FirstSecond (fresh st f cycles) ops →
        Runs.Along next StepOk (fresh st f cycles) ops) ∧
      (ops.countP TimeOp.isUpdate < 10 ^ 9 →
        (Runs.Along next StepOk (fresh st f cycles) ops ↔
          Runs.Along next FirstSecond (fresh st f cycles) ops)) := by
  have hinv := inv_fresh st f cycles
  constructor
  · intro hfirst
    exact Runs.along_of (fun r op h hop => ⟨h.next hop.1, h.stepOk hop.1 hop.2⟩) hinv
      (Runs.along_and.2 ⟨hops, hfirst⟩)
  · intro hfew
    have hboth : Runs.Along next (fun r op => r.Allowed op ∧ r.updates < 10 ^ 9)
        (fresh st f cycles) ops :=
      Runs.along_and.2 ⟨hops, updates_lt _ (by simpa [fresh] using hfew)⟩
    refine Runs.along_iff (fun r op h hop => ?_) (fun r op h hop _ => h.next hop.1) hinv hboth
    exact ⟨h.firstSecond hop.1 hop.2, h.stepOk hop.1⟩

/-- What the statics hold before `init`. -/
def TimeState.boot : TimeState :=
  ⟨⟨0#64, 1#32, 0#32, 0#64, 0#64⟩, ⟨0#32, 0#64, 0#64⟩⟩

/-- A counter with one cycle in each nanosecond. -/
def CounterFreq.nanoseconds : CounterFreq := ⟨1000000000#64, by decide, by decide⟩

theorem ktime_monotonic_short :
    Runs.Along next StepOk (fresh .boot .nanoseconds 0#64)
      [.get 5#64, .update 7#64, .get 9#64] := by
  refine (ktime_monotonic_iff .boot .nanoseconds 0#64 _ ?_).1 ?_
  · exact ⟨⟨by decide, by decide, by decide⟩, ⟨by decide, by decide, by decide⟩,
      ⟨by decide, by decide, by decide⟩, trivial⟩
  · exact ⟨rfl, trivial, rfl, trivial⟩

/-- A second goes by: the clock reads 999999999, is updated, and reads 0. -/
theorem ktime_goes_back :
    Runs.Along next Allowed (fresh .boot .nanoseconds 0#64)
        [.get 999999999#64, .update 1000000000#64, .get 1000000000#64] ∧
      ¬ Runs.Along next StepOk (fresh .boot .nanoseconds 0#64)
        [.get 999999999#64, .update 1000000000#64, .get 1000000000#64] := by
  refine ⟨⟨?_, ?_, ?_, trivial⟩, ?_⟩
  · exact ⟨by decide, by decide, by decide⟩
  · exact ⟨by decide, by decide, by decide⟩
  · exact ⟨by decide, by decide, by decide +kernel⟩
  · rintro ⟨-, -, ⟨hmono, -⟩, -⟩
    have hle := hmono 999999999#64 (by decide +kernel)
    revert hle
    decide +kernel

end StarOS
