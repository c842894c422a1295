/-
The memory map (`safety/memory_map.rs`): which addresses may be written.

An address is safe if it lies in a writable safe region and in no forbidden one.  `validate_region`
asks this only of the addresses that are a multiple of 4096 behind the start of the range.  Between
two of these probes an address can become unsafe: only where a forbidden region starts or a safe
region ends.  A range that is accepted is safe throughout exactly if all such edges that lie in it,
off the probes, are themselves safe.

* `StarOS.MemoryRegion`, `StarOS.MemoryMap` — the data;
* `StarOS.MemoryMap.isSafeToWrite`, `StarOS.MemoryMap.validateRegion` and the other operations;
* `StarOS.MemoryMap.NoWrap` — no region wraps around the address space;
* `StarOS.MemoryMap.edges` — the starts of forbidden regions and the ends of safe regions;
* `StarOS.MemoryMap.validateRegion_ok_iff` — when a range is accepted;
* `StarOS.MemoryMap.safe_succ` — an address behind a safe one is safe unless it is an edge;
* `StarOS.validateRegion_sound_iff` — when an accepted range is safe throughout;
* `StarOS.validateRegion_misses_forbidden` — a range that is accepted and meets a forbidden region.
-/

import StarOS.Error
import StarOS.Word
import Mathlib.Tactic.Cases

set_option autoImplicit false

namespace StarOS

/-! ### Data -/

/-- A region.  Its start is the `u64` of a `PhysAddr`. -/
structure MemoryRegion where
  start : Usize
  size : Usize
  writable : Bool
  name : String
  deriving DecidableEq, Repr

/-- The test `addr >= start && addr < start + size`. -/
def MemoryRegion.contains (r : MemoryRegion) (addr : Usize) : Bool :=
  decide (r.start ≤ addr) && decide (addr < r.start + r.size)

/-- The memory map. -/
structure MemoryMap where
  safeRegions : List MemoryRegion
  forbiddenRegions : List MemoryRegion
  deriving DecidableEq, Repr

namespace MemoryMap

/-- `MemoryMap::new`. -/
def new : MemoryMap := ⟨[], []⟩

/-- `MemoryMap::add_safe_region`. -/
def addSafeRegion (m : MemoryMap) (start size : Usize) (name : String) : MemoryMap :=
  { m with safeRegions := m.safeRegions ++ [⟨start, size, true, name⟩] }

/-- `MemoryMap::add_forbidden_region`. -/
def addForbiddenRegion (m : MemoryMap) (start size : Usize) (name : String) : MemoryMap :=
  { m with forbiddenRegions := m.forbiddenRegions ++ [⟨start, size, false, name⟩] }

/-- `MemoryMap::is_forbidden`. -/
def isForbidden (m : MemoryMap) (addr : Usize) : Bool :=
  m.forbiddenRegions.any fun r => r.contains addr

/-- `MemoryMap::is_safe_to_write`. -/
def isSafeToWrite (m : MemoryMap) (addr : Usize) : Bool :=
  if m.forbiddenRegions.any fun r => r.contains addr then false
  else m.safeRegions.any fun r => r.writable && r.contains addr

/-- The distance of the probes. -/
def probeStride : ℕ := 4096

/-- The loop of `validate_region`, for as many rounds as there is fuel. -/
def validateLoop (m : MemoryMap) : ℕ → Usize → Usize → Option (Except KernelError Unit)
  | 0, _, _ => none
  | fuel + 1, current, endAddr =>
      if current < endAddr then
        if m.isSafeToWrite current then m.validateLoop fuel (current + 4096#64) endAddr
        else some (.error .invalidAddress)
      else some (.ok ())

/-- `MemoryMap::validate_region`. -/
def validateRegion (m : MemoryMap) (fuel : ℕ) (addr size : Usize) :
    Option (Except KernelError Unit) :=
  if size = 0#64 then some (.error .invalidAddress)
  else if 2 ^ 64 ≤ addr.toNat + size.toNat then some (.error .invalidAddress)
  else if addr + size ≤ addr then some (.error .invalidAddress)
  else m.validateLoop fuel addr (addr + size)

/-- The end of no region wraps around. -/
def NoWrap (m : MemoryMap) : Prop :=
  ∀ r ∈ m.safeRegions ++ m.forbiddenRegions, r.start.toNat + r.size.toNat < 2 ^ 64

instance (m : MemoryMap) : Decidable m.NoWrap :=
  inferInstanceAs (Decidable (∀ r ∈ _, _))

/-- The addresses at which a forbidden region starts or a writable safe region ends. -/
def edges (m : MemoryMap) : List Usize :=
  (m.forbiddenRegions.map fun r => r.start) ++
    (m.safeRegions.filter fun r => r.writable).map fun r => r.start + r.size

variable {m : MemoryMap} {r : MemoryRegion} {a addr size endAddr : Usize}

/-! ### Safe addresses -/

theorem contains_iff (h : r.start.toNat + r.size.toNat < 2 ^ 64) :
    r.contains a = true ↔
      r.start.toNat ≤ a.toNat ∧ a.toNat < r.start.toNat + r.size.toNat := by
  have hend : (r.start + r.size).toNat = r.start.toNat + r.size.toNat := by
    rw [BitVec.toNat_add, Nat.mod_eq_of_lt h]
  rw [MemoryRegion.contains, Bool.and_eq_true, decide_eq_true_iff, decide_eq_true_iff,
    BitVec.le_def, BitVec.lt_def, hend]

theorem isForbidden_iff :
    m.isForbidden a = true ↔ ∃ r ∈ m.forbiddenRegions, r.contains a = true := by
  rw [isForbidden, List.any_eq_true]

theorem isSafeToWrite_iff :
    m.isSafeToWrite a = true ↔ m.isForbidden a = false ∧
      ∃ r ∈ m.safeRegions, r.writable = true ∧ r.contains a = true := by
  rw [isSafeToWrite, isForbidden]
  split
  · rename_i hf
    rw [hf]
    exact ⟨fun h => absurd h (by decide), fun h => absurd h.1 (by decide)⟩
  · rename_i hf
    rw [Bool.not_eq_true] at hf
    simp only [hf, List.any_eq_true, Bool.and_eq_true, true_and]

/-- The address behind a safe one is safe unless it is an edge. -/
theorem safe_succ (hm : m.NoWrap) {b : Usize} (hb : b.toNat = a.toNat + 1)
    (ha : m.isSafeToWrite a = true) (hedge : b ∉ m.edges) : m.isSafeToWrite b = true := by
  obtain ⟨hfree, r, hr, hw, hra⟩ := isSafeToWrite_iff.1 ha
  refine isSafeToWrite_iff.2 ⟨?_, r, hr, hw, ?_⟩
  · -- a forbidden region that contains `b` and does not start there contains `a`
    by_contra hforb
    obtain ⟨f, hf, hfb⟩ := isForbidden_iff.1 (Bool.not_eq_false _ ▸ hforb)
    have hwrap := hm f (List.mem_append_right _ hf)
    have hstart : f.start ≠ b := by
      rintro rfl
      exact hedge (List.mem_append_left _ (List.mem_map_of_mem hf))
    have hne : f.start.toNat ≠ b.toNat := fun h => hstart (BitVec.eq_of_toNat_eq h)
    rw [contains_iff hwrap] at hfb
    have hfa : f.contains a = true := by
      rw [contains_iff hwrap]
      omega
    rw [isForbidden_iff.2 ⟨f, hf, hfa⟩] at hfree
    exact absurd hfree (by decide)
  · -- the safe region does not end at `b`
    have hwrap := hm r (List.mem_append_left _ hr)
    have hend : r.start + r.size ≠ b := by
      rintro rfl
      refine hedge (List.mem_append_right _ (List.mem_map_of_mem ?_))
      exact List.mem_filter.2 ⟨hr, hw⟩
    have hne : r.start.toNat + r.size.toNat ≠ b.toNat := by
      intro h
      refine hend (BitVec.eq_of_toNat_eq ?_)
      rw [BitVec.toNat_add, Nat.mod_eq_of_lt hwrap, h]
    rw [contains_iff hwrap] at hra ⊢
    omega

/-! ### The probes -/

/-- The probe `k` strides behind an address. -/
def probe (addr : Usize) (k : ℕ) : Usize := BitVec.ofNat 64 (addr.toNat + probeStride * k)

/-- All probes of a range are safe. -/
def ProbesSafe (m : MemoryMap) (addr endAddr : Usize) : Prop :=
  ∀ k, addr.toNat + probeStride * k < endAddr.toNat → m.isSafeToWrite (probe addr k) = true

theorem probe_zero (addr : Usize) : probe addr 0 = addr := by
  rw [probe, Nat.mul_zero, Nat.add_zero, BitVec.ofNat_toNat, BitVec.setWidth_eq]

theorem toNat_add_stride (h : addr.toNat + probeStride < 2 ^ 64) :
    (addr + 4096#64).toNat = addr.toNat + probeStride := by
  rw [BitVec.toNat_add, BitVec.toNat_ofNat]
  exact Nat.mod_eq_of_lt h

theorem probe_succ (h : addr.toNat + probeStride < 2 ^ 64) (k : ℕ) :
    probe addr (k + 1) = probe (addr + 4096#64) k := by
  rw [probe, probe, toNat_add_stride h, Nat.mul_succ, Nat.add_assoc,
    Nat.add_comm (probeStride * k)]

/-- If the loop accepts, the probes are safe. -/
theorem probesSafe_of_ok {fuel : ℕ} {current : Usize}
    (h : m.validateLoop fuel current endAddr = some (.ok ())) : m.ProbesSafe current endAddr := by
  induction fuel generalizing current with
  | zero => exact absurd h (by simp [validateLoop])
  | succ fuel ih =>
      intro k hk
      have hlt : current < endAddr := by
        rw [BitVec.lt_def]
        omega
      rw [validateLoop, if_pos hlt] at h
      split at h
      · rename_i hsafe
        cases k with
        | zero =>
            rw [probe_zero]
            exact hsafe
        | succ k =>
            have hend := endAddr.isLt
            have hstep : current.toNat + probeStride < 2 ^ 64 := by
              rw [Nat.mul_succ] at hk
              omega
            rw [probe_succ hstep]
            refine ih h k ?_
            rw [toNat_add_stride hstep]
            rw [Nat.mul_succ] at hk
            omega
      · exact absurd h (by simp)

/-- If the probes are safe and the address behind the last one does not wrap, the loop accepts. -/
theorem ok_of_probesSafe {n : ℕ} {current : Usize} (h : m.ProbesSafe current endAddr)
    (hroom : current.toNat + probeStride * n < 2 ^ 64)
    (hend : endAddr.toNat ≤ current.toNat + probeStride * n) :
    m.validateLoop (n + 1) current endAddr = some (.ok ()) := by
  induction n generalizing current with
  | zero =>
      rw [validateLoop, if_neg]
      rw [BitVec.lt_def]
      omega
  | succ n ih =>
      by_cases hlt : current < endAddr
      · have hsafe : m.isSafeToWrite current = true := by
          have h0 := h 0 (by rw [Nat.mul_zero, Nat.add_zero]; exact BitVec.lt_def.1 hlt)
          rwa [probe_zero] at h0
        rw [Nat.mul_succ] at hroom hend
        have hstep : current.toNat + probeStride < 2 ^ 64 := by omega
        have hnext := toNat_add_stride hstep
        rw [validateLoop, if_pos hlt, if_pos hsafe]
        refine ih (fun k hk => ?_) (by omega) (by omega)
        rw [← probe_succ hstep]
        refine h (k + 1) ?_
        rw [Nat.mul_succ]
        omega
      · rw [validateLoop, if_neg hlt]

/-- If the address behind the last probe wraps, the loop goes around and never accepts. -/
theorem not_ok_of_wrap {fuel p : ℕ} {current : Usize} (hp : 2 ^ 64 ≤ p + probeStride)
    (hlast : p < endAddr.toNat) (hmod : current.toNat % probeStride = p % probeStride) :
    m.validateLoop fuel current endAddr ≠ some (.ok ()) := by
  induction fuel generalizing current with
  | zero => simp [validateLoop]
  | succ fuel ih =>
      rw [probeStride] at hp hmod
      have hlt : current < endAddr := by
        have hbound := current.isLt
        rw [BitVec.lt_def]
        omega
      rw [validateLoop, if_pos hlt]
      split
      · refine ih ?_
        rw [BitVec.toNat_add, BitVec.toNat_ofNat, probeStride]
        omega
      · simp

/-- The number of probes of a range. -/
def probeCount (size : Usize) : ℕ := (size.toNat + 4095) / probeStride

/-- A range is accepted exactly if it is not empty, neither it nor the address behind its last probe
wraps, and the probes are safe. -/
theorem validateRegion_ok_iff :
    (∃ fuel, m.validateRegion fuel addr size = some (.ok ())) ↔
      size ≠ 0#64 ∧ addr.toNat + probeStride * probeCount size < 2 ^ 64 ∧
        m.ProbesSafe addr (addr + size) := by
  have hcover : size.toNat ≤ probeStride * probeCount size := by
    rw [probeCount, probeStride]
    omega
  by_cases hzero : size = 0#64
  · simp [validateRegion, hzero]
  by_cases hend : 2 ^ 64 ≤ addr.toNat + size.toNat
  · constructor
    · rintro ⟨fuel, h⟩
      rw [validateRegion, if_neg hzero, if_pos hend] at h
      exact absurd h (by simp)
    · rintro ⟨-, hroom, -⟩
      omega
  · have hpos : 0 < size.toNat := by
      refine Nat.pos_of_ne_zero fun h => hzero (BitVec.eq_of_toNat_eq ?_)
      rw [h]
      rfl
    have hsum : (addr + size).toNat = addr.toNat + size.toNat := by
      rw [BitVec.toNat_add, Nat.mod_eq_of_lt (not_le.1 hend)]
    have hgrow : ¬ addr + size ≤ addr := by
      rw [BitVec.le_def]
      omega
    have hloop : ∀ fuel, m.validateRegion fuel addr size =
        m.validateLoop fuel addr (addr + size) := fun fuel => by
      rw [validateRegion, if_neg hzero, if_neg hend, if_neg hgrow]
    constructor
    · rintro ⟨fuel, h⟩
      rw [hloop] at h
      refine ⟨hzero, ?_, probesSafe_of_ok h⟩
      by_contra hroom
      -- the last probe lies in the range
      have hlast : probeStride * (probeCount size - 1) < size.toNat := by
        rw [probeCount, probeStride]
        omega
      have hnext : probeStride * probeCount size =
          probeStride * (probeCount size - 1) + probeStride := by
        rw [probeCount, probeStride]
        omega
      refine not_ok_of_wrap (p := addr.toNat + probeStride * (probeCount size - 1))
        (by omega) (by omega) ?_ h
      rw [Nat.add_mul_mod_self_left]
    · rintro ⟨-, hroom, hsafe⟩
      refine ⟨probeCount size + 1, ?_⟩
      rw [hloop]
      exact ok_of_probesSafe hsafe hroom (by omega)

/-! ### Between the probes -/

/-- Every edge that lies in the range, off the probes, is safe. -/
def EdgesSafe (m : MemoryMap) (addr size : Usize) : Prop :=
  ∀ e ∈ m.edges, addr.toNat < e.toNat → e.toNat < addr.toNat + size.toNat →
    (e.toNat - addr.toNat) % probeStride ≠ 0 → m.isSafeToWrite e = true

instance (m : MemoryMap) (addr size : Usize) : Decidable (m.EdgesSafe addr size) :=
  List.decidableBAll (fun e : Usize => addr.toNat < e.toNat → e.toNat < addr.toNat + size.toNat →
    (e.toNat - addr.toNat) % probeStride ≠ 0 → m.isSafeToWrite e = true) m.edges

/-- If the probes and the edges off the probes are safe, the whole range is. -/
theorem safe_of_edgesSafe (hm : m.NoWrap) (hend : addr.toNat + size.toNat < 2 ^ 64)
    (hprobes : m.ProbesSafe addr (addr + size)) (hedges : m.EdgesSafe addr size) {j : ℕ}
    (hj : j < size.toNat) : m.isSafeToWrite (BitVec.ofNat 64 (addr.toNat + j)) = true := by
  have hsum : (addr + size).toNat = addr.toNat + size.toNat := by
    rw [BitVec.toNat_add, Nat.mod_eq_of_lt hend]
  have hval : ∀ i, i ≤ j → (BitVec.ofNat 64 (addr.toNat + i)).toNat = addr.toNat + i :=
    fun i hi => by rw [BitVec.toNat_ofNat, Nat.mod_eq_of_lt (by omega)]
  induction j with
  | zero =>
      have h0 := hprobes 0 (by omega)
      rwa [probe, Nat.mul_zero] at h0
  | succ j ih =>
      by_cases hgrid : (j + 1) % probeStride = 0
      · -- a probe
        obtain ⟨k, hk⟩ := Nat.dvd_of_mod_eq_zero hgrid
        have hsafe := hprobes k (by omega)
        rwa [probe, ← hk] at hsafe
      · have hthis := hval (j + 1) le_rfl
        have hlast := hval j (Nat.le_succ j)
        by_cases hedge : BitVec.ofNat 64 (addr.toNat + (j + 1)) ∈ m.edges
        · refine hedges _ hedge (by omega) (by omega) ?_
          rwa [hthis, Nat.add_sub_cancel_left]
        · exact safe_succ hm (by omega) (ih (by omega) fun i hi => hval i (by omega)) hedge

end MemoryMap

open MemoryMap

/-- **When an accepted range is safe throughout.**  For a map without regions that wrap around:
acceptance of a range means that every address in it is safe, and none is forbidden, exactly if the
range is empty, or it or the address behind its last probe wraps, or a probe is not safe, or every
edge in it off the probes is safe. -/
theorem validateRegion_sound_iff {m : MemoryMap} (hm : m.NoWrap) (addr size : Usize) :
    ((∃ fuel, m.validateRegion fuel addr size = some (.ok ())) →
        ∀ a : Usize, addr.toNat ≤ a.toNat → a.toNat < addr.toNat + size.toNat →
          m.isSafeToWrite a = true ∧ m.isForbidden a = false) ↔
      size = 0#64 ∨ 2 ^ 64 ≤ addr.toNat + probeStride * probeCount size ∨
        (∃ k, probeStride * k < size.toNat ∧ m.isSafeToWrite (probe addr k) = false) ∨
        m.EdgesSafe addr size := by
  have hcover : size.toNat ≤ probeStride * probeCount size := by
    rw [probeCount, probeStride]
    omega
  rw [validateRegion_ok_iff]
  constructor
  · intro hsound
    by_cases hzero : size = 0#64
    · exact Or.inl hzero
    by_cases hroom : addr.toNat + probeStride * probeCount size < 2 ^ 64
    · refine Or.inr (Or.inr ?_)
      by_cases hprobes : ∃ k, probeStride * k < size.toNat ∧ m.isSafeToWrite (probe addr k) = false
      · exact Or.inl hprobes
      · refine Or.inr fun e _ hlo hhi _ => ?_
        have hsafe : m.ProbesSafe addr (addr + size) := by
          intro k hk
          by_contra hk'
          rw [BitVec.toNat_add, Nat.mod_eq_of_lt (by omega)] at hk
          exact hprobes ⟨k, by omega, Bool.not_eq_true _ ▸ hk'⟩
        exact (hsound ⟨hzero, hroom, hsafe⟩ e hlo.le hhi).1
    · exact Or.inr (Or.inl (not_lt.1 hroom))
  · rintro hcond ⟨hzero, hroom, hprobes⟩ a hlo hhi
    have hsum : (addr + size).toNat = addr.toNat + size.toNat := by
      rw [BitVec.toNat_add, Nat.mod_eq_of_lt (by omega)]
    rcases hcond with h | h | ⟨k, hk, hunsafe⟩ | hedges
    · exact absurd h hzero
    · exact absurd hroom (not_lt.2 h)
    · rw [hprobes k (by omega)] at hunsafe
      exact absurd hunsafe (by decide)
    · have hsafe := safe_of_edgesSafe hm (by omega) hprobes hedges (j := a.toNat - addr.toNat)
        (by omega)
      rw [Nat.add_sub_cancel' hlo, BitVec.ofNat_toNat, BitVec.setWidth_eq] at hsafe
      exact ⟨hsafe, (isSafeToWrite_iff.1 hsafe).1⟩

/-- Three pages of memory, the last of them forbidden. -/
def guardedMap : MemoryMap :=
  (new.addSafeRegion 0x1000#64 0x3000#64 "ram").addForbiddenRegion 0x3000#64 0x1000#64 "guard"

/-- The two pages in front of the forbidden one are accepted, and safe throughout. -/
theorem validateRegion_sound_iff_guarded :
    guardedMap.isSafeToWrite 0x2fff#64 = true ∧ guardedMap.isForbidden 0x2fff#64 = false := by
  have hcond : guardedMap.EdgesSafe 0x1000#64 0x2000#64 := by decide
  have haccepted : ∃ fuel, guardedMap.validateRegion fuel 0x1000#64 0x2000#64 = some (.ok ()) :=
    ⟨3, by decide +kernel⟩
  exact (validateRegion_sound_iff (m := guardedMap) (by decide) 0x1000#64 0x2000#64).2
    (Or.inr (Or.inr (Or.inr hcond))) haccepted 0x2fff#64 (by decide) (by decide)

/-- Two pages of memory with a forbidden region inside the first. -/
def pocketMap : MemoryMap :=
  (new.addSafeRegion 0x1000#64 0x2000#64 "ram").addForbiddenRegion 0x1800#64 0x100#64 "secure"

/-- The forbidden region is between two probes: the page around it is accepted. -/
theorem validateRegion_misses_forbidden :
    pocketMap.NoWrap ∧ pocketMap.validateRegion 2 0x1000#64 0x1000#64 = some (.ok ()) ∧
      pocketMap.isForbidden 0x1800#64 = true ∧ pocketMap.isSafeToWrite 0x1800#64 = false := by
  decide +kernel

end StarOS
