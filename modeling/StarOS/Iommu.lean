/-
The IOMMU (`memory/iommu.rs`): devices, their mappings in sixteen slots, and the stream table.

`iommu_map` takes the first free slot and looks at no other mapping of the device, and `iommu_unmap`
frees the first slot with the given address and size.  If a second mapping of the device meets the
range, the device keeps it.

* `StarOS.IovaMapping`, `StarOS.DeviceContext`, `StarOS.StreamTableEntry`, `StarOS.Iommu` — the
  data;
* `StarOS.Iommu.attachDevice`, `StarOS.Iommu.detachDevice`, `StarOS.Iommu.map`,
  `StarOS.Iommu.unmap` — the calls;
* `StarOS.Iommu.live` — the mappings of a device;
* `StarOS.RevokesAccess` — what a run of calls should guarantee;
* `StarOS.iommu_revokes_iff` — when it does;
* `StarOS.revokesAccess_of_apart` — runs that never map a range over another one.
-/

import Mathlib.Data.List.Induction
import Mathlib.Data.List.Perm.Basic
import Mathlib.Data.List.ReduceOption
import Mathlib.Order.CompletePartialOrder
import Mathlib.Order.Interval.Set.Disjoint

set_option autoImplicit false

namespace StarOS

/-! ### Data -/

/-- `IommuProt`. -/
structure IommuProt where
  bits : BitVec 32
  deriving DecidableEq, Repr

/-- `StreamTableEntry`. -/
structure StreamTableEntry where
  valid : Bool
  deviceId : BitVec 16
  domainId : BitVec 16
  s1ContextPtr : BitVec 64
  deriving DecidableEq, Repr

/-- `IovaMapping`. -/
structure IovaMapping where
  iova : BitVec 64
  physAddr : BitVec 64
  size : BitVec 64
  prot : BitVec 32
  deriving DecidableEq, Repr

/-- `MAX_DEVICES`. -/
def maxDevices : ℕ := 32

/-- `MAX_MAPPINGS_PER_DEVICE`. -/
def maxMappingsPerDevice : ℕ := 16

/-- `DeviceContext`. -/
structure DeviceContext where
  attached : Bool
  domainId : BitVec 16
  mappings : List (Option IovaMapping)
  deriving DecidableEq, Repr

/-- `DeviceContext::new`. -/
def DeviceContext.new : DeviceContext := ⟨false, 0#16, List.replicate maxMappingsPerDevice none⟩

/-- `INITIALIZED`, `STREAM_TABLE` and `DEVICES`.  Only the entries below `MAX_DEVICES` exist. -/
structure Iommu where
  initialized : Bool
  streamTable : ℕ → StreamTableEntry
  devices : ℕ → DeviceContext

namespace Iommu

/-- The statics at boot. -/
def boot : Iommu := ⟨false, fun _ => ⟨false, 0#16, 0#16, 0#64⟩, fun _ => .new⟩

/-! ### Calls -/

/-- `iommu_attach_device`. -/
def attachDevice (s : Iommu) (deviceId domainId : BitVec 16) : Except String Unit × Iommu :=
  let idx := deviceId.toNat
  if maxDevices ≤ idx then (.error "device_id out of range", s)
  else if (s.devices idx).attached = true then (.error "device already attached", s)
  else
    (.ok (),
      { initialized := true
        streamTable := Function.update s.streamTable idx ⟨true, deviceId, domainId, 0#64⟩
        devices := Function.update s.devices idx
          { s.devices idx with attached := true, domainId := domainId } })

/-- `iommu_detach_device`. -/
def detachDevice (s : Iommu) (deviceId : BitVec 16) : Except String Unit × Iommu :=
  let idx := deviceId.toNat
  if maxDevices ≤ idx then (.error "device_id out of range", s)
  else if (s.devices idx).attached = false then (.error "device not attached", s)
  else
    (.ok (),
      { s with
        streamTable := Function.update s.streamTable idx
          { s.streamTable idx with valid := false }
        devices := Function.update s.devices idx .new })

/-- The loop of `iommu_map`: the first free slot takes the mapping. -/
def fillFirst (m : IovaMapping) : List (Option IovaMapping) → Option (List (Option IovaMapping))
  | [] => none
  | none :: slots => some (some m :: slots)
  | some m' :: slots => (fillFirst m slots).map (some m' :: ·)

/-- `iommu_map`. -/
def map (s : Iommu) (deviceId : BitVec 16) (iova physAddr size : BitVec 64) (prot : IommuProt) :
    Except String Unit × Iommu :=
  let idx := deviceId.toNat
  if maxDevices ≤ idx then (.error "device_id out of range", s)
  else if (s.devices idx).attached = false then (.error "device not attached", s)
  else
    match fillFirst ⟨iova, physAddr, size, prot.bits⟩ (s.devices idx).mappings with
    | some slots =>
        (.ok (),
          { s with
            devices := Function.update s.devices idx { s.devices idx with mappings := slots } })
    | none => (.error "no free mapping slots", s)

/-- The loop of `iommu_unmap`: the first slot with the address and the size is freed. -/
def removeFirst (iova size : BitVec 64) :
    List (Option IovaMapping) → Option (List (Option IovaMapping))
  | [] => none
  | none :: slots => (removeFirst iova size slots).map (none :: ·)
  | some m :: slots =>
      if m.iova = iova ∧ m.size = size then some (none :: slots)
      else (removeFirst iova size slots).map (some m :: ·)

/-- `iommu_unmap`. -/
def unmap (s : Iommu) (deviceId : BitVec 16) (iova size : BitVec 64) : Except String Unit × Iommu :=
  let idx := deviceId.toNat
  if maxDevices ≤ idx then (.error "device_id out of range", s)
  else if (s.devices idx).attached = false then (.error "device not attached", s)
  else
    match removeFirst iova size (s.devices idx).mappings with
    | some slots =>
        (.ok (),
          { s with
            devices := Function.update s.devices idx { s.devices idx with mappings := slots } })
    | none => (.error "mapping not found", s)

end Iommu

/-- A call. -/
inductive IommuCall where
  | attach (deviceId domainId : BitVec 16)
  | detach (deviceId : BitVec 16)
  | map (deviceId : BitVec 16) (iova physAddr size : BitVec 64) (prot : IommuProt)
  | unmap (deviceId : BitVec 16) (iova size : BitVec 64)
  deriving DecidableEq, Repr

/-- The device of a call. -/
def IommuCall.device : IommuCall → ℕ
  | attach d _ => d.toNat
  | detach d => d.toNat
  | map d _ _ _ _ => d.toNat
  | unmap d _ _ => d.toNat

namespace Iommu

/-- What a call returns and leaves. -/
def call (s : Iommu) : IommuCall → Except String Unit × Iommu
  | .attach d domain => s.attachDevice d domain
  | .detach d => s.detachDevice d
  | .map d iova phys size prot => s.map d iova phys size prot
  | .unmap d iova size => s.unmap d iova size

/-- The state after a list of calls. -/
def run (s : Iommu) (calls : List IommuCall) : Iommu := calls.foldl (fun s c => (s.call c).2) s

@[simp] theorem run_nil (s : Iommu) : s.run [] = s := rfl

@[simp] theorem run_cons (s : Iommu) (c : IommuCall) (calls : List IommuCall) :
    s.run (c :: calls) = (s.call c).2.run calls := rfl

@[simp] theorem run_append (s : Iommu) (calls calls' : List IommuCall) :
    s.run (calls ++ calls') = (s.run calls).run calls' :=
  List.foldl_append

/-! ### Mappings -/

/-- The mappings of a device. -/
def live (s : Iommu) (d : ℕ) : List IovaMapping := (s.devices d).mappings.reduceOption

theorem live_eq {s : Iommu} {d : ℕ} (ctx : DeviceContext) (h : s.devices d = ctx) :
    s.live d = ctx.mappings.reduceOption := by
  rw [live, h]

/-- The addresses from `iova` on. -/
def range (iova size : BitVec 64) : Set ℕ := Set.Ico iova.toNat (iova.toNat + size.toNat)

/-- The mapping has an address in common with a range. -/
def meets (iova size : BitVec 64) (m : IovaMapping) : Bool :=
  decide (max m.iova.toNat iova.toNat < min (m.iova.toNat + m.size.toNat) (iova.toNat + size.toNat))

theorem meets_eq_false {iova size : BitVec 64} {m : IovaMapping} :
    meets iova size m = false ↔ Disjoint (range m.iova m.size) (range iova size) := by
  rw [range, range, Set.Ico_disjoint_Ico, meets, decide_eq_false_iff_not, not_lt]

/-- Mapping puts one more mapping among those of the device. -/
theorem perm_of_fillFirst {m : IovaMapping} {slots slots' : List (Option IovaMapping)}
    (h : fillFirst m slots = some slots') :
    slots'.reduceOption.Perm (m :: slots.reduceOption) := by
  induction slots generalizing slots' with
  | nil => cases h
  | cons slot slots ih =>
      cases slot with
      | none =>
          cases h
          rw [List.reduceOption_cons_of_some, List.reduceOption_cons_of_none]
      | some m' =>
          obtain ⟨rest, hrest, rfl⟩ := Option.map_eq_some_iff.1 h
          rw [List.reduceOption_cons_of_some, List.reduceOption_cons_of_some]
          exact ((ih hrest).cons m').trans (.swap m m' _)

/-- Unmapping takes out one mapping with the address and the size. -/
theorem perm_of_removeFirst {iova size : BitVec 64} {slots slots' : List (Option IovaMapping)}
    (h : removeFirst iova size slots = some slots') :
    ∃ m : IovaMapping, m.iova = iova ∧ m.size = size ∧
      slots.reduceOption.Perm (m :: slots'.reduceOption) := by
  induction slots generalizing slots' with
  | nil => cases h
  | cons slot slots ih =>
      cases slot with
      | none =>
          obtain ⟨rest, hrest, rfl⟩ := Option.map_eq_some_iff.1 h
          rw [List.reduceOption_cons_of_none, List.reduceOption_cons_of_none]
          exact ih hrest
      | some m =>
          rw [removeFirst] at h
          split at h
          · rename_i hm
            cases h
            rw [List.reduceOption_cons_of_some, List.reduceOption_cons_of_none]
            exact ⟨m, hm.1, hm.2, .refl _⟩
          · obtain ⟨rest, hrest, rfl⟩ := Option.map_eq_some_iff.1 h
            obtain ⟨m', hiova, hsize, hperm⟩ := ih hrest
            rw [List.reduceOption_cons_of_some, List.reduceOption_cons_of_some]
            exact ⟨m', hiova, hsize, (hperm.cons m).trans (.swap m' m _)⟩

/-- The loop finds a mapping with the address and the size if there is one. -/
theorem removeFirst_isSome {iova size : BitVec 64} {slots : List (Option IovaMapping)}
    (h : ∃ m ∈ slots.reduceOption, m.iova = iova ∧ m.size = size) :
    ∃ slots', removeFirst iova size slots = some slots' := by
  induction slots with
  | nil =>
      obtain ⟨m, hm, -⟩ := h
      exact absurd hm List.not_mem_nil
  | cons slot slots ih =>
      cases slot with
      | none =>
          rw [List.reduceOption_cons_of_none] at h
          obtain ⟨rest, hrest⟩ := ih h
          exact ⟨none :: rest, by rw [removeFirst, hrest, Option.map_some]⟩
      | some m =>
          rw [removeFirst]
          split
          · exact ⟨_, rfl⟩
          · rename_i hne
            obtain ⟨m', hm', hmatch⟩ := h
            rw [List.reduceOption_cons_of_some] at hm'
            rcases List.mem_cons.1 hm' with rfl | hmem
            · exact absurd hmatch hne
            · obtain ⟨rest, hrest⟩ := ih ⟨m', hmem, hmatch⟩
              exact ⟨some m :: rest, by rw [hrest, Option.map_some]⟩

/-! ### What a call does -/

variable {s : Iommu}

/-- `iommu_attach_device` refuses, or it attaches a device that is not attached. -/
theorem attachDevice_cases (s : Iommu) (d domain : BitVec 16) :
    (∃ e, s.attachDevice d domain = (.error e, s)) ∨
      (s.devices d.toNat).attached = false ∧ s.attachDevice d domain =
        (.ok (),
          ⟨true, Function.update s.streamTable d.toNat ⟨true, d, domain, 0#64⟩,
            Function.update s.devices d.toNat
              ⟨true, domain, (s.devices d.toNat).mappings⟩⟩) := by
  unfold attachDevice
  by_cases hidx : maxDevices ≤ d.toNat
  · exact .inl ⟨_, if_pos hidx⟩
  · cases hatt : (s.devices d.toNat).attached with
    | true => exact .inl ⟨_, (if_neg hidx).trans (if_pos hatt)⟩
    | false => exact .inr ⟨rfl, (if_neg hidx).trans (if_neg (by rw [hatt]; decide))⟩

/-- `iommu_detach_device` refuses, or it resets a device. -/
theorem detachDevice_cases (s : Iommu) (d : BitVec 16) :
    (∃ e, s.detachDevice d = (.error e, s)) ∨
      s.detachDevice d =
        (.ok (),
          { s with
            streamTable := Function.update s.streamTable d.toNat
              { s.streamTable d.toNat with valid := false }
            devices := Function.update s.devices d.toNat .new }) := by
  unfold detachDevice
  by_cases hidx : maxDevices ≤ d.toNat
  · exact .inl ⟨_, if_pos hidx⟩
  · cases hatt : (s.devices d.toNat).attached with
    | false => exact .inl ⟨_, (if_neg hidx).trans (if_pos hatt)⟩
    | true => exact .inr ((if_neg hidx).trans (if_neg (by rw [hatt]; decide)))

/-- The state with other mappings of a device. -/
def withMappings (s : Iommu) (d : ℕ) (slots : List (Option IovaMapping)) : Iommu :=
  { s with devices := Function.update s.devices d { s.devices d with mappings := slots } }

@[simp] theorem withMappings_streamTable (d : ℕ) (slots : List (Option IovaMapping)) :
    (s.withMappings d slots).streamTable = s.streamTable := rfl

theorem withMappings_self (d : ℕ) (slots : List (Option IovaMapping)) :
    (s.withMappings d slots).devices d = { s.devices d with mappings := slots } :=
  Function.update_self ..

theorem withMappings_of_ne {d j : ℕ} (hj : j ≠ d) (slots : List (Option IovaMapping)) :
    (s.withMappings d slots).devices j = s.devices j :=
  Function.update_of_ne hj _ _

@[simp] theorem live_withMappings (d : ℕ) (slots : List (Option IovaMapping)) :
    (s.withMappings d slots).live d = slots.reduceOption := by
  rw [live, withMappings_self]

theorem withMappings_device (d : ℕ) (slots : List (Option IovaMapping)) (j : ℕ) :
    ((s.withMappings d slots).devices j).attached = (s.devices j).attached ∧
      ((s.withMappings d slots).devices j).domainId = (s.devices j).domainId := by
  by_cases hj : j = d
  · subst hj
    rw [withMappings_self]
    exact ⟨rfl, rfl⟩
  · rw [withMappings_of_ne hj]
    exact ⟨rfl, rfl⟩

/-- `iommu_map` refuses, or it adds the mapping. -/
theorem map_cases (s : Iommu) (d : BitVec 16) (iova phys size : BitVec 64) (prot : IommuProt) :
    (∃ e, s.map d iova phys size prot = (.error e, s)) ∨
      ∃ slots, s.map d iova phys size prot = (.ok (), s.withMappings d.toNat slots) ∧
        slots.reduceOption.Perm (⟨iova, phys, size, prot.bits⟩ :: s.live d.toNat) := by
  unfold map
  by_cases hidx : maxDevices ≤ d.toNat
  · exact .inl ⟨_, if_pos hidx⟩
  · cases hatt : (s.devices d.toNat).attached with
    | false => exact .inl ⟨_, (if_neg hidx).trans (if_pos hatt)⟩
    | true =>
        dsimp only
        rw [if_neg hidx, if_neg (by rw [hatt]; decide)]
        cases hfill : fillFirst ⟨iova, phys, size, prot.bits⟩ (s.devices d.toNat).mappings with
        | none => exact .inl ⟨_, rfl⟩
        | some slots => exact .inr ⟨slots, rfl, perm_of_fillFirst hfill⟩

/-- The device has a mapping with the address and the size. -/
def Found (s : Iommu) (d : BitVec 16) (iova size : BitVec 64) : Prop :=
  d.toNat < maxDevices ∧ (s.devices d.toNat).attached = true ∧
    ∃ m ∈ s.live d.toNat, m.iova = iova ∧ m.size = size

/-- `iommu_unmap` refuses, or it takes out one mapping with the address and the size. -/
theorem unmap_cases (s : Iommu) (d : BitVec 16) (iova size : BitVec 64) :
    (¬s.Found d iova size ∧ ∃ e, s.unmap d iova size = (.error e, s)) ∨
      s.Found d iova size ∧
        ∃ slots, s.unmap d iova size = (.ok (), s.withMappings d.toNat slots) ∧
          ∃ m : IovaMapping, m.iova = iova ∧ m.size = size ∧
            (s.live d.toNat).Perm (m :: slots.reduceOption) := by
  unfold unmap
  by_cases hidx : maxDevices ≤ d.toNat
  · exact .inl ⟨fun h => absurd h.1 (not_lt.2 hidx), _, if_pos hidx⟩
  · cases hatt : (s.devices d.toNat).attached with
    | false =>
        refine .inl ⟨fun h => ?_, _, (if_neg hidx).trans (if_pos hatt)⟩
        rw [Found, hatt] at h
        exact Bool.false_ne_true h.2.1
    | true =>
        dsimp only
        rw [if_neg hidx, if_neg (by rw [hatt]; decide)]
        cases hremove : removeFirst iova size (s.devices d.toNat).mappings with
        | none =>
            refine .inl ⟨fun h => ?_, _, rfl⟩
            obtain ⟨slots, hslots⟩ := removeFirst_isSome h.2.2
            rw [hslots] at hremove
            cases hremove
        | some slots =>
            obtain ⟨m, hiova, hsize, hperm⟩ := perm_of_removeFirst hremove
            refine .inr ⟨⟨not_le.1 hidx, hatt, m, ?_, hiova, hsize⟩, slots, rfl, m, hiova, hsize,
              hperm⟩
            exact hperm.mem_iff.2 List.mem_cons_self

/-- A call changes only its own device. -/
theorem call_frame (s : Iommu) (c : IommuCall) {j : ℕ} (hj : j ≠ c.device) :
    (s.call c).2.devices j = s.devices j ∧ (s.call c).2.streamTable j = s.streamTable j := by
  cases c with
  | attach d domain =>
      rcases s.attachDevice_cases d domain with ⟨e, heq⟩ | ⟨-, heq⟩
      · rw [call, heq]
        exact ⟨rfl, rfl⟩
      · rw [call, heq]
        exact ⟨Function.update_of_ne hj _ _, Function.update_of_ne hj _ _⟩
  | detach d =>
      rcases s.detachDevice_cases d with ⟨e, heq⟩ | heq
      · rw [call, heq]
        exact ⟨rfl, rfl⟩
      · rw [call, heq]
        exact ⟨Function.update_of_ne hj _ _, Function.update_of_ne hj _ _⟩
  | map d iova phys size prot =>
      rcases s.map_cases d iova phys size prot with ⟨e, heq⟩ | ⟨slots, heq, -⟩
      · rw [call, heq]
        exact ⟨rfl, rfl⟩
      · rw [call, heq]
        exact ⟨Function.update_of_ne hj _ _, rfl⟩
  | unmap d iova size =>
      rcases s.unmap_cases d iova size with ⟨-, e, heq⟩ | ⟨-, slots, heq, -⟩
      · rw [call, heq]
        exact ⟨rfl, rfl⟩
      · rw [call, heq]
        exact ⟨Function.update_of_ne hj _ _, rfl⟩

/-! ### The tables -/

/-- The stream table says of every device whether it is attached, and to which domain. -/
def Agree (s : Iommu) : Prop :=
  ∀ d, (s.streamTable d).valid = (s.devices d).attached ∧
    ((s.devices d).attached = true →
      (s.streamTable d).domainId = (s.devices d).domainId ∧ (s.streamTable d).deviceId.toNat = d)

theorem agree_boot : boot.Agree := fun _ => ⟨rfl, fun h => absurd h Bool.false_ne_true⟩

theorem Agree.withMappings (h : s.Agree) (d : ℕ) (slots : List (Option IovaMapping)) :
    (s.withMappings d slots).Agree := by
  intro j
  obtain ⟨hatt, hdomain⟩ := s.withMappings_device d slots j
  rw [hatt, hdomain, withMappings_streamTable]
  exact h j

theorem Agree.call (h : s.Agree) (c : IommuCall) : (s.call c).2.Agree := by
  cases c with
  | attach d domain =>
      rcases s.attachDevice_cases d domain with ⟨e, heq⟩ | ⟨-, heq⟩
      · rw [Iommu.call, heq]
        exact h
      · rw [Iommu.call, heq]
        intro j
        dsimp only
        by_cases hj : j = d.toNat
        · subst hj
          rw [Function.update_self, Function.update_self]
          exact ⟨rfl, fun _ => ⟨rfl, rfl⟩⟩
        · rw [Function.update_of_ne hj, Function.update_of_ne hj]
          exact h j
  | detach d =>
      rcases s.detachDevice_cases d with ⟨e, heq⟩ | heq
      · rw [Iommu.call, heq]
        exact h
      · rw [Iommu.call, heq]
        intro j
        dsimp only
        by_cases hj : j = d.toNat
        · subst hj
          rw [Function.update_self, Function.update_self]
          exact ⟨rfl, fun hfalse => absurd hfalse Bool.false_ne_true⟩
        · rw [Function.update_of_ne hj, Function.update_of_ne hj]
          exact h j
  | map d iova phys size prot =>
      rcases s.map_cases d iova phys size prot with ⟨e, heq⟩ | ⟨slots, heq, -⟩
      · rw [Iommu.call, heq]
        exact h
      · rw [Iommu.call, heq]
        exact h.withMappings _ _
  | unmap d iova size =>
      rcases s.unmap_cases d iova size with ⟨-, e, heq⟩ | ⟨-, slots, heq, -⟩
      · rw [Iommu.call, heq]
        exact h
      · rw [Iommu.call, heq]
        exact h.withMappings _ _

theorem Agree.run (h : s.Agree) (calls : List IommuCall) : (s.run calls).Agree := by
  induction calls generalizing s with
  | nil => exact h
  | cons c calls ih => exact ih (h.call c)

/-! ### The mappings after a call -/

/-- What a call does to the mappings of a device: nothing, or it drops them all, or it adds the one
that it maps, or it takes out one that it unmaps. -/
theorem live_call (s : Iommu) (c : IommuCall) (j : ℕ) :
    (s.call c).2.live j = s.live j ∨ (s.call c).2.live j = [] ∨
      (∃ d iova phys size prot, c = .map d iova phys size prot ∧ d.toNat = j ∧
        (s.call c).1 = .ok () ∧
        ((s.call c).2.live j).Perm (⟨iova, phys, size, prot.bits⟩ :: s.live j)) ∨
      ∃ m, (s.live j).Perm (m :: (s.call c).2.live j) := by
  by_cases hj : j = c.device
  · cases c with
    | attach d domain =>
        refine .inl ?_
        rcases s.attachDevice_cases d domain with ⟨e, heq⟩ | ⟨-, heq⟩
        · rw [call, heq]
        · rw [call, heq, hj]
          refine live_eq ⟨true, domain, (s.devices d.toNat).mappings⟩ ?_
          exact Function.update_self ..
    | detach d =>
        rcases s.detachDevice_cases d with ⟨e, heq⟩ | heq
        · rw [call, heq]
          exact .inl rfl
        · rw [call, heq, hj]
          refine .inr (.inl (live_eq .new ?_))
          exact Function.update_self ..
    | map d iova phys size prot =>
        rcases s.map_cases d iova phys size prot with ⟨e, heq⟩ | ⟨slots, heq, hperm⟩
        · rw [call, heq]
          exact .inl rfl
        · refine .inr (.inr (.inl ⟨d, iova, phys, size, prot, rfl, hj.symm, ?_, ?_⟩))
          · rw [call, heq]
          · rw [call, heq, hj]
            exact (live_withMappings d.toNat slots).symm ▸ hperm
    | unmap d iova size =>
        rcases s.unmap_cases d iova size with ⟨-, e, heq⟩ | ⟨-, slots, heq, m, -, -, hperm⟩
        · rw [call, heq]
          exact .inl rfl
        · refine .inr (.inr (.inr ⟨m, ?_⟩))
          rw [call, heq, hj]
          exact (live_withMappings d.toNat slots).symm ▸ hperm
  · refine .inl ?_
    rw [live, live, (s.call_frame c hj).1]

/-- A device without mappings keeps none as long as it is not mapped. -/
theorem live_eq_nil_of_call {c : IommuCall} {j : ℕ} (h : s.live j = [])
    (hmap : ∀ d iova phys size prot, c = .map d iova phys size prot → d.toNat ≠ j) :
    (s.call c).2.live j = [] := by
  rcases s.live_call c j with heq | hnil | ⟨d, iova, phys, size, prot, hc, hd, -, -⟩ | ⟨m, hperm⟩
  · rw [heq, h]
  · exact hnil
  · exact absurd hd (hmap d iova phys size prot hc)
  · rw [h] at hperm
    exact absurd hperm.length_eq (by simp)

theorem live_eq_nil_of_run {calls : List IommuCall} {j : ℕ} (h : s.live j = [])
    (hmap : ∀ c ∈ calls, ∀ d iova phys size prot, c = .map d iova phys size prot → d.toNat ≠ j) :
    (s.run calls).live j = [] := by
  induction calls generalizing s with
  | nil => exact h
  | cons c calls ih =>
      have hcall := live_eq_nil_of_call h (hmap c List.mem_cons_self)
      exact ih hcall fun c' hc' => hmap c' (List.mem_cons_of_mem c hc')

/-- A detached device has no mapping. -/
theorem live_detachDevice {d : BitVec 16} (h : (s.detachDevice d).1 = .ok ()) :
    (s.detachDevice d).2.live d.toNat = [] := by
  rcases s.detachDevice_cases d with ⟨e, heq⟩ | heq
  · rw [heq] at h
    cases h
  · rw [heq]
    refine live_eq .new ?_
    exact Function.update_self ..

/-! ### Unmapping -/

/-- A mapping meets its own range unless that is empty. -/
theorem meets_self {m : IovaMapping} (h : m.size ≠ 0#64) : meets m.iova m.size m = true := by
  have hpos : 0 < m.size.toNat := Nat.pos_of_ne_zero fun h0 => h (BitVec.eq_of_toNat_eq h0)
  rw [meets, decide_eq_true_eq, max_self, min_self]
  omega

/-- Nothing meets an empty range. -/
theorem meets_empty (iova : BitVec 64) (m : IovaMapping) : meets iova 0#64 m = false := by
  rw [meets_eq_false, range, range, BitVec.toNat_ofNat, Nat.zero_mod, Nat.add_zero, Set.Ico_self]
  exact Set.disjoint_empty _

/-- When one mapping has been taken out, no other one meets its range exactly if at most one did
before. -/
theorem all_disjoint_iff {m : IovaMapping} {before after : List IovaMapping}
    (hperm : before.Perm (m :: after)) :
    (∀ m' ∈ after, Disjoint (range m'.iova m'.size) (range m.iova m.size)) ↔
      before.countP (meets m.iova m.size) ≤ 1 := by
  have hall : (∀ m' ∈ after, Disjoint (range m'.iova m'.size) (range m.iova m.size)) ↔
      after.countP (meets m.iova m.size) = 0 := by
    simp only [List.countP_eq_zero, ← meets_eq_false, Bool.not_eq_true]
  rw [hall, hperm.countP_eq, List.countP_cons]
  by_cases hsize : m.size = 0#64
  · have hnone : after.countP (meets m.iova m.size) = 0 := by
      rw [List.countP_eq_zero, hsize]
      intro m' _
      rw [meets_empty]
      exact Bool.false_ne_true
    rw [hnone, hsize, meets_empty]
    exact iff_of_true rfl (by decide)
  · rw [meets_self hsize, if_pos rfl]
    omega

/-- After `iommu_unmap` no mapping of the device meets the range. -/
def Unmapped (s : Iommu) (d : BitVec 16) (iova size : BitVec 64) : Prop :=
  (s.unmap d iova size).1 = .ok () → ∀ m ∈ (s.unmap d iova size).2.live d.toNat,
    Disjoint (range m.iova m.size) (range iova size)

theorem unmapped_iff {d : BitVec 16} {iova size : BitVec 64} :
    s.Unmapped d iova size ↔
      (s.Found d iova size → (s.live d.toNat).countP (meets iova size) ≤ 1) := by
  rcases s.unmap_cases d iova size with ⟨hnot, e, heq⟩ | ⟨hfound, slots, heq, m, rfl, rfl, hperm⟩
  · rw [Unmapped, heq]
    exact iff_of_true (fun h => by cases h) fun h => absurd h hnot
  · rw [Unmapped, heq, live_withMappings]
    have hiff := all_disjoint_iff hperm
    exact ⟨fun h _ => hiff.1 (h rfl), fun h _ => hiff.2 (h hfound)⟩

end Iommu

open Iommu

/-! ### Runs -/

/-- What a run should guarantee: unmapping and detaching revoke access, the tables agree, and a call
changes only its own device. -/
structure RevokesAccess (calls : List IommuCall) : Prop where
  unmapped : ∀ pre d iova size post, calls = pre ++ .unmap d iova size :: post →
    (boot.run pre).Unmapped d iova size
  detached : ∀ pre d mid post, calls = pre ++ .detach d :: (mid ++ post) →
    ((boot.run pre).detachDevice d).1 = .ok () →
    (∀ c ∈ mid, ∀ d' iova phys size prot, c = .map d' iova phys size prot → d' ≠ d) →
    (boot.run (pre ++ .detach d :: mid)).live d.toNat = []
  agree : ∀ pre post, calls = pre ++ post → (boot.run pre).Agree
  frame : ∀ pre c post, calls = pre ++ c :: post → ∀ j, j ≠ c.device →
    ((boot.run pre).call c).2.devices j = (boot.run pre).devices j ∧
      ((boot.run pre).call c).2.streamTable j = (boot.run pre).streamTable j

/-- **A run guarantees all of it exactly if, whenever `iommu_unmap` finds its mapping, at most one
mapping of the device meets the range.** -/
theorem iommu_revokes_iff (calls : List IommuCall) :
    RevokesAccess calls ↔ ∀ pre d iova size post, calls = pre ++ .unmap d iova size :: post →
      (boot.run pre).Found d iova size →
        ((boot.run pre).live d.toNat).countP (meets iova size) ≤ 1 := by
  constructor
  · intro h pre d iova size post hcalls
    exact unmapped_iff.1 (h.unmapped pre d iova size post hcalls)
  · intro h
    refine ⟨fun pre d iova size post hcalls => ?_, fun pre d mid post _ hok hmid => ?_,
      fun pre _ _ => agree_boot.run pre, fun pre c _ _ j hj => call_frame _ c hj⟩
    · exact unmapped_iff.2 (h pre d iova size post hcalls)
    · rw [run_append, run_cons]
      refine live_eq_nil_of_run (live_detachDevice hok) fun c hc d' iova phys size prot hmap => ?_
      exact fun heq => hmid c hc d' iova phys size prot hmap (BitVec.eq_of_toNat_eq heq)

/-- After a range is mapped twice, unmapping it once leaves the second mapping. -/
theorem iommu_mapped_twice :
    ¬∀ calls, RevokesAccess calls := by
  intro hall
  have h := (hall [.attach 0#16 1#16, .map 0#16 0x1000#64 0x80000000#64 4096#64 ⟨3#32⟩,
    .map 0#16 0x1000#64 0x90000000#64 4096#64 ⟨3#32⟩, .unmap 0#16 0x1000#64 4096#64]).unmapped
    [.attach 0#16 1#16, .map 0#16 0x1000#64 0x80000000#64 4096#64 ⟨3#32⟩,
      .map 0#16 0x1000#64 0x90000000#64 4096#64 ⟨3#32⟩] 0#16 0x1000#64 4096#64 [] rfl rfl
    ⟨0x1000#64, 0x90000000#64, 4096#64, 3#32⟩ (List.mem_singleton.2 rfl)
  exact absurd (meets_eq_false.2 h) (by decide)

/-! ### Runs that map no range over another one -/

/-- No two mappings of a device meet. -/
def Apart (s : Iommu) : Prop :=
  ∀ j, (s.live j).Pairwise fun m m' => Disjoint (range m.iova m.size) (range m'.iova m'.size)

theorem apart_boot : Apart boot := by
  intro j
  rw [live, boot, DeviceContext.new, List.reduceOption_replicate_none]
  exact List.Pairwise.nil

theorem Apart.call {s : Iommu} {c : IommuCall} (h : Apart s)
    (hmap : ∀ d iova phys size prot, c = .map d iova phys size prot →
      ∀ m ∈ s.live d.toNat, Disjoint (range m.iova m.size) (range iova size)) :
    Apart (s.call c).2 := by
  intro j
  rcases s.live_call c j with heq | hnil | ⟨d, iova, phys, size, prot, hc, rfl, -, hperm⟩ |
    ⟨m, hperm⟩
  · rw [heq]
    exact h j
  · rw [hnil]
    exact List.Pairwise.nil
  · rw [hperm.pairwise_iff fun hdisj => hdisj.symm, List.pairwise_cons]
    exact ⟨fun m hm => (hmap d iova phys size prot hc m hm).symm, h _⟩
  · have hall := (hperm.pairwise_iff fun hdisj => hdisj.symm).1 (h j)
    exact (List.pairwise_cons.1 hall).2

/-- At most one mapping meets the range of a mapping, if no two meet. -/
theorem Apart.countP_le {s : Iommu} (h : Apart s) {d : ℕ} {m : IovaMapping} (hm : m ∈ s.live d) :
    (s.live d).countP (meets m.iova m.size) ≤ 1 := by
  have hperm := List.perm_cons_erase hm
  have hall := (hperm.pairwise_iff fun hdisj => hdisj.symm).1 (h d)
  exact (all_disjoint_iff hperm).1 fun m' hm' => ((List.pairwise_cons.1 hall).1 m' hm').symm

/-- A run guarantees all of it if no range is mapped that meets a mapping of the device. -/
theorem revokesAccess_of_apart {calls : List IommuCall}
    (h : ∀ pre d iova phys size prot post, calls = pre ++ .map d iova phys size prot :: post →
      ∀ m ∈ (boot.run pre).live d.toNat, Disjoint (range m.iova m.size) (range iova size)) :
    RevokesAccess calls := by
  have hapart : ∀ pre post, calls = pre ++ post → Apart (boot.run pre) := by
    intro pre
    induction pre using List.reverseRecOn with
    | nil => exact fun _ _ => apart_boot
    | append_singleton pre c ih =>
        intro post hcalls
        rw [List.append_assoc] at hcalls
        rw [run_append]
        refine (ih _ hcalls).call fun d iova phys size prot hc => ?_
        exact h pre d iova phys size prot post (hc ▸ hcalls)
  refine (iommu_revokes_iff calls).2 fun pre d iova size post hcalls hfound => ?_
  obtain ⟨-, -, m, hm, rfl, rfl⟩ := hfound
  exact (hapart pre _ hcalls).countP_le hm

end StarOS
