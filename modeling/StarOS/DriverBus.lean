/-
The driver core (`drivers/base/bus.rs`): the devices and drivers of a bus, and what is bound to
what.

A binding is written down twice, in the device and in the list of the driver.  It is made in one
place, where the list grows, and it is ended in two places, and there only the device forgets it:
the list of a driver holds every device that was ever bound to it.

* `StarOS.BusType`, `StarOS.Wiring`, `StarOS.SubsysPrivate`, `StarOS.BusState` — buses, the fixed
  fields of devices and drivers, and the state;
* `StarOS.BusState.driverProbeDevice` and the functions around it — the code;
* `StarOS.BusState.Probed`, `StarOS.BusState.Detached` — what probing and detaching may change;
* `StarOS.BusRun.Listed`, `StarOS.BusRun.Counted` — what holds in every run;
* `StarOS.driverBus_consistent_iff` — when the two records of a binding agree all along a run.
-/

import StarOS.Runs
import Mathlib.Data.List.Count
import Mathlib.Logic.Function.Basic

set_option autoImplicit false

namespace StarOS

/-! ### Buses, devices and drivers -/

/-- `BusError`. -/
inductive BusError where
  | invalidBus
  | invalidDevice
  | invalidDriver
  | noMatch
  | busy
  | noMemory
  deriving DecidableEq, Repr

/-- `BusType`.  What a callback answers may depend on when it is called: on the number of calls of
callbacks before. -/
structure BusType (δ ρ : Type) where
  name : String
  matchFn : Option (ℕ → δ → ρ → Bool)

/-- The fields of the devices `δ` and the drivers `ρ` that the bus code only reads. -/
structure Wiring (δ ρ : Type) where
  deviceBus : δ → Option (BusType δ ρ)
  driverBus : ρ → Option (BusType δ ρ)
  probe : ρ → Option (ℕ → δ → Except BusError Unit)
  remove : ρ → Option (ℕ → δ → Except BusError Unit)

/-- `SubsysPrivate`, without its reference count. -/
structure SubsysPrivate (δ ρ : Type) where
  devices : List δ
  drivers : List ρ
  driversAutoprobe : Bool

/-- `SubsysPrivate::new`. -/
def SubsysPrivate.new (δ ρ : Type) : SubsysPrivate δ ρ := ⟨[], [], true⟩

/-- The registry, in which a bus is looked up by its name; `dev.driver` and `drv.devices`; the calls
of `remove` callbacks, and the number of calls of any callback. -/
structure BusState (δ ρ : Type) where
  registry : String → Option (SubsysPrivate δ ρ)
  driver : δ → Option ρ
  devices : ρ → List δ
  removed : List (ρ × δ)
  calls : ℕ

variable {δ ρ : Type}

namespace BusState

/-! ### Probing -/

/-- A callback is called. -/
def tick (s : BusState δ ρ) : BusState δ ρ := { s with calls := s.calls + 1 }

/-- The question whether a driver matches a device. -/
def callMatch (bus : BusType δ ρ) (s : BusState δ ρ) (r : ρ) (d : δ) : Bool × BusState δ ρ :=
  match bus.matchFn with
  | none => (true, s)
  | some matchFn => (matchFn s.calls d r, s.tick)

/-- The call of a `probe` callback. -/
def callProbe (w : Wiring δ ρ) (s : BusState δ ρ) (r : ρ) (d : δ) :
    Except BusError Unit × BusState δ ρ :=
  match w.probe r with
  | none => (.ok (), s)
  | some probe => (probe s.calls d, s.tick)

theorem driver_callMatch (bus : BusType δ ρ) (s : BusState δ ρ) (r : ρ) (d : δ) :
    (s.callMatch bus r d).2.driver = s.driver := by
  rw [callMatch]
  split <;> rfl

theorem driver_callProbe (w : Wiring δ ρ) (s : BusState δ ρ) (r : ρ) (d : δ) :
    (s.callProbe w r d).2.driver = s.driver := by
  rw [callProbe]
  split <;> rfl

/-- The device is in the list of its bus. -/
def Registered (w : Wiring δ ρ) (s : BusState δ ρ) (d : δ) : Prop :=
  ∃ bus sp, w.deviceBus d = some bus ∧ s.registry bus.name = some sp ∧ d ∈ sp.devices

/-- The device and the driver are in the lists of the bus of the device. -/
def Paired (w : Wiring δ ρ) (s : BusState δ ρ) (d : δ) (r : ρ) : Prop :=
  ∃ bus sp, w.deviceBus d = some bus ∧ s.registry bus.name = some sp ∧ d ∈ sp.devices ∧
    r ∈ sp.drivers

theorem Registered.congr {w : Wiring δ ρ} {s s' : BusState δ ρ} {d : δ} (h : s.Registered w d)
    (heq : s'.registry = s.registry) : s'.Registered w d := by
  rw [Registered, heq]
  exact h

theorem Paired.congr {w : Wiring δ ρ} {s s' : BusState δ ρ} {d : δ} {r : ρ} (h : s.Paired w d r)
    (heq : s'.registry = s.registry) : s'.Paired w d r := by
  rw [Paired, heq]
  exact h

variable [DecidableEq δ] [DecidableEq ρ]

/-- A driver is bound to a device. -/
def bind (s : BusState δ ρ) (r : ρ) (d : δ) : BusState δ ρ :=
  { s with
    driver := Function.update s.driver d (some r)
    devices := Function.update s.devices r (s.devices r ++ [d]) }

@[simp] theorem bind_driver (s : BusState δ ρ) (r : ρ) (d d' : δ) :
    (s.bind r d).driver d' = if d' = d then some r else s.driver d' := Function.update_apply ..

@[simp] theorem bind_devices (s : BusState δ ρ) (r r' : ρ) (d : δ) :
    (s.bind r d).devices r' = if r' = r then s.devices r ++ [d] else s.devices r' :=
  Function.update_apply ..

/-- `driver_probe_device`. -/
def driverProbeDevice (w : Wiring δ ρ) (s : BusState δ ρ) (r : ρ) (d : δ) :
    Except BusError Unit × BusState δ ρ :=
  if (s.driver d).isSome then (.error .busy, s)
  else
    match w.deviceBus d with
    | none => (.error .invalidBus, s)
    | some bus =>
        match s.callMatch bus r d with
        | (false, s) => (.error .noMatch, s)
        | (true, s) =>
            match s.callProbe w r d with
            | (.error e, s) => (.error e, s)
            | (.ok (), s) => (.ok (), s.bind r d)

/-- The loop of `driver_attach`. -/
def attachDevices (w : Wiring δ ρ) (r : ρ) : List δ → BusState δ ρ → BusState δ ρ
  | [], s => s
  | d :: ds, s =>
      attachDevices w r ds (if (s.driver d).isNone then (s.driverProbeDevice w r d).2 else s)

/-- `driver_attach`. -/
def driverAttach (w : Wiring δ ρ) (s : BusState δ ρ) (r : ρ) :
    Except BusError Unit × BusState δ ρ :=
  match w.driverBus r with
  | none => (.error .invalidBus, s)
  | some bus =>
      match s.registry bus.name with
      | none => (.error .invalidBus, s)
      | some sp => (.ok (), attachDevices w r sp.devices s)

/-- The loop of `device_attach`: until the first driver that takes the device. -/
def attachDriver (w : Wiring δ ρ) (d : δ) :
    List ρ → BusState δ ρ → Except BusError Unit × BusState δ ρ
  | [], s => (.error .noMatch, s)
  | r :: rs, s =>
      match s.driverProbeDevice w r d with
      | (.ok (), s) => (.ok (), s)
      | (.error _, s) => attachDriver w d rs s

/-- `device_attach`. -/
def deviceAttach (w : Wiring δ ρ) (s : BusState δ ρ) (d : δ) :
    Except BusError Unit × BusState δ ρ :=
  match w.deviceBus d with
  | none => (.error .invalidBus, s)
  | some bus =>
      match s.registry bus.name with
      | none => (.error .invalidBus, s)
      | some sp => attachDriver w d sp.drivers s

/-- The loop of `bus_rescan_devices`. -/
def rescan (w : Wiring δ ρ) : List δ → BusState δ ρ → BusState δ ρ
  | [], s => s
  | d :: ds, s => rescan w ds (if (s.driver d).isNone then (s.deviceAttach w d).2 else s)

/-- `bus_rescan_devices`. -/
def busRescanDevices (w : Wiring δ ρ) (s : BusState δ ρ) (bus : BusType δ ρ) :
    Except BusError Unit × BusState δ ρ :=
  match s.registry bus.name with
  | none => (.error .invalidBus, s)
  | some sp => (.ok (), rescan w sp.devices s)

/-! ### Adding and removing -/

/-- Writing the entry of a bus. -/
def setSubsys (s : BusState δ ρ) (name : String) (sp : SubsysPrivate δ ρ) : BusState δ ρ :=
  { s with registry := Function.update s.registry name (some sp) }

/-- `bus_add_device`. -/
def busAddDevice (w : Wiring δ ρ) (s : BusState δ ρ) (d : δ) :
    Except BusError Unit × BusState δ ρ :=
  match w.deviceBus d with
  | none => (.error .invalidBus, s)
  | some bus =>
      match s.registry bus.name with
      | none => (.error .invalidBus, s)
      | some sp =>
          if d ∈ sp.devices then (.error .busy, s)
          else (.ok (), s.setSubsys bus.name { sp with devices := sp.devices ++ [d] })

/-- The call of a `remove` callback, whose result is not looked at. -/
def callRemove (w : Wiring δ ρ) (s : BusState δ ρ) (r : ρ) (d : δ) : BusState δ ρ :=
  match w.remove r with
  | none => s
  | some _ => { s.tick with removed := s.removed ++ [(r, d)] }

/-- A device forgets its driver. -/
def forget (s : BusState δ ρ) (d : δ) : BusState δ ρ :=
  { s with driver := Function.update s.driver d none }

/-- `bus_remove_device`. -/
def busRemoveDevice (w : Wiring δ ρ) (s : BusState δ ρ) (d : δ) :
    Except BusError Unit × BusState δ ρ :=
  match w.deviceBus d with
  | none => (.error .invalidBus, s)
  | some bus =>
      match s.registry bus.name with
      | none => (.error .invalidBus, s)
      | some sp =>
          let s := s.setSubsys bus.name { sp with devices := sp.devices.filter (· ≠ d) }
          match s.driver d with
          | none => (.ok (), s)
          | some r => (.ok (), (s.callRemove w r d).forget d)

/-- `bus_add_driver`. -/
def busAddDriver (w : Wiring δ ρ) (s : BusState δ ρ) (r : ρ) :
    Except BusError Unit × BusState δ ρ :=
  match w.driverBus r with
  | none => (.error .invalidBus, s)
  | some bus =>
      match s.registry bus.name with
      | none => (.error .invalidBus, s)
      | some sp =>
          let s := s.setSubsys bus.name { sp with drivers := sp.drivers ++ [r] }
          if sp.driversAutoprobe then s.driverAttach w r else (.ok (), s)

/-- The loop of `bus_remove_driver`. -/
def detachDevices (w : Wiring δ ρ) (r : ρ) : List δ → BusState δ ρ → BusState δ ρ
  | [], s => s
  | d :: ds, s =>
      detachDevices w r ds (if s.driver d = some r then (s.callRemove w r d).forget d else s)

/-- `bus_remove_driver`. -/
def busRemoveDriver (w : Wiring δ ρ) (s : BusState δ ρ) (r : ρ) :
    Except BusError Unit × BusState δ ρ :=
  match w.driverBus r with
  | none => (.error .invalidBus, s)
  | some bus =>
      match s.registry bus.name with
      | none => (.error .invalidBus, s)
      | some sp =>
          let s := s.setSubsys bus.name { sp with drivers := sp.drivers.filter (· ≠ r) }
          (.ok (), detachDevices w r sp.devices s)

end BusState

/-- A call. -/
inductive BusOp (δ ρ : Type) where
  | addDevice (d : δ)
  | removeDevice (d : δ)
  | addDriver (r : ρ)
  | removeDriver (r : ρ)
  | attach (d : δ)
  | rescan (bus : BusType δ ρ)

variable [DecidableEq δ] [DecidableEq ρ]

/-- The result of a call, and the state after it. -/
def BusState.call (w : Wiring δ ρ) (s : BusState δ ρ) :
    BusOp δ ρ → Except BusError Unit × BusState δ ρ
  | .addDevice d => s.busAddDevice w d
  | .removeDevice d => s.busRemoveDevice w d
  | .addDriver r => s.busAddDriver w r
  | .removeDriver r => s.busRemoveDriver w r
  | .attach d => s.deviceAttach w d
  | .rescan bus => s.busRescanDevices w bus

/-! ### What the claims are about -/

namespace BusState

/-- The list of a driver holds the devices that are bound to it, each of them once. -/
def Exact (s : BusState δ ρ) : Prop :=
  ∀ d r, (s.devices r).count d = if s.driver d = some r then 1 else 0

/-- Registered buses without devices and drivers, and no binding. -/
structure Fresh (s : BusState δ ρ) : Prop where
  registry : ∀ name sp, s.registry name = some sp → sp = SubsysPrivate.new δ ρ
  driver : ∀ d, s.driver d = none
  devices : ∀ r, s.devices r = []
  removed : s.removed = []

end BusState

/-- A run: the state, and the number of bindings of each pair that have ended. -/
structure BusRun (δ ρ : Type) where
  st : BusState δ ρ
  ended : δ → ρ → ℕ

namespace BusRun

/-- Before any call. -/
def start (s : BusState δ ρ) : BusRun δ ρ := ⟨s, fun _ _ => 0⟩

/-- The next call. -/
def next (w : Wiring δ ρ) (run : BusRun δ ρ) (op : BusOp δ ρ) : BusRun δ ρ where
  st := (run.st.call w op).2
  ended := fun d r =>
    run.ended d r +
      if run.st.driver d = some r ∧ (run.st.call w op).2.driver d ≠ some r then 1 else 0

/-- What is bound is in the lists of a bus. -/
def Listed (w : Wiring δ ρ) (run : BusRun δ ρ) : Prop :=
  ∀ d r, run.st.driver d = some r → run.st.Paired w d r

/-- A `remove` callback was called once for each binding that has ended. -/
def Counted (w : Wiring δ ρ) (run : BusRun δ ρ) : Prop :=
  ∀ d r, (w.remove r).isSome → run.st.removed.count (r, d) = run.ended d r

/-- What is claimed of the state after a call. -/
def StepOk (w : Wiring δ ρ) (run : BusRun δ ρ) (op : BusOp δ ρ) : Prop :=
  (run.next w op).Listed w ∧ (run.next w op).st.Exact ∧ (run.next w op).Counted w

/-- `device_attach` is called on registered devices. -/
def Allowed (w : Wiring δ ρ) (run : BusRun δ ρ) : BusOp δ ρ → Prop
  | .attach d => run.st.Registered w d
  | _ => True

/-- The call does not end a binding. -/
def NoneEnds (run : BusRun δ ρ) : BusOp δ ρ → Prop
  | .removeDevice d => run.st.driver d = none
  | .removeDriver r => ∀ d, run.st.driver d ≠ some r
  | _ => True

end BusRun

/-! ### What probing may change -/

namespace BusState

variable {w : Wiring δ ρ} {s s' s'' : BusState δ ρ} {d : δ} {r : ρ}

/-- What probing may do: call callbacks, and bind free devices to drivers of their bus. -/
inductive Probed (w : Wiring δ ρ) : BusState δ ρ → BusState δ ρ → Prop
  | refl (s : BusState δ ρ) : Probed w s s
  | tick {s s' : BusState δ ρ} : Probed w s s' → Probed w s s'.tick
  | bind {s s' : BusState δ ρ} {r : ρ} {d : δ} :
      Probed w s s' → s'.driver d = none → s'.Paired w d r → Probed w s (s'.bind r d)

theorem Probed.trans (h : Probed w s s') (h' : Probed w s' s'') : Probed w s s'' := by
  induction h' with
  | refl => exact h
  | tick _ ih => exact ih.tick
  | bind _ hfree hpair ih => exact ih.bind hfree hpair

theorem Probed.registry (h : Probed w s s') : s'.registry = s.registry := by
  induction h with
  | refl => rfl
  | tick _ ih => exact ih
  | bind _ _ _ ih => exact ih

theorem Probed.removed (h : Probed w s s') : s'.removed = s.removed := by
  induction h with
  | refl => rfl
  | tick _ ih => exact ih
  | bind _ _ _ ih => exact ih

/-- No binding ends. -/
theorem Probed.driver (h : Probed w s s') (hd : s.driver d = some r) : s'.driver d = some r := by
  induction h with
  | refl => exact hd
  | tick _ ih => exact ih
  | @bind s₁ r₁ d₁ _ hfree _ ih =>
      have hne : d ≠ d₁ := by
        rintro rfl
        rw [ih] at hfree
        cases hfree
      rw [bind_driver, if_neg hne, ih]

theorem probed_callMatch (bus : BusType δ ρ) : Probed w s (s.callMatch bus r d).2 := by
  rw [callMatch]
  split
  · exact .refl s
  · exact (Probed.refl s).tick

theorem probed_callProbe : Probed w s (s.callProbe w r d).2 := by
  rw [callProbe]
  split
  · exact .refl s
  · exact (Probed.refl s).tick

theorem probed_driverProbeDevice (h : s.Paired w d r) :
    Probed w s (s.driverProbeDevice w r d).2 := by
  rw [driverProbeDevice]
  split
  · exact .refl s
  · rename_i hfree
    have hnone : s.driver d = none := by simpa using hfree
    cases hbus : w.deviceBus d with
    | none => exact .refl s
    | some bus =>
        have hmatch := probed_callMatch (w := w) (s := s) (r := r) (d := d) bus
        have hdriver := driver_callMatch bus s r d
        dsimp only
        cases hm : s.callMatch bus r d with
        | mk found s₁ =>
            rw [hm] at hmatch hdriver
            cases found with
            | false => exact hmatch
            | true =>
                have hprobe := probed_callProbe (w := w) (s := s₁) (r := r) (d := d)
                have hdriver' := driver_callProbe w s₁ r d
                dsimp only
                cases hp : s₁.callProbe w r d with
                | mk res s₂ =>
                    rw [hp] at hprobe hdriver'
                    cases res with
                    | error e => exact hmatch.trans hprobe
                    | ok =>
                        refine (hmatch.trans hprobe).bind ?_ ?_
                        · rw [hdriver', hdriver, hnone]
                        · exact h.congr (hmatch.trans hprobe).registry

theorem probed_attachDevices {ds : List δ} (h : ∀ d ∈ ds, s.Paired w d r) :
    Probed w s (attachDevices w r ds s) := by
  induction ds generalizing s with
  | nil => exact .refl s
  | cons d ds ih =>
      rw [List.forall_mem_cons] at h
      have hone : Probed w s
          (if (s.driver d).isNone then (s.driverProbeDevice w r d).2 else s) := by
        split
        · exact probed_driverProbeDevice h.1
        · exact .refl s
      exact hone.trans (ih fun d' hd' => (h.2 d' hd').congr hone.registry)

theorem probed_attachDriver {rs : List ρ} (h : ∀ r ∈ rs, s.Paired w d r) :
    Probed w s (attachDriver w d rs s).2 := by
  induction rs generalizing s with
  | nil => exact .refl s
  | cons r rs ih =>
      rw [List.forall_mem_cons] at h
      have hone := probed_driverProbeDevice h.1
      rw [attachDriver]
      cases hp : s.driverProbeDevice w r d with
      | mk res s₁ =>
          rw [hp] at hone
          cases res with
          | ok => exact hone
          | error e => exact hone.trans (ih fun r' hr' => (h.2 r' hr').congr hone.registry)

theorem probed_deviceAttach (h : s.Registered w d) : Probed w s (s.deviceAttach w d).2 := by
  obtain ⟨bus, sp, hbus, hreg, hmem⟩ := h
  simp only [deviceAttach, hbus, hreg]
  exact probed_attachDriver fun r hr => ⟨bus, sp, hbus, hreg, hmem, hr⟩

theorem probed_rescan {ds : List δ} (h : ∀ d ∈ ds, s.Registered w d) :
    Probed w s (rescan w ds s) := by
  induction ds generalizing s with
  | nil => exact .refl s
  | cons d ds ih =>
      rw [List.forall_mem_cons] at h
      have hone : Probed w s (if (s.driver d).isNone then (s.deviceAttach w d).2 else s) := by
        split
        · exact probed_deviceAttach h.1
        · exact .refl s
      exact hone.trans (ih fun d' hd' => (h.2 d' hd').congr hone.registry)

/-- A binding is written down in both places. -/
theorem Exact.bind (h : s.Exact) (hfree : s.driver d = none) : (s.bind r d).Exact := by
  intro d' r'
  have hcount := h d' r'
  by_cases hr : r' = r
  · subst hr
    by_cases hd : d' = d
    · subst hd
      simp [hcount, hfree]
    · simp [hcount, hd, Ne.symm hd]
  · by_cases hd : d' = d
    · subst hd
      simp [hcount, hfree, hr, Ne.symm hr]
    · simp [hcount, hd, hr]

theorem Exact.probed (h : s.Exact) (hs : Probed w s s') : s'.Exact := by
  induction hs with
  | refl => exact h
  | tick _ ih => exact ih
  | bind _ hfree _ ih => exact ih.bind hfree

/-! ### What detaching may change -/

/-- What detaching may do: end bindings, each with a call of the `remove` callback if there is one.
-/
structure Detached (w : Wiring δ ρ) (s s' : BusState δ ρ) : Prop where
  registry : s'.registry = s.registry
  devices : s'.devices = s.devices
  driver : ∀ d, s'.driver d = s.driver d ∨ s'.driver d = none
  removed : ∀ d r, (w.remove r).isSome → s'.removed.count (r, d) =
    s.removed.count (r, d) + if s.driver d = some r ∧ s'.driver d ≠ some r then 1 else 0

theorem Detached.refl (w : Wiring δ ρ) (s : BusState δ ρ) : Detached w s s :=
  ⟨rfl, rfl, fun _ => Or.inl rfl, fun d r _ => by simp⟩

theorem Detached.trans (h : Detached w s s') (h' : Detached w s' s'') : Detached w s s'' := by
  refine ⟨h'.registry.trans h.registry, h'.devices.trans h.devices, fun d => ?_,
    fun d r hr => ?_⟩
  · rcases h'.driver d with heq | hnone
    · rw [heq]
      exact h.driver d
    · exact Or.inr hnone
  · -- a binding ends in the first part, in the second one, or not at all
    rw [h'.removed d r hr, h.removed d r hr, Nat.add_assoc]
    congr 1
    rcases h.driver d with heq | hnone
    · simp [heq]
    · have hnone' : s''.driver d = none := by simpa [hnone] using h'.driver d
      simp [hnone, hnone']

/-- Where a driver is found after detaching, it was before. -/
theorem Detached.bound (h : Detached w s s') (hd : s'.driver d = some r) :
    s.driver d = some r := by
  rcases h.driver d with heq | hnone
  · rw [← heq, hd]
  · rw [hnone] at hd
    cases hd

/-- One device is detached. -/
theorem detached_forget (hd : s.driver d = some r) :
    Detached w s ((s.callRemove w r d).forget d) := by
  have hfields : ((s.callRemove w r d).forget d).registry = s.registry ∧
      ((s.callRemove w r d).forget d).devices = s.devices ∧
      ((s.callRemove w r d).forget d).driver = Function.update s.driver d none := by
    rw [callRemove]
    split <;> exact ⟨rfl, rfl, rfl⟩
  obtain ⟨hregistry, hdevices, hdriver⟩ := hfields
  refine ⟨hregistry, hdevices, fun d' => ?_, fun d' r' hr' => ?_⟩
  · rw [hdriver]
    by_cases hd' : d' = d
    · exact Or.inr (by rw [hd', Function.update_self])
    · exact Or.inl (Function.update_of_ne hd' ..)
  · have hlog : ((s.callRemove w r d).forget d).removed.count (r', d') =
        s.removed.count (r', d') + if r' = r ∧ d' = d then 1 else 0 := by
      rw [callRemove]
      split
      · rename_i hnone
        have hne : ¬ (r' = r ∧ d' = d) := by
          rintro ⟨rfl, -⟩
          rw [hnone] at hr'
          cases hr'
        rw [if_neg hne]
        rfl
      · simp only [forget, tick, List.count_append, List.count_singleton, beq_iff_eq,
          Prod.mk.injEq]
        congr 1
        exact if_congr (and_congr eq_comm eq_comm) rfl rfl
    rw [hlog, hdriver]
    congr 1
    by_cases hd' : d' = d
    · subst hd'
      simp [hd, eq_comm]
    · simp [hd']

omit [DecidableEq ρ] in
theorem forget_driver (s : BusState δ ρ) (d : δ) : (s.forget d).driver d = none :=
  Function.update_self ..

/-- The loop of `bus_remove_driver` detaches the driver from the devices of the list. -/
theorem detached_detachDevices (ds : List δ) :
    Detached w s (detachDevices w r ds s) ∧
      ∀ d ∈ ds, (detachDevices w r ds s).driver d ≠ some r := by
  induction ds generalizing s with
  | nil => exact ⟨.refl w s, fun d hd => absurd hd List.not_mem_nil⟩
  | cons d ds ih =>
      obtain ⟨hrest, hgone⟩ :=
        ih (s := if s.driver d = some r then (s.callRemove w r d).forget d else s)
      rw [detachDevices]
      split at hrest
      · rename_i hd
        rw [if_pos hd] at hgone ⊢
        refine ⟨(detached_forget hd).trans hrest, List.forall_mem_cons.2 ⟨fun hr => ?_, hgone⟩⟩
        have hnone := hrest.bound hr
        rw [forget_driver] at hnone
        cases hnone
      · rename_i hd
        rw [if_neg hd] at hgone ⊢
        exact ⟨hrest, List.forall_mem_cons.2 ⟨fun hr => hd (hrest.bound hr), hgone⟩⟩

/-- Without a device that is bound to the driver the loop does nothing. -/
theorem detachDevices_eq {ds : List δ} (h : ∀ d, s.driver d ≠ some r) :
    detachDevices w r ds s = s := by
  induction ds with
  | nil => rfl
  | cons d ds ih => rw [detachDevices, if_neg (h d), ih]

/-! ### The invariant of every run -/

/-- The lists of a bus hold its own devices and drivers, what is bound is in them, and a driver
holds the devices that are bound to it. -/
structure Sound (w : Wiring δ ρ) (s : BusState δ ρ) : Prop where
  deviceBus : ∀ name sp, s.registry name = some sp → ∀ d ∈ sp.devices,
    ∃ bus, w.deviceBus d = some bus ∧ bus.name = name
  driverBus : ∀ name sp, s.registry name = some sp → ∀ r ∈ sp.drivers,
    ∃ bus, w.driverBus r = some bus ∧ bus.name = name
  paired : ∀ d r, s.driver d = some r → s.Paired w d r
  held : ∀ d r, s.driver d = some r → d ∈ s.devices r

omit [DecidableEq δ] [DecidableEq ρ] in
theorem Fresh.sound (h : s.Fresh) : s.Sound w where
  deviceBus := fun name sp hsp d hd => by
    rw [h.registry name sp hsp] at hd
    exact absurd hd List.not_mem_nil
  driverBus := fun name sp hsp r hr => by
    rw [h.registry name sp hsp] at hr
    exact absurd hr List.not_mem_nil
  paired := fun d r hd => by simp [h.driver d] at hd
  held := fun d r hd => by simp [h.driver d] at hd

theorem Sound.bind (h : s.Sound w) (hpair : s.Paired w d r) : (s.bind r d).Sound w := by
  refine ⟨h.deviceBus, h.driverBus, fun d' r' hd' => ?_, fun d' r' hd' => ?_⟩
  · rw [bind_driver] at hd'
    split at hd'
    · rename_i heq
      cases hd'
      rw [heq]
      exact hpair.congr rfl
    · exact (h.paired d' r' hd').congr rfl
  · rw [bind_driver] at hd'
    rw [bind_devices]
    split at hd'
    · rename_i heq
      cases hd'
      rw [if_pos rfl, heq]
      exact List.mem_concat_self
    · have hmem := h.held d' r' hd'
      split
      · rename_i hr
        rw [hr] at hmem
        exact List.mem_append_left _ hmem
      · exact hmem

theorem Sound.probed (h : s.Sound w) (hs : Probed w s s') : s'.Sound w := by
  induction hs with
  | refl => exact h
  | tick _ ih => exact ⟨ih.deviceBus, ih.driverBus, ih.paired, ih.held⟩
  | bind _ _ hpair ih => exact ih.bind hpair

/-- The lists of a bus change, and bindings end, but none whose device or driver stays in them. -/
theorem Sound.change (h : s.Sound w) {name : String} {sp : SubsysPrivate δ ρ}
    (sp' : SubsysPrivate δ ρ) (hreg : s.registry name = some sp)
    (hdev : ∀ d ∈ sp'.devices, ∃ bus, w.deviceBus d = some bus ∧ bus.name = name)
    (hdrv : ∀ r ∈ sp'.drivers, ∃ bus, w.driverBus r = some bus ∧ bus.name = name)
    (hdet : Detached w (s.setSubsys name sp') s')
    (hkeep : ∀ d r, s'.driver d = some r → d ∈ sp.devices → r ∈ sp.drivers →
      d ∈ sp'.devices ∧ r ∈ sp'.drivers) : s'.Sound w := by
  have hregistry : ∀ name', s'.registry name' =
      if name' = name then some sp' else s.registry name' := fun name' => by
    rw [hdet.registry]
    exact Function.update_apply ..
  refine ⟨fun n sp₁ hsp₁ d hd => ?_, fun n sp₁ hsp₁ r hr => ?_, fun d r hd => ?_, fun d r hd => ?_⟩
  · rw [hregistry] at hsp₁
    split at hsp₁
    · rename_i heq
      cases hsp₁
      rw [heq]
      exact hdev d hd
    · exact h.deviceBus n sp₁ hsp₁ d hd
  · rw [hregistry] at hsp₁
    split at hsp₁
    · rename_i heq
      cases hsp₁
      rw [heq]
      exact hdrv r hr
    · exact h.driverBus n sp₁ hsp₁ r hr
  · obtain ⟨bus, sp₁, hbus, hsp₁, hmem, hmemr⟩ := h.paired d r (hdet.bound hd)
    by_cases heq : bus.name = name
    · rw [heq, hreg] at hsp₁
      cases hsp₁
      obtain ⟨hmem', hmemr'⟩ := hkeep d r hd hmem hmemr
      exact ⟨bus, sp', hbus, by rw [hregistry, if_pos heq], hmem', hmemr'⟩
    · exact ⟨bus, sp₁, hbus, by rw [hregistry, if_neg heq, hsp₁], hmem, hmemr⟩
  · rw [hdet.devices]
    exact h.held d r (hdet.bound hd)

end BusState

/-! ### Calls -/

namespace BusState

variable {w : Wiring δ ρ} {s : BusState δ ρ} {d : δ} {r : ρ}

/-- Every call on registered devices keeps the invariant, and calls the `remove` callbacks of the
bindings that it ends. -/
structure CallSound (w : Wiring δ ρ) (s s' : BusState δ ρ) : Prop where
  sound : s'.Sound w
  removed : ∀ d r, (w.remove r).isSome → s'.removed.count (r, d) =
    s.removed.count (r, d) + if s.driver d = some r ∧ s'.driver d ≠ some r then 1 else 0

theorem CallSound.of_probed {s' : BusState δ ρ} (h : s.Sound w) (hs : Probed w s s') :
    CallSound w s s' := by
  refine ⟨h.probed hs, fun d r _ => ?_⟩
  have hnone : ¬ (s.driver d = some r ∧ s'.driver d ≠ some r) := fun hd => hd.2 (hs.driver hd.1)
  rw [hs.removed, if_neg hnone, Nat.add_zero]

theorem CallSound.of_unchanged (h : s.Sound w) : CallSound w s s := .of_probed h (.refl s)

/-- A device is added. -/
theorem Sound.addDevice (h : s.Sound w) : CallSound w s (s.busAddDevice w d).2 := by
  rw [busAddDevice]
  cases hbus : w.deviceBus d with
  | none => exact .of_unchanged h
  | some bus =>
      dsimp only
      cases hreg : s.registry bus.name with
      | none => exact .of_unchanged h
      | some sp =>
          dsimp only
          split
          · exact .of_unchanged h
          · refine ⟨h.change { sp with devices := sp.devices ++ [d] } hreg (fun d' hd' => ?_)
              (h.driverBus _ sp hreg) (.refl w _)
              fun d' r' _ hmem hmemr => ⟨List.mem_append_left _ hmem, hmemr⟩, fun d' r' _ => ?_⟩
            · rcases List.mem_append.1 hd' with hd' | hd'
              · exact h.deviceBus _ sp hreg d' hd'
              · rw [List.mem_singleton.1 hd']
                exact ⟨bus, hbus, rfl⟩
            · simp [setSubsys]

/-- The entry of a bus with one more driver. -/
def addedDriver (s : BusState δ ρ) (bus : BusType δ ρ) (sp : SubsysPrivate δ ρ) (r : ρ) :
    BusState δ ρ :=
  s.setSubsys bus.name { sp with drivers := sp.drivers ++ [r] }

/-- Adding a driver fails, or adds it to its bus and probes the devices there. -/
theorem Sound.busAddDriver_cases (h : s.Sound w) :
    (s.busAddDriver w r).2 = s ∨ ∃ bus sp, w.driverBus r = some bus ∧
      s.registry bus.name = some sp ∧
        Probed w (s.addedDriver bus sp r) (s.busAddDriver w r).2 := by
  rw [busAddDriver]
  cases hbus : w.driverBus r with
  | none => exact Or.inl rfl
  | some bus =>
      dsimp only
      cases hreg : s.registry bus.name with
      | none => exact Or.inl rfl
      | some sp =>
          refine Or.inr ⟨bus, sp, rfl, hreg, ?_⟩
          have hself : (s.addedDriver bus sp r).registry bus.name =
              some { sp with drivers := sp.drivers ++ [r] } := Function.update_self ..
          dsimp only
          split
          · have hattach : Probed w (s.addedDriver bus sp r)
                ((s.addedDriver bus sp r).driverAttach w r).2 := by
              simp only [driverAttach, hbus, hself]
              refine probed_attachDevices fun d hd => ?_
              obtain ⟨bus', hbus', hname⟩ := h.deviceBus _ sp hreg d hd
              exact ⟨bus', { sp with drivers := sp.drivers ++ [r] }, hbus', by rw [hname, hself],
                hd, List.mem_concat_self⟩
            exact hattach
          · exact .refl _

/-- A driver is added and probed. -/
theorem Sound.addDriver (h : s.Sound w) : CallSound w s (s.busAddDriver w r).2 := by
  rcases h.busAddDriver_cases (r := r) with heq | ⟨bus, sp, hbus, hreg, hprobed⟩
  · rw [heq]
    exact .of_unchanged h
  · have hadd : (s.addedDriver bus sp r).Sound w := by
      refine h.change { sp with drivers := sp.drivers ++ [r] } hreg
        (h.deviceBus _ sp hreg) (fun r' hr' => ?_) (.refl w _)
        fun d' r' _ hmem hmemr => ⟨hmem, List.mem_append_left _ hmemr⟩
      rcases List.mem_append.1 hr' with hr' | hr'
      · exact h.driverBus _ sp hreg r' hr'
      · rw [List.mem_singleton.1 hr']
        exact ⟨bus, hbus, rfl⟩
    have hcall := CallSound.of_probed hadd hprobed
    exact ⟨hcall.sound, hcall.removed⟩

/-- The entry of a bus with one device less. -/
def removedDevice (s : BusState δ ρ) (bus : BusType δ ρ) (sp : SubsysPrivate δ ρ) (d : δ) :
    BusState δ ρ :=
  s.setSubsys bus.name { sp with devices := sp.devices.filter (· ≠ d) }

/-- Removing a device fails, or takes it from its bus and detaches it. -/
theorem busRemoveDevice_cases (w : Wiring δ ρ) (s : BusState δ ρ) (d : δ) :
    ((∀ bus, w.deviceBus d = some bus → s.registry bus.name = none) ∧
        (s.busRemoveDevice w d).2 = s) ∨
      ∃ bus sp, w.deviceBus d = some bus ∧ s.registry bus.name = some sp ∧
        Detached w (s.removedDevice bus sp d) (s.busRemoveDevice w d).2 ∧
        (s.busRemoveDevice w d).2.driver d = none ∧
        (s.driver d = none → (s.busRemoveDevice w d).2 = s.removedDevice bus sp d) := by
  rw [busRemoveDevice]
  cases hbus : w.deviceBus d with
  | none => exact .inl ⟨fun bus hsome => (by cases hsome), rfl⟩
  | some bus =>
      dsimp only
      cases hreg : s.registry bus.name with
      | none =>
          refine .inl ⟨fun bus' hsome => ?_, rfl⟩
          rwa [← Option.some.inj hsome]
      | some sp =>
          refine .inr ⟨bus, sp, rfl, hreg, ?_⟩
          dsimp only
          cases hd : s.driver d with
          | none =>
              have hd' : (s.setSubsys bus.name
                { sp with devices := sp.devices.filter (· ≠ d) }).driver d = none := hd
              simp only [hd']
              exact ⟨.refl w _, trivial, fun _ => rfl⟩
          | some r =>
              have hd' : (s.setSubsys bus.name
                { sp with devices := sp.devices.filter (· ≠ d) }).driver d = some r := hd
              simp only [hd']
              exact ⟨detached_forget hd', forget_driver _ d, fun hnone => by cases hnone⟩

/-- A device is removed, and detached. -/
theorem Sound.removeDevice (h : s.Sound w) :
    CallSound w s (s.busRemoveDevice w d).2 ∧
      (∀ r, s.driver d = some r → (s.busRemoveDevice w d).2.driver d = none ∧
        (s.busRemoveDevice w d).2.devices = s.devices) := by
  rcases busRemoveDevice_cases w s d with ⟨hnone, heq⟩ | ⟨bus, sp, hbus, hreg, hdet, hgone, -⟩
  · rw [heq]
    refine ⟨.of_unchanged h, fun r hd => ?_⟩
    obtain ⟨bus, sp, hbus, hsp, -⟩ := h.paired d r hd
    rw [hnone bus hbus] at hsp
    cases hsp
  · have hsub : ∀ d' ∈ sp.devices.filter (· ≠ d),
        ∃ bus', w.deviceBus d' = some bus' ∧ bus'.name = bus.name := fun d' hd' =>
      h.deviceBus _ sp hreg d' (List.mem_filter.1 hd').1
    refine ⟨⟨h.change { sp with devices := sp.devices.filter (· ≠ d) } hreg hsub
      (h.driverBus _ sp hreg) hdet fun d' r' hr' hmem hmemr =>
        ⟨List.mem_filter.2 ⟨hmem, ?_⟩, hmemr⟩, hdet.removed⟩, fun r _ => ⟨hgone, hdet.devices⟩⟩
    have hne : d' ≠ d := by
      rintro rfl
      rw [hgone] at hr'
      cases hr'
    simpa using hne

/-- The entry of a bus with one driver less. -/
def removedDriver (s : BusState δ ρ) (bus : BusType δ ρ) (sp : SubsysPrivate δ ρ) (r : ρ) :
    BusState δ ρ :=
  s.setSubsys bus.name { sp with drivers := sp.drivers.filter (· ≠ r) }

/-- Removing a driver fails, or takes it from its bus and detaches it from the devices there. -/
theorem busRemoveDriver_cases (w : Wiring δ ρ) (s : BusState δ ρ) (r : ρ) :
    ((∀ bus, w.driverBus r = some bus → s.registry bus.name = none) ∧
        (s.busRemoveDriver w r).2 = s) ∨
      ∃ bus sp, w.driverBus r = some bus ∧ s.registry bus.name = some sp ∧
        Detached w (s.removedDriver bus sp r) (s.busRemoveDriver w r).2 ∧
        (∀ d ∈ sp.devices, (s.busRemoveDriver w r).2.driver d ≠ some r) ∧
        ((∀ d, s.driver d ≠ some r) →
          (s.busRemoveDriver w r).2 = s.removedDriver bus sp r) := by
  rw [busRemoveDriver]
  cases hbus : w.driverBus r with
  | none => exact .inl ⟨fun bus hsome => (by cases hsome), rfl⟩
  | some bus =>
      dsimp only
      cases hreg : s.registry bus.name with
      | none =>
          refine .inl ⟨fun bus' hsome => ?_, rfl⟩
          rwa [← Option.some.inj hsome]
      | some sp =>
          obtain ⟨hdet, hgone⟩ := detached_detachDevices (w := w) (r := r)
            (s := s.removedDriver bus sp r) sp.devices
          exact .inr ⟨bus, sp, rfl, hreg, hdet, hgone, fun hnone => detachDevices_eq hnone⟩

/-- A driver is removed, and detached from its devices. -/
theorem Sound.removeDriver (h : s.Sound w) :
    CallSound w s (s.busRemoveDriver w r).2 ∧
      (∀ d, s.driver d = some r → (s.busRemoveDriver w r).2.driver d = none ∧
        (s.busRemoveDriver w r).2.devices = s.devices) := by
  have hbusOf : ∀ d, s.driver d = some r → ∃ bus sp, w.driverBus r = some bus ∧
      s.registry bus.name = some sp ∧ d ∈ sp.devices := by
    intro d hd
    obtain ⟨bus, sp, -, hsp, hmem, hmemr⟩ := h.paired d r hd
    obtain ⟨bus', hbus', hname⟩ := h.driverBus _ sp hsp r hmemr
    exact ⟨bus', sp, hbus', by rw [hname, hsp], hmem⟩
  rcases busRemoveDriver_cases w s r with ⟨hnone, heq⟩ | ⟨bus, sp, hbus, hreg, hdet, hgone, -⟩
  · rw [heq]
    refine ⟨.of_unchanged h, fun d hd => ?_⟩
    obtain ⟨bus, sp, hbus, hsp, -⟩ := hbusOf d hd
    rw [hnone bus hbus] at hsp
    cases hsp
  · have hsub : ∀ r' ∈ sp.drivers.filter (· ≠ r),
        ∃ bus', w.driverBus r' = some bus' ∧ bus'.name = bus.name := fun r' hr' =>
      h.driverBus _ sp hreg r' (List.mem_filter.1 hr').1
    refine ⟨⟨h.change { sp with drivers := sp.drivers.filter (· ≠ r) } hreg
      (h.deviceBus _ sp hreg) hsub hdet fun d' r' hr' hmem hmemr =>
        ⟨hmem, List.mem_filter.2 ⟨hmemr, ?_⟩⟩, hdet.removed⟩, fun d hd => ⟨?_, hdet.devices⟩⟩
    · have hne : r' ≠ r := by
        rintro rfl
        exact hgone d' hmem hr'
      simpa using hne
    · obtain ⟨bus', sp', hbus', hsp, hmem⟩ := hbusOf d hd
      rw [hbus] at hbus'
      cases hbus'
      rw [hreg] at hsp
      cases hsp
      refine (hdet.driver d).resolve_left fun heq => hgone d hmem ?_
      rw [heq]
      exact hd

/-- A rescan probes the devices of the bus. -/
theorem Sound.probed_rescan (h : s.Sound w) (bus : BusType δ ρ) :
    Probed w s (s.busRescanDevices w bus).2 := by
  rw [busRescanDevices]
  cases hreg : s.registry bus.name with
  | none => exact .refl s
  | some sp =>
      refine BusState.probed_rescan fun d hd => ?_
      obtain ⟨bus', hbus', hname⟩ := h.deviceBus _ sp hreg d hd
      exact ⟨bus', sp, hbus', by rw [hname, hreg], hd⟩

/-- Every call on registered devices. -/
theorem Sound.call (h : s.Sound w) (op : BusOp δ ρ)
    (hop : ∀ d, op = .attach d → s.Registered w d) : CallSound w s (s.call w op).2 := by
  cases op with
  | addDevice d => exact h.addDevice
  | removeDevice d => exact h.removeDevice.1
  | addDriver r => exact h.addDriver
  | removeDriver r => exact h.removeDriver.1
  | attach d => exact .of_probed h (probed_deviceAttach (hop d rfl))
  | rescan bus => exact .of_probed h (h.probed_rescan bus)

/-- Adding a device binds nothing. -/
theorem Exact.addDevice (h : s.Exact) : (s.busAddDevice w d).2.Exact := by
  rw [busAddDevice]
  repeat' split
  all_goals exact h

/-- Removing a device that is not bound ends no binding. -/
theorem Exact.removeDevice (h : s.Exact) (hd : s.driver d = none) :
    (s.busRemoveDevice w d).2.Exact := by
  rcases busRemoveDevice_cases w s d with ⟨-, heq⟩ | ⟨bus, sp, -, -, -, -, heq⟩
  · rw [heq]
    exact h
  · rw [heq hd]
    exact h

/-- Removing a driver without a device ends no binding. -/
theorem Exact.removeDriver (h : s.Exact) (hr : ∀ d, s.driver d ≠ some r) :
    (s.busRemoveDriver w r).2.Exact := by
  rcases busRemoveDriver_cases w s r with ⟨-, heq⟩ | ⟨bus, sp, -, -, -, -, heq⟩
  · rw [heq]
    exact h
  · rw [heq hr]
    exact h

/-- After a binding has ended, the list of the driver still holds the device. -/
theorem Sound.not_exact {s' : BusState δ ρ} (h : s.Sound w) (hd : s.driver d = some r)
    (hend : s'.driver d = none ∧ s'.devices = s.devices) : ¬ s'.Exact := by
  intro hexact
  have hmem := h.held d r hd
  have hcount := hexact d r
  rw [hend.2, if_neg (by rw [hend.1]; simp)] at hcount
  exact List.count_eq_zero.1 hcount hmem

end BusState

/-! ### Runs -/

namespace BusRun

variable {w : Wiring δ ρ} {run : BusRun δ ρ} {op : BusOp δ ρ}

/-- The invariant of every run. -/
structure Inv (w : Wiring δ ρ) (run : BusRun δ ρ) : Prop where
  sound : run.st.Sound w
  counted : run.Counted w

theorem Inv.start {s : BusState δ ρ} (h : s.Fresh) : (start s).Inv w :=
  ⟨h.sound, fun d r _ => by simp [BusRun.start, h.removed]⟩

theorem Inv.next (h : run.Inv w) (hop : run.Allowed w op) : (run.next w op).Inv w := by
  have hcall := h.sound.call op (by rintro d rfl; exact hop)
  refine ⟨hcall.sound, fun d r hr => ?_⟩
  rw [BusRun.next]
  dsimp only
  rw [hcall.removed d r hr, h.counted d r hr]

/-- A call that ends no binding keeps the lists of the drivers exact. -/
theorem Inv.exact (h : run.Inv w) (hexact : run.st.Exact) (hop : run.Allowed w op)
    (hnone : run.NoneEnds op) : (run.next w op).st.Exact := by
  cases op with
  | addDevice d => exact hexact.addDevice
  | removeDevice d => exact hexact.removeDevice hnone
  | addDriver r =>
      rcases h.sound.busAddDriver_cases (r := r) with heq | ⟨bus, sp, -, -, hprobed⟩
      · rw [BusRun.next, BusState.call, heq]
        exact hexact
      · have hadded : (run.st.addedDriver bus sp r).Exact := hexact
        exact hadded.probed hprobed
  | removeDriver r => exact hexact.removeDriver hnone
  | attach d => exact hexact.probed (BusState.probed_deviceAttach hop)
  | rescan bus => exact hexact.probed (h.sound.probed_rescan bus)

/-- A call after which the lists of the drivers are exact has ended no binding. -/
theorem Inv.noneEnds (h : run.Inv w) (hexact : (run.next w op).st.Exact) : run.NoneEnds op := by
  cases op with
  | removeDevice d =>
      by_contra hd
      obtain ⟨r, hr⟩ := Option.ne_none_iff_exists'.1 hd
      exact h.sound.not_exact hr (h.sound.removeDevice.2 r hr) hexact
  | removeDriver r =>
      intro d hd
      exact h.sound.not_exact hd (h.sound.removeDriver.2 d hd) hexact
  | _ => trivial

end BusRun

open BusRun

/-- **When the records of the bindings agree.**  They do after every call of a run exactly if no
call ends a binding. -/
theorem driverBus_consistent_iff (w : Wiring δ ρ) {s : BusState δ ρ} (h : s.Fresh)
    (ops : List (BusOp δ ρ)) (hops : Runs.Along (next w) (Allowed w) (start s) ops) :
    Runs.Along (next w) (StepOk w) (start s) ops ↔
      Runs.Along (next w) NoneEnds (start s) ops := by
  have hfresh : (start s).st.Exact := fun d r => by simp [start, h.devices, h.driver]
  refine Runs.along_iff (I := fun run => Inv w run ∧ run.st.Exact) ?_ ?_ ⟨.start h, hfresh⟩ hops
  · rintro run op ⟨hI, hexact⟩ hop
    have hnext := hI.next hop
    exact ⟨fun hok => hI.noneEnds hok.2.1, fun hnone =>
      ⟨hnext.sound.paired, hI.exact hexact hop hnone, hnext.counted⟩⟩
  · rintro run op ⟨hI, hexact⟩ hop hnone
    exact ⟨hI.next hop, hI.exact hexact hop hnone⟩

/-- One device and one driver on a bus without `match`, and no callbacks. -/
def plainWiring : Wiring Unit Unit where
  deviceBus := fun _ => some ⟨"test-bus", none⟩
  driverBus := fun _ => some ⟨"test-bus", none⟩
  probe := fun _ => none
  remove := fun _ => none

/-- The bus is registered. -/
def plainBus : BusState Unit Unit :=
  ⟨fun name => if name = "test-bus" then some (.new Unit Unit) else none, fun _ => none,
    fun _ => [], [], 0⟩

theorem plainBus_fresh : plainBus.Fresh where
  registry := fun name sp h => by
    obtain ⟨-, heq⟩ := Option.ite_none_right_eq_some.1 h
    exact (Option.some.inj heq).symm
  driver := fun _ => rfl
  devices := fun _ => rfl
  removed := rfl

/-- A device is added, then a driver, and they are bound. -/
theorem driverBus_consistent_bound :
    Runs.Along (next plainWiring) (StepOk plainWiring) (start plainBus)
      [.addDevice (), .addDriver ()] :=
  (driverBus_consistent_iff plainWiring plainBus_fresh [.addDevice (), .addDriver ()]
    ⟨trivial, trivial, trivial⟩).2 ⟨trivial, trivial, trivial⟩

/-- The device is removed again: the driver still lists it. -/
theorem driverBus_keeps_removed :
    ¬ Runs.Along (next plainWiring) (StepOk plainWiring) (start plainBus)
      [.addDevice (), .addDriver (), .removeDevice ()] := by
  rintro ⟨-, -, ⟨-, hexact, -⟩, -⟩
  have hcount := hexact () ()
  revert hcount
  decide

end StarOS
