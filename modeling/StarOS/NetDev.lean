/-
Registration of network devices, and handles to them (`net/dev.rs`).

`dev_get_by_index` and `dev_get_by_name` call `DeviceHandle::new` while they hold the lock of the
registry, which `DeviceHandle::new` takes again: a lookup that finds a device does not return, and
no handle is ever made.  Everything else is as it should be, up to the wrap of the next index.

* `StarOS.NetDevice`, `StarOS.NetDevice.hold`, `StarOS.NetDevice.put`, `StarOS.NetDevice.close` —
  devices, with the operations of their drivers;
* `StarOS.NetState.lock`, `StarOS.NetState.unlock` — the registry behind its lock;
* `StarOS.deviceHandleNew`, `StarOS.deviceHandleDrop`, `StarOS.registerNetdev`,
  `StarOS.unregisterNetdev`, `StarOS.devGetByIndex`, `StarOS.devGetByName` — the code; a call that
  does not return is `none`;
* `StarOS.NetRun`, `StarOS.NetRun.call` — runs, with the handles that are live;
* `StarOS.netdev_handles_iff` — when a run keeps the promises of handles.
-/

import StarOS.Runs
import Mathlib.Data.BitVec

set_option autoImplicit false

namespace StarOS

/-! ### Devices -/

/-- `NetDevError`. -/
inductive NetDevError where
  | notFound | down | busy | notSupported | invalidMtu | invalidAddress | nameTooLong | allocFailed
  | hwError
  deriving DecidableEq, Repr

/-- `NetDevState`. -/
inductive NetDevState where
  | init | registered | goingDown | unregistering | unregistered
  deriving DecidableEq, Repr

/-- `IFF_UP`. -/
def iffUp : BitVec 32 := 1#32

/-- `IFF_RUNNING`. -/
def iffRunning : BitVec 32 := 1#32 <<< 6

/-- The fields of `NetDevice` that registration and lookups read or write.  All the others are in
`rest`, which belongs to the driver. -/
structure NetDevData (δ : Type) where
  name : Vector UInt8 16
  ifindex : BitVec 32
  flags : BitVec 32
  state : NetDevState
  refcnt : BitVec 32
  rest : δ

/-- `NetDeviceOps`: the operations of a driver that are called here.  They are given the device, but
leave its index and its reference count alone. -/
structure NetDeviceOps (δ : Type) where
  ndoInit : Option (NetDevData δ → Except NetDevError Unit × NetDevData δ)
  ndoUninit : Option (NetDevData δ → NetDevData δ)
  ndoStop : Option (NetDevData δ → Except NetDevError Unit × NetDevData δ)
  init_ifindex : ∀ f ∈ ndoInit, ∀ d, (f d).2.ifindex = d.ifindex
  init_refcnt : ∀ f ∈ ndoInit, ∀ d, (f d).2.refcnt = d.refcnt

/-- `NetDevice`. -/
structure NetDevice (δ : Type) extends NetDevData δ where
  netdevOps : NetDeviceOps δ

variable {δ : Type}

namespace NetDevice

/-- `name_str`. -/
def nameStr (dev : NetDevice δ) : String :=
  (String.fromUTF8? ⟨(dev.name.toList.takeWhile fun b => b ≠ 0).toArray⟩).getD "<invalid>"

/-- `hold`. -/
def hold (dev : NetDevice δ) : NetDevice δ := { dev with refcnt := dev.refcnt + 1#32 }

/-- `put`. -/
def put (dev : NetDevice δ) : NetDevice δ := { dev with refcnt := dev.refcnt - 1#32 }

/-- `close`. -/
def close (dev : NetDevice δ) : Except NetDevError Unit × NetDevice δ :=
  if dev.flags &&& iffUp = 0#32 then (.ok (), dev)
  else
    let down : NetDevData δ :=
      { dev.toNetDevData with flags := dev.flags &&& ~~~(iffUp ||| iffRunning) }
    match dev.netdevOps.ndoStop with
    | some f => ((f down).1, { dev with toNetDevData := (f down).2 })
    | none => (.ok (), { dev with toNetDevData := down })

/-- The driver's `ndo_init`, if it has one. -/
def initialise (dev : NetDevice δ) : Except NetDevError Unit × NetDevData δ :=
  match dev.netdevOps.ndoInit with
  | some f => f dev.toNetDevData
  | none => (.ok (), dev.toNetDevData)

/-- The driver leaves the index and the reference count alone. -/
theorem initialise_keeps (dev : NetDevice δ) :
    dev.initialise.2.ifindex = dev.ifindex ∧ dev.initialise.2.refcnt = dev.refcnt := by
  unfold initialise
  cases h : dev.netdevOps.ndoInit with
  | none => exact ⟨rfl, rfl⟩
  | some f =>
      exact ⟨dev.netdevOps.init_ifindex f h dev.toNetDevData,
        dev.netdevOps.init_refcnt f h dev.toNetDevData⟩

end NetDevice

/-- A device that nobody has a reference to: `NetDevice::alloc` gives the count 1. -/
def UnsharedDevice (δ : Type) := { dev : NetDevice δ // dev.refcnt = 1#32 }

/-! ### The registry and its lock -/

/-- `DeviceRegistry`. -/
structure NetRegistry (δ : Type) where
  devices : List (NetDevice δ)
  nextIfindex : BitVec 32

/-- `DeviceRegistry::new`. -/
def NetRegistry.new : NetRegistry δ := ⟨[], 1#32⟩

/-- `DEVICE_REGISTRY`: a registry behind a lock. -/
structure NetState (δ : Type) where
  locked : Bool
  registry : NetRegistry δ

namespace NetState

/-- `DEVICE_REGISTRY.lock()`, which spins for ever if the only caller has the lock already. -/
def lock (s : NetState δ) : Option (NetState δ) :=
  if s.locked then none else some { s with locked := true }

/-- The guard is dropped. -/
def unlock (s : NetState δ) : NetState δ := { s with locked := false }

/-- `devices.iter().find(|d| d.ifindex == ifindex)`. -/
def findIndex (s : NetState δ) (ifindex : BitVec 32) : Option (NetDevice δ) :=
  s.registry.devices.find? fun d => d.ifindex = ifindex

/-- The first device with the index is changed. -/
def updateFirst (ifindex : BitVec 32) (f : NetDevice δ → NetDevice δ) :
    List (NetDevice δ) → List (NetDevice δ)
  | [] => []
  | d :: ds => if d.ifindex = ifindex then f d :: ds else d :: updateFirst ifindex f ds

/-- The first device with the index, if there is one, is changed. -/
def withFirst (s : NetState δ) (ifindex : BitVec 32) (f : NetDevice δ → NetDevice δ) :
    NetState δ :=
  { s with registry.devices := updateFirst ifindex f s.registry.devices }

end NetState

/-- `DeviceHandle`. -/
structure NetDeviceHandle where
  ifindex : BitVec 32
  deriving DecidableEq, Repr

/-- `DeviceHandle::new`. -/
def deviceHandleNew (s : NetState δ) (ifindex : BitVec 32) :
    Option (NetDeviceHandle × NetState δ) :=
  s.lock.map fun s => (⟨ifindex⟩, (s.withFirst ifindex NetDevice.hold).unlock)

/-- `DeviceHandle::clone`. -/
def deviceHandleClone (s : NetState δ) (h : NetDeviceHandle) :
    Option (NetDeviceHandle × NetState δ) := deviceHandleNew s h.ifindex

/-- `DeviceHandle::drop`. -/
def deviceHandleDrop (s : NetState δ) (h : NetDeviceHandle) : Option (NetState δ) :=
  s.lock.map fun s => (s.withFirst h.ifindex NetDevice.put).unlock

/-- `register_netdev`.  The next index is taken also if the driver fails. -/
def registerNetdev (s : NetState δ) (dev : NetDevice δ) :
    Option (Except NetDevError (BitVec 32) × NetState δ) :=
  s.lock.map fun s =>
    let dev := { dev with ifindex := s.registry.nextIfindex }
    let s := { s with registry.nextIfindex := s.registry.nextIfindex + 1#32 }
    match dev.initialise with
    | (.error e, _) => (.error e, s.unlock)
    | (.ok (), data) =>
        let dev := { dev with toNetDevData := { data with state := .registered } }
        (.ok dev.ifindex,
          NetState.unlock { s with registry.devices := s.registry.devices ++ [dev] })

/-- `unregister_netdev`, with the device that is freed. -/
def unregisterNetdev (s : NetState δ) (ifindex : BitVec 32) :
    Option (Except NetDevError (NetDevice δ) × NetState δ) :=
  s.lock.map fun s =>
    match s.findIndex ifindex with
    | none => (.error .notFound, s.unlock)
    | some dev =>
        let s := { s with
          registry.devices := s.registry.devices.eraseP fun d => d.ifindex = ifindex }
        let dev := dev.close.2
        let dev := match dev.netdevOps.ndoUninit with
          | some f => { dev with toNetDevData := f dev.toNetDevData }
          | none => dev
        (.ok { dev with state := .unregistered }, s.unlock)

/-- `dev_get_by_index`.  The guard is held until the function returns. -/
def devGetByIndex (s : NetState δ) (ifindex : BitVec 32) :
    Option (Option NetDeviceHandle × NetState δ) :=
  s.lock.bind fun s =>
    match s.findIndex ifindex with
    | some _ => (deviceHandleNew s ifindex).map fun r => (some r.1, r.2.unlock)
    | none => some (none, s.unlock)

/-- `dev_get_by_name`. -/
def devGetByName (s : NetState δ) (name : String) :
    Option (Option NetDeviceHandle × NetState δ) :=
  s.lock.bind fun s =>
    match s.registry.devices.find? fun d => d.nameStr = name with
    | some d => (deviceHandleNew s d.ifindex).map fun r => (some r.1, r.2.unlock)
    | none => some (none, s.unlock)

/-! ### What the calls do while the lock is free -/

section Calls

variable {s : NetState δ} {dev : NetDevice δ} {ifindex : BitVec 32} {name : String}

theorem NetState.lock_of_free (h : s.locked = false) : s.lock = some { s with locked := true } := by
  rw [lock, h]
  rfl

/-- The lock is not taken twice. -/
theorem deviceHandleNew_locked (h : s.locked = true) : deviceHandleNew s ifindex = none := by
  rw [deviceHandleNew, NetState.lock, h]
  rfl

theorem NetState.findIndex_eq_none :
    s.findIndex ifindex = none ↔ ∀ d ∈ s.registry.devices, d.ifindex ≠ ifindex := by
  rw [findIndex, List.find?_eq_none]
  exact forall₂_congr fun d _ => not_congr decide_eq_true_iff

/-- What `register_netdev` does. -/
inductive RegisterOutcome (s : NetState δ) (dev : NetDevice δ) :
    Except NetDevError (BitVec 32) × NetState δ → Prop
  | failed (e : NetDevError) :
      ({ dev with ifindex := s.registry.nextIfindex } : NetDevice δ).initialise.1 = .error e →
      RegisterOutcome s dev
        (.error e, { s with registry.nextIfindex := s.registry.nextIfindex + 1#32 })
  | registered (d : NetDevice δ) :
      ({ dev with ifindex := s.registry.nextIfindex } : NetDevice δ).initialise.1 = .ok () →
      d.ifindex = s.registry.nextIfindex → d.refcnt = dev.refcnt →
      RegisterOutcome s dev
        (.ok s.registry.nextIfindex,
          { s with
            registry.devices := s.registry.devices ++ [d]
            registry.nextIfindex := s.registry.nextIfindex + 1#32 })

theorem registerNetdev_outcome (h : s.locked = false) (dev : NetDevice δ) :
    ∃ out, registerNetdev s dev = some out ∧ RegisterOutcome s dev out := by
  obtain ⟨locked, reg⟩ := s
  obtain rfl : locked = false := h
  obtain ⟨hifindex, hrefcnt⟩ :=
    ({ dev with ifindex := reg.nextIfindex } : NetDevice δ).initialise_keeps
  rw [registerNetdev, NetState.lock_of_free rfl, Option.map_some]
  refine ⟨_, rfl, ?_⟩
  dsimp only
  split
  · rename_i e data hres
    exact .failed e (congrArg Prod.fst hres)
  · rename_i data hres
    rw [hres] at hifindex hrefcnt
    have hout := @RegisterOutcome.registered _ ⟨false, reg⟩ dev
      { dev with toNetDevData := { data with state := .registered } } (congrArg Prod.fst hres)
      hifindex hrefcnt
    rw [hifindex] at hout
    rw [hifindex]
    exact hout

/-- `unregister_netdev` takes the first device with the index away. -/
theorem unregisterNetdev_spec (h : s.locked = false) (ifindex : BitVec 32) :
    ∃ res, unregisterNetdev s ifindex = some (res,
      { s with
        registry.devices := s.registry.devices.eraseP fun d => d.ifindex = ifindex }) := by
  obtain ⟨locked, reg⟩ := s
  obtain rfl : locked = false := h
  rw [unregisterNetdev, NetState.lock_of_free rfl, Option.map_some]
  dsimp only
  split
  · rename_i hnone
    refine ⟨.error .notFound, ?_⟩
    have hno := NetState.findIndex_eq_none.1 hnone
    have herase : reg.devices.eraseP (fun d => d.ifindex = ifindex) = reg.devices :=
      List.eraseP_of_forall_not fun d hd => by simpa using hno d hd
    rw [herase]
    rfl
  · exact ⟨_, rfl⟩

/-- A lookup returns exactly if it finds nothing, and changes nothing then. -/
theorem devGetByIndex_spec (h : s.locked = false) (ifindex : BitVec 32) :
    ((∀ d ∈ s.registry.devices, d.ifindex ≠ ifindex) → devGetByIndex s ifindex = some (none, s)) ∧
      ((¬ ∀ d ∈ s.registry.devices, d.ifindex ≠ ifindex) → devGetByIndex s ifindex = none) := by
  obtain ⟨locked, reg⟩ := s
  obtain rfl : locked = false := h
  rw [devGetByIndex, NetState.lock_of_free rfl, Option.bind_some]
  refine ⟨fun hno => ?_, fun hex => ?_⟩
  · have hnone : NetState.findIndex ⟨true, reg⟩ ifindex = none :=
      NetState.findIndex_eq_none.2 hno
    dsimp only
    rw [hnone]
    rfl
  · split
    · rw [deviceHandleNew_locked rfl]
      rfl
    · rename_i hnone
      exact absurd (NetState.findIndex_eq_none.1 hnone) hex

theorem devGetByName_spec (h : s.locked = false) (name : String) :
    ((∀ d ∈ s.registry.devices, d.nameStr ≠ name) → devGetByName s name = some (none, s)) ∧
      ((¬ ∀ d ∈ s.registry.devices, d.nameStr ≠ name) → devGetByName s name = none) := by
  have hfind : ∀ l : List (NetDevice δ),
      l.find? (fun d => d.nameStr = name) = none ↔ ∀ d ∈ l, d.nameStr ≠ name := by
    intro l
    rw [List.find?_eq_none]
    exact forall₂_congr fun d _ => not_congr decide_eq_true_iff
  obtain ⟨locked, reg⟩ := s
  obtain rfl : locked = false := h
  rw [devGetByName, NetState.lock_of_free rfl, Option.bind_some]
  refine ⟨fun hno => ?_, fun hex => ?_⟩
  · dsimp only
    rw [(hfind reg.devices).2 hno]
    rfl
  · split
    · rw [deviceHandleNew_locked rfl]
      rfl
    · rename_i hnone
      exact absurd ((hfind reg.devices).1 hnone) hex

end Calls

/-! ### Runs -/

/-- A call of the interface.  A handle is named by its place among the live ones. -/
inductive NetOp (δ : Type) where
  | register (dev : UnsharedDevice δ)
  | unregister (ifindex : BitVec 32)
  | getByIndex (ifindex : BitVec 32)
  | getByName (name : String)
  | clone (k : ℕ)
  | drop (k : ℕ)

/-- A run: the registry, and the handles that are live. -/
structure NetRun (δ : Type) where
  net : NetState δ
  handles : List NetDeviceHandle

namespace NetRun

/-- Before the first call. -/
def fresh : NetRun δ := ⟨⟨false, NetRegistry.new⟩, []⟩

/-- The next call, if it returns. -/
def call (r : NetRun δ) : NetOp δ → Option (NetRun δ)
  | .register dev => (registerNetdev r.net dev.val).map fun out => { r with net := out.2 }
  | .unregister ifindex => (unregisterNetdev r.net ifindex).map fun out => { r with net := out.2 }
  | .getByIndex ifindex =>
      (devGetByIndex r.net ifindex).map fun out => ⟨out.2, r.handles ++ out.1.toList⟩
  | .getByName name =>
      (devGetByName r.net name).map fun out => ⟨out.2, r.handles ++ out.1.toList⟩
  | .clone k =>
      match r.handles[k]? with
      | some h => (deviceHandleClone r.net h).map fun out => ⟨out.2, r.handles ++ [out.1]⟩
      | none => some r
  | .drop k =>
      match r.handles[k]? with
      | some h => (deviceHandleDrop r.net h).map fun net => ⟨net, r.handles.eraseIdx k⟩
      | none => some r

/-- The state after a call; a call that does not return leaves nothing to come. -/
def next (r : NetRun δ) (op : NetOp δ) : NetRun δ := (r.call op).getD r

/-- The registered devices have different indices, and each has a reference for every live handle
with its index, and one more. -/
structure DevicesOk (r : NetRun δ) : Prop where
  distinct : (r.net.registry.devices.map fun d => d.ifindex).Nodup
  counted : ∀ d ∈ r.net.registry.devices,
    d.refcnt.toNat = 1 + r.handles.countP fun h => h.ifindex = d.ifindex

/-- What is asked of a call: it returns, the devices are as they should be afterwards, and no device
is freed that a live handle is to. -/
structure StepOk (r : NetRun δ) (op : NetOp δ) : Prop where
  returns : (r.call op).isSome
  devices : (r.next op).DevicesOk
  freed : ∀ ifindex dev net, op = .unregister ifindex →
    unregisterNetdev r.net ifindex = some (.ok dev, net) → ∀ h ∈ r.handles, h.ifindex ≠ ifindex

/-- No lookup finds a device, and no device is registered under an index that is in use. -/
def Unlooked (r : NetRun δ) : NetOp δ → Prop
  | .register dev =>
      ({ dev.val with ifindex := r.net.registry.nextIfindex } : NetDevice δ).initialise.1 = .ok () →
        ∀ d ∈ r.net.registry.devices, d.ifindex ≠ r.net.registry.nextIfindex
  | .getByIndex ifindex => ∀ d ∈ r.net.registry.devices, d.ifindex ≠ ifindex
  | .getByName name => ∀ d ∈ r.net.registry.devices, d.nameStr ≠ name
  | _ => True

/-- The invariant: the lock is free, there are no handles, and the devices are counted once. -/
structure Idle (r : NetRun δ) : Prop where
  free : r.net.locked = false
  handles : r.handles = []
  distinct : (r.net.registry.devices.map fun d => d.ifindex).Nodup
  unshared : ∀ d ∈ r.net.registry.devices, d.refcnt = 1#32

theorem idle_fresh : (fresh : NetRun δ).Idle :=
  ⟨rfl, rfl, List.nodup_nil, fun _ hd => absurd hd List.not_mem_nil⟩

variable {r : NetRun δ} {op : NetOp δ}

theorem Idle.devicesOk (h : r.Idle) : r.DevicesOk := by
  refine ⟨h.distinct, fun d hd => ?_⟩
  rw [h.handles, h.unshared d hd]
  rfl

/-- A call that keeps the invariant is as it should be. -/
theorem Idle.stepOk (h : r.Idle) {r' : NetRun δ} (hcall : r.call op = some r') (hidle : r'.Idle) :
    r.StepOk op := by
  have hnext : r.next op = r' := by rw [next, hcall, Option.getD_some]
  refine ⟨by rw [hcall]; rfl, hnext ▸ hidle.devicesOk, fun _ _ _ _ _ hd hmem => ?_⟩
  rw [h.handles] at hmem
  exact absurd hmem List.not_mem_nil

/-- The step lemma for the calls that do nothing wrong. -/
theorem Idle.step (h : r.Idle) (hop : r.Unlooked op) : ∃ r', r.call op = some r' ∧ r'.Idle := by
  have hno : ∀ k, r.handles[k]? = none := fun k => by rw [h.handles, List.getElem?_nil]
  cases op with
  | register dev =>
      obtain ⟨out, hout, houtcome⟩ := registerNetdev_outcome h.free dev.val
      refine ⟨{ r with net := out.2 }, by rw [call, hout, Option.map_some], ?_⟩
      cases houtcome with
      | failed e _ => exact ⟨h.free, h.handles, h.distinct, h.unshared⟩
      | registered d hinit hifindex hrefcnt =>
          refine ⟨h.free, h.handles, ?_, fun x hx => ?_⟩
          · change ((r.net.registry.devices ++ [d]).map fun d => d.ifindex).Nodup
            rw [List.map_append, List.nodup_append]
            refine ⟨h.distinct, List.nodup_singleton _, fun a ha b hb => ?_⟩
            obtain ⟨x, hx, rfl⟩ := List.mem_map.1 ha
            rw [List.map_singleton, List.mem_singleton] at hb
            rw [hb, hifindex]
            exact hop hinit x hx
          · rcases List.mem_append.1 hx with hx | hx
            · exact h.unshared x hx
            · rw [List.mem_singleton.1 hx, hrefcnt]
              exact dev.property
  | unregister ifindex =>
      obtain ⟨res, hres⟩ := unregisterNetdev_spec h.free ifindex
      have hcall := congrArg (Option.map fun out => ({ r with net := out.2 } : NetRun δ)) hres
      rw [Option.map_some] at hcall
      refine ⟨_, hcall, h.free, h.handles, ?_, fun x hx => ?_⟩
      · exact h.distinct.sublist (List.eraseP_sublist.map _)
      · exact h.unshared x (List.mem_of_mem_eraseP hx)
  | getByIndex ifindex =>
      have hspec := (devGetByIndex_spec h.free ifindex).1 hop
      refine ⟨r, ?_, h⟩
      rw [call, hspec, Option.map_some]
      exact congrArg (fun l => some (NetRun.mk r.net l)) (List.append_nil r.handles)
  | getByName name =>
      have hspec := (devGetByName_spec h.free name).1 hop
      refine ⟨r, ?_, h⟩
      rw [call, hspec, Option.map_some]
      exact congrArg (fun l => some (NetRun.mk r.net l)) (List.append_nil r.handles)
  | clone k =>
      refine ⟨r, ?_, h⟩
      rw [call, hno]
  | drop k =>
      refine ⟨r, ?_, h⟩
      rw [call, hno]

/-- A call that is as it should be finds no device, and registers none under a used index. -/
theorem Idle.unlooked (h : r.Idle) (hok : r.StepOk op) : r.Unlooked op := by
  cases op with
  | register dev =>
      intro hinit d hd heq
      obtain ⟨out, hout, houtcome⟩ := registerNetdev_outcome h.free dev.val
      have hdistinct := hok.devices.distinct
      rw [next, call, hout, Option.map_some, Option.getD_some] at hdistinct
      cases houtcome with
      | failed e hfail =>
          rw [hinit] at hfail
          cases hfail
      | registered x _ hifindex _ =>
          change ((r.net.registry.devices ++ [x]).map fun d => d.ifindex).Nodup at hdistinct
          rw [List.map_append, List.nodup_append] at hdistinct
          refine hdistinct.2.2 d.ifindex (List.mem_map_of_mem hd) x.ifindex ?_ ?_
          · rw [List.map_singleton, List.mem_singleton]
          · rw [hifindex, heq]
  | getByIndex ifindex =>
      by_contra hfound
      have hspec := (devGetByIndex_spec h.free ifindex).2 hfound
      have hreturns := hok.returns
      rw [call, hspec] at hreturns
      cases hreturns
  | getByName name =>
      by_contra hfound
      have hspec := (devGetByName_spec h.free name).2 hfound
      have hreturns := hok.returns
      rw [call, hspec] at hreturns
      cases hreturns
  | unregister _ => trivial
  | clone _ => trivial
  | drop _ => trivial

theorem Idle.stepOk_iff (h : r.Idle) : r.StepOk op ↔ r.Unlooked op := by
  refine ⟨h.unlooked, fun hop => ?_⟩
  obtain ⟨r', hcall, hidle⟩ := h.step hop
  exact h.stepOk hcall hidle

theorem Idle.next (h : r.Idle) (hop : r.Unlooked op) : (r.next op).Idle := by
  obtain ⟨r', hcall, hidle⟩ := h.step hop
  rwa [NetRun.next, hcall, Option.getD_some]

end NetRun

/-- A run keeps the promises of handles exactly if no lookup finds a device, and no device is
registered under an index that is in use. -/
theorem netdev_handles_iff (ops : List (NetOp δ)) :
    (NetRun.fresh : NetRun δ).DevicesOk ∧ Runs.Along NetRun.next NetRun.StepOk NetRun.fresh ops ↔
      Runs.Along NetRun.next NetRun.Unlooked NetRun.fresh ops := by
  rw [and_iff_right NetRun.idle_fresh.devicesOk]
  exact Runs.along_iff (I := NetRun.Idle) (fun _ _ hr _ => hr.stepOk_iff)
    (fun _ _ hr _ hop => hr.next hop) NetRun.idle_fresh (Runs.along_true _ _ ops)

/-- A device of a driver without operations. -/
def plainDevice : UnsharedDevice Unit :=
  ⟨{ name := Vector.replicate 16 0
     ifindex := 0#32
     flags := 0#32
     state := .init
     refcnt := 1#32
     rest := ()
     netdevOps :=
      { ndoInit := none
        ndoUninit := none
        ndoStop := none
        init_ifindex := fun _ hf => (by cases hf)
        init_refcnt := fun _ hf => (by cases hf) } }, rfl⟩

/-- The lookup of a device that was registered does not return. -/
theorem netdev_lookup_hangs :
    ¬ Runs.Along NetRun.next NetRun.StepOk NetRun.fresh
      [.register plainDevice, .getByIndex 1#32] := by
  rintro ⟨-, hok, -⟩
  have hreturns := hok.returns
  rw [show NetRun.call (NetRun.fresh.next (.register plainDevice)) (.getByIndex 1#32) = none
    from rfl] at hreturns
  cases hreturns

end StarOS
