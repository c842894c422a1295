/-
Client ids of a modem (`drivers/wwan/qmi.rs`).

The clients of all devices and services are in one table, packed into its front.  A new client gets
an id one above the greatest id of its pair, modulo 2^8, so that the id is 0 if 255 is live, however
few clients there are.

* `StarOS.QmiClientTable`, `StarOS.QmiClientTable.allocClient`,
  `StarOS.QmiClientTable.releaseClient` — the code;
* `StarOS.QmiClientTable.maxId_spec` — the greatest id of a pair;
* `StarOS.QmiRun`, `StarOS.QmiRun.next` — runs, with the clients that are live;
* `StarOS.qmi_ids_iff` — when the ids of a run are distinct and not zero.
-/

import StarOS.Packed
import StarOS.Runs
import Mathlib.Data.BitVec

set_option autoImplicit false

namespace StarOS

/-! ### The table -/

/-- The errors of the client registry, and of adding to a message. -/
inductive QmiError where
  | noMemory | clientIdsExhausted | invalidClientId | argTooLong
  deriving DecidableEq, Repr

/-- `QmiClient`. -/
structure QmiClient where
  devId : BitVec 8
  svcId : BitVec 8
  clientId : BitVec 8
  allocated : Bool
  deriving DecidableEq, Repr

/-- `QmiClient::empty`. -/
def QmiClient.empty : QmiClient := ⟨0#8, 0#8, 0#8, false⟩

/-- What a client is named by: its device, its service and its id. -/
structure QmiName where
  devId : BitVec 8
  svcId : BitVec 8
  clientId : BitVec 8
  deriving DecidableEq, Repr

/-- The name of a client. -/
def QmiClient.name (c : QmiClient) : QmiName := ⟨c.devId, c.svcId, c.clientId⟩

/-- `MAX_QMI_CLIENTS`. -/
def maxQmiClients : ℕ := 32

/-- `QmiClientTable`. -/
structure QmiClientTable where
  clients : List QmiClient
  count : ℕ
  length_clients : clients.length = maxQmiClients

namespace QmiClientTable

/-- `QmiClientTable::new`. -/
def new : QmiClientTable := ⟨List.replicate maxQmiClients QmiClient.empty, 0, List.length_replicate⟩

/-- The clients in the table. -/
def entries (t : QmiClientTable) : List QmiClient := Packed.entries t.clients t.count

/-- The greater of an id and that of a client of the pair. -/
def maxStep (devId svcId : BitVec 8) (maxId : BitVec 8) (c : QmiClient) : BitVec 8 :=
  if c.devId = devId ∧ c.svcId = svcId ∧ maxId < c.clientId then c.clientId else maxId

/-- The greatest id of a pair. -/
def maxId (t : QmiClientTable) (devId svcId : BitVec 8) : BitVec 8 :=
  t.entries.foldl (maxStep devId svcId) 0#8

/-- `qmi_alloc_client`. -/
def allocClient (t : QmiClientTable) (devId svcId : BitVec 8) :
    Except QmiError (BitVec 8) × QmiClientTable :=
  if maxQmiClients ≤ t.count then (.error .clientIdsExhausted, t)
  else
    let newId := t.maxId devId svcId + 1#8
    (.ok newId,
      { clients := Packed.push t.clients t.count ⟨devId, svcId, newId, true⟩
        count := t.count + 1
        length_clients := (Packed.length_push _ _ _).trans t.length_clients })

/-- `qmi_release_client`. -/
def releaseClient (t : QmiClientTable) (name : QmiName) : Except QmiError Unit × QmiClientTable :=
  match t.entries.findIdx? fun c => c.name = name with
  | some i =>
      (.ok (),
        { clients := Packed.swapRemove t.clients t.count i
          count := t.count - 1
          length_clients := (Packed.length_swapRemove _ _ _).trans t.length_clients })
  | none => (.error .invalidClientId, t)

variable {t : QmiClientTable} {devId svcId : BitVec 8}

theorem le_foldl_maxStep (l : List QmiClient) (m : BitVec 8) :
    m ≤ l.foldl (maxStep devId svcId) m ∧
      ∀ c ∈ l, c.devId = devId → c.svcId = svcId →
        c.clientId ≤ l.foldl (maxStep devId svcId) m := by
  induction l generalizing m with
  | nil => exact ⟨BitVec.le_refl _, fun _ hc => absurd hc List.not_mem_nil⟩
  | cons c l ih =>
      obtain ⟨hle, hall⟩ := ih (maxStep devId svcId m c)
      have hstep : m ≤ maxStep devId svcId m c ∧
          (c.devId = devId → c.svcId = svcId → c.clientId ≤ maxStep devId svcId m c) := by
        rw [maxStep]
        split
        · rename_i hc
          exact ⟨BitVec.le_of_lt hc.2.2, fun _ _ => BitVec.le_refl _⟩
        · rename_i hc
          exact ⟨BitVec.le_refl _, fun hdev hsvc => BitVec.not_lt.1 fun hlt =>
            hc ⟨hdev, hsvc, hlt⟩⟩
      rw [List.foldl_cons]
      refine ⟨BitVec.le_trans hstep.1 hle, fun d hd hdev hsvc => ?_⟩
      rcases List.mem_cons.1 hd with rfl | hd
      · exact BitVec.le_trans (hstep.2 hdev hsvc) hle
      · exact hall d hd hdev hsvc

theorem foldl_maxStep_mem (l : List QmiClient) (m : BitVec 8) :
    l.foldl (maxStep devId svcId) m = m ∨
      ∃ c ∈ l, c.name = ⟨devId, svcId, l.foldl (maxStep devId svcId) m⟩ := by
  induction l generalizing m with
  | nil => exact .inl rfl
  | cons c l ih =>
      rw [List.foldl_cons]
      rcases ih (maxStep devId svcId m c) with heq | ⟨d, hd, hname⟩
      · rw [heq, maxStep]
        split
        · rename_i hc
          exact .inr ⟨c, List.mem_cons_self, by rw [QmiClient.name, hc.1, hc.2.1]⟩
        · exact .inl rfl
      · exact .inr ⟨d, List.mem_cons_of_mem c hd, hname⟩

/-- The greatest id of a pair is 0 or that of a client, and no id of the pair is above it. -/
theorem maxId_spec (t : QmiClientTable) (devId svcId : BitVec 8) :
    (t.maxId devId svcId = 0#8 ∨ ∃ c ∈ t.entries, c.name = ⟨devId, svcId, t.maxId devId svcId⟩) ∧
      ∀ c ∈ t.entries, c.devId = devId → c.svcId = svcId → c.clientId ≤ t.maxId devId svcId :=
  ⟨foldl_maxStep_mem t.entries 0#8, (le_foldl_maxStep t.entries 0#8).2⟩

end QmiClientTable

/-! ### Runs -/

/-- A call on the registry. -/
inductive QmiOp where
  | alloc (devId svcId : BitVec 8)
  | release (name : QmiName)
  deriving DecidableEq, Repr

/-- A run: the table, and the clients that were allocated and not released. -/
structure QmiRun where
  table : QmiClientTable
  live : List QmiName

namespace QmiRun

/-- Before the first call. -/
def fresh : QmiRun := ⟨QmiClientTable.new, []⟩

/-- The next call. -/
def next (r : QmiRun) : QmiOp → QmiRun
  | .alloc devId svcId =>
      match r.table.allocClient devId svcId with
      | (.ok id, t) => ⟨t, r.live ++ [⟨devId, svcId, id⟩]⟩
      | (.error _, t) => ⟨t, r.live⟩
  | .release name =>
      match r.table.releaseClient name with
      | (.ok (), t) => ⟨t, r.live.erase name⟩
      | (.error _, t) => ⟨t, r.live⟩

/-- What is asked of a call: the ids of the live clients of a pair are distinct and not zero
afterwards, the table holds exactly the live clients, a release removes the client that it names if
there is one, and an allocation fails only if 32 clients are live. -/
structure StepOk (r : QmiRun) (op : QmiOp) : Prop where
  distinct : (r.next op).live.Nodup
  nonzero : ∀ name ∈ (r.next op).live, name.clientId ≠ 0#8
  table : ((r.next op).table.entries.map QmiClient.name).Perm (r.next op).live
  released : ∀ name, op = .release name →
    ((r.table.releaseClient name).1 = .ok () ↔ name ∈ r.live)
  failed : ∀ devId svcId e, op = .alloc devId svcId →
    (r.table.allocClient devId svcId).1 = .error e → r.live.length = maxQmiClients

/-- No client is allocated for a pair whose id 255 is live, unless the table is full. -/
def Unwrapped (r : QmiRun) : QmiOp → Prop
  | .alloc devId svcId => r.live.length < maxQmiClients → ⟨devId, svcId, 255#8⟩ ∉ r.live
  | .release _ => True

/-- The invariant. -/
structure Inv (r : QmiRun) : Prop where
  count : r.table.count ≤ maxQmiClients
  table : (r.table.entries.map QmiClient.name).Perm r.live
  distinct : r.live.Nodup
  nonzero : ∀ name ∈ r.live, name.clientId ≠ 0#8

theorem inv_fresh : fresh.Inv :=
  ⟨Nat.zero_le _, List.Perm.refl _, List.nodup_nil, fun _ h => absurd h List.not_mem_nil⟩

variable {r : QmiRun} {op : QmiOp} {devId svcId : BitVec 8} {name : QmiName}

theorem Inv.length_live (h : r.Inv) : r.live.length = r.table.count := by
  have hle : r.table.count ≤ r.table.clients.length := h.count.trans_eq r.table.length_clients.symm
  rw [← h.table.length_eq, List.length_map, QmiClientTable.entries, Packed.length_entries hle]

theorem Inv.mem_live (h : r.Inv) : name ∈ r.live ↔ ∃ c ∈ r.table.entries, c.name = name := by
  rw [← h.table.mem_iff, List.mem_map]

/-- The greatest id of a pair is 255 exactly if 255 is live. -/
theorem Inv.maxId_eq (h : r.Inv) :
    r.table.maxId devId svcId = 255#8 ↔ ⟨devId, svcId, 255#8⟩ ∈ r.live := by
  obtain ⟨hmem, hle⟩ := r.table.maxId_spec devId svcId
  constructor
  · intro heq
    rw [heq] at hmem
    rcases hmem with hzero | hmem
    · exact absurd hzero (by decide)
    · exact h.mem_live.2 hmem
  · intro hlive
    obtain ⟨c, hc, hname⟩ := h.mem_live.1 hlive
    have hc255 := hle c hc (congrArg QmiName.devId hname) (congrArg QmiName.svcId hname)
    rw [show c.clientId = 255#8 from congrArg QmiName.clientId hname] at hc255
    have hmax := BitVec.le_def.1 hc255
    refine BitVec.eq_of_toNat_eq ?_
    have hlt := (r.table.maxId devId svcId).isLt
    rw [BitVec.toNat_ofNat] at hmax ⊢
    omega

/-- An allocation while there is room. -/
theorem Inv.allocClient (h : r.Inv) (devId svcId : BitVec 8)
    (hroom : r.live.length < maxQmiClients) :
    ∃ t, r.table.allocClient devId svcId = (.ok (r.table.maxId devId svcId + 1#8), t) ∧
      t.count ≤ maxQmiClients ∧ (t.entries.map QmiClient.name).Perm
        (r.live ++ [⟨devId, svcId, r.table.maxId devId svcId + 1#8⟩]) := by
  rw [h.length_live] at hroom
  rw [QmiClientTable.allocClient, if_neg (not_le.2 hroom)]
  refine ⟨_, rfl, hroom, ?_⟩
  have hpush := Packed.entries_push (r.table.length_clients.symm ▸ hroom)
    ⟨devId, svcId, r.table.maxId devId svcId + 1#8, true⟩
  change ((Packed.entries (Packed.push _ _ _) (r.table.count + 1)).map QmiClient.name).Perm _
  rw [hpush, List.map_append]
  exact h.table.append_right _

/-- Below 255 the new id is not zero, and not live. -/
theorem Inv.newId (h : r.Inv) (hmax : r.table.maxId devId svcId ≠ 255#8) :
    r.table.maxId devId svcId + 1#8 ≠ 0#8 ∧
      ⟨devId, svcId, r.table.maxId devId svcId + 1#8⟩ ∉ r.live := by
  have hlt := (r.table.maxId devId svcId).isLt
  have hne : (r.table.maxId devId svcId).toNat ≠ 255 := fun heq =>
    hmax (BitVec.eq_of_toNat_eq heq)
  have hsucc : (r.table.maxId devId svcId + 1#8).toNat =
      (r.table.maxId devId svcId).toNat + 1 := by
    rw [BitVec.toNat_add, BitVec.toNat_ofNat]
    omega
  constructor
  · intro hzero
    rw [hzero, BitVec.toNat_ofNat] at hsucc
    omega
  · intro hlive
    obtain ⟨c, hc, hname⟩ := h.mem_live.1 hlive
    have hle := (r.table.maxId_spec devId svcId).2 c hc (congrArg QmiName.devId hname)
      (congrArg QmiName.svcId hname)
    have htoNat := BitVec.le_def.1 hle
    rw [show c.clientId = _ from congrArg QmiName.clientId hname, hsucc] at htoNat
    omega

/-- A release takes the named client out of the table, if it is live. -/
theorem Inv.releaseClient (h : r.Inv) (name : QmiName) :
    (name ∈ r.live ∧ ∃ t, r.table.releaseClient name = (.ok (), t) ∧ t.count ≤ maxQmiClients ∧
        (t.entries.map QmiClient.name).Perm (r.live.erase name)) ∨
      (name ∉ r.live ∧ r.table.releaseClient name = (.error .invalidClientId, r.table)) := by
  have hcount : r.table.count ≤ r.table.clients.length :=
    h.count.trans_eq r.table.length_clients.symm
  rw [QmiClientTable.releaseClient]
  split
  · rename_i i hi
    obtain ⟨hlt, hat, -⟩ := List.findIdx?_eq_some_iff_getElem.1 hi
    have hname : (r.table.entries[i]).name = name := of_decide_eq_true hat
    have hlive : name ∈ r.live := h.mem_live.2 ⟨_, List.getElem_mem hlt, hname⟩
    have hltcount : i < r.table.count := by
      rwa [QmiClientTable.entries, Packed.length_entries hcount] at hlt
    refine .inl ⟨hlive, _, rfl, (Nat.sub_le _ _).trans h.count, ?_⟩
    have hswap := Packed.entries_swapRemove hltcount hcount
    refine (hswap.map QmiClient.name).trans ?_
    -- Both are what is left of the live clients without the named one.
    have hcons := (List.getElem_cons_eraseIdx_perm hlt).map QmiClient.name
    rw [List.map_cons, hname] at hcons
    exact (List.perm_cons name).1 ((hcons.trans h.table).trans (List.perm_cons_erase hlive))
  · rename_i hnone
    refine .inr ⟨fun hlive => ?_, rfl⟩
    obtain ⟨c, hc, hname⟩ := h.mem_live.1 hlive
    have hfalse := List.findIdx?_eq_none_iff.1 hnone c hc
    exact absurd hname (of_decide_eq_false hfalse)

/-- The step lemma. -/
theorem Inv.step (h : r.Inv) (hop : r.Unwrapped op) : (r.next op).Inv ∧ r.StepOk op := by
  cases op with
  | alloc devId svcId =>
      by_cases hroom : r.live.length < maxQmiClients
      · obtain ⟨t, halloc, hcount, hperm⟩ := h.allocClient devId svcId hroom
        have hmax := fun heq => hop hroom (h.maxId_eq.1 heq)
        obtain ⟨hzero, hnew⟩ := h.newId hmax
        have hnext : r.next (.alloc devId svcId) =
            ⟨t, r.live ++ [⟨devId, svcId, r.table.maxId devId svcId + 1#8⟩]⟩ := by
          rw [next, halloc]
        have hinv : (r.next (.alloc devId svcId)).Inv := by
          rw [hnext]
          refine ⟨hcount, hperm, ?_, fun name hname => ?_⟩
          · refine List.nodup_append.2 ⟨h.distinct, List.nodup_singleton _, fun a ha b hb => ?_⟩
            rw [List.mem_singleton.1 hb]
            rintro rfl
            exact hnew ha
          · rcases List.mem_append.1 hname with hname | hname
            · exact h.nonzero name hname
            · rw [List.mem_singleton.1 hname]
              exact hzero
        refine ⟨hinv, hinv.distinct, hinv.nonzero, hinv.table, fun _ heq => (by cases heq),
          fun d s e heq herr => ?_⟩
        cases heq
        rw [halloc] at herr
        cases herr
      · have hfull : r.live.length = maxQmiClients :=
          le_antisymm (h.length_live.trans_le h.count) (not_lt.1 hroom)
        have hnext : r.next (.alloc devId svcId) = r := by
          rw [next, QmiClientTable.allocClient, if_pos (by rw [← h.length_live, hfull])]
        have hinv : (r.next (.alloc devId svcId)).Inv := hnext.symm ▸ h
        exact ⟨hinv, hinv.distinct, hinv.nonzero, hinv.table,
          fun _ heq => (by cases heq), fun _ _ _ _ _ => hfull⟩
  | release name =>
      rcases h.releaseClient name with ⟨hlive, t, hrelease, hcount, hperm⟩ | ⟨hdead, hrelease⟩
      · have hnext : r.next (.release name) = ⟨t, r.live.erase name⟩ := by
          rw [next, hrelease]
        have hinv : (r.next (.release name)).Inv := by
          rw [hnext]
          exact ⟨hcount, hperm, h.distinct.erase name,
            fun other hother => h.nonzero other (List.mem_of_mem_erase hother)⟩
        refine ⟨hinv, hinv.distinct, hinv.nonzero, hinv.table, fun other heq => ?_,
          fun _ _ _ heq => (by cases heq)⟩
        cases heq
        rw [hrelease]
        exact iff_of_true rfl hlive
      · have hnext : r.next (.release name) = r := by rw [next, hrelease]
        have hinv : (r.next (.release name)).Inv := hnext.symm ▸ h
        refine ⟨hinv, hinv.distinct, hinv.nonzero, hinv.table, fun other heq => ?_,
          fun _ _ _ heq => (by cases heq)⟩
        cases heq
        rw [hrelease]
        exact iff_of_false (fun herr => by cases herr) hdead

/-- A call that is as it should be does not go on from the id 255. -/
theorem Inv.unwrapped (h : r.Inv) (hok : r.StepOk op) : r.Unwrapped op := by
  cases op with
  | alloc devId svcId =>
      intro hroom hlive
      obtain ⟨t, halloc, -, -⟩ := h.allocClient devId svcId hroom
      have hnonzero := hok.nonzero
      rw [next, halloc, h.maxId_eq.2 hlive] at hnonzero
      exact hnonzero ⟨devId, svcId, 255#8 + 1#8⟩
        (List.mem_append_right _ (List.mem_singleton_self _)) rfl
  | release _ => trivial

end QmiRun

/-- The ids of a run are distinct and not zero, and the table is exact, exactly if no client is
allocated for a pair whose id 255 is live, unless the table is full. -/
theorem qmi_ids_iff (ops : List QmiOp) :
    Runs.Along QmiRun.next QmiRun.StepOk QmiRun.fresh ops ↔
      Runs.Along QmiRun.next QmiRun.Unwrapped QmiRun.fresh ops :=
  Runs.along_iff (I := QmiRun.Inv) (fun _ _ hr _ => ⟨hr.unwrapped, fun hop => (hr.step hop).2⟩)
    (fun _ _ hr _ hop => (hr.step hop).1) QmiRun.inv_fresh (Runs.along_true _ _ ops)

/-- Two clients are live at most, while their ids climb to 255. -/
def climbingOps : List QmiOp :=
  .alloc 0#8 1#8 :: (List.range 254).flatMap fun k =>
    [.alloc 0#8 1#8, .release ⟨0#8, 1#8, BitVec.ofNat 8 (k + 1)⟩]

/-- The client that is allocated next has the id 0. -/
theorem qmi_id_zero :
    ¬ Runs.Along QmiRun.next QmiRun.StepOk QmiRun.fresh (climbingOps ++ [.alloc 0#8 1#8]) := by
  intro h
  have hok := (Runs.along_concat.1 h).2
  exact hok.nonzero ⟨0#8, 1#8, 0#8⟩ (by decide +kernel) rfl

end StarOS
