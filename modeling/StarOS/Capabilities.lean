/-
Capabilities for inter-process communication (`capabilities.rs`): rights, the capability space
of a task, and what can be done with a capability that was granted.

A capability never gains rights on its way from task to task: `grant` intersects them, and needs the
right `GRANT` itself.  So whatever the order of grants, insertions and removals, every capability
that is held descends from one that was held at the start, and if it has changed hands then the one
it descends from could be granted.

* `StarOS.Rights`, `StarOS.Capability`, `StarOS.CapabilitySpace` — the data;
* `StarOS.CapabilitySpace.insert`, `StarOS.CapabilitySpace.get`, `StarOS.CapabilitySpace.remove`,
  `StarOS.CapabilitySpace.hasRights`, `StarOS.CapabilitySpace.grant` — the operations;
* `StarOS.CapabilitySpace.Made` — the spaces that these operations can build;
* `StarOS.Tasks`, `StarOS.capabilitySystem` — any number of spaces, and the runs from given ones;
* `StarOS.Descends`, `StarOS.Tasks.Attenuated` — the invariant;
* `StarOS.capabilities_confined` — confinement in every run.
-/

import StarOS.Error
import StarOS.Runs
import StarOS.Scheduler
import Mathlib.Tactic.Cases

set_option autoImplicit false

namespace StarOS

/-! ### Rights -/

/-- A bit field of capability rights. -/
structure Rights where
  bits : BitVec 32
  deriving DecidableEq, Repr

namespace Rights

/-- `Rights::SEND`. -/
def send : Rights := ⟨1#32 <<< 0⟩

/-- `Rights::RECEIVE`. -/
def receive : Rights := ⟨1#32 <<< 1⟩

/-- `Rights::GRANT`. -/
def grant : Rights := ⟨1#32 <<< 2⟩

/-- `Rights::ALL`. -/
def all : Rights := ⟨0x7F#32⟩

/-- `Rights::contains`. -/
def contains (r other : Rights) : Bool := (r.bits &&& other.bits) == other.bits

/-- `Rights::union`. -/
def union (r other : Rights) : Rights := ⟨r.bits ||| other.bits⟩

/-- `Rights::intersect`. -/
def intersect (r other : Rights) : Rights := ⟨r.bits &&& other.bits⟩

theorem contains_iff {r other : Rights} :
    r.contains other = true ↔ r.bits &&& other.bits = other.bits := by
  simp [contains]

theorem contains_refl (r : Rights) : r.contains r = true := by
  simp [contains]

theorem contains_trans {r s t : Rights} (hrs : r.contains s = true) (hst : s.contains t = true) :
    r.contains t = true := by
  rw [contains_iff] at hrs hst ⊢
  calc r.bits &&& t.bits = r.bits &&& (s.bits &&& t.bits) := by rw [hst]
    _ = (r.bits &&& s.bits) &&& t.bits := by rw [BitVec.and_assoc]
    _ = t.bits := by rw [hrs, hst]

/-- Intersecting with a restriction only removes rights. -/
theorem contains_intersect (r restricted : Rights) :
    r.contains (r.intersect restricted) = true := by
  rw [contains_iff, intersect, ← BitVec.and_assoc, BitVec.and_self]

end Rights

/-! ### Capability spaces -/

/-- A capability token. -/
structure Capability where
  /-- The kernel object it refers to. -/
  objectId : BitVec 64
  rights : Rights
  /-- The owner task. -/
  owner : TaskId
  generation : BitVec 32
  deriving DecidableEq, Repr

/-- `MAX_CAPS_PER_TASK`. -/
def maxCapsPerTask : ℕ := 64

/-- The capability space of a task. -/
structure CapabilitySpace where
  caps : Fin maxCapsPerTask → Option Capability
  owner : TaskId

namespace CapabilitySpace

/-- `CapabilitySpace::new`. -/
def new (owner : TaskId) : CapabilitySpace := ⟨fun _ => none, owner⟩

/-- The first empty slot. -/
def freeSlot (s : CapabilitySpace) : Option (Fin maxCapsPerTask) :=
  (List.finRange maxCapsPerTask).find? fun i => (s.caps i).isNone

/-- `CapabilitySpace::insert`. -/
def insert (s : CapabilitySpace) (cap : Capability) : Except KernelError ℕ × CapabilitySpace :=
  if cap.owner ≠ s.owner then (.error (.security .accessDenied), s)
  else
    match s.freeSlot with
    | some i => (.ok i, { s with caps := Function.update s.caps i (some cap) })
    | none => (.error .resourceExhausted, s)

/-- `CapabilitySpace::get`. -/
def get (s : CapabilitySpace) (slot : ℕ) : Option Capability :=
  if h : slot < maxCapsPerTask then s.caps ⟨slot, h⟩ else none

/-- `CapabilitySpace::remove`. -/
def remove (s : CapabilitySpace) (slot : ℕ) : Option Capability × CapabilitySpace :=
  if h : slot < maxCapsPerTask then
    (s.caps ⟨slot, h⟩, { s with caps := Function.update s.caps ⟨slot, h⟩ none })
  else (none, s)

/-- `CapabilitySpace::has_rights`. -/
def hasRights (s : CapabilitySpace) (objectId : BitVec 64) (required : Rights) : Bool :=
  (List.finRange maxCapsPerTask).any fun i =>
    match s.caps i with
    | some cap => cap.objectId == objectId && cap.rights.contains required
    | none => false

/-- `CapabilitySpace::grant`. -/
def grant (s : CapabilitySpace) (slot : ℕ) (targetOwner : TaskId) (restrictedRights : Rights) :
    Except KernelError Capability :=
  match s.get slot with
  | none => .error .notFound
  | some cap =>
      if cap.rights.contains Rights.grant then
        .ok { objectId := cap.objectId
              rights := cap.rights.intersect restrictedRights
              owner := targetOwner
              generation := cap.generation }
      else .error (.security .permissionDenied)

end CapabilitySpace

/-- `check_send_permission`. -/
def checkSendPermission (senderCaps : CapabilitySpace) (channelId : BitVec 64) :
    Except KernelError Unit :=
  if senderCaps.hasRights channelId Rights.send then .ok ()
  else .error (.security .permissionDenied)

/-- `check_receive_permission`. -/
def checkReceivePermission (receiverCaps : CapabilitySpace) (channelId : BitVec 64) :
    Except KernelError Unit :=
  if receiverCaps.hasRights channelId Rights.receive then .ok ()
  else .error (.security .permissionDenied)

/-! ### What the operations do to the capabilities held -/

namespace CapabilitySpace

/-- The space holds the capability in some slot. -/
def Holds (s : CapabilitySpace) (cap : Capability) : Prop := ∃ i, s.caps i = some cap

/-- The space holds a capability on the object. -/
def HoldsOn (s : CapabilitySpace) (objectId : BitVec 64) : Prop :=
  ∃ cap, s.Holds cap ∧ cap.objectId = objectId

theorem not_holds_new (owner : TaskId) (cap : Capability) : ¬ (new owner).Holds cap := by
  rintro ⟨i, hi⟩
  cases hi

theorem holds_of_get {s : CapabilitySpace} {slot : ℕ} {cap : Capability}
    (h : s.get slot = some cap) : s.Holds cap := by
  rw [get] at h
  split at h
  · exact ⟨_, h⟩
  · cases h

@[simp] theorem insert_owner (s : CapabilitySpace) (cap : Capability) :
    (s.insert cap).2.owner = s.owner := by
  rw [insert]
  split
  · rfl
  · cases s.freeSlot <;> rfl

/-- `insert` adds at most the capability it is given, and only if the task owns it. -/
theorem holds_insert {s : CapabilitySpace} {cap cap' : Capability}
    (h : (s.insert cap).2.Holds cap') : s.Holds cap' ∨ cap' = cap ∧ cap.owner = s.owner := by
  rw [insert] at h
  split at h
  · exact .inl h
  · rename_i howner
    cases hfree : s.freeSlot with
    | none =>
        rw [hfree] at h
        exact .inl h
    | some j =>
        rw [hfree] at h
        obtain ⟨i, hi⟩ := h
        dsimp only at hi
        by_cases hij : i = j
        · subst hij
          rw [Function.update_self] at hi
          exact .inr ⟨(Option.some.inj hi).symm, not_not.1 howner⟩
        · rw [Function.update_of_ne hij] at hi
          exact .inl ⟨i, hi⟩

@[simp] theorem remove_owner (s : CapabilitySpace) (slot : ℕ) :
    (s.remove slot).2.owner = s.owner := by
  rw [remove]
  split <;> rfl

/-- `remove` adds no capability. -/
theorem holds_remove {s : CapabilitySpace} {slot : ℕ} {cap : Capability}
    (h : (s.remove slot).2.Holds cap) : s.Holds cap := by
  rw [remove] at h
  split at h
  · obtain ⟨i, hi⟩ := h
    dsimp only at hi
    refine ⟨i, ?_⟩
    by_cases hij : i = ⟨slot, ‹_›⟩
    · rw [hij, Function.update_self] at hi
      cases hi
    · rwa [Function.update_of_ne hij] at hi
  · exact h

/-- `has_rights` finds a capability on the object with the rights, if there is one. -/
theorem hasRights_iff {s : CapabilitySpace} {objectId : BitVec 64} {required : Rights} :
    s.hasRights objectId required = true ↔
      ∃ cap, s.Holds cap ∧ cap.objectId = objectId ∧ cap.rights.contains required = true := by
  rw [hasRights, List.any_eq_true]
  constructor
  · rintro ⟨i, -, hi⟩
    cases hcap : s.caps i with
    | none => rw [hcap] at hi; cases hi
    | some cap =>
        rw [hcap] at hi
        obtain ⟨hobj, hrights⟩ := Bool.and_eq_true_iff.1 hi
        exact ⟨cap, ⟨i, hcap⟩, eq_of_beq hobj, hrights⟩
  · rintro ⟨cap, ⟨i, hcap⟩, rfl, hrights⟩
    exact ⟨i, List.mem_finRange i, by rw [hcap]; simp [hrights]⟩

/-- What `grant` returns comes from a capability that is held and may be granted, refers to the same
object and has no other rights. -/
theorem grant_eq_ok {s : CapabilitySpace} {slot : ℕ} {targetOwner : TaskId} {restricted : Rights}
    {cap : Capability} (h : s.grant slot targetOwner restricted = .ok cap) :
    ∃ from_, s.Holds from_ ∧ from_.rights.contains Rights.grant = true ∧
      cap.objectId = from_.objectId ∧ from_.rights.contains cap.rights = true := by
  rw [grant] at h
  cases hget : s.get slot with
  | none => rw [hget] at h; cases h
  | some from_ =>
      rw [hget] at h
      dsimp only at h
      split at h
      · rename_i hgrant
        cases h
        exact ⟨from_, holds_of_get hget, hgrant, rfl, Rights.contains_intersect _ _⟩
      · cases h

/-- The spaces that can be built: from an empty one by insertions and removals. -/
inductive Made : CapabilitySpace → Prop
  | new (owner : TaskId) : Made (new owner)
  | insert {s : CapabilitySpace} (h : Made s) (cap : Capability) : Made (s.insert cap).2
  | remove {s : CapabilitySpace} (h : Made s) (slot : ℕ) : Made (s.remove slot).2

/-- Every capability of a space that can be built is owned by the task of the space. -/
theorem Made.owned {s : CapabilitySpace} (h : s.Made) {cap : Capability} (hcap : s.Holds cap) :
    cap.owner = s.owner := by
  induction h with
  | new owner => exact absurd hcap (not_holds_new owner cap)
  | insert h new_ ih =>
      rw [insert_owner]
      rcases holds_insert hcap with hold | ⟨rfl, howner⟩
      · exact ih hold
      · exact howner
  | remove h slot ih =>
      rw [remove_owner]
      exact ih (holds_remove hcap)

end CapabilitySpace

/-! ### Runs of grants, insertions and removals -/

section Runs

variable {ι : Type*}

/-- Any number of capability spaces, and the capabilities that `grant` has returned. -/
structure Tasks (ι : Type*) where
  spaces : ι → CapabilitySpace
  granted : List Capability

/-- The calls: granting from a slot, inserting a capability that was granted, and removing one. -/
inductive CapabilityCall (ι : Type*) where
  | grant (i : ι) (slot : ℕ) (targetOwner : TaskId) (restrictedRights : Rights)
  | insert (i : ι) (cap : Capability)
  | remove (i : ι) (slot : ℕ)

namespace Tasks

/-- Replacing one of the spaces. -/
def setSpace [DecidableEq ι] (t : Tasks ι) (i : ι) (s : CapabilitySpace) : Tasks ι :=
  { t with spaces := Function.update t.spaces i s }

/-- What a call does. -/
def apply [DecidableEq ι] (t : Tasks ι) : CapabilityCall ι → Tasks ι
  | .grant i slot targetOwner restrictedRights =>
      match (t.spaces i).grant slot targetOwner restrictedRights with
      | .ok cap => { t with granted := cap :: t.granted }
      | .error _ => t
  | .insert i cap => t.setSpace i ((t.spaces i).insert cap).2
  | .remove i slot => t.setSpace i ((t.spaces i).remove slot).2

end Tasks

/-- The runs from given spaces.  Only a capability that was granted can be inserted; it can be
inserted more than once, or never. -/
def capabilitySystem [DecidableEq ι] (spaces : ι → CapabilitySpace) :
    Runs.System (Tasks ι) (CapabilityCall ι) where
  init t := t = ⟨spaces, []⟩
  step t c t' := (∀ i cap, c = .insert i cap → cap ∈ t.granted) ∧ t' = t.apply c

/-- The capability descends from one of the given spaces: there is a capability on the same object
there that has all its rights, and which belongs to the same task or could be granted. -/
def Descends (spaces : ι → CapabilitySpace) (cap : Capability) : Prop :=
  ∃ j origin, (spaces j).Holds origin ∧ origin.objectId = cap.objectId ∧
    origin.rights.contains cap.rights = true ∧
    ((spaces j).owner = cap.owner ∨ origin.rights.contains Rights.grant = true)

/-- The invariant: the spaces keep their owners and hold only capabilities of these, and every
capability, held or granted, descends from the given spaces. -/
structure Tasks.Attenuated (spaces : ι → CapabilitySpace) (t : Tasks ι) : Prop where
  owner : ∀ i, (t.spaces i).owner = (spaces i).owner
  owned : ∀ i cap, (t.spaces i).Holds cap → cap.owner = (t.spaces i).owner
  held : ∀ i cap, (t.spaces i).Holds cap → Descends spaces cap
  granted : ∀ cap ∈ t.granted, Descends spaces cap

/-- What is granted from a capability that descends from the given spaces descends from them. -/
theorem Descends.grant {spaces : ι → CapabilitySpace} {from_ cap : Capability}
    (h : Descends spaces from_) (hgrant : from_.rights.contains Rights.grant = true)
    (hobj : cap.objectId = from_.objectId) (hrights : from_.rights.contains cap.rights = true) :
    Descends spaces cap := by
  obtain ⟨j, origin, hheld, hsame, hcontains, -⟩ := h
  exact ⟨j, origin, hheld, hsame.trans hobj.symm, Rights.contains_trans hcontains hrights,
    .inr (Rights.contains_trans hcontains hgrant)⟩

namespace Tasks.Attenuated

variable {spaces : ι → CapabilitySpace} {t : Tasks ι}

theorem start (hmade : ∀ i, (spaces i).Made) : Attenuated spaces ⟨spaces, []⟩ where
  owner _ := rfl
  owned i _ hcap := (hmade i).owned hcap
  held i cap hcap :=
    ⟨i, cap, hcap, rfl, Rights.contains_refl _, .inl ((hmade i).owned hcap).symm⟩
  granted _ hcap := absurd hcap List.not_mem_nil

/-- Replacing a space by one of the same owner, all of whose capabilities are in order. -/
theorem setSpace [DecidableEq ι] (h : Attenuated spaces t) {i : ι} {s : CapabilitySpace}
    (howner : s.owner = (t.spaces i).owner)
    (hcaps : ∀ cap, s.Holds cap → cap.owner = s.owner ∧ Descends spaces cap) :
    Attenuated spaces (t.setSpace i s) := by
  have hspaces : ∀ k, (t.setSpace i s).spaces k = if k = i then s else t.spaces k := fun k =>
    Function.update_apply ..
  constructor
  case owner =>
    intro k
    rw [hspaces]
    split
    · rename_i hk
      rw [howner, hk]
      exact h.owner i
    · exact h.owner k
  case owned =>
    intro k cap hcap
    rw [hspaces] at hcap ⊢
    by_cases hk : k = i
    · rw [if_pos hk] at hcap ⊢
      exact (hcaps cap hcap).1
    · rw [if_neg hk] at hcap ⊢
      exact h.owned k cap hcap
  case held =>
    intro k cap hcap
    rw [hspaces] at hcap
    split at hcap
    · exact (hcaps cap hcap).2
    · exact h.held k cap hcap
  case granted => exact h.granted

/-- The invariant holds after every call. -/
theorem apply [DecidableEq ι] (h : Attenuated spaces t) (c : CapabilityCall ι)
    (hgranted : ∀ i cap, c = .insert i cap → cap ∈ t.granted) :
    Attenuated spaces (t.apply c) := by
  cases c with
  | grant i slot targetOwner restricted =>
      rw [Tasks.apply]
      split
      · rename_i cap hok
        obtain ⟨from_, hheld, hgrant, hobj, hrights⟩ := CapabilitySpace.grant_eq_ok hok
        have hcap : Descends spaces cap := (h.held i from_ hheld).grant hgrant hobj hrights
        exact ⟨h.owner, h.owned, h.held, List.forall_mem_cons.2 ⟨hcap, h.granted⟩⟩
      · exact h
  | insert i cap =>
      have hcap : Descends spaces cap := h.granted cap (hgranted i cap rfl)
      refine h.setSpace (CapabilitySpace.insert_owner _ _) fun cap' hcap' => ?_
      rw [CapabilitySpace.insert_owner]
      rcases CapabilitySpace.holds_insert hcap' with hold | ⟨rfl, howner⟩
      · exact ⟨h.owned i cap' hold, h.held i cap' hold⟩
      · exact ⟨howner, hcap⟩
  | remove i slot =>
      refine h.setSpace (CapabilitySpace.remove_owner _ _) fun cap hcap => ?_
      rw [CapabilitySpace.remove_owner]
      have hold := CapabilitySpace.holds_remove hcap
      exact ⟨h.owned i cap hold, h.held i cap hold⟩

theorem of_reach [DecidableEq ι] (hmade : ∀ i, (spaces i).Made)
    (h : (capabilitySystem spaces).Reach Runs.anyStep t) : Attenuated spaces t := by
  refine h.invariant (fun s hs => ?_) fun s c s' hinv _ hstep => ?_
  · rw [show s = ⟨spaces, []⟩ from hs]
    exact start hmade
  · rw [hstep.2]
    exact hinv.apply c hstep.1

/-- A task that held nothing on an object at the start, and holds a capability on it now, got its
rights from one that could be granted. -/
theorem of_nothing (h : Attenuated spaces t) {i : ι} {objectId : BitVec 64} {required : Rights}
    (hnothing : ∀ j, (spaces j).owner = (spaces i).owner → ¬ (spaces j).HoldsOn objectId)
    (hrights : (t.spaces i).hasRights objectId required = true) :
    ∃ j origin, (spaces j).Holds origin ∧ origin.objectId = objectId ∧
      origin.rights.contains required = true ∧ origin.rights.contains Rights.grant = true := by
  obtain ⟨cap, hcap, hobj, hreq⟩ := CapabilitySpace.hasRights_iff.1 hrights
  obtain ⟨j, origin, hheld, hsame, hcontains, hmine | hgrant⟩ := h.held i cap hcap
  · have howner : (spaces j).owner = (spaces i).owner := by
      rw [hmine, h.owned i cap hcap, h.owner]
    exact absurd ⟨origin, hheld, hsame.trans hobj⟩ (hnothing j howner)
  · exact ⟨j, origin, hheld, hsame.trans hobj, Rights.contains_trans hcontains hreq, hgrant⟩

end Tasks.Attenuated

theorem checkSendPermission_eq_ok {s : CapabilitySpace} {channelId : BitVec 64} :
    checkSendPermission s channelId = .ok () ↔ s.hasRights channelId Rights.send = true := by
  rw [checkSendPermission]
  split <;> simp_all

theorem checkReceivePermission_eq_ok {s : CapabilitySpace} {channelId : BitVec 64} :
    checkReceivePermission s channelId = .ok () ↔ s.hasRights channelId Rights.receive = true := by
  rw [checkReceivePermission]
  split <;> simp_all

/-- Confinement: in every run from any capability spaces, every capability held has rights contained
in those that a capability on the same object had at the start; a space holds only capabilities of
its own task; and a task that held nothing on an object at the start may send to it, or receive
from it, only if some capability at the start had that right together with `GRANT`. -/
theorem capabilities_confined [DecidableEq ι] (spaces : ι → CapabilitySpace)
    (hmade : ∀ i, (spaces i).Made) (t : Tasks ι)
    (h : (capabilitySystem spaces).Reach Runs.anyStep t) :
    (∀ i cap, (t.spaces i).Holds cap → ∃ j origin, (spaces j).Holds origin ∧
        origin.objectId = cap.objectId ∧ origin.rights.contains cap.rights = true) ∧
    (∀ i cap, (t.spaces i).Holds cap → cap.owner = (t.spaces i).owner) ∧
    (∀ i objectId,
        (∀ j, (spaces j).owner = (spaces i).owner → ¬ (spaces j).HoldsOn objectId) →
        (checkSendPermission (t.spaces i) objectId = .ok () →
          ∃ j origin, (spaces j).Holds origin ∧ origin.objectId = objectId ∧
            origin.rights.contains Rights.send = true ∧
            origin.rights.contains Rights.grant = true) ∧
        (checkReceivePermission (t.spaces i) objectId = .ok () →
          ∃ j origin, (spaces j).Holds origin ∧ origin.objectId = objectId ∧
            origin.rights.contains Rights.receive = true ∧
            origin.rights.contains Rights.grant = true)) := by
  have hinv : Tasks.Attenuated spaces t := .of_reach hmade h
  refine ⟨fun i cap hcap => ?_, hinv.owned, fun i objectId hnothing => ⟨fun hsend => ?_,
    fun hreceive => ?_⟩⟩
  · obtain ⟨j, origin, hheld, hsame, hcontains, -⟩ := hinv.held i cap hcap
    exact ⟨j, origin, hheld, hsame, hcontains⟩
  · exact hinv.of_nothing hnothing (checkSendPermission_eq_ok.1 hsend)
  · exact hinv.of_nothing hnothing (checkReceivePermission_eq_ok.1 hreceive)

end Runs

/-- A space with one capability, to send to object `42` and to grant it, and an empty one. -/
def oneGrantable : Bool → CapabilitySpace
  | false => ((CapabilitySpace.new ⟨1#64⟩).insert
      ⟨42#64, Rights.send.union Rights.grant, ⟨1#64⟩, 0#32⟩).2
  | true => CapabilitySpace.new ⟨2#64⟩

theorem oneGrantable_made (i : Bool) : (oneGrantable i).Made := by
  cases i with
  | false => exact .insert (.new _) _
  | true => exact .new _

/-- After the capability was granted to the second task, with all rights asked for. -/
def oneGranted : Tasks Bool :=
  ((⟨oneGrantable, []⟩ : Tasks Bool).apply (.grant false 0 ⟨2#64⟩ Rights.all)).apply
    (.insert true ⟨42#64, Rights.send.union Rights.grant, ⟨2#64⟩, 0#32⟩)

theorem oneGranted_reach : (capabilitySystem oneGrantable).Reach Runs.anyStep oneGranted := by
  have hgrant := Runs.System.Reach.step (M := capabilitySystem oneGrantable)
    (G := Runs.anyStep) (a := .grant false 0 ⟨2#64⟩ Rights.all) (.init rfl) trivial ⟨nofun, rfl⟩
  refine hgrant.step trivial ⟨?_, rfl⟩
  intro i cap hcap
  cases hcap
  decide

theorem capabilities_confined_granted :
    checkSendPermission (oneGranted.spaces true) 42#64 = .ok () ∧
    ∃ j origin, (oneGrantable j).Holds origin ∧ origin.objectId = 42#64 ∧
      origin.rights.contains Rights.send = true ∧ origin.rights.contains Rights.grant = true := by
  have hsend : checkSendPermission (oneGranted.spaces true) 42#64 = .ok () := by decide +kernel
  refine ⟨hsend, ((capabilities_confined oneGrantable oneGrantable_made oneGranted
    oneGranted_reach).2.2 true 42#64 fun j hj => ?_).1 hsend⟩
  cases j with
  | false => exact absurd hj (by decide)
  | true => exact fun ⟨cap, hcap, _⟩ => CapabilitySpace.not_holds_new _ _ hcap

end StarOS
