/-
Interrupt handlers (`drivers/resource/irq.rs`): the registry of requests, and the dispatch of an
interrupt to the handlers of its line.

The dispatch copies the handlers of the line under the lock and calls them without it, so that a
handler may request and free interrupts.  What is freed meanwhile is called all the same: a handler
is called if it was registered when the dispatch began.  Requests and frees may come between any
two calls of handlers, whether a handler makes them or anybody else, and any number of dispatches
may be under way.

* `StarOS.IrqDesc`, `StarOS.requestIrq`, `StarOS.freeIrq`, `StarOS.snapshot` — the code;
* `StarOS.requestIrq_eq_ok`, `StarOS.freeIrq_eq_ok` — what a call that returns does to the registry;
* `StarOS.IrqState`, `StarOS.IrqState.next` — the dispatches under way, and the log of what
  happened;
* `StarOS.IrqState.Inv` — the invariant: the registry and the dispatches as the log tells them;
* `StarOS.irqRegistry_ordered` — sharing, one call for each handler, and what is called after a
  free.
-/

import StarOS.Word
import Mathlib.Data.List.Nodup
import Mathlib.Logic.Function.Basic

set_option autoImplicit false

namespace StarOS

/-! ### The registry -/

/-- `IrqError`. -/
inductive IrqError where
  | invalidIrq
  | busy
  | noMemory
  | notFound
  deriving DecidableEq, Repr

/-- `IRQF_SHARED`. -/
def irqfShared : BitVec 32 := 0x80#32

/-- `IrqDesc`, without the name, and with the number of the request that it is from.  The handlers
are the elements of a type. -/
structure IrqDesc (η : Type) where
  id : ℕ
  irq : BitVec 32
  handler : η
  flags : BitVec 32
  devId : Usize
  deriving DecidableEq, Repr

/-- A handler that is to be called with its device, as `handle_irq` copies it. -/
structure Pending (η : Type) where
  id : ℕ
  handler : η
  devId : Usize
  deriving DecidableEq, Repr

variable {η : Type}

namespace IrqDesc

/-- The line may be shared. -/
def shared (desc : IrqDesc η) : Bool := desc.flags &&& irqfShared ≠ 0#32

/-- What is copied of a registration. -/
def pending (desc : IrqDesc η) : Pending η := ⟨desc.id, desc.handler, desc.devId⟩

end IrqDesc

/-- `request_irq`. -/
def requestIrq (registry : List (IrqDesc η)) (new : IrqDesc η) :
    Except IrqError (List (IrqDesc η)) :=
  if registry.any fun desc => desc.irq = new.irq && (!new.shared || !desc.shared) then
    .error .busy
  else .ok (registry ++ [new])

/-- `free_irq`: the registration that is removed, and what is left. -/
def freeIrq (registry : List (IrqDesc η)) (irq : BitVec 32) (devId : Usize) :
    Except IrqError (IrqDesc η × List (IrqDesc η)) :=
  match registry.find? fun desc => desc.irq = irq && desc.devId = devId with
  | none => .error .notFound
  | some desc =>
      .ok (desc, registry.eraseP fun desc => desc.irq = irq && desc.devId = devId)

/-- The copy that `handle_irq` takes. -/
def snapshot (registry : List (IrqDesc η)) (irq : BitVec 32) : List (Pending η) :=
  (registry.filter fun desc => desc.irq = irq).map IrqDesc.pending

/-- A request that is granted: the registration is behind the others, and those of its line share
it. -/
theorem requestIrq_eq_ok {registry registry' : List (IrqDesc η)} {new : IrqDesc η}
    (hok : requestIrq registry new = .ok registry') :
    registry' = registry ++ [new] ∧
      ∀ d ∈ registry, d.irq = new.irq → d.shared = true ∧ new.shared = true := by
  rw [requestIrq] at hok
  split at hok
  · cases hok
  · rename_i hany
    cases hok
    refine ⟨rfl, fun d hd hirq => ?_⟩
    have hcond := mt (fun hc => List.any_eq_true.2 ⟨d, hd, hc⟩) hany
    simp only [Bool.and_eq_true, decide_eq_true_eq, Bool.or_eq_true, Bool.not_eq_true',
      not_and, not_or, Bool.not_eq_false] at hcond
    exact (hcond hirq).symm

/-- A free that finds a registration: that one is gone, and no other. -/
theorem freeIrq_eq_ok {registry registry' : List (IrqDesc η)} {irq : BitVec 32} {devId : Usize}
    {desc : IrqDesc η} (hnodup : (registry.map IrqDesc.id).Nodup)
    (hok : freeIrq registry irq devId = .ok (desc, registry')) :
    desc ∈ registry ∧ (registry'.map IrqDesc.id).Nodup ∧
      ∀ d, d ∈ registry' ↔ d ∈ registry ∧ d.id ≠ desc.id := by
  rw [freeIrq] at hok
  split at hok
  · cases hok
  rename_i hfind
  cases hok
  -- the registry around the one that is removed
  obtain ⟨hprop, l₁, l₂, hreg, hfirst⟩ := List.find?_eq_some_iff_append.1 hfind
  have herase : registry.eraseP (fun desc => desc.irq = irq && desc.devId = devId) = l₁ ++ l₂ := by
    have hnone : ∀ d ∈ l₁, ¬ (decide (d.irq = irq) && decide (d.devId = devId)) = true := by
      intro d hd hp
      have hneg := hfirst d hd
      rw [hp] at hneg
      cases hneg
    rw [hreg, List.eraseP_append_right _ hnone, List.eraseP_cons, hprop]
    rfl
  rw [hreg, List.map_append, List.map_cons] at hnodup
  have hdisj := List.nodup_middle.1 hnodup
  rw [List.nodup_cons, ← List.map_append] at hdisj
  rw [herase, hreg]
  refine ⟨List.mem_append_right _ List.mem_cons_self, hdisj.2, fun d => ?_⟩
  constructor
  · intro hd
    refine ⟨?_, fun heq => hdisj.1 (heq ▸ List.mem_map_of_mem hd)⟩
    simp only [List.mem_append, List.mem_cons] at hd ⊢
    exact hd.imp_right Or.inr
  · rintro ⟨hd, hne⟩
    simp only [List.mem_append, List.mem_cons] at hd ⊢
    rcases hd with hd | rfl | hd
    · exact Or.inl hd
    · exact absurd rfl hne
    · exact Or.inr hd

/-! ### Runs -/

/-- What happens: a registration is made or removed, a dispatch begins, calls a handler for a line,
or ends. -/
inductive IrqEvent (η : Type) where
  | requested (desc : IrqDesc η)
  | freed (id : ℕ)
  | began (k : ℕ) (irq : BitVec 32)
  | called (k : ℕ) (irq : BitVec 32) (p : Pending η)
  | ended (k : ℕ)
  deriving DecidableEq, Repr

namespace IrqEvent

/-- The call that the dispatch `k` makes. -/
def call (k : ℕ) : IrqEvent η → Option (BitVec 32 × Pending η)
  | called k' irq p => if k' = k then some (irq, p) else none
  | _ => none

/-- A call by the dispatch `k` for the registration `id`. -/
def isCall (k id : ℕ) : IrqEvent η → Bool
  | called k' _ p => k' = k && p.id = id
  | _ => false

end IrqEvent

/-- The registry, the dispatches under way, each with the handlers still to be called, and the log.
-/
structure IrqState (η : Type) where
  registry : List (IrqDesc η)
  requests : ℕ
  dispatch : ℕ → Option (BitVec 32 × List (Pending η))
  dispatches : ℕ
  log : List (IrqEvent η)

/-- What can be done: call one of the functions, or, in a dispatch, call the next handler or come to
the end of the loop. -/
inductive IrqAct (η : Type) where
  | request (irq : BitVec 32) (handler : η) (flags : BitVec 32) (devId : Usize)
  | free (irq : BitVec 32) (devId : Usize)
  | handle (irq : BitVec 32)
  | call (k : ℕ)
  | finish (k : ℕ)
  deriving DecidableEq, Repr

namespace IrqState

/-- No registration and no dispatch. -/
def start (η : Type) : IrqState η := ⟨[], 0, fun _ => none, 0, []⟩

/-- One step.  A request or a free that fails changes nothing, and neither does a step that a
dispatch cannot make. -/
def next (s : IrqState η) : IrqAct η → IrqState η
  | .request irq handler flags devId =>
      match requestIrq s.registry ⟨s.requests, irq, handler, flags, devId⟩ with
      | .error _ => s
      | .ok registry =>
          { s with
            registry := registry
            requests := s.requests + 1
            log := s.log ++ [.requested ⟨s.requests, irq, handler, flags, devId⟩] }
  | .free irq devId =>
      match freeIrq s.registry irq devId with
      | .error _ => s
      | .ok (desc, registry) => { s with registry := registry, log := s.log ++ [.freed desc.id] }
  | .handle irq =>
      { s with
        dispatch := Function.update s.dispatch s.dispatches (some (irq, snapshot s.registry irq))
        dispatches := s.dispatches + 1
        log := s.log ++ [.began s.dispatches irq] }
  | .call k =>
      match s.dispatch k with
      | some (irq, p :: rest) =>
          { s with
            dispatch := Function.update s.dispatch k (some (irq, rest))
            log := s.log ++ [.called k irq p] }
      | _ => s
  | .finish k =>
      match s.dispatch k with
      | some (_, []) =>
          { s with
            dispatch := Function.update s.dispatch k none
            log := s.log ++ [.ended k] }
      | _ => s

/-! ### What is claimed -/

/-- Two registrations of one line are both shared. -/
def Sharing (s : IrqState η) : Prop :=
  ∀ d ∈ s.registry, ∀ e ∈ s.registry, d.id ≠ e.id → d.irq = e.irq →
    d.shared = true ∧ e.shared = true

/-- A dispatch that has ended has called each handler that was registered for the line from its
beginning to its end once, with its own device. -/
def ExactlyOnce (s : IrqState η) : Prop :=
  ∀ l₁ l₂ l₃ k irq, s.log = l₁ ++ .began k irq :: (l₂ ++ .ended k :: l₃) →
    ∀ d : IrqDesc η, .requested d ∈ l₁ → d.irq = irq → .freed d.id ∉ l₁ → .freed d.id ∉ l₂ →
      l₂.filter (IrqEvent.isCall k d.id) = [.called k irq d.pending]

/-- No handler is called after its registration was freed. -/
def NoneAfterFree (s : IrqState η) : Prop :=
  ∀ l₁ l₂ k irq p, s.log = l₁ ++ .called k irq p :: l₂ → .freed p.id ∉ l₁

/-- A handler is called after its registration was freed only by a dispatch that had begun before.
-/
def NoneBegunAfterFree (s : IrqState η) : Prop :=
  ∀ l₁ l₂ k irq p, s.log = l₁ ++ .called k irq p :: l₂ → .freed p.id ∈ l₁ →
    [.began k irq, .freed p.id].Sublist l₁

/-! ### The invariant -/

/-- The handler was registered for the line when the log was `l`. -/
def Present (l : List (IrqEvent η)) (irq : BitVec 32) (p : Pending η) : Prop :=
  ∃ d : IrqDesc η, .requested d ∈ l ∧ .freed d.id ∉ l ∧ d.irq = irq ∧ p = d.pending

/-- The calls that the dispatch `k` has made. -/
def calls (k : ℕ) (l : List (IrqEvent η)) : List (BitVec 32 × Pending η) :=
  l.filterMap (IrqEvent.call k)

/-- How far the dispatch `k` has come that began with the copy `copied`, after the events `l`: the
calls that it has made and those it will make are those of the copy. -/
def Progress (s : IrqState η) (k : ℕ) (irq : BitVec 32) (copied : List (Pending η))
    (l : List (IrqEvent η)) : Prop :=
  (∃ rest, s.dispatch k = some (irq, rest) ∧ .ended k ∉ l ∧
      calls k l ++ rest.map (irq, ·) = copied.map (irq, ·)) ∨
    (s.dispatch k = none ∧ ∃ l₁ l₂, l = l₁ ++ .ended k :: l₂ ∧ .ended k ∉ l₁ ∧ .ended k ∉ l₂ ∧
      calls k l₁ = copied.map (irq, ·))

/-- The registry and the dispatches are what the log tells. -/
structure Inv (s : IrqState η) : Prop where
  registered : ∀ d, d ∈ s.registry ↔ .requested d ∈ s.log ∧ .freed d.id ∉ s.log
  nodup : (s.registry.map IrqDesc.id).Nodup
  requested_lt : ∀ d, .requested d ∈ s.log → d.id < s.requests
  freed_lt : ∀ id, .freed id ∈ s.log → id < s.requests
  inj : ∀ d e, .requested d ∈ s.log → .requested e ∈ s.log → d.id = e.id → d = e
  sharing : s.Sharing
  began_lt : ∀ k irq, .began k irq ∈ s.log → k < s.dispatches
  running : ∀ k irq rest, s.dispatch k = some (irq, rest) → .began k irq ∈ s.log
  history : ∀ l₁ l₂ k irq, s.log = l₁ ++ .began k irq :: l₂ →
    ∃ copied : List (Pending η), (∀ p, p ∈ copied ↔ Present l₁ irq p) ∧
      (copied.map Pending.id).Nodup ∧ s.Progress k irq copied l₂
  called : ∀ l₁ l₂ k irq p, s.log = l₁ ++ .called k irq p :: l₂ →
    ∃ a b, l₁ = a ++ .began k irq :: b ∧ Present a irq p

theorem inv_start : (start η).Inv where
  registered := fun d => by simp [start]
  nodup := List.nodup_nil
  requested_lt := fun d h => by simp [start] at h
  freed_lt := fun id h => by simp [start] at h
  inj := fun d e h => by simp [start] at h
  sharing := fun d h => by simp [start] at h
  began_lt := fun k irq h => by simp [start] at h
  running := fun k irq rest h => by simp [start] at h
  history := fun l₁ l₂ k irq h => by simp [start] at h
  called := fun l₁ l₂ k irq p h => by simp [start] at h

/-! ### Logs that grow -/

variable {s s' : IrqState η} {e : IrqEvent η} {k : ℕ} {irq : BitVec 32} {copied : List (Pending η)}
  {l : List (IrqEvent η)}

/-- An occurrence in a log with one more event is one before, or the event. -/
theorem split_concat {l l₁ l₂ : List (IrqEvent η)} {e x : IrqEvent η}
    (h : l ++ [e] = l₁ ++ x :: l₂) :
    (∃ l₂', l₂ = l₂' ++ [e] ∧ l = l₁ ++ x :: l₂') ∨ (l₂ = [] ∧ x = e ∧ l₁ = l) := by
  rcases List.eq_nil_or_concat' l₂ with rfl | ⟨l₂', y, rfl⟩
  · obtain ⟨hl, he⟩ := List.append_inj' h rfl
    exact Or.inr ⟨rfl, (List.singleton_inj.1 he).symm, hl.symm⟩
  · have h' : l ++ [e] = (l₁ ++ x :: l₂') ++ [y] := by simpa using h
    obtain ⟨hl, he⟩ := List.append_inj' h' rfl
    rw [List.singleton_inj.1 he]
    exact Or.inl ⟨l₂', rfl, hl⟩

theorem calls_concat (he : e.call k = none) : calls k (l ++ [e]) = calls k l := by
  simp [calls, List.filterMap_append, he]

/-- An event that is not about a dispatch. -/
theorem Progress.concat (h : s.Progress k irq copied l) (hdisp : s'.dispatch k = s.dispatch k)
    (hcall : e.call k = none) (hend : .ended k ≠ e) : s'.Progress k irq copied (l ++ [e]) := by
  rcases h with ⟨rest, hrun, hnot, hcalls⟩ | ⟨hdone, l₁, l₂, hl, h₁, h₂, hcalls⟩
  · refine Or.inl ⟨rest, hdisp.trans hrun, ?_, by rw [calls_concat hcall, hcalls]⟩
    simp [hnot, hend]
  · refine Or.inr ⟨hdisp.trans hdone, l₁, l₂ ++ [e], by rw [hl]; simp, h₁, ?_, hcalls⟩
    simp [h₂, hend]

/-- The history of the dispatches after an event that begins none, where each dispatch has come as
far as it should. -/
theorem Inv.history_concat (h : s.Inv) (hbegan : ∀ k irq, .began k irq ≠ e)
    (hstep : ∀ l₁ l₂ k irq copied, s.log = l₁ ++ .began k irq :: l₂ →
      (∀ p, p ∈ copied ↔ Present l₁ irq p) → s.Progress k irq copied l₂ →
        s'.Progress k irq copied (l₂ ++ [e])) :
    ∀ l₁ l₂ k irq, s.log ++ [e] = l₁ ++ .began k irq :: l₂ →
      ∃ copied : List (Pending η), (∀ p, p ∈ copied ↔ Present l₁ irq p) ∧
        (copied.map Pending.id).Nodup ∧ s'.Progress k irq copied l₂ := by
  intro l₁ l₂ k irq hlog
  rcases split_concat hlog with ⟨l₂', rfl, hold⟩ | ⟨-, heq, -⟩
  · obtain ⟨copied, hmem, hnodup, hprogress⟩ := h.history l₁ l₂' k irq hold
    exact ⟨copied, hmem, hnodup, hstep l₁ l₂' k irq copied hold hmem hprogress⟩
  · exact absurd heq (hbegan k irq)

/-- The calls after an event that is none. -/
theorem Inv.called_concat (h : s.Inv) (hcalled : ∀ k irq p, .called k irq p ≠ e) :
    ∀ l₁ l₂ k irq p, s.log ++ [e] = l₁ ++ .called k irq p :: l₂ →
      ∃ a b, l₁ = a ++ .began k irq :: b ∧ Present a irq p := by
  intro l₁ l₂ k irq p hlog
  rcases split_concat hlog with ⟨l₂', -, hold⟩ | ⟨-, heq, -⟩
  · exact h.called l₁ l₂' k irq p hold
  · exact absurd heq (hcalled k irq p)

/-- An event of a dispatch leaves the registry as it is. -/
theorem Inv.of_dispatch (h : s.Inv) (hreg : s'.registry = s.registry)
    (hreq : s'.requests = s.requests) (hlog : s'.log = s.log ++ [e])
    (hrequested : ∀ d, .requested d ≠ e) (hfreed : ∀ id, .freed id ≠ e)
    (hbegan_lt : ∀ k irq, .began k irq ∈ s'.log → k < s'.dispatches)
    (hrunning : ∀ k irq rest, s'.dispatch k = some (irq, rest) → .began k irq ∈ s'.log)
    (hhistory : ∀ l₁ l₂ k irq, s.log ++ [e] = l₁ ++ .began k irq :: l₂ →
      ∃ copied : List (Pending η), (∀ p, p ∈ copied ↔ Present l₁ irq p) ∧
        (copied.map Pending.id).Nodup ∧ s'.Progress k irq copied l₂)
    (hcalled : ∀ l₁ l₂ k irq p, s.log ++ [e] = l₁ ++ .called k irq p :: l₂ →
      ∃ a b, l₁ = a ++ .began k irq :: b ∧ Present a irq p) : s'.Inv := by
  have hmem : ∀ d, .requested d ∈ s'.log ↔ .requested d ∈ s.log := fun d => by
    simp [hlog, hrequested d]
  have hmem' : ∀ id, .freed id ∈ s'.log ↔ .freed id ∈ s.log := fun id => by
    simp [hlog, hfreed id]
  refine ⟨fun d => ?_, by rw [hreg]; exact h.nodup, fun d hd => ?_, fun id hid => ?_,
    fun d e hd he => ?_, ?_, hbegan_lt, hrunning, by rw [hlog]; exact hhistory,
    by rw [hlog]; exact hcalled⟩
  · rw [hreg, hmem, hmem']
    exact h.registered d
  · rw [hreq]
    exact h.requested_lt d ((hmem d).1 hd)
  · rw [hreq]
    exact h.freed_lt id ((hmem' id).1 hid)
  · exact h.inj d e ((hmem d).1 hd) ((hmem e).1 he)
  · rw [Sharing, hreg]
    exact h.sharing

/-! ### Steps -/

/-- A registration is made. -/
theorem Inv.request (h : s.Inv) {new : IrqDesc η} {registry : List (IrqDesc η)}
    (hid : new.id = s.requests) (hok : requestIrq s.registry new = .ok registry) :
    ({ s with
      registry := registry
      requests := s.requests + 1
      log := s.log ++ [.requested new] } : IrqState η).Inv := by
  obtain ⟨rfl, hshare⟩ := requestIrq_eq_ok hok
  have hlt : ∀ d ∈ s.registry, d.id < s.requests := fun d hd =>
    h.requested_lt d ((h.registered d).1 hd).1
  have hfresh : .freed new.id ∉ s.log := fun hmem => by
    have hlt := h.freed_lt new.id hmem
    omega
  have hnot : .requested new ∉ s.log := fun hmem => by
    have hlt := h.requested_lt new hmem
    omega
  refine ⟨fun d => ?_, ?_, fun d hd => ?_, fun id hmem => ?_, fun d e hd he hids => ?_, ?_,
    fun k irq hmem => ?_, fun k irq rest hrun => ?_, ?_, ?_⟩
  · simp only [List.mem_append, List.mem_singleton, IrqEvent.requested.injEq, h.registered d,
      reduceCtorEq, or_false]
    constructor
    · rintro (⟨hreq, hfreed⟩ | rfl)
      · exact ⟨Or.inl hreq, hfreed⟩
      · exact ⟨Or.inr rfl, hfresh⟩
    · rintro ⟨hreq | rfl, hfreed⟩
      · exact Or.inl ⟨hreq, hfreed⟩
      · exact Or.inr rfl
  · rw [List.map_append, List.map_singleton]
    refine List.Nodup.append h.nodup (List.nodup_singleton _) ?_
    rw [List.disjoint_singleton, List.mem_map]
    rintro ⟨d, hd, heq⟩
    have hd := hlt d hd
    omega
  · simp only [List.mem_append, List.mem_singleton, IrqEvent.requested.injEq] at hd
    rcases hd with hd | rfl
    · exact (h.requested_lt d hd).trans (Nat.lt_succ_self _)
    · exact hid.trans_lt (Nat.lt_succ_self _)
  · simp only [List.mem_append, List.mem_singleton, reduceCtorEq, or_false] at hmem
    exact (h.freed_lt id hmem).trans (Nat.lt_succ_self _)
  · simp only [List.mem_append, List.mem_singleton, IrqEvent.requested.injEq] at hd he
    rcases hd with hd | rfl <;> rcases he with he | rfl
    · exact h.inj d e hd he hids
    · have hlt := h.requested_lt d hd
      omega
    · have hlt := h.requested_lt e he
      omega
    · rfl
  · intro d hd e he hne hirq
    rcases List.mem_append.1 hd with hold | hnew <;> rcases List.mem_append.1 he with hold' | hnew'
    · exact h.sharing d hold e hold' hne hirq
    · rw [List.mem_singleton.1 hnew'] at hirq ⊢
      exact hshare d hold hirq
    · rw [List.mem_singleton.1 hnew] at hirq ⊢
      exact (hshare e hold' hirq.symm).symm
    · rw [List.mem_singleton.1 hnew, List.mem_singleton.1 hnew'] at hne
      exact absurd rfl hne
  · simp only [List.mem_append, List.mem_singleton, reduceCtorEq, or_false] at hmem
    exact h.began_lt k irq hmem
  · exact List.mem_append_left _ (h.running k irq rest hrun)
  · exact h.history_concat (by simp) fun _ _ _ _ _ _ _ hp => hp.concat rfl rfl (by simp)
  · exact h.called_concat (by simp)

/-- A registration is removed. -/
theorem Inv.free (h : s.Inv) {devId : Usize} {desc : IrqDesc η} {registry : List (IrqDesc η)}
    (hok : freeIrq s.registry irq devId = .ok (desc, registry)) :
    ({ s with
      registry := registry
      log := s.log ++ [.freed desc.id] } : IrqState η).Inv := by
  obtain ⟨hdesc, hnodup, hmem⟩ := freeIrq_eq_ok h.nodup hok
  refine ⟨fun d => ?_, ?_, fun d hd => ?_, fun id hid => ?_, fun d e hd he => ?_, ?_,
    fun k irq hmem => ?_, fun k irq rest hrun => ?_, ?_, ?_⟩
  · rw [hmem, h.registered d]
    simp [and_assoc]
  · exact hnodup
  · simp only [List.mem_append, List.mem_singleton, reduceCtorEq, or_false] at hd
    exact h.requested_lt d hd
  · simp only [List.mem_append, List.mem_singleton, IrqEvent.freed.injEq] at hid
    rcases hid with hid | rfl
    · exact h.freed_lt id hid
    · exact h.requested_lt desc ((h.registered desc).1 hdesc).1
  · simp only [List.mem_append, List.mem_singleton, reduceCtorEq, or_false] at hd he
    exact h.inj d e hd he
  · intro d hd e he
    exact h.sharing d ((hmem d).1 hd).1 e ((hmem e).1 he).1
  · simp only [List.mem_append, List.mem_singleton, reduceCtorEq, or_false] at hmem
    exact h.began_lt k irq hmem
  · exact List.mem_append_left _ (h.running k irq rest hrun)
  · exact h.history_concat (by simp) fun _ _ _ _ _ _ _ hp => hp.concat rfl rfl (by simp)
  · exact h.called_concat (by simp)

/-- What a dispatch copies: the handlers that are registered for the line. -/
theorem Inv.mem_snapshot (h : s.Inv) {p : Pending η} :
    p ∈ snapshot s.registry irq ↔ Present s.log irq p := by
  simp only [snapshot, List.mem_map, List.mem_filter, decide_eq_true_eq, h.registered, Present]
  constructor
  · rintro ⟨d, ⟨⟨hreq, hfreed⟩, hirq⟩, rfl⟩
    exact ⟨d, hreq, hfreed, hirq, rfl⟩
  · rintro ⟨d, hreq, hfreed, hirq, rfl⟩
    exact ⟨d, ⟨⟨hreq, hfreed⟩, hirq⟩, rfl⟩

theorem Inv.nodup_snapshot (h : s.Inv) : ((snapshot s.registry irq).map Pending.id).Nodup := by
  rw [snapshot, List.map_map]
  exact h.nodup.sublist ((List.filter_sublist ..).map _)

/-- A dispatch begins. -/
theorem Inv.handle (h : s.Inv) (irq : BitVec 32) : (s.next (.handle irq)).Inv := by
  refine h.of_dispatch rfl rfl rfl (by simp) (by simp) (fun k irq' hmem => ?_)
    (fun k irq' rest hrun => ?_) (fun l₁ l₂ k irq' hlog => ?_) (h.called_concat (by simp))
  · simp only [next, List.mem_append, List.mem_singleton, IrqEvent.began.injEq] at hmem ⊢
    rcases hmem with hmem | ⟨rfl, -⟩
    · exact (h.began_lt k irq' hmem).trans (Nat.lt_succ_self _)
    · exact Nat.lt_succ_self _
  · simp only [next] at hrun ⊢
    by_cases hk : k = s.dispatches
    · subst hk
      rw [Function.update_self] at hrun
      cases hrun
      exact List.mem_concat_self
    · rw [Function.update_of_ne hk] at hrun
      exact List.mem_append_left _ (h.running k irq' rest hrun)
  · rcases split_concat hlog with ⟨l₂', rfl, hold⟩ | ⟨rfl, heq, rfl⟩
    · -- an earlier dispatch
      have hlt : k < s.dispatches := h.began_lt k irq' (by rw [hold]; simp)
      obtain ⟨copied, hmem, hnodup, hprogress⟩ := h.history l₁ l₂' k irq' hold
      exact ⟨copied, hmem, hnodup,
        hprogress.concat (Function.update_of_ne hlt.ne _ _) rfl (by simp)⟩
    · cases heq
      refine ⟨snapshot s.registry irq, fun p => h.mem_snapshot, h.nodup_snapshot, Or.inl
        ⟨snapshot s.registry irq, Function.update_self .., List.not_mem_nil, rfl⟩⟩

/-- A dispatch calls the next handler. -/
theorem Inv.call (h : s.Inv) {p : Pending η} {rest : List (Pending η)}
    (hrun : s.dispatch k = some (irq, p :: rest)) :
    ({ s with
      dispatch := Function.update s.dispatch k (some (irq, rest))
      log := s.log ++ [.called k irq p] } : IrqState η).Inv := by
  refine h.of_dispatch rfl rfl rfl (by simp) (by simp) (fun k' irq' hmem => ?_)
    (fun k' irq' rest' hrun' => ?_)
    (h.history_concat (by simp) fun l₁ l₂ k' irq' copied _ _ hp => ?_)
    (fun l₁ l₂ k' irq' p' hlog => ?_)
  · simp only [List.mem_append, List.mem_singleton, reduceCtorEq, or_false] at hmem
    exact h.began_lt k' irq' hmem
  · refine List.mem_append_left _ ?_
    by_cases hk : k' = k
    · subst hk
      simp only [Function.update_self, Option.some.injEq, Prod.mk.injEq] at hrun'
      rw [← hrun'.1]
      exact h.running k' irq (p :: rest) hrun
    · simp only [Function.update_of_ne hk] at hrun'
      exact h.running k' irq' rest' hrun'
  · by_cases hk : k' = k
    · subst hk
      rcases hp with ⟨rest', hrun', hnot, hcalls⟩ | ⟨hdone, -⟩
      · rw [hrun] at hrun'
        cases hrun'
        refine Or.inl ⟨rest, Function.update_self .., by simp [hnot], ?_⟩
        rw [← hcalls]
        simp [calls, List.filterMap_append, IrqEvent.call]
      · rw [hrun] at hdone
        cases hdone
    · exact hp.concat (Function.update_of_ne hk _ _)
        (if_neg fun hk' => hk hk'.symm) (by simp)
  · rcases split_concat hlog with ⟨l₂', -, hold⟩ | ⟨-, heq, rfl⟩
    · exact h.called l₁ l₂' k' irq' p' hold
    · cases heq
      obtain ⟨a, b, hab⟩ := List.append_of_mem (h.running k irq (p :: rest) hrun)
      obtain ⟨copied, hmem, -, hprogress⟩ := h.history a b k irq hab
      refine ⟨a, b, hab, (hmem p).1 ?_⟩
      rcases hprogress with ⟨rest', hrun', -, hcalls⟩ | ⟨hdone, -⟩
      · rw [hrun] at hrun'
        cases hrun'
        have hin : (irq, p) ∈ copied.map (irq, ·) := by
          rw [← hcalls]
          simp
        simpa using hin
      · rw [hrun] at hdone
        cases hdone

/-- A dispatch ends. -/
theorem Inv.finish (h : s.Inv) (hrun : s.dispatch k = some (irq, [])) :
    ({ s with
      dispatch := Function.update s.dispatch k none
      log := s.log ++ [.ended k] } : IrqState η).Inv := by
  refine h.of_dispatch rfl rfl rfl (by simp) (by simp) (fun k' irq' hmem => ?_)
    (fun k' irq' rest' hrun' => ?_)
    (h.history_concat (by simp) fun l₁ l₂ k' irq' copied _ _ hp => ?_)
    (h.called_concat (by simp))
  · simp only [List.mem_append, List.mem_singleton, reduceCtorEq, or_false] at hmem
    exact h.began_lt k' irq' hmem
  · refine List.mem_append_left _ ?_
    by_cases hk : k' = k
    · subst hk
      simp at hrun'
    · simp only [Function.update_of_ne hk] at hrun'
      exact h.running k' irq' rest' hrun'
  · by_cases hk : k' = k
    · subst hk
      rcases hp with ⟨rest', hrun', hnot, hcalls⟩ | ⟨hdone, -⟩
      · rw [hrun] at hrun'
        cases hrun'
        refine Or.inr ⟨Function.update_self .., l₂, [], rfl, hnot, List.not_mem_nil, ?_⟩
        simpa using hcalls
      · rw [hrun] at hdone
        cases hdone
    · exact hp.concat (Function.update_of_ne hk _ _) rfl (by simp [hk])

/-- Every step keeps the invariant. -/
theorem Inv.next (h : s.Inv) (a : IrqAct η) : (s.next a).Inv := by
  cases a with
  | request irq handler flags devId =>
      rw [IrqState.next]
      split
      · exact h
      · rename_i hok
        exact h.request rfl hok
  | free irq devId =>
      rw [IrqState.next]
      split
      · exact h
      · rename_i hok
        exact h.free hok
  | handle irq => exact h.handle irq
  | call k =>
      rw [IrqState.next]
      split
      · rename_i hrun
        exact h.call hrun
      · exact h
  | finish k =>
      rw [IrqState.next]
      split
      · rename_i hrun
        exact h.finish hrun
      · exact h

/-! ### What the invariant says -/

/-- The calls of a dispatch for one registration. -/
theorem filter_isCall (k id : ℕ) (l : List (IrqEvent η)) :
    l.filter (IrqEvent.isCall k id) =
      ((calls k l).filter fun c => c.2.id = id).map fun c => .called k c.1 c.2 := by
  induction l with
  | nil => rfl
  | cons e l ih =>
      cases e with
      | called k' irq p =>
          by_cases hk : k' = k
          · subst hk
            by_cases hid : p.id = id
            · simp [calls, IrqEvent.call, IrqEvent.isCall, hid] at ih ⊢
              exact ih
            · simp [calls, IrqEvent.call, IrqEvent.isCall, hid] at ih ⊢
              exact ih
          · simp [calls, IrqEvent.call, IrqEvent.isCall, hk] at ih ⊢
            exact ih
      | _ => exact ih

/-- In a copy without repetitions each registration is found once. -/
theorem filter_copied {copied : List (Pending η)} (hnodup : (copied.map Pending.id).Nodup)
    {p : Pending η} (hp : p ∈ copied) : copied.filter (fun q => q.id = p.id) = [p] := by
  induction copied with
  | nil => exact absurd hp List.not_mem_nil
  | cons q copied ih =>
      rw [List.map_cons, List.nodup_cons] at hnodup
      obtain ⟨hq, hnodup⟩ := hnodup
      rcases List.mem_cons.1 hp with rfl | hp
      · rw [List.filter_cons_of_pos (by simp), List.filter_eq_nil_iff.2]
        intro r hr
        have hne : r.id ≠ p.id := fun heq => hq (heq ▸ List.mem_map_of_mem hr)
        simpa using hne
      · have hne : q.id ≠ p.id := fun heq => hq (heq ▸ List.mem_map_of_mem hp)
        rw [List.filter_cons_of_neg (by simpa using hne), ih hnodup hp]

theorem Inv.exactlyOnce (h : s.Inv) : s.ExactlyOnce := by
  intro l₁ l₂ l₃ k irq hlog d hreq hirq hfreed _
  obtain ⟨copied, hmem, hnodup, hprogress⟩ := h.history l₁ (l₂ ++ .ended k :: l₃) k irq hlog
  have hpresent : d.pending ∈ copied := (hmem _).2 ⟨d, hreq, hfreed, hirq, rfl⟩
  rcases hprogress with ⟨-, -, hnot, -⟩ | ⟨-, m₁, m₂, heq, h₁, h₂, hcalls⟩
  · exact absurd (List.mem_append_right _ List.mem_cons_self) hnot
  · -- the dispatch has ended once
    obtain ⟨rfl, -⟩ : l₂ = m₁ ∧ l₃ = m₂ := by
      rcases List.append_eq_append_iff.1 heq with ⟨c, hc, hc'⟩ | ⟨c, hc, hc'⟩
      · cases c with
        | nil => exact ⟨by simpa using hc.symm, by simpa using hc'⟩
        | cons x c =>
            obtain ⟨rfl, -⟩ := List.cons.inj hc'
            exact absurd (hc ▸ List.mem_append_right _ List.mem_cons_self) h₁
      · cases c with
        | nil => exact ⟨by simpa using hc, by simpa using hc'.symm⟩
        | cons x c =>
            obtain ⟨-, rfl⟩ := List.cons.inj hc'
            exact absurd (List.mem_append_right _ List.mem_cons_self) h₂
    have hone := filter_copied hnodup hpresent
    rw [filter_isCall, hcalls, List.filter_map, List.map_map]
    have hid : ((fun c : BitVec 32 × Pending η => decide (c.2.id = d.id)) ∘ (irq, ·)) =
        fun q : Pending η => decide (q.id = d.pending.id) := rfl
    rw [hid, hone]
    rfl

theorem Inv.noneBegunAfterFree (h : s.Inv) : s.NoneBegunAfterFree := by
  intro l₁ l₂ k irq p hlog hfreed
  obtain ⟨a, b, rfl, d, -, hnot, -, rfl⟩ := h.called l₁ l₂ k irq p hlog
  have hlater : .freed d.id ∈ b := by
    rcases List.mem_append.1 hfreed with hmem | hmem
    · exact absurd hmem hnot
    · rcases List.mem_cons.1 hmem with heq | hmem
      · cases heq
      · exact hmem
  have hsub : [.freed d.id].Sublist b := List.singleton_sublist.2 hlater
  exact (hsub.cons_cons _).trans (List.sublist_append_right a _)

end IrqState

/-! ### Every run -/

/-- **Sharing, one call for each handler, and none after a free.**  In every run two registrations
of one line are both shared, a dispatch calls each handler that stays registered once with its own
device, and it calls a handler that was freed only if it had begun before. -/
theorem irqRegistry_ordered (acts : List (IrqAct η)) :
    (acts.foldl IrqState.next (.start η)).Sharing ∧
      (acts.foldl IrqState.next (.start η)).ExactlyOnce ∧
        (acts.foldl IrqState.next (.start η)).NoneBegunAfterFree := by
  have hinv : ∀ s : IrqState η, s.Inv → (acts.foldl IrqState.next s).Inv := by
    induction acts with
    | nil => exact fun s h => h
    | cons a acts ih => exact fun s h => ih (s.next a) (h.next a)
  have h := hinv _ IrqState.inv_start
  exact ⟨h.sharing, h.exactlyOnce, h.noneBegunAfterFree⟩

/-- Two handlers share the line 7; the first one, when it is called, frees the second one. -/
def freeingRun : List (IrqAct Unit) :=
  [.request 7#32 () irqfShared 1#64, .request 7#32 () irqfShared 2#64, .handle 7#32, .call 0,
    .free 7#32 2#64, .call 0]

/-- The second handler is called although it was freed. -/
theorem irqRegistry_calls_freed :
    ¬ (freeingRun.foldl IrqState.next (.start Unit)).NoneAfterFree := by
  intro h
  refine h [.requested ⟨0, 7#32, (), irqfShared, 1#64⟩, .requested ⟨1, 7#32, (), irqfShared, 2#64⟩,
    .began 0 7#32, .called 0 7#32 ⟨0, (), 1#64⟩, .freed 1] [] 0 7#32 ⟨1, (), 2#64⟩ rfl ?_
  decide

end StarOS
