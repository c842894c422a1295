/-
Association IDs of the stations of an access point (`net/mac80211/auth.rs`).

`AidAllocator::alloc` takes the first clear bit of a word that is not full, and goes on to the next
word if that bit is bit 0 of the first one; `AuthManager` does not record which station was given an
ID.  Nothing is lost as long as `finish_auth` is not called for a station that has an ID, and
`remove` finds the address in one slot only and is not given the ID of another station.

* `StarOS.AidAllocator.alloc`, `StarOS.AidAllocator.free` — the bitmap, with
  `StarOS.AidAllocator.alloc_spec` and `StarOS.AidAllocator.marked_free`;
* `StarOS.AuthManager.startAuth`, `StarOS.AuthManager.getCtxMut`, `StarOS.AuthManager.finishAuth`,
  `StarOS.AuthManager.remove` — the code, with `StarOS.AuthManager.finishAuth_outcome` and
  `StarOS.AuthManager.remove_outcome`;
* `StarOS.AuthRun`, `StarOS.AuthRun.next` — runs, with the IDs that the stations hold;
* `StarOS.auth_aids_exact` — what holds along an orderly run.
-/

import StarOS.Eapol
import StarOS.Runs
import StarOS.Slots
import StarOS.Word

set_option autoImplicit false

namespace StarOS

/-! ### The bitmap -/

/-- An association ID. -/
abbrev Aid := BitVec 16

/-- `MAX_AID`. -/
def maxAid : ℕ := 2008

/-- `AidAllocator`. -/
structure AidAllocator where
  bitmap : Fin 32 → BitVec 64

namespace AidAllocator

/-- `AidAllocator::new`. -/
def new : AidAllocator := ⟨fun _ => 0#64⟩

/-- The ID of the first clear bit of a word. -/
def nextIn (s : AidAllocator) (i : Fin 32) : ℕ := i.val * 64 + trailingOnes (s.bitmap i)

/-- The word is not full, and the ID of its first clear bit may be given away. -/
def hasNext (s : AidAllocator) (i : Fin 32) : Bool :=
  s.bitmap i != BitVec.allOnes 64 && decide (0 < s.nextIn i ∧ s.nextIn i < maxAid)

/-- `AidAllocator::alloc`. -/
def alloc (s : AidAllocator) : Option Aid × AidAllocator :=
  match Slots.first s.hasNext with
  | some i =>
      (some (BitVec.ofNat 16 (s.nextIn i)),
        ⟨Function.update s.bitmap i (setBit (s.bitmap i) (trailingOnes (s.bitmap i)))⟩)
  | none => (none, s)

/-- The word of an ID. -/
def wordOf (aid : ℕ) : Fin 32 := ⟨aid / 64 % 32, Nat.mod_lt _ (by decide)⟩

theorem val_wordOf (aid : ℕ) : (wordOf aid).val = aid / 64 % 32 := rfl

/-- `AidAllocator::free`. -/
def free (s : AidAllocator) (aid : Aid) : AidAllocator :=
  if 0 < aid.toNat ∧ aid.toNat < maxAid then
    ⟨Function.update s.bitmap (wordOf aid.toNat)
      (clearBit (s.bitmap (wordOf aid.toNat)) (aid.toNat % 64))⟩
  else s

/-- The bit of an ID is set. -/
def marked (s : AidAllocator) (aid : Aid) : Bool :=
  decide (aid.toNat < 2048) && (s.bitmap (wordOf aid.toNat)).getLsbD (aid.toNat % 64)

variable {s : AidAllocator} {aid x : Aid}

theorem marked_new : new.marked aid = false := by
  rw [marked, new, BitVec.getLsbD_zero, Bool.and_false]

/-- An ID is known by its word and its bit. -/
theorem eq_of_wordOf (ha : aid.toNat < 2048) (hx : x.toNat < 2048)
    (hword : wordOf aid.toNat = wordOf x.toNat) (hbit : aid.toNat % 64 = x.toNat % 64) :
    aid = x := by
  have hdiv := congrArg Fin.val hword
  rw [val_wordOf, val_wordOf] at hdiv
  refine BitVec.eq_of_toNat_eq ?_
  omega

/-- A bit that is written is the bit of one ID only. -/
theorem marked_update {w : BitVec 64} {b : Bool} (hx : x.toNat < 2048)
    (hw : ∀ j, w.getLsbD j =
      if j = x.toNat % 64 then b else (s.bitmap (wordOf x.toNat)).getLsbD j) :
    (⟨Function.update s.bitmap (wordOf x.toNat) w⟩ : AidAllocator).marked aid =
      if aid = x then b else s.marked aid := by
  unfold marked
  dsimp only
  by_cases heq : aid = x
  · rw [if_pos heq, heq, Function.update_self, hw, if_pos rfl, decide_eq_true hx, Bool.true_and]
  rw [if_neg heq]
  by_cases hlt : aid.toNat < 2048
  · by_cases hword : wordOf aid.toNat = wordOf x.toNat
    · have hbit : aid.toNat % 64 ≠ x.toNat % 64 := fun hbit =>
        heq (eq_of_wordOf hlt hx hword hbit)
      rw [hword, Function.update_self, hw, if_neg hbit]
    · rw [Function.update_of_ne hword]
  · rw [decide_eq_false hlt, Bool.false_and, Bool.false_and]

theorem marked_free (h : 0 < x.toNat ∧ x.toNat < maxAid) :
    (s.free x).marked aid = if aid = x then false else s.marked aid := by
  rw [free, if_pos h]
  have hlt : x.toNat < 2048 := h.2.trans (by decide)
  refine marked_update hlt fun j => ?_
  rw [clearBit_getLsbD (Nat.mod_lt _ (by decide))]
  by_cases hj : j = x.toNat % 64
  · rw [if_pos hj, decide_eq_true hj, Bool.not_true, Bool.and_false]
  · rw [if_neg hj, decide_eq_false hj, Bool.not_false, Bool.and_true]

theorem free_of_not (h : ¬ (0 < x.toNat ∧ x.toNat < maxAid)) : s.free x = s := if_neg h

/-- The bit of the next ID in a word. -/
theorem nextIn_lt {i : Fin 32} (h : s.hasNext i = true) : trailingOnes (s.bitmap i) < 64 := by
  rw [hasNext, Bool.and_eq_true, bne_iff_ne] at h
  exact trailingOnes_lt_iff.2 h.1

/-- What is allocated was not marked, and is marked now. -/
theorem alloc_spec {t : AidAllocator} (h : s.alloc = (some aid, t)) :
    (0 < aid.toNat ∧ aid.toNat < maxAid) ∧ s.marked aid = false ∧
      ∀ x, t.marked x = if x = aid then true else s.marked x := by
  rw [alloc] at h
  split at h
  · rename_i i hi
    obtain ⟨haid, ht⟩ := Prod.mk.inj h
    have hnext := Slots.first_eq_some hi
    have hbit := nextIn_lt hnext
    rw [hasNext, Bool.and_eq_true, decide_eq_true_eq] at hnext
    have htoNat : aid.toNat = s.nextIn i := by
      rw [← Option.some.inj haid, BitVec.toNat_ofNat]
      have hmax := hnext.2.2
      rw [maxAid] at hmax
      omega
    have hword : wordOf aid.toNat = i := by
      refine Fin.ext ?_
      rw [val_wordOf, htoNat, nextIn]
      omega
    have hmod : aid.toNat % 64 = trailingOnes (s.bitmap i) := by
      rw [htoNat, nextIn]
      omega
    refine ⟨htoNat ▸ hnext.2, ?_, fun x => ?_⟩
    · rw [marked, hword, hmod, getLsbD_trailingOnes hbit, Bool.and_false]
    · rw [← ht, ← hmod]
      subst hword
      refine marked_update (by rw [htoNat]; exact hnext.2.2.trans (by decide)) fun j => ?_
      rw [setBit_getLsbD (Nat.mod_lt _ (by decide))]
      by_cases hj : j = aid.toNat % 64
      · rw [if_pos hj, decide_eq_true hj, Bool.or_true]
      · rw [if_neg hj, decide_eq_false hj, Bool.or_false]
  · cases (Prod.mk.inj h).1

/-- An ID of the second word that is not marked can be given away. -/
theorem exists_alloc (hword : wordOf aid.toNat = wordOf 64) (hlt : aid.toNat < 2048)
    (h : s.marked aid = false) : ∃ x t, s.alloc = (some x, t) := by
  have hnot : s.bitmap (wordOf 64) ≠ BitVec.allOnes 64 := by
    intro hall
    rw [marked, decide_eq_true hlt, Bool.true_and, hword] at h
    rw [eq_allOnes_iff.1 hall _ (Nat.mod_lt _ (by decide))] at h
    cases h
  have hbit := trailingOnes_lt_iff.2 hnot
  have hval : (wordOf 64).val = 1 := rfl
  have hnext : s.hasNext (wordOf 64) = true := by
    rw [hasNext, bne_iff_ne.2 hnot, Bool.true_and, decide_eq_true_eq, nextIn, hval, maxAid]
    omega
  obtain ⟨i, hi⟩ := Slots.exists_first hnext
  rw [alloc, hi]
  exact ⟨_, _, rfl⟩

end AidAllocator

/-! ### Stations -/

/-- `MAX_AUTH_PENDING`. -/
def maxAuthPending : ℕ := 16

/-- `AuthManager`. -/
structure AuthManager where
  pending : Fin maxAuthPending → Option (Mac × AuthCtx)
  count : Usize
  aidAlloc : AidAllocator

namespace AuthManager

/-- `AuthManager::new`. -/
def new : AuthManager := ⟨fun _ => none, 0#64, AidAllocator.new⟩

/-- The slot is that of the address. -/
def isAt (s : AuthManager) (addr : Mac) (i : Fin maxAuthPending) : Bool :=
  match s.pending i with
  | some (a, _) => a == addr
  | none => false

/-- `AuthManager::start_auth`. -/
def startAuth (s : AuthManager) (addr : Mac) : Except KernelError Unit × AuthManager :=
  if BitVec.ofNat 64 maxAuthPending ≤ s.count then (.error .resourceExhausted, s)
  else match Slots.first fun i => (s.pending i).isNone with
    | some i =>
        (.ok (), { s with
          pending := Function.update s.pending i (some (addr, AuthCtx.new))
          count := s.count + 1#64 })
    | none => (.error .resourceExhausted, s)

/-- `AuthManager::get_ctx_mut`. -/
def getCtxMut (s : AuthManager) (addr : Mac) : Option AuthCtx :=
  (Slots.first (s.isAt addr)).bind fun i => (s.pending i).map Prod.snd

/-- `ctx.state = AuthState::Associated` for the context of a slot. -/
def setAssociated (s : AuthManager) (i : Fin maxAuthPending) : AuthManager :=
  { s with
    pending := Function.update s.pending i
      ((s.pending i).map fun e => (e.1, { e.2 with state := .associated })) }

/-- `AuthManager::finish_auth`.  The state is changed before an ID is asked for. -/
def finishAuth (s : AuthManager) (addr : Mac) : Except KernelError Aid × AuthManager :=
  match Slots.first (s.isAt addr) with
  | some i =>
      match s.aidAlloc.alloc with
      | (some aid, aidAlloc) => (.ok aid, { s.setAssociated i with aidAlloc := aidAlloc })
      | (none, aidAlloc) =>
          (.error .resourceExhausted, { s.setAssociated i with aidAlloc := aidAlloc })
  | none => (.error .notFound, s)

/-- `AuthManager::remove`. -/
def remove (s : AuthManager) (addr : Mac) (aid : Aid) : AuthManager :=
  match Slots.first (s.isAt addr) with
  | some i =>
      { pending := Function.update s.pending i none
        count := s.count - 1#64
        aidAlloc := s.aidAlloc.free aid }
  | none => s

/-- The station has a context. -/
def Pending (s : AuthManager) (addr : Mac) : Prop := ∃ i, s.isAt addr i = true

variable {s : AuthManager} {addr a : Mac} {i j : Fin maxAuthPending}

theorem isAt_iff : s.isAt addr i = true ↔ ∃ ctx, s.pending i = some (addr, ctx) := by
  unfold isAt
  cases h : s.pending i with
  | none => exact ⟨fun hf => (by cases hf), fun ⟨_, hctx⟩ => (by cases hctx)⟩
  | some e =>
      obtain ⟨b, ctx⟩ := e
      dsimp only
      rw [beq_iff_eq]
      constructor
      · rintro rfl
        exact ⟨ctx, rfl⟩
      · rintro ⟨_, hctx⟩
        exact (Prod.mk.inj (Option.some.inj hctx)).1

/-- A slot is that of one address only. -/
theorem isAt_unique (h : s.isAt addr i = true) (h' : s.isAt a i = true) : addr = a := by
  obtain ⟨ctx, hctx⟩ := isAt_iff.1 h
  obtain ⟨ctx', hctx'⟩ := isAt_iff.1 h'
  rw [hctx] at hctx'
  exact (Prod.mk.inj (Option.some.inj hctx')).1

theorem getCtxMut_eq_none : s.getCtxMut addr = none ↔ ¬ s.Pending addr := by
  rw [getCtxMut]
  cases h : Slots.first (s.isAt addr) with
  | none =>
      refine ⟨fun _ ⟨i, hi⟩ => ?_, fun _ => rfl⟩
      rw [Slots.first_eq_none.1 h i] at hi
      cases hi
  | some i =>
      have hi := Slots.first_eq_some h
      obtain ⟨ctx, hctx⟩ := isAt_iff.1 hi
      rw [Option.bind_some, hctx]
      exact ⟨fun hf => (by cases hf), fun hnot => absurd ⟨i, hi⟩ hnot⟩

/-! ### What the operations do -/

/-- `start_auth` takes no ID, and no context away. -/
theorem startAuth_spec (s : AuthManager) (addr : Mac) :
    (s.startAuth addr).2.aidAlloc = s.aidAlloc ∧
      ∀ a, s.Pending a → (s.startAuth addr).2.Pending a := by
  rw [startAuth]
  split
  · exact ⟨rfl, fun _ h => h⟩
  split
  · rename_i i hi
    have hfree := Option.isNone_iff_eq_none.1 (Slots.first_eq_some hi)
    refine ⟨rfl, fun a ⟨j, hj⟩ => ⟨j, ?_⟩⟩
    obtain ⟨ctx, hctx⟩ := isAt_iff.1 hj
    have hne : j ≠ i := by
      rintro rfl
      rw [hfree] at hctx
      cases hctx
    refine isAt_iff.2 ⟨ctx, ?_⟩
    dsimp only
    rw [Function.update_of_ne hne, hctx]
  · exact ⟨rfl, fun _ h => h⟩

theorem isAt_setAssociated (s : AuthManager) (i j : Fin maxAuthPending) (a : Mac) :
    (s.setAssociated i).isAt a j = s.isAt a j := by
  unfold isAt setAssociated
  dsimp only
  by_cases hj : j = i
  · rw [hj, Function.update_self]
    cases s.pending i with
    | none => rfl
    | some e => rfl
  · rw [Function.update_of_ne hj]

/-- What `finish_auth` does. -/
inductive FinishOutcome (s : AuthManager) (addr : Mac) :
    Except KernelError Aid × AuthManager → Prop
  | missing : ¬ s.Pending addr → FinishOutcome s addr (.error .notFound, s)
  | exhausted {t : AuthManager} : s.aidAlloc.alloc.1 = none →
      FinishOutcome s addr (.error .resourceExhausted, t)
  | ok {aid : Aid} {t : AuthManager} : s.Pending addr →
      s.aidAlloc.alloc = (some aid, t.aidAlloc) → (∀ a j, t.isAt a j = s.isAt a j) →
      FinishOutcome s addr (.ok aid, t)

theorem finishAuth_outcome (s : AuthManager) (addr : Mac) :
    FinishOutcome s addr (s.finishAuth addr) := by
  rw [finishAuth]
  split
  · rename_i i hi
    split
    · rename_i aid aidAlloc halloc
      exact .ok ⟨i, Slots.first_eq_some hi⟩ halloc fun a j => isAt_setAssociated s i j a
    · rename_i aidAlloc halloc
      exact .exhausted (congrArg Prod.fst halloc)
  · rename_i hnone
    refine .missing fun ⟨i, hi⟩ => ?_
    rw [Slots.first_eq_none.1 hnone i] at hi
    cases hi

/-- What `remove` does. -/
inductive RemoveOutcome (s : AuthManager) (addr : Mac) (aid : Aid) : AuthManager → Prop
  | missing : ¬ s.Pending addr → RemoveOutcome s addr aid s
  | removed {t : AuthManager} (i : Fin maxAuthPending) : s.isAt addr i = true →
      (∀ a j, t.isAt a j = if j = i then false else s.isAt a j) →
      t.aidAlloc = s.aidAlloc.free aid → RemoveOutcome s addr aid t

theorem remove_outcome (s : AuthManager) (addr : Mac) (aid : Aid) :
    RemoveOutcome s addr aid (s.remove addr aid) := by
  rw [remove]
  split
  · rename_i i hi
    refine .removed i (Slots.first_eq_some hi) (fun a j => ?_) rfl
    unfold isAt
    dsimp only
    by_cases hj : j = i
    · rw [hj, Function.update_self, if_pos rfl]
    · rw [Function.update_of_ne hj, if_neg hj]
  · rename_i hnone
    refine .missing fun ⟨i, hi⟩ => ?_
    rw [Slots.first_eq_none.1 hnone i] at hi
    cases hi

end AuthManager

/-! ### Runs -/

/-- A call on the manager.  `remove` is given the ID that `finish_auth` returned last for the
station. -/
inductive AuthOp where
  | start (addr : Mac)
  | finish (addr : Mac)
  | remove (addr : Mac)
  deriving DecidableEq, Repr

/-- A run: the manager, the ID that each station holds, and the one that it was given last. -/
structure AuthRun where
  mgr : AuthManager
  held : Mac → Option Aid
  last : Mac → Aid

namespace AuthRun

/-- Before the first call. -/
def fresh : AuthRun := ⟨AuthManager.new, fun _ => none, fun _ => 0#16⟩

/-- The next call. -/
def next (r : AuthRun) : AuthOp → AuthRun
  | .start addr => { r with mgr := (r.mgr.startAuth addr).2 }
  | .finish addr =>
      match r.mgr.finishAuth addr with
      | (.ok aid, mgr) =>
          ⟨mgr, Function.update r.held addr (some aid), Function.update r.last addr aid⟩
      | (.error _, mgr) => { r with mgr := mgr }
  | .remove addr =>
      { r with
        mgr := r.mgr.remove addr (r.last addr)
        held := Function.update r.held addr none }

/-- No two stations hold one ID, and each marked ID is held by exactly one pending station. -/
structure AidsExact (r : AuthRun) : Prop where
  distinct : ∀ a b aid, r.held a = some aid → r.held b = some aid → a = b
  marked : ∀ aid, r.mgr.aidAlloc.marked aid = true →
    ∃! addr, r.mgr.Pending addr ∧ r.held addr = some aid

/-- What is asked of a call: the IDs are exact afterwards, `finish_auth` fails for want of an ID
only if all are in use, and changes nothing then, and a station that was removed is not found. -/
structure StepOk (r : AuthRun) (op : AuthOp) : Prop where
  aids : (r.next op).AidsExact
  exhausted : ∀ addr, op = .finish addr →
    (r.mgr.finishAuth addr).1 = .error .resourceExhausted →
    (∀ aid : Aid, 1 ≤ aid.toNat → aid.toNat ≤ 2007 → r.mgr.aidAlloc.marked aid = true) ∧
      (r.mgr.finishAuth addr).2 = r.mgr
  removed : ∀ addr, op = .remove addr → (r.next op).mgr.getCtxMut addr = none

/-- What the code does not check: a station is finished only if it holds no ID, and is removed only
if it has one slot, and the ID it is removed with is held by no other station. -/
def Orderly (r : AuthRun) : AuthOp → Prop
  | .start _ => True
  | .finish addr => r.mgr.Pending addr → r.held addr = none
  | .remove addr =>
      (∀ i j, r.mgr.isAt addr i = true → r.mgr.isAt addr j = true → i = j) ∧
        (r.mgr.Pending addr → ∀ b, b ≠ addr → r.held b ≠ some (r.last addr))

/-- The invariant: the marked IDs are those that are held, by one pending station each. -/
structure Inv (r : AuthRun) : Prop where
  pending : ∀ a aid, r.held a = some aid → r.mgr.Pending a
  range : ∀ a aid, r.held a = some aid → 0 < aid.toNat ∧ aid.toNat < maxAid
  last : ∀ a aid, r.held a = some aid → r.last a = aid
  marked : ∀ aid, r.mgr.aidAlloc.marked aid = true ↔ ∃ a, r.held a = some aid
  distinct : ∀ a b aid, r.held a = some aid → r.held b = some aid → a = b

theorem inv_fresh : fresh.Inv where
  pending _ _ h := by cases h
  range _ _ h := by cases h
  last _ _ h := by cases h
  marked aid := by
    refine ⟨fun h => ?_, fun ⟨_, h⟩ => (by cases h)⟩
    rw [fresh, AuthManager.new, AidAllocator.marked_new] at h
    cases h
  distinct _ _ _ h := by cases h

variable {r : AuthRun} {op : AuthOp}

theorem Inv.aidsExact (h : r.Inv) : r.AidsExact := by
  refine ⟨h.distinct, fun aid hmarked => ?_⟩
  obtain ⟨a, ha⟩ := (h.marked aid).1 hmarked
  exact ⟨a, ⟨h.pending a aid ha, ha⟩, fun b hb => h.distinct b a aid hb.2 ha⟩

/-- The IDs of the second word of the bitmap. -/
def secondAid (k : Fin 64) : Aid := BitVec.ofNat 16 (64 + k.val)

theorem secondAid_toNat (k : Fin 64) : (secondAid k).toNat = 64 + k.val := by
  rw [secondAid, BitVec.toNat_ofNat]
  omega

theorem secondAid_inj {k l : Fin 64} (h : secondAid k = secondAid l) : k = l := by
  have heq := congrArg BitVec.toNat h
  rw [secondAid_toNat, secondAid_toNat] at heq
  exact Fin.ext (by omega)

/-- There are fewer slots than IDs in the second word of the bitmap, so that one of them is left. -/
theorem Inv.exists_alloc (h : r.Inv) : ∃ aid t, r.mgr.aidAlloc.alloc = (some aid, t) := by
  have hslot : ∀ k : Fin 64, r.mgr.aidAlloc.marked (secondAid k) = true →
      ∃ i a, r.mgr.isAt a i = true ∧ r.held a = some (secondAid k) := by
    intro k hk
    obtain ⟨a, ha⟩ := (h.marked _).1 hk
    obtain ⟨i, hi⟩ := h.pending a _ ha
    exact ⟨i, a, hi, ha⟩
  have hinj : ∀ (k l : Fin 64) (i : Fin maxAuthPending),
      (∃ a, r.mgr.isAt a i = true ∧ r.held a = some (secondAid k)) →
      (∃ a, r.mgr.isAt a i = true ∧ r.held a = some (secondAid l)) → k = l := by
    rintro k l i ⟨a, hai, ha⟩ ⟨b, hbi, hb⟩
    rw [AuthManager.isAt_unique hai hbi, hb] at ha
    exact (secondAid_inj (Option.some.inj ha)).symm
  obtain ⟨k, hk⟩ := Slots.exists_unused hslot hinj (by decide)
  have hword : AidAllocator.wordOf (secondAid k).toNat = AidAllocator.wordOf 64 := by
    refine Fin.ext ?_
    rw [secondAid_toNat, AidAllocator.val_wordOf, AidAllocator.val_wordOf]
    omega
  have hlt : (secondAid k).toNat < 2048 := by
    rw [secondAid_toNat]
    omega
  exact AidAllocator.exists_alloc hword hlt (Bool.eq_false_iff.2 hk)

theorem Inv.start (h : r.Inv) (addr : Mac) : (r.next (.start addr)).Inv := by
  obtain ⟨haid, hpending⟩ := AuthManager.startAuth_spec r.mgr addr
  refine ⟨fun a aid ha => hpending a (h.pending a aid ha), h.range, h.last, fun aid => ?_,
    h.distinct⟩
  change (r.mgr.startAuth addr).2.aidAlloc.marked aid = true ↔ _
  rw [haid]
  exact h.marked aid

/-! ### Holders -/

section Holders

variable {held : Mac → Option Aid} {addr : Mac} {aid x : Aid}

/-- A new ID for a station is nobody else's. -/
theorem distinct_update (h : ∀ a b x, held a = some x → held b = some x → a = b)
    (hnew : ∀ a, held a ≠ some aid) (a b : Mac) (x : Aid)
    (ha : Function.update held addr (some aid) a = some x)
    (hb : Function.update held addr (some aid) b = some x) : a = b := by
  by_cases haddr : a = addr
  · by_cases hbddr : b = addr
    · rw [haddr, hbddr]
    · rw [haddr, Function.update_self] at ha
      rw [Function.update_of_ne hbddr, ← ha] at hb
      exact absurd hb (hnew b)
  · rw [Function.update_of_ne haddr] at ha
    by_cases hbddr : b = addr
    · rw [hbddr, Function.update_self] at hb
      rw [← hb] at ha
      exact absurd ha (hnew a)
    · rw [Function.update_of_ne hbddr] at hb
      exact h a b x ha hb

/-- The IDs that are held after a station that held none is given one. -/
theorem exists_update_iff (hnone : held addr = none) :
    (∃ a, Function.update held addr (some aid) a = some x) ↔ x = aid ∨ ∃ a, held a = some x := by
  constructor
  · rintro ⟨a, ha⟩
    by_cases haddr : a = addr
    · rw [haddr, Function.update_self] at ha
      exact Or.inl (Option.some.inj ha).symm
    · rw [Function.update_of_ne haddr] at ha
      exact Or.inr ⟨a, ha⟩
  · rintro (rfl | ⟨a, ha⟩)
    · exact ⟨addr, Function.update_self ..⟩
    · have haddr : a ≠ addr := by
        rintro rfl
        rw [hnone] at ha
        cases ha
      exact ⟨a, by rw [Function.update_of_ne haddr, ha]⟩

/-- Who holds an ID after a station gave up its own. -/
theorem update_none_eq_some {a : Mac} :
    Function.update held addr none a = some x ↔ a ≠ addr ∧ held a = some x := by
  by_cases haddr : a = addr
  · rw [haddr, Function.update_self]
    exact ⟨(by intro h; cases h), fun h => absurd rfl h.1⟩
  · rw [Function.update_of_ne haddr]
    exact ⟨fun h => ⟨haddr, h⟩, fun h => h.2⟩

end Holders

/-- A station that holds no ID is given a new one. -/
theorem Inv.finish {addr : Mac} (h : r.Inv) (horderly : r.Orderly (.finish addr)) :
    (r.next (.finish addr)).Inv ∧
      (r.mgr.finishAuth addr).1 ≠ .error .resourceExhausted := by
  have houtcome := AuthManager.finishAuth_outcome r.mgr addr
  unfold next
  dsimp only
  generalize hout : r.mgr.finishAuth addr = out at houtcome
  cases houtcome with
  | missing _ => exact ⟨h, fun heq => by cases heq⟩
  | exhausted hnone =>
      obtain ⟨aid, t, halloc⟩ := h.exists_alloc
      rw [halloc] at hnone
      cases hnone
  | @ok aid t hpending halloc hat =>
      obtain ⟨hrange, hfree, hmarked⟩ := AidAllocator.alloc_spec halloc
      have hnone := horderly hpending
      have hkeep : ∀ a, r.mgr.Pending a → t.Pending a := fun a ⟨j, hj⟩ => ⟨j, by rw [hat, hj]⟩
      have hnew : ∀ a, r.held a ≠ some aid := by
        intro a ha
        rw [(h.marked aid).2 ⟨a, ha⟩] at hfree
        cases hfree
      refine ⟨⟨fun a x ha => ?_, fun a x ha => ?_, fun a x ha => ?_, fun x => ?_,
        distinct_update h.distinct hnew⟩, fun heq => by cases heq⟩
      all_goals dsimp only at *
      · by_cases haddr : a = addr
        · exact haddr ▸ hkeep addr hpending
        · rw [Function.update_of_ne haddr] at ha
          exact hkeep a (h.pending a x ha)
      · by_cases haddr : a = addr
        · rw [haddr, Function.update_self] at ha
          exact Option.some.inj ha ▸ hrange
        · rw [Function.update_of_ne haddr] at ha
          exact h.range a x ha
      · by_cases haddr : a = addr
        · rw [haddr, Function.update_self] at ha ⊢
          exact Option.some.inj ha
        · rw [Function.update_of_ne haddr] at ha ⊢
          exact h.last a x ha
      · rw [hmarked x, exists_update_iff hnone, ← h.marked x]
        by_cases hx : x = aid
        · rw [if_pos hx]
          exact ⟨fun _ => Or.inl hx, fun _ => rfl⟩
        · rw [if_neg hx]
          exact ⟨Or.inr, fun hor => hor.resolve_left hx⟩

/-- The IDs that are marked after a station's last ID was freed. -/
theorem Inv.marked_free_iff {addr : Mac} (h : r.Inv)
    (hother : ∀ b, b ≠ addr → r.held b ≠ some (r.last addr)) (x : Aid) :
    (r.mgr.aidAlloc.free (r.last addr)).marked x = true ↔ ∃ a, a ≠ addr ∧ r.held a = some x := by
  have hown : ∀ a, r.held a = some x → (a ≠ addr ↔ x ≠ r.last addr) := by
    intro a ha
    refine not_congr ⟨?_, fun hx => ?_⟩
    · rintro rfl
      exact (h.last a x ha).symm
    · by_contra hne
      exact hother a hne (hx ▸ ha)
  by_cases hrange : 0 < (r.last addr).toNat ∧ (r.last addr).toNat < maxAid
  · rw [AidAllocator.marked_free hrange]
    split
    · rename_i hx
      exact ⟨(by intro hf; cases hf), fun ⟨a, hne, ha⟩ => absurd hx ((hown a ha).1 hne)⟩
    · rename_i hx
      constructor
      · intro hm
        obtain ⟨a, ha⟩ := (h.marked x).1 hm
        exact ⟨a, (hown a ha).2 hx, ha⟩
      · rintro ⟨a, -, ha⟩
        exact (h.marked x).2 ⟨a, ha⟩
  · rw [AidAllocator.free_of_not hrange, h.marked x]
    constructor
    · rintro ⟨a, ha⟩
      have hx : x ≠ r.last addr := fun hx => hrange (hx ▸ h.range a x ha)
      exact ⟨a, (hown a ha).2 hx, ha⟩
    · rintro ⟨a, -, ha⟩
      exact ⟨a, ha⟩

/-- A station with one slot is removed, and its ID is free. -/
theorem Inv.remove {addr : Mac} (h : r.Inv) (horderly : r.Orderly (.remove addr)) :
    (r.next (.remove addr)).Inv ∧ (r.next (.remove addr)).mgr.getCtxMut addr = none := by
  obtain ⟨honce, hown⟩ := horderly
  have houtcome := AuthManager.remove_outcome r.mgr addr (r.last addr)
  rw [AuthManager.getCtxMut_eq_none]
  unfold next
  dsimp only
  generalize r.mgr.remove addr (r.last addr) = out at houtcome
  cases houtcome with
  | missing hnot =>
      have hheld : Function.update r.held addr none = r.held := by
        refine Function.update_eq_self_iff.2 ?_
        cases hh : r.held addr with
        | none => rfl
        | some aid => exact absurd (h.pending addr aid hh) hnot
      rw [hheld]
      exact ⟨h, hnot⟩
  | removed i hi hat haid =>
      refine ⟨⟨fun a aid ha => ?_, fun a aid ha => h.range a aid (update_none_eq_some.1 ha).2,
        fun a aid ha => h.last a aid (update_none_eq_some.1 ha).2, fun x => ?_,
        fun a b aid ha hb => h.distinct a b aid (update_none_eq_some.1 ha).2
          (update_none_eq_some.1 hb).2⟩, ?_⟩
      · -- the other stations keep their slots
        obtain ⟨haddr, hheld⟩ := update_none_eq_some.1 ha
        obtain ⟨j, hj⟩ := h.pending a aid hheld
        refine ⟨j, ?_⟩
        have hji : j ≠ i := by
          rintro rfl
          exact haddr (AuthManager.isAt_unique hj hi)
        rw [hat, if_neg hji, hj]
      · dsimp only
        rw [haid, h.marked_free_iff (hown ⟨i, hi⟩)]
        exact exists_congr fun a => update_none_eq_some.symm
      · rintro ⟨j, hj⟩
        rw [hat] at hj
        split at hj
        · cases hj
        · rename_i hji
          exact hji (honce j i hj hi)

/-- The step lemma. -/
theorem Inv.next (h : r.Inv) (horderly : r.Orderly op) : (r.next op).Inv ∧ r.StepOk op := by
  cases op with
  | start addr =>
      have hinv := h.start addr
      exact ⟨hinv, hinv.aidsExact, fun _ heq => (by cases heq), fun _ heq => (by cases heq)⟩
  | finish addr =>
      obtain ⟨hinv, hnot⟩ := h.finish horderly
      refine ⟨hinv, hinv.aidsExact, fun a heq hres => ?_, fun _ heq => (by cases heq)⟩
      cases heq
      exact absurd hres hnot
  | remove addr =>
      obtain ⟨hinv, hnone⟩ := h.remove horderly
      refine ⟨hinv, hinv.aidsExact, fun _ heq => (by cases heq), fun a heq => ?_⟩
      cases heq
      exact hnone

end AuthRun

/-- As long as no station that holds an ID is finished again, and none is removed that has two slots
or whose last ID is another station's, the IDs are neither duplicated nor lost. -/
theorem auth_aids_exact (ops : List AuthOp)
    (h : Runs.Along AuthRun.next AuthRun.Orderly AuthRun.fresh ops) :
    AuthRun.fresh.AidsExact ∧ Runs.Along AuthRun.next AuthRun.StepOk AuthRun.fresh ops :=
  ⟨AuthRun.inv_fresh.aidsExact,
    Runs.along_of (I := AuthRun.Inv) (fun _ _ hr horderly => hr.next horderly) AuthRun.inv_fresh h⟩

/-- The address of a station. -/
def someStation : Mac := #v[0x11#8, 0x22#8, 0x33#8, 0x44#8, 0x55#8, 0x66#8]

/-- A station starts, is finished and is removed. -/
theorem auth_aids_lifecycle :
    AuthRun.fresh.AidsExact ∧ Runs.Along AuthRun.next AuthRun.StepOk AuthRun.fresh
      [.start someStation, .finish someStation, .remove someStation] := by
  refine auth_aids_exact _ ⟨trivial, fun _ => rfl, ⟨?_, fun _ b hb => ?_⟩, trivial⟩
  · decide +kernel
  · change Function.update _ someStation _ b ≠ _
    rw [Function.update_of_ne hb]
    exact fun h => by cases h

/-- A station that is finished twice leaves its first ID marked, and holds another one. -/
theorem auth_finish_twice :
    ¬ Runs.Along AuthRun.next AuthRun.StepOk AuthRun.fresh
      [.start someStation, .finish someStation, .finish someStation] := by
  rintro ⟨-, -, hok, -⟩
  obtain ⟨addr, ⟨-, haddr⟩, -⟩ := hok.aids.marked 64#16 (by decide +kernel)
  change Function.update (Function.update _ someStation _) someStation _ addr = _ at haddr
  by_cases hs : addr = someStation
  · rw [hs, Function.update_self] at haddr
    exact absurd haddr (by decide +kernel)
  · rw [Function.update_of_ne hs, Function.update_of_ne hs] at haddr
    cases haddr

end StarOS
