/-
The clients of an I2C adapter (`drivers/i2c/core.rs`): a list of shared references under a lock, and
a destructor that takes the client off the list by its address.

The list itself holds a reference, so that the destructor runs when nobody but the list or a failed
constructor had one.  A client that was never registered takes the registered client of its address
off the list with it; and a reference that the list gives up under the lock, if it is the last one,
runs the destructor there, which waits for the lock for ever.

* `StarOS.I2cClient`, `StarOS.I2cAdapter` — clients, and an adapter with the counts of the
  references;
* `StarOS.I2cAdapter.removeClient`, `StarOS.I2cAdapter.dropArc`, `StarOS.I2cAdapter.newClient` — the
  code, with the destructor;
* `StarOS.I2cAdapter.removeClient_eq` — when `remove_client` returns, and with what;
* `StarOS.i2cClients_iff` — when the registry is right all along a run.
-/

import StarOS.Runs
import Mathlib.Data.BitVec
import Mathlib.Data.List.Nodup
import Mathlib.Logic.Function.Basic

set_option autoImplicit false

namespace StarOS

/-! ### Clients and adapters -/

/-- The `Error` of the I2C core. -/
inductive I2cError where
  | invalidArgument
  | notSupported
  | addressInUse
  | notFound
  | busy
  | ioError
  | timeout
  deriving DecidableEq, Repr

/-- `I2C_ADDR_7BITS_MAX`. -/
def i2cAddr7BitsMax : BitVec 16 := 0x77#16

/-- `I2C_ADDR_10BITS_MAX`. -/
def i2cAddr10BitsMax : BitVec 16 := 0x3ff#16

/-- `I2C_CLIENT_TEN`. -/
def i2cClientTen : BitVec 16 := 0x01#16

/-- `I2cClient`, without its name and its reference to the adapter. -/
structure I2cClient where
  addr : BitVec 16
  flags : BitVec 16
  deriving DecidableEq, Repr

/-- The allocation that an `Arc` refers to. -/
abbrev ClientId := ℕ

/-- `I2cAdapter`: the registered clients and their lock, and the clients made so far, each with the
number of references to it. -/
structure I2cAdapter where
  clients : List ClientId
  locked : Bool
  client : ClientId → I2cClient
  strong : ClientId → ℕ
  next : ClientId

namespace I2cAdapter

/-- `I2cAdapter::new`. -/
def new : I2cAdapter := ⟨[], false, fun _ => ⟨0#16, 0#16⟩, fun _ => 0, 0⟩

/-- The address of a client. -/
def addr (s : I2cAdapter) (c : ClientId) : BitVec 16 := (s.client c).addr

/-! ### The code -/

/-- `lock_irqsave`.  A caller that has the lock already waits for ever. -/
def lockIrqsave (s : I2cAdapter) : Option I2cAdapter :=
  if s.locked then none else some { s with locked := true }

/-- A reference is dropped.  With the last one goes the client, through its destructor. -/
def dropArc (removeClient : I2cAdapter → BitVec 16 → Option I2cAdapter) (s : I2cAdapter)
    (c : ClientId) : Option I2cAdapter :=
  let s := { s with strong := Function.update s.strong c (s.strong c - 1) }
  if s.strong c = 0 then removeClient s (s.addr c) else some s

/-- The `retain` of `remove_client`: what is left of the list, after the others were dropped. -/
def retainOthers (drop : I2cAdapter → ClientId → Option I2cAdapter) (addr : BitVec 16) :
    List ClientId → I2cAdapter → Option (List ClientId × I2cAdapter)
  | [], s => some ([], s)
  | c :: cs, s =>
      if s.addr c ≠ addr then (retainOthers drop addr cs s).map fun r => (c :: r.1, r.2)
      else (drop s c).bind fun s => retainOthers drop addr cs s

/-- `remove_client`, with destructors nested up to a depth. -/
def removeClient : ℕ → I2cAdapter → BitVec 16 → Option I2cAdapter
  | 0, _, _ => none
  | depth + 1, s, addr =>
      s.lockIrqsave.bind fun s =>
        (retainOthers (dropArc (removeClient depth)) addr s.clients s).map fun r =>
          { r.2 with clients := r.1, locked := false }

/-- `add_client`.  When it fails the lock is released before the reference is dropped. -/
def addClient (depth : ℕ) (s : I2cAdapter) (c : ClientId) :
    Option (Except I2cError Unit × I2cAdapter) :=
  s.lockIrqsave.bind fun s =>
    if s.clients.any fun existing => s.addr existing = s.addr c then
      (dropArc (removeClient depth) { s with locked := false } c).map fun s =>
        (.error .addressInUse, s)
    else some (.ok (), { s with clients := s.clients ++ [c], locked := false })

/-- The check of an address. -/
def validAddr (addr flags : BitVec 16) : Bool :=
  if flags &&& i2cClientTen ≠ 0#16 then addr ≤ i2cAddr10BitsMax else addr ≤ i2cAddr7BitsMax

/-- `Arc::new` of a client, and the clone that is passed on. -/
def alloc (s : I2cAdapter) (addr flags : BitVec 16) : I2cAdapter :=
  { s with
    client := Function.update s.client s.next ⟨addr, flags⟩
    strong := Function.update s.strong s.next 2
    next := s.next + 1 }

/-- `I2cClient::new`. -/
def newClient (depth : ℕ) (s : I2cAdapter) (addr flags : BitVec 16) :
    Option (Except I2cError ClientId × I2cAdapter) :=
  if validAddr addr flags then
    ((s.alloc addr flags).addClient depth s.next).bind fun r =>
      match r with
      | (.ok (), s') => some (.ok s.next, s')
      | (.error e, s') => (dropArc (removeClient depth) s' s.next).map fun s' => (.error e, s')
  else some (.error .invalidArgument, s)

end I2cAdapter

/-- A call, or what is done with a reference. -/
inductive I2cOp where
  | new (addr flags : BitVec 16)
  | remove (addr : BitVec 16)
  | clone (c : ClientId)
  | drop (c : ClientId)
  deriving DecidableEq, Repr

namespace I2cAdapter

/-- The error of a call if there is one, and the state after it; nothing if it does not return. -/
def call (depth : ℕ) (s : I2cAdapter) : I2cOp → Option (Option I2cError × I2cAdapter)
  | .new addr flags => (s.newClient depth addr flags).map fun r =>
      match r with
      | (.ok _, s') => (none, s')
      | (.error e, s') => (some e, s')
  | .remove addr => (s.removeClient depth addr).map fun s' => (none, s')
  | .clone c => some (none, { s with strong := Function.update s.strong c (s.strong c + 1) })
  | .drop c => (dropArc (removeClient depth) s c).map fun s' => (none, s')

/-- The next state of a run; a call that does not return leaves the run where it is. -/
def step (depth : ℕ) (s : I2cAdapter) (op : I2cOp) : I2cAdapter :=
  ((s.call depth op).map Prod.snd).getD s

/-! ### What the claim is about -/

/-- A client with the address is registered. -/
def Registered (s : I2cAdapter) (addr : BitVec 16) : Prop := ∃ c ∈ s.clients, s.addr c = addr

/-- No two registered clients have the same address. -/
def Distinct (s : I2cAdapter) : Prop := (s.clients.map s.addr).Nodup

/-- What is claimed of a call that returns. -/
def Outcome (s : I2cAdapter) (error : Option I2cError) (s' : I2cAdapter) : I2cOp → Prop
  | .new addr _ =>
      (error = some .addressInUse ↔ s.Registered addr) ∧
        (error = some .addressInUse → s'.clients = s.clients)
  | .remove addr => s'.clients = s.clients.filter fun c => s.addr c ≠ addr
  | .clone _ => True
  | .drop _ => True

/-- What is claimed of a call. -/
def StepOk (depth : ℕ) (s : I2cAdapter) (op : I2cOp) : Prop :=
  ∃ error s', s.call depth op = some (error, s') ∧ s'.Distinct ∧ s.Outcome error s' op

/-- References are cloned and dropped that somebody has: the registered clients have one more. -/
def Allowed (s : I2cAdapter) : I2cOp → Prop
  | .clone c => s.clients.count c < s.strong c
  | .drop c => s.clients.count c < s.strong c
  | _ => True

/-- The registered client of an address, if there is one, is referred to from elsewhere. -/
def Kept (s : I2cAdapter) (addr : BitVec 16) : Prop :=
  ∀ c ∈ s.clients, s.addr c = addr → 1 < s.strong c

/-- No client is made with an address that is registered; and none is removed to which the list has
the only reference, neither by `remove_client` nor by the destructor of another client. -/
def Careful (s : I2cAdapter) : I2cOp → Prop
  | .new addr _ => ¬ s.Registered addr
  | .remove addr => s.Kept addr
  | .clone _ => True
  | .drop c => s.strong c = 1 → s.Kept (s.addr c)

/-! ### Removing -/

variable {depth : ℕ} {s : I2cAdapter} {a : BitVec 16} {c : ClientId}

/-- The counts after the list has given up its references to the clients of an address. -/
def released (s : I2cAdapter) (l : List ClientId) (a : BitVec 16) (c : ClientId) : ℕ :=
  if c ∈ l ∧ s.addr c = a then s.strong c - 1 else s.strong c

/-- Under the lock a destructor does not return, however deep it is nested. -/
theorem removeClient_locked (h : s.locked = true) : removeClient depth s a = none := by
  cases depth with
  | zero => rfl
  | succ depth => simp [removeClient, lockIrqsave, h]

/-- Under the lock a last reference cannot be dropped. -/
theorem dropArc_locked (h : s.locked = true) : dropArc (removeClient depth) s c =
    if 1 < s.strong c then
      some { s with strong := Function.update s.strong c (s.strong c - 1) }
    else none := by
  rw [dropArc]
  simp only [Function.update_self]
  by_cases hc : 1 < s.strong c
  · rw [if_neg (by omega), if_pos hc]
  · rw [if_pos (by omega), if_neg hc]
    exact removeClient_locked h

/-- A reference that is not the last one. -/
theorem dropArc_of_lt (h : 1 < s.strong c) : dropArc (removeClient depth) s c =
    some { s with strong := Function.update s.strong c (s.strong c - 1) } := by
  rw [dropArc]
  simp only [Function.update_self]
  exact if_neg (by omega)

/-- The `retain` of `remove_client` returns if it drops no last reference. -/
theorem retainOthers_of_kept {l : List ClientId} (hlock : s.locked = true) (hl : l.Nodup)
    (h : ∀ c ∈ l, s.addr c = a → 1 < s.strong c) :
    retainOthers (dropArc (removeClient depth)) a l s =
      some (l.filter fun c => s.addr c ≠ a, { s with strong := s.released l a }) := by
  induction l generalizing s with
  | nil =>
      have hsame : s.released [] a = s.strong := funext fun c => by simp [released]
      rw [hsame]
      rfl
  | cons c l ih =>
      obtain ⟨hc, hl⟩ := List.nodup_cons.1 hl
      obtain ⟨hfirst, hrest⟩ := List.forall_mem_cons.1 h
      rw [retainOthers]
      by_cases ha : s.addr c = a
      · rw [if_neg (not_not.2 ha), dropArc_locked hlock, if_pos (hfirst ha), Option.bind_some]
        -- the counts of the others have not changed
        have hother : ∀ c' ∈ l, s.addr c' = a →
            1 < Function.update s.strong c (s.strong c - 1) c' := by
          intro c' hc' ha'
          rw [Function.update_of_ne (ne_of_mem_of_not_mem hc' hc)]
          exact hrest c' hc' ha'
        refine (ih (s := { s with strong := Function.update s.strong c (s.strong c - 1) }) hlock
          hl hother).trans ?_
        have hrel : ({ s with strong := Function.update s.strong c (s.strong c - 1) } :
            I2cAdapter).released l a = s.released (c :: l) a := by
          funext c'
          by_cases hcc : c' = c
          · subst hcc
            simp [released, hc, ha]
          · simp [released, addr, hcc]
        rw [hrel, List.filter_cons_of_neg (by simp [ha])]
        rfl
      · rw [if_pos ha, ih hlock hl hrest]
        have hrel : s.released l a = s.released (c :: l) a := by
          funext c'
          by_cases hcc : c' = c
          · subst hcc
            simp [released, ha]
          · simp [released, hcc]
        rw [hrel, List.filter_cons_of_pos (by simp [ha])]
        rfl

/-- It does not return if it drops a last reference. -/
theorem retainOthers_of_last {l : List ClientId} (hlock : s.locked = true) (hl : l.Nodup)
    (hc : c ∈ l) (ha : s.addr c = a) (hlast : ¬ 1 < s.strong c) :
    retainOthers (dropArc (removeClient depth)) a l s = none := by
  induction l generalizing s with
  | nil => exact absurd hc List.not_mem_nil
  | cons c' l ih =>
      obtain ⟨hc', hl⟩ := List.nodup_cons.1 hl
      rw [retainOthers]
      rcases List.mem_cons.1 hc with rfl | hc
      · rw [if_neg (not_not.2 ha), dropArc_locked hlock, if_neg hlast]
        rfl
      · by_cases ha' : s.addr c' = a
        · rw [if_neg (not_not.2 ha'), dropArc_locked hlock]
          split
          · refine ih (s := { s with strong := Function.update s.strong c' (s.strong c' - 1) })
              hlock hl hc ha ?_
            simpa only [Function.update_of_ne (ne_of_mem_of_not_mem hc hc')] using hlast
          · rfl
        · rw [if_pos ha', ih hlock hl hc ha hlast]
          rfl

/-- `remove_client` returns if the list has no only reference to a client that it removes. -/
theorem removeClient_of_kept (hlock : s.locked = false) (hl : s.clients.Nodup) (h : s.Kept a) :
    removeClient (depth + 1) s a = some { s with
      clients := s.clients.filter fun c => s.addr c ≠ a
      strong := s.released s.clients a } := by
  have hretain := @retainOthers_of_kept depth { s with locked := true } a s.clients rfl hl h
  rw [removeClient, lockIrqsave, if_neg (by simp [hlock]), Option.bind_some]
  refine (congrArg (Option.map _) hretain).trans ?_
  rw [Option.map_some, hlock]
  rfl

/-- Otherwise it does not return. -/
theorem removeClient_of_not_kept (hlock : s.locked = false) (hl : s.clients.Nodup)
    (h : ¬ s.Kept a) : removeClient (depth + 1) s a = none := by
  simp only [Kept, not_forall] at h
  obtain ⟨c, hc, ha, hlast⟩ := h
  have hretain := @retainOthers_of_last depth { s with locked := true } a c s.clients rfl hl hc ha
    hlast
  rw [removeClient, lockIrqsave, if_neg (by simp [hlock]), Option.bind_some]
  exact congrArg (Option.map _) hretain

/-- What `remove_client` leaves, if it returns. -/
theorem clients_of_removeClient (hlock : s.locked = false) (hl : s.clients.Nodup)
    {s' : I2cAdapter} (h : removeClient (depth + 1) s a = some s') :
    s'.clients = s.clients.filter fun c => s.addr c ≠ a := by
  by_cases hkept : s.Kept a
  · rw [removeClient_of_kept hlock hl hkept] at h
    cases h
    rfl
  · rw [removeClient_of_not_kept hlock hl hkept] at h
    cases h

/-! ### The invariant -/

/-- Between the calls the lock is free, the addresses are distinct, and the list has a reference to
each of its clients. -/
structure Inv (s : I2cAdapter) : Prop where
  unlocked : s.locked = false
  distinct : s.Distinct
  counted : ∀ c ∈ s.clients, 0 < s.strong c
  fresh : ∀ c ∈ s.clients, c < s.next

theorem inv_new : new.Inv where
  unlocked := rfl
  distinct := List.nodup_nil
  counted := fun _ hc => absurd hc List.not_mem_nil
  fresh := fun _ hc => absurd hc List.not_mem_nil

theorem Inv.nodup (h : s.Inv) : s.clients.Nodup := List.Nodup.of_map _ h.distinct

/-- What is left after clients of an address were removed. -/
theorem Inv.removed (h : s.Inv) (hkept : s.Kept a) : ({ s with
    clients := s.clients.filter fun c => s.addr c ≠ a
    strong := s.released s.clients a } : I2cAdapter).Inv where
  unlocked := h.unlocked
  distinct := h.distinct.sublist ((List.filter_sublist ..).map _)
  counted := fun c hc => by
    obtain ⟨hmem, -⟩ := List.mem_filter.1 hc
    have hpos := h.counted c hmem
    simp only [released]
    split
    · rename_i hcond
      have hlt := hkept c hcond.1 hcond.2
      omega
    · exact hpos
  fresh := fun c hc => h.fresh c (List.mem_filter.1 hc).1

/-- A count may change as long as the list keeps its reference. -/
theorem Inv.setStrong (h : s.Inv) {n : ℕ} (hn : c ∈ s.clients → 0 < n) :
    ({ s with strong := Function.update s.strong c n } : I2cAdapter).Inv where
  unlocked := h.unlocked
  distinct := h.distinct
  counted := fun c' hc' => by
    by_cases hcc : c' = c
    · subst hcc
      simpa using hn hc'
    · simpa only [Function.update_of_ne hcc] using h.counted c' hc'
  fresh := h.fresh

/-! ### New clients -/

variable {flags : BitVec 16}

theorem Inv.addr_alloc (h : s.Inv) (a flags : BitVec 16) (hc : c ∈ s.clients) :
    (s.alloc a flags).addr c = s.addr c := by
  have hne : c ≠ s.next := (h.fresh c hc).ne
  simp only [addr, alloc, Function.update_of_ne hne]

theorem addr_alloc_next : (s.alloc a flags).addr s.next = a := by
  simp [addr, alloc]

/-- The check for a conflict finds the registered address. -/
theorem Inv.any_conflict (h : s.Inv) (flags : BitVec 16) :
    ((s.alloc a flags).clients.any fun existing =>
    (s.alloc a flags).addr existing = (s.alloc a flags).addr s.next) = true ↔
      s.Registered a := by
  rw [List.any_eq_true]
  refine exists_congr fun c => and_congr_right fun hc => ?_
  rw [decide_eq_true_iff, h.addr_alloc a flags hc, addr_alloc_next]

/-- A client with a free address is registered. -/
theorem Inv.newClient_of_free (h : s.Inv) (hvalid : validAddr a flags = true)
    (hfree : ¬ s.Registered a) : s.newClient depth a flags =
      some (.ok s.next, { s.alloc a flags with clients := s.clients ++ [s.next] }) := by
  have hlock : (s.alloc a flags).locked = false := h.unlocked
  have hany := mt (h.any_conflict flags).1 hfree
  rw [newClient, if_pos hvalid, addClient, lockIrqsave, if_neg (by simp [hlock]),
    Option.bind_some]
  refine (congrArg (Option.bind · _) (if_neg hany)).trans ?_
  rw [Option.bind_some, ← hlock]
  rfl

/-- When the address is taken, the new client is dropped, and its destructor removes the registered
client of the address. -/
theorem Inv.newClient_of_registered (h : s.Inv) (hvalid : validAddr a flags = true)
    (htaken : s.Registered a) : s.newClient depth a flags =
      (removeClient depth { s.alloc a flags with
        strong := Function.update (s.alloc a flags).strong s.next 0 } a).map fun s' =>
          (.error .addressInUse, s') := by
  have hlock : (s.alloc a flags).locked = false := h.unlocked
  have hstrong : (s.alloc a flags).strong s.next = 2 := Function.update_self ..
  have hany := (h.any_conflict flags).2 htaken
  -- the clone that was passed on is not the last reference
  have hfirst : dropArc (removeClient depth) { s.alloc a flags with locked := false } s.next =
      some { s.alloc a flags with
        locked := false
        strong := Function.update (s.alloc a flags).strong s.next 1 } := by
    refine (dropArc_of_lt (by simp [hstrong])).trans ?_
    simp only [hstrong]
  rw [newClient, if_pos hvalid, addClient, lockIrqsave, if_neg (by simp [hlock]),
    Option.bind_some]
  refine (congrArg (Option.bind · _) ((if_pos hany).trans (congrArg (Option.map _) hfirst))).trans
    ?_
  rw [Option.map_some, Option.bind_some]
  simp only [dropArc, Function.update_self, Nat.sub_self, if_true, Function.update_idem]
  rw [← hlock]
  simp only [addr, alloc, Function.update_self]

/-- A registered client is added to those of the list. -/
theorem Inv.added (h : s.Inv) (hfree : ¬ s.Registered a) :
    ({ s.alloc a flags with clients := s.clients ++ [s.next] } : I2cAdapter).Inv where
  unlocked := h.unlocked
  distinct := by
    have hsame : s.clients.map (s.alloc a flags).addr = s.clients.map s.addr :=
      List.map_congr_left fun c hc => h.addr_alloc a flags hc
    have hnodup : ((s.clients ++ [s.next]).map (s.alloc a flags).addr).Nodup := by
      rw [List.map_append, hsame, List.map_singleton, addr_alloc_next]
      refine List.Nodup.append h.distinct (List.nodup_singleton a) ?_
      rw [List.disjoint_singleton, List.mem_map]
      exact hfree
    exact hnodup
  counted := fun c hc => by
    rcases List.mem_append.1 hc with hc | hc
    · have hne : c ≠ s.next := (h.fresh c hc).ne
      simpa only [alloc, Function.update_of_ne hne] using h.counted c hc
    · rw [List.mem_singleton.1 hc]
      simp [alloc]
  fresh := fun c hc => by
    rcases List.mem_append.1 hc with hc | hc
    · exact (h.fresh c hc).trans (Nat.lt_succ_self _)
    · rw [List.mem_singleton.1 hc]
      exact Nat.lt_succ_self _

/-! ### Calls -/

variable {op : I2cOp}

/-- A careful call returns, does what is claimed, and keeps the invariant. -/
theorem Inv.call (h : s.Inv) (depth : ℕ) (hop : s.Allowed op) (hcareful : s.Careful op) :
    ∃ error s', s.call (depth + 1) op = some (error, s') ∧ s'.Inv ∧ s.Outcome error s' op := by
  cases op with
  | new addr flags =>
      have hfree : ¬ s.Registered addr := hcareful
      rw [I2cAdapter.call]
      by_cases hvalid : validAddr addr flags = true
      · rw [h.newClient_of_free hvalid hfree]
        exact ⟨none, _, rfl, h.added hfree, by simp [hfree], by simp⟩
      · rw [newClient, if_neg hvalid]
        exact ⟨some .invalidArgument, s, rfl, h, by simp [hfree], fun _ => rfl⟩
  | remove addr =>
      rw [I2cAdapter.call, removeClient_of_kept h.unlocked h.nodup hcareful]
      exact ⟨none, _, rfl, h.removed hcareful, rfl⟩
  | clone c =>
      exact ⟨none, _, rfl, h.setStrong fun _ => Nat.succ_pos _, trivial⟩
  | drop c =>
      have hheld : s.clients.count c < s.strong c := hop
      rw [I2cAdapter.call]
      by_cases hlast : s.strong c = 1
      · -- the destructor runs, and the client is not registered
        have hnot : c ∉ s.clients := List.count_eq_zero.1 (by omega)
        have hzero : ({ s with strong := Function.update s.strong c 0 } : I2cAdapter).Inv :=
          h.setStrong fun hc => absurd hc hnot
        have hkept : ({ s with strong := Function.update s.strong c 0 } : I2cAdapter).Kept
            (s.addr c) := by
          intro c' hc' ha
          simp only [Function.update_of_ne (ne_of_mem_of_not_mem hc' hnot)]
          exact hcareful hlast c' hc' ha
        have hdrop : dropArc (removeClient (depth + 1)) s c = removeClient (depth + 1)
            { s with strong := Function.update s.strong c 0 } (s.addr c) := by
          rw [dropArc, hlast]
          simp [addr]
        rw [hdrop, removeClient_of_kept hzero.unlocked hzero.nodup hkept]
        exact ⟨none, _, rfl, hzero.removed hkept, trivial⟩
      · rw [dropArc_of_lt (by omega)]
        refine ⟨none, _, rfl, h.setStrong fun hc => ?_, trivial⟩
        have hcount := List.count_pos_iff.2 hc
        omega

/-- A call that does what is claimed was careful. -/
theorem Inv.careful (h : s.Inv) (hop : s.Allowed op) (hok : s.StepOk (depth + 1) op) :
    s.Careful op := by
  obtain ⟨error, s', hcall, -, hout⟩ := hok
  cases op with
  | new addr flags =>
      rintro htaken
      have herror : error = some .addressInUse := hout.1.2 htaken
      have hsame : s'.clients = s.clients := hout.2 herror
      rw [I2cAdapter.call] at hcall
      by_cases hvalid : validAddr addr flags = true
      · rw [h.newClient_of_registered hvalid htaken, Option.map_map,
          Option.map_eq_some_iff] at hcall
        obtain ⟨s₁, hremove, hpair⟩ := hcall
        obtain rfl : s₁ = s' := congrArg Prod.snd hpair
        have hclients := @clients_of_removeClient depth { s.alloc addr flags with
          strong := Function.update (s.alloc addr flags).strong s.next 0 } addr h.unlocked h.nodup
          s₁ hremove
        rw [hsame] at hclients
        -- the registered client is gone
        obtain ⟨c, hc, ha⟩ := htaken
        rw [hclients] at hc
        obtain ⟨hmem, hne⟩ := List.mem_filter.1 hc
        have haddr := h.addr_alloc addr flags hmem
        simp only [I2cAdapter.addr] at haddr hne ha
        simp [haddr, ha] at hne
      · rw [newClient, if_neg hvalid] at hcall
        have hinvalid : some I2cError.invalidArgument = error :=
          congrArg Prod.fst (Option.some.inj hcall)
        rw [← hinvalid] at herror
        cases herror
  | remove addr =>
      by_contra hkept
      rw [I2cAdapter.call, removeClient_of_not_kept h.unlocked h.nodup hkept] at hcall
      cases hcall
  | clone c => trivial
  | drop c =>
      intro hlast
      have hheld : s.clients.count c < s.strong c := hop
      have hnot : c ∉ s.clients := List.count_eq_zero.1 (by omega)
      by_contra hkept
      have hkept' : ¬ ({ s with strong := Function.update s.strong c 0 } : I2cAdapter).Kept
          (s.addr c) := by
        intro hall
        refine hkept fun c' hc' ha => ?_
        have hlt := hall c' hc' ha
        simpa only [Function.update_of_ne (ne_of_mem_of_not_mem hc' hnot)] using hlt
      have hzero : ({ s with strong := Function.update s.strong c 0 } : I2cAdapter).Inv :=
        h.setStrong fun hc => absurd hc hnot
      have hdrop : dropArc (removeClient (depth + 1)) s c = removeClient (depth + 1)
          { s with strong := Function.update s.strong c 0 } (s.addr c) := by
        rw [dropArc, hlast]
        simp [addr]
      rw [I2cAdapter.call, hdrop,
        removeClient_of_not_kept hzero.unlocked hzero.nodup hkept'] at hcall
      cases hcall

end I2cAdapter

/-! ### Runs -/

open I2cAdapter

/-- **When the registry of clients is right.**  Along a run on a new adapter every call returns and
does what is claimed exactly if every call is careful, however deep destructors may nest. -/
theorem i2cClients_iff (depth : ℕ) (ops : List I2cOp)
    (hops : Runs.Along (step (depth + 1)) Allowed new ops) :
    Runs.Along (step (depth + 1)) (StepOk (depth + 1)) new ops ↔
      Runs.Along (step (depth + 1)) Careful new ops := by
  refine Runs.along_iff (fun s op h hop => ⟨h.careful hop, fun hcareful => ?_⟩)
    (fun s op h hop hcareful => ?_) inv_new hops
  · obtain ⟨error, s', hcall, hinv, hout⟩ := h.call depth hop hcareful
    exact ⟨error, s', hcall, hinv.distinct, hout⟩
  · obtain ⟨error, s', hcall, hinv, -⟩ := h.call depth hop hcareful
    rw [step, hcall]
    exact hinv

/-- A client is made, removed from the list and dropped. -/
theorem i2cClients_one :
    Runs.Along (step 2) (StepOk 2) new [.new 0x50#16 0#16, .remove 0x50#16, .drop 0] := by
  refine (i2cClients_iff 1 [.new 0x50#16 0#16, .remove 0x50#16, .drop 0] ?_).2 ?_
  · exact ⟨trivial, trivial, Nat.zero_lt_one, trivial⟩
  · refine ⟨?_, ?_, ?_, trivial⟩
    · rintro ⟨c, hc, -⟩
      exact absurd hc List.not_mem_nil
    · intro c hc _
      obtain rfl : c = 0 := List.mem_singleton.1 hc
      exact Nat.one_lt_two
    · intro _ c hc
      exact absurd hc List.not_mem_nil

/-- A second client with the address is refused, and the first one is off the list. -/
theorem i2cClients_conflict :
    ¬ Runs.Along (step 2) (StepOk 2) new [.new 0x50#16 0#16, .new 0x50#16 0#16] := by
  rintro ⟨-, ⟨error, s', hcall, -, -, hsame⟩, -⟩
  have hfails : ((step 2 new (.new 0x50#16 0#16)).call 2 (.new 0x50#16 0#16)).map
      (fun r => (r.1, r.2.clients)) = some (some .addressInUse, []) := rfl
  rw [hcall, Option.map_some, Option.some.injEq, Prod.mk.injEq] at hfails
  have hkept : s'.clients = [0] := hsame hfails.1
  rw [hkept] at hfails
  cases hfails.2

end StarOS
