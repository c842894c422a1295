/-
The resource trees of the kernel (`drivers/resource/core.rs`): the records in memory, and the
operations on them.

A resource names its parent, its first child and its next sibling by address, so the operations run
along chains of addresses; the children of a resource are kept in order of their ranges.  The loops
are run for a bounded number of rounds, and give nothing if that is not enough, or if the code would
panic.

* `StarOS.Resources`, `StarOS.ResLink` — the records, and the places that hold an address of a
  sibling;
* `StarOS.Resources.requestResource`, `StarOS.Resources.releaseResource`,
  `StarOS.Resources.insertResource`, `StarOS.Resources.allocateResource`,
  `StarOS.Resources.adjustResource` — the operations;
* `StarOS.ResourceCall`, `StarOS.Resources.exec` — the calls.
-/

import StarOS.Links
import StarOS.Loops
import StarOS.Word

set_option autoImplicit false

namespace StarOS

/-! ### Data -/

/-- The records of the type `Resource`, field by field, at their addresses. -/
structure Resources where
  start : ℕ → BitVec 64
  end_ : ℕ → BitVec 64
  parent : ℕ → Option ℕ
  sibling : ℕ → Option ℕ
  child : ℕ → Option ℕ

/-- `ResourceError`. -/
inductive ResourceError where
  | busy | invalid | noDevice | range
  deriving DecidableEq, Repr

/-- `ResourceConstraint`. -/
structure ResourceConstraint where
  min : BitVec 64
  max : BitVec 64
  align : BitVec 64
  deriving DecidableEq, Repr

/-- A place that holds the address of a sibling: the loops keep a reference to it. -/
inductive ResLink where
  | child (n : ℕ)
  | sibling (n : ℕ)
  deriving DecidableEq, Repr

namespace Resources

/-- Writing a range. -/
def setRange (h : Resources) (n : ℕ) (start end_ : BitVec 64) : Resources :=
  { h with start := Function.update h.start n start, end_ := Function.update h.end_ n end_ }

/-- Writing a parent. -/
def setParent (h : Resources) (n : ℕ) (p : Option ℕ) : Resources :=
  { h with parent := Function.update h.parent n p }

/-- Writing a sibling. -/
def setSibling (h : Resources) (n : ℕ) (s : Option ℕ) : Resources :=
  { h with sibling := Function.update h.sibling n s }

/-- Writing a first child. -/
def setChild (h : Resources) (n : ℕ) (c : Option ℕ) : Resources :=
  { h with child := Function.update h.child n c }

/-- Reading through a reference. -/
def get (h : Resources) : ResLink → Option ℕ
  | .child n => h.child n
  | .sibling n => h.sibling n

/-- Writing through a reference. -/
def put (h : Resources) (v : Option ℕ) : ResLink → Resources
  | .child n => h.setChild n v
  | .sibling n => h.setSibling n v

/-- The chains of siblings. -/
instance links : Links.LinkStore ℕ Resources where
  getNext h n := h.sibling n
  setNext h n s := h.setSibling n s
  foot n := {n}
  getNext_setNext h n s := by
    rw [setSibling]
    exact Function.update_self ..
  getNext_setNext_of_disjoint h n m s hd := by
    have hne : n ≠ m := by simpa using hd
    exact Function.update_of_ne hne ..

/-! ### Requests -/

/-- The loop of `__request_resource`: the conflict, and the records afterwards. -/
def requestRound (h : Resources) (root new : ℕ) (p : ResLink) :
    Loops.Round ResLink (Option ℕ × Resources) :=
  match h.get p with
  | some tmp =>
      if h.end_ new < h.start tmp then
        .done (none, ((h.setSibling new (some tmp)).put (some new) p).setParent new (some root))
      else if h.end_ tmp < h.start new then .more (.sibling tmp)
      else .done (some tmp, h)
  | none => .done (none, ((h.setSibling new none).put (some new) p).setParent new (some root))

/-- `__request_resource`. -/
def requestResource (n : ℕ) (h : Resources) (root new : ℕ) : Option (Option ℕ × Resources) :=
  if h.end_ new < h.start new then some (some root, h)
  else if h.start new < h.start root then some (some root, h)
  else if h.end_ root < h.end_ new then some (some root, h)
  else Loops.run (h.requestRound root new) n (.child root)

/-! ### Releases -/

/-- The loop of `__release_resource`: the reference that holds the address of `old`. -/
def findRound (h : Resources) (old : ℕ) (p : ResLink) : Loops.Round ResLink (Option ResLink) :=
  match h.get p with
  | some tmp => if tmp = old then .done (some p) else .more (.sibling tmp)
  | none => .done none

/-- The loop that gives a chain of resources to another parent: the records, and the last one. -/
def adoptRound (parent : ℕ) (s : Resources × ℕ) : Loops.Round (Resources × ℕ) (Resources × ℕ) :=
  let h := s.1.setParent s.2 (some parent)
  match h.sibling s.2 with
  | some next => .more (h, next)
  | none => .done (h, s.2)

/-- `__release_resource`. -/
def releaseResource (n : ℕ) (h : Resources) (old : ℕ) (releaseChild : Bool) :
    Option (Except ResourceError Unit × Resources) :=
  match h.parent old with
  | none => some (.error .invalid, h)
  | some parent => do
      match ← Loops.run (h.findRound old) n (.child parent) with
      | none => some (.error .invalid, h)
      | some p =>
          match releaseChild, h.child old with
          | false, some chd => do
              -- the children move up, but `old` still names the first of them
              let (h', last) ← Loops.run (adoptRound parent) n (h, chd)
              let h' := h'.put (h'.child old) p
              let h' := h'.setSibling last (h'.sibling old)
              some (.ok (), h'.setParent old none)
          | _, _ => some (.ok (), (h.put (h.sibling old) p).setParent old none)

/-! ### Insertions -/

/-- What the first loop of `__insert_resource` ends with: the result of the whole operation, or the
parent that the new resource goes below. -/
inductive Descent where
  | finished (conflict : Option ℕ) (h : Resources)
  | stopped (parent first : ℕ)

/-- The first loop of `__insert_resource`, with the second look for the first conflict. -/
def descendRound (n : ℕ) (h : Resources) (new currentParent : ℕ) :
    Loops.Round ℕ (Option Descent) :=
  match h.requestResource n currentParent new with
  | none => .done none
  | some (none, h') => .done (some (.finished none h'))
  | some (some first, h') =>
      if first = currentParent then .done (some (.finished (some first) h'))
      else if first = new then .done (some (.finished (some first) h'))
      else if h.start new < h.start first ∨ h.end_ first < h.end_ new then
        .done (some (.stopped currentParent first))
      else if h.start first = h.start new ∧ h.end_ first = h.end_ new then
        .done (some (.stopped currentParent first))
      else .more first

/-- The second loop of `__insert_resource`: a conflict, or the last resource that is covered. -/
def coverRound (h : Resources) (new next : ℕ) : Loops.Round ℕ (ℕ ⊕ ℕ) :=
  if h.start next < h.start new ∨ h.end_ new < h.end_ next then .done (.inl next)
  else
    match h.sibling next with
    | none => .done (.inr next)
    | some nextSib => if h.end_ new < h.start nextSib then .done (.inr next) else .more nextSib

/-- The last loop of `__insert_resource`: the resource in front of `first`. -/
def scanRound (h : Resources) (first scan : ℕ) : Loops.Round ℕ (Option ℕ) :=
  if h.sibling scan = some first then .done (some scan)
  else
    match h.sibling scan with
    | some next => .more next
    | none => .done none

/-- The end of `__insert_resource`: the resources from `first` to `next` go below the new one. -/
def reparent (n : ℕ) (h : Resources) (currentParent new first next : ℕ) : Option Resources := do
  let h := h.setParent new (some currentParent)
  let h := h.setSibling new (h.sibling next)
  let h := h.setChild new (some first)
  let h := h.setSibling next none
  let (h, _) ← Loops.run (adoptRound new) n (h, first)
  if h.child currentParent = some first then some (h.setChild currentParent (some new))
  else do
    let c ← h.child currentParent
    let scan ← (← Loops.run (h.scanRound first) n c)
    some (h.setSibling scan (some new))

/-- `__insert_resource`. -/
def insertResource (n : ℕ) (h : Resources) (parent new : ℕ) : Option (Option ℕ × Resources) := do
  match ← (← Loops.run (h.descendRound n new) n parent) with
  | .finished conflict h' => some (conflict, h')
  | .stopped currentParent first =>
      match ← Loops.run (h.coverRound new) n first with
      | .inl conflict => some (some conflict, h)
      | .inr next => do
          let h' ← h.reparent n currentParent new first next
          some (none, h')

/-! ### Allocations -/

/-- `resource_clip`. -/
def resourceClip (res : BitVec 64 × BitVec 64) (min max : BitVec 64) : BitVec 64 × BitVec 64 :=
  (if res.1 < min then min else res.1, if max < res.2 then max else res.2)

/-- `align_up`. -/
def alignUp (val align : BitVec 64) : BitVec 64 := (val + align - 1#64) &&& ~~~(align - 1#64)

/-- The place that a free range gives to a resource. -/
def placeIn (tmpStart tmpEnd size : BitVec 64) (c : ResourceConstraint) :
    Option (BitVec 64 × BitVec 64) :=
  if tmpStart ≤ tmpEnd then
    -- a copy is clipped, and not read again
    let _clipped := resourceClip (tmpStart, tmpEnd) c.min c.max
    let availStart := alignUp tmpStart c.align
    if tmpStart ≤ availStart ∧ availStart ≤ tmpEnd then
      let allocEnd := availStart + size - 1#64
      if availStart ≤ allocEnd ∧ allocEnd ≤ tmpEnd then some (availStart, allocEnd) else none
    else none
  else none

/-- The loop of `__find_resource_space`: the range that is found. -/
def spaceRound (h : Resources) (root : ℕ) (old : Option ℕ) (size : BitVec 64)
    (c : ResourceConstraint) (s : Option ℕ × BitVec 64) :
    Loops.Round (Option ℕ × BitVec 64) (Except ResourceError (BitVec 64 × BitVec 64)) :=
  let (this, tmpStart) := s
  let tmpEnd := match this with
    | some current =>
        if some current = old then h.end_ current
        else if h.start current = 0#64 then 0#64 else h.start current - 1#64
    | none => h.end_ root
  match placeIn tmpStart tmpEnd size c with
  | some range => .done (.ok range)
  | none =>
      match this with
      | none => .done (.error .busy)
      | some current =>
          if h.end_ current = h.end_ root then .done (.error .busy)
          else if some current = old then .more (h.sibling current, tmpStart)
          else .more (h.sibling current, h.end_ current + 1#64)

/-- `__find_resource_space`. -/
def findResourceSpace (n : ℕ) (h : Resources) (root : ℕ) (old : Option ℕ) (size : BitVec 64)
    (c : ResourceConstraint) : Option (Except ResourceError (BitVec 64 × BitVec 64)) :=
  let first := match h.child root with
    | some first =>
        if h.start first = h.start root then
          (h.sibling first, if some first = old then h.start first else h.end_ first + 1#64)
        else (some first, h.start root)
    | none => (none, h.start root)
  Loops.run (h.spaceRound root old size c) n first

/-- The result of a request. -/
def ofConflict (conflict : Option ℕ) : Except ResourceError Unit :=
  if conflict.isSome then .error .busy else .ok ()

/-- `reallocate_resource`. -/
def reallocateResource (n : ℕ) (h : Resources) (root old : ℕ) (newsize : BitVec 64)
    (c : ResourceConstraint) : Option (Except ResourceError Unit × Resources) := do
  match ← h.findResourceSpace n root (some old) newsize c with
  | .error e => some (.error e, h)
  | .ok (start, end_) =>
      if start ≤ h.start old ∧ h.end_ old ≤ end_ then some (.ok (), h.setRange old start end_)
      else if (h.child old).isSome then some (.error .busy, h)
      else if h.start old ≤ start ∧ end_ ≤ h.end_ old then some (.ok (), h.setRange old start end_)
      else
        match ← h.releaseResource n old true with
        | (.error e, h) => some (.error e, h)
        | (.ok _, h) => do
            let (conflict, h) ← (h.setRange old start end_).requestResource n root old
            some (ofConflict conflict, h)

/-- `allocate_resource`. -/
def allocateResource (n : ℕ) (h : Resources) (root new : ℕ) (size : BitVec 64)
    (c : ResourceConstraint) : Option (Except ResourceError Unit × Resources) :=
  if (h.parent new).isSome then h.reallocateResource n root new size c
  else do
    match ← h.findResourceSpace n root none size c with
    | .error e => some (.error e, h)
    | .ok (start, end_) => do
        let (conflict, h) ← (h.setRange new start end_).requestResource n root new
        some (ofConflict conflict, h)

/-! ### Adjustments -/

/-- The loop of `adjust_resource` for the resource in front. -/
def frontRound (h : Resources) (res : ℕ) (tmp : Option ℕ) :
    Loops.Round (Option ℕ) (Option ℕ) :=
  match tmp with
  | some current =>
      if h.sibling current = some res then .done (some current) else .more (h.sibling current)
  | none => .done none

/-- The loop of `adjust_resource` over the children: whether all of them lie inside the range. -/
def insideRound (h : Resources) (start end_ : BitVec 64) (child : Option ℕ) :
    Loops.Round (Option ℕ) Bool :=
  match child with
  | some current =>
      if h.start current < start ∨ end_ < h.end_ current then .done false
      else .more (h.sibling current)
  | none => .done true

/-- The checks of `adjust_resource` against the parent and the neighbours. -/
def fitsBetween (n : ℕ) (h : Resources) (res : ℕ) (start end_ : BitVec 64) : Option Bool :=
  match h.parent res with
  | none => some true
  | some parent =>
      if start < h.start parent ∨ h.end_ parent < end_ then some false
      else if ∃ s ∈ h.sibling res, h.start s ≤ end_ then some false
      else if h.child parent = some res then some true
      else do
        match ← Loops.run (h.frontRound res) n (h.child parent) with
        | some current => some (decide (h.end_ current < start))
        | none => some true

/-- `adjust_resource`. -/
def adjustResource (n : ℕ) (h : Resources) (res : ℕ) (start size : BitVec 64) :
    Option (Except ResourceError Unit × Resources) := do
  let end_ := start + size - 1#64
  if ← h.fitsBetween n res start end_ then
    if ← Loops.run (h.insideRound start end_) n (h.child res) then
      some (.ok (), h.setRange res start end_)
    else some (.error .busy, h)
  else some (.error .busy, h)

end Resources

/-! ### Calls -/

/-- A call of an operation. -/
inductive ResourceCall where
  | request (root new : ℕ)
  | insert (parent new : ℕ)
  | release (old : ℕ)
  | remove (old : ℕ)
  | allocate (root new : ℕ) (size : BitVec 64) (constraint : ResourceConstraint)
  | adjust (res : ℕ) (start size : BitVec 64)

namespace Resources

/-- `request_resource`, `insert_resource`, `release_resource`, `remove_resource`,
`allocate_resource` and `adjust_resource`, with loops of at most `n` rounds. -/
def exec (n : ℕ) (h : Resources) :
    ResourceCall → Option (Except ResourceError Unit × Resources)
  | .request root new => do
      let (conflict, h) ← h.requestResource n root new
      some (ofConflict conflict, h)
  | .insert parent new => do
      let (conflict, h) ← h.insertResource n parent new
      some (ofConflict conflict, h)
  | .release old => h.releaseResource n old true
  | .remove old => h.releaseResource n old false
  | .allocate root new size constraint => h.allocateResource n root new size constraint
  | .adjust res start size => h.adjustResource n res start size

end Resources

end StarOS
