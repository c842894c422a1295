/-
The RAM filesystem (`fs.rs`): 256 inodes, the directory entries that name them, and the tree that
they form.

`create` does not look whether the directory already has an entry of the name, and `unlink` frees a
directory together with its entries but not the inodes that these name.  These are the only two ways
out of a tree: in the runs that create no name twice and unlink no directory that has entries, every
entry names an inode in use, every inode in use but the root is named by exactly one entry and can
be reached from the root, and no directory holds a name twice.

* `StarOS.Inode`, `StarOS.RamFs`, `StarOS.FsError` — the data;
* `StarOS.RamFs.create`, `StarOS.RamFs.lookup`, `StarOS.RamFs.write`, `StarOS.RamFs.unlink` and the
  other operations;
* `StarOS.FsCall`, `StarOS.ramFsSystem` — the calls that change the filesystem, and its runs;
* `StarOS.RamFs.namings`, `StarOS.RamFs.Reaches`, `StarOS.RamFs.IsTree` — how often an inode is
  named, what can be reached, and the tree;
* `StarOS.KeepsTree` — the condition on the state before a call;
* `StarOS.ramFs_tree` — in such runs the filesystem is a tree;
* `StarOS.ramFs_orphan` — an inode in use that no entry names, and a name held twice.
-/

import StarOS.Runs
import StarOS.Word
import Mathlib.Algebra.BigOperators.Group.Finset.Piecewise
import Mathlib.Algebra.Order.BigOperators.Group.Finset
import Mathlib.Data.List.Perm.Basic
import Mathlib.Logic.Relation
import Mathlib.Tactic.Cases

set_option autoImplicit false

namespace StarOS

/-! ### Data -/

/-- `MAX_INODES`. -/
def maxInodes : ℕ := 256

/-- `BUF_SIZE`. -/
def bufSize : ℕ := 4096

/-- `MAX_DIR_ENTRIES`. -/
def maxDirEntries : ℕ := 64

/-- The kind of an inode. -/
inductive FileType where
  | regular | directory | charDev | blockDev
  deriving DecidableEq, Repr

/-- A directory entry. -/
structure DirEntry where
  name : String
  inodeId : ℕ
  deriving DecidableEq, Repr

/-- An inode. -/
structure Inode where
  ftype : FileType
  data : List (BitVec 8)
  size : ℕ
  entries : List DirEntry
  inUse : Bool
  deriving DecidableEq, Repr

/-- `Inode::new`. -/
def Inode.new (ftype : FileType) : Inode where
  ftype := ftype
  data := if ftype = .regular then List.replicate bufSize 0#8 else []
  size := 0
  entries := []
  inUse := true

/-- An inode that is in use and a directory. -/
def Inode.isDir (n : Inode) : Bool := n.inUse && n.ftype == .directory

/-- The filesystem.  Only the inodes below `maxInodes` exist. -/
structure RamFs where
  inodes : ℕ → Inode

/-- Filesystem errors. -/
inductive FsError where
  | noSpace | notFound | notDirectory | notFile | nameTooLong | dirFull | invalidInode
  deriving DecidableEq, Repr

namespace RamFs

/-- `RamFs::new`. -/
def new : RamFs where
  inodes := Function.update (fun _ => ⟨.regular, [], 0, [], false⟩) 0 (Inode.new .directory)

/-- The free inode that `alloc_inode` finds. -/
def findFree (fs : RamFs) : Option ℕ :=
  (List.range' 1 (maxInodes - 1)).find? fun i => !(fs.inodes i).inUse

/-- `RamFs::alloc_inode`. -/
def allocInode (fs : RamFs) (ftype : FileType) : Except FsError ℕ × RamFs :=
  match fs.findFree with
  | some i => (.ok i, ⟨Function.update fs.inodes i (Inode.new ftype)⟩)
  | none => (.error .noSpace, fs)

/-- Appending an entry to a directory. -/
def pushEntry (fs : RamFs) (parent : ℕ) (e : DirEntry) : RamFs :=
  ⟨Function.update fs.inodes parent
    { fs.inodes parent with entries := (fs.inodes parent).entries ++ [e] }⟩

/-- `RamFs::create`.  It panics if the parent is out of range. -/
def create (fs : RamFs) (parent : ℕ) (name : String) (ftype : FileType) :
    Option (Except FsError ℕ × RamFs) :=
  if 255 < name.utf8ByteSize then some (.error .nameTooLong, fs)
  else if maxInodes ≤ parent then none
  else if (fs.inodes parent).inUse = false ∨ (fs.inodes parent).ftype ≠ .directory then
    some (.error .notDirectory, fs)
  else if maxDirEntries ≤ (fs.inodes parent).entries.length then some (.error .dirFull, fs)
  else
    match fs.allocInode ftype with
    | (.error e, fs') => some (.error e, fs')
    | (.ok id, fs') => some (.ok id, fs'.pushEntry parent ⟨name, id⟩)

/-- `RamFs::mkdir`. -/
def mkdir (fs : RamFs) (parent : ℕ) (name : String) : Option (Except FsError ℕ × RamFs) :=
  fs.create parent name .directory

/-- `RamFs::lookup`. -/
def lookup (fs : RamFs) (parent : ℕ) (name : String) : Except FsError ℕ :=
  if maxInodes ≤ parent ∨ (fs.inodes parent).inUse = false then .error .invalidInode
  else if (fs.inodes parent).ftype ≠ .directory then .error .notDirectory
  else
    match (fs.inodes parent).entries.find? fun e => e.name == name with
    | some e => .ok e.inodeId
    | none => .error .notFound

/-- `RamFs::open`. -/
def open_ (fs : RamFs) (inode : ℕ) : Except FsError FileType :=
  if maxInodes ≤ inode ∨ (fs.inodes inode).inUse = false then .error .invalidInode
  else .ok (fs.inodes inode).ftype

/-- `RamFs::read` into a buffer of `len` bytes: the bytes read.  It panics if the data is shorter
than the size says. -/
def read (fs : RamFs) (inode offset len : ℕ) : Option (Except FsError (List (BitVec 8))) :=
  if maxInodes ≤ inode ∨ (fs.inodes inode).inUse = false then some (.error .invalidInode)
  else if (fs.inodes inode).ftype ≠ .regular then some (.error .notFile)
  else if (fs.inodes inode).size ≤ offset then some (.ok [])
  else
    let n := min len ((fs.inodes inode).size - offset)
    if (fs.inodes inode).data.length < offset + n then none
    else some (.ok (((fs.inodes inode).data.drop offset).take n))

/-- `RamFs::write`.  It panics if the offset is beyond the buffer: the end of the range is cut off
at `bufSize` and is then in front of its start. -/
def write (fs : RamFs) (inode offset : ℕ) (data : List (BitVec 8)) :
    Option (Except FsError ℕ × RamFs) :=
  if maxInodes ≤ inode ∨ (fs.inodes inode).inUse = false then some (.error .invalidInode, fs)
  else if (fs.inodes inode).ftype ≠ .regular then some (.error .notFile, fs)
  else
    let node := fs.inodes inode
    let e := min (offset + data.length) bufSize
    if e < offset ∨ node.data.length < e then none
    else
      let n := e - offset
      let node' : Inode :=
        { node with
          data := node.data.take offset ++ data.take n ++ node.data.drop e
          size := max node.size e }
      some (.ok n, ⟨Function.update fs.inodes inode node'⟩)

/-- Freeing an inode. -/
def freeInode (fs : RamFs) (id : ℕ) : RamFs :=
  ⟨Function.update fs.inodes id { fs.inodes id with inUse := false, data := [], entries := [] }⟩

/-- Removing an entry of a directory. -/
def removeEntry (fs : RamFs) (parent pos : ℕ) : RamFs :=
  ⟨Function.update fs.inodes parent
    { fs.inodes parent with entries := (fs.inodes parent).entries.eraseIdx pos }⟩

/-- `RamFs::unlink`.  It panics if the entry names an inode that does not exist. -/
def unlink (fs : RamFs) (parent : ℕ) (name : String) : Option (Except FsError Unit × RamFs) :=
  if maxInodes ≤ parent ∨ (fs.inodes parent).inUse = false then
    some (.error .invalidInode, fs)
  else if (fs.inodes parent).ftype ≠ .directory then some (.error .notDirectory, fs)
  else
    let pos := (fs.inodes parent).entries.findIdx fun e => e.name == name
    match (fs.inodes parent).entries[pos]? with
    | none => some (.error .notFound, fs)
    | some e =>
        if maxInodes ≤ e.inodeId then none
        else some (.ok (), (fs.removeEntry parent pos).freeInode e.inodeId)

end RamFs

/-- The calls that change the filesystem. -/
inductive FsCall where
  | create (parent : ℕ) (name : String) (ftype : FileType)
  | mkdir (parent : ℕ) (name : String)
  | write (inode offset : ℕ) (data : List (BitVec 8))
  | unlink (parent : ℕ) (name : String)

/-- The state after a call, unless it panics. -/
def RamFs.next (fs : RamFs) : FsCall → Option RamFs
  | .create parent name ftype => (fs.create parent name ftype).map Prod.snd
  | .mkdir parent name => (fs.mkdir parent name).map Prod.snd
  | .write inode offset data => (fs.write inode offset data).map Prod.snd
  | .unlink parent name => (fs.unlink parent name).map Prod.snd

/-- The runs from a new filesystem, whatever the calls return. -/
def ramFsSystem : Runs.System RamFs FsCall where
  init := fun fs => fs = .new
  step := fun fs c fs' => fs.next c = some fs'

/-! ### The tree -/

namespace RamFs

/-- How many entries of a directory in use name an inode. -/
def namingsIn (fs : RamFs) (d i : ℕ) : ℕ :=
  if (fs.inodes d).isDir then (fs.inodes d).entries.countP fun e => e.inodeId == i else 0

/-- How many entries of all directories in use name an inode. -/
def namings (fs : RamFs) (i : ℕ) : ℕ := ∑ d ∈ Finset.range maxInodes, fs.namingsIn d i

/-- A directory in use has an entry that names an inode. -/
def Edge (fs : RamFs) (d i : ℕ) : Prop :=
  d < maxInodes ∧ (fs.inodes d).isDir = true ∧ ∃ e ∈ (fs.inodes d).entries, e.inodeId = i

/-- An inode can be reached from the root. -/
def Reaches (fs : RamFs) (i : ℕ) : Prop := Relation.ReflTransGen fs.Edge 0 i

/-- The filesystem is a tree: the entries of directories in use name inodes in use, every inode in
use but the root is named by exactly one entry and can be reached from the root, and no directory
holds two entries of one name. -/
structure IsTree (fs : RamFs) : Prop where
  used : ∀ d < maxInodes, (fs.inodes d).isDir = true → ∀ e ∈ (fs.inodes d).entries,
    e.inodeId < maxInodes ∧ (fs.inodes e.inodeId).inUse = true
  namedOnce : ∀ i < maxInodes, (fs.inodes i).inUse = true → i ≠ 0 → fs.namings i = 1
  reached : ∀ i < maxInodes, (fs.inodes i).inUse = true → fs.Reaches i
  distinct : ∀ d < maxInodes, (fs.inodes d).isDir = true →
    ((fs.inodes d).entries.map DirEntry.name).Nodup

/-- The invariant: a tree whose root is a directory that no entry names. -/
structure Rooted (fs : RamFs) : Prop extends IsTree fs where
  root : (fs.inodes 0).isDir = true
  rootUnnamed : fs.namings 0 = 0

/-- A `create` that gets as far as making an entry: the name is short enough, the parent is a
directory in use with room, and an inode is free. -/
def CanCreate (fs : RamFs) (parent : ℕ) (name : String) : Prop :=
  name.utf8ByteSize ≤ 255 ∧ parent < maxInodes ∧ (fs.inodes parent).isDir = true ∧
    (fs.inodes parent).entries.length < maxDirEntries ∧ fs.findFree.isSome = true

/-- The parent has no entry of the name, or no entry will be made. -/
def FreshName (fs : RamFs) (parent : ℕ) (name : String) : Prop :=
  fs.CanCreate parent name → ∀ e ∈ (fs.inodes parent).entries, e.name ≠ name

instance (fs : RamFs) (parent : ℕ) (name : String) : Decidable (fs.CanCreate parent name) :=
  inferInstanceAs (Decidable (_ ∧ _))

instance (fs : RamFs) (parent : ℕ) (name : String) : Decidable (fs.FreshName parent name) :=
  inferInstanceAs (Decidable (_ → _))

end RamFs

/-- The calls that keep the tree: nothing is created under a name that the parent has, and nothing
that has entries is unlinked. -/
def KeepsTree (fs : RamFs) : FsCall → Prop
  | .create parent name _ => fs.FreshName parent name
  | .mkdir parent name => fs.FreshName parent name
  | .write _ _ _ => True
  | .unlink parent name => ∀ e ∈ (fs.inodes parent).entries, e.name = name →
      (fs.inodes e.inodeId).entries = []

instance (fs : RamFs) (c : FsCall) : Decidable (KeepsTree fs c) :=
  match c with
  | .create parent name _ => inferInstanceAs (Decidable (fs.FreshName parent name))
  | .mkdir parent name => inferInstanceAs (Decidable (fs.FreshName parent name))
  | .write _ _ _ => .isTrue trivial
  | .unlink parent name => inferInstanceAs (Decidable (∀ e ∈ (fs.inodes parent).entries,
      e.name = name → (fs.inodes e.inodeId).entries = []))

namespace RamFs

variable {fs fs' : RamFs} {d i p id pos : ℕ} {e : DirEntry} {name : String} {ftype : FileType}

/-! ### What a call changes -/

theorem findFree_spec (h : fs.findFree = some id) :
    0 < id ∧ id < maxInodes ∧ (fs.inodes id).inUse = false := by
  have hfree := List.find?_some h
  have hmem := List.mem_of_find?_eq_some h
  rw [List.mem_range'_1] at hmem
  rw [Bool.not_eq_true'] at hfree
  have hmax : maxInodes = 256 := rfl
  exact ⟨by omega, by omega, hfree⟩

/-- The filesystem after an entry for a fresh inode has been made. -/
def withEntry (fs : RamFs) (p : ℕ) (name : String) (id : ℕ) (ftype : FileType) : RamFs :=
  pushEntry ⟨Function.update fs.inodes id (Inode.new ftype)⟩ p ⟨name, id⟩

/-- `create` fails and leaves everything as it is, or makes an entry for a free inode. -/
theorem create_cases {r : Except FsError ℕ} (h : fs.create p name ftype = some (r, fs')) :
    (∃ err, r = .error err ∧ fs' = fs) ∨ ∃ id, r = .ok id ∧ fs.CanCreate p name ∧
      fs.findFree = some id ∧ fs' = fs.withEntry p name id ftype := by
  rw [create] at h
  split at h
  · cases h
    exact Or.inl ⟨_, rfl, rfl⟩
  rename_i hname
  split at h
  · exact absurd h.symm (Option.some_ne_none _)
  rename_i hp
  split at h
  · cases h
    exact Or.inl ⟨_, rfl, rfl⟩
  rename_i hdir
  split at h
  · cases h
    exact Or.inl ⟨_, rfl, rfl⟩
  rename_i hroom
  rw [allocInode] at h
  cases hfree : fs.findFree with
  | none =>
      rw [hfree] at h
      cases h
      exact Or.inl ⟨_, rfl, rfl⟩
  | some id =>
      rw [hfree] at h
      cases h
      have hisDir : (fs.inodes p).isDir = true := by
        rw [not_or, Bool.not_eq_false, not_not] at hdir
        rw [Inode.isDir, hdir.1, hdir.2]
        rfl
      exact Or.inr ⟨id, rfl, ⟨not_lt.1 hname, not_le.1 hp, hisDir, not_le.1 hroom,
        by rw [hfree]; rfl⟩, rfl, rfl⟩

/-- `unlink` fails and leaves everything as it is, or removes the first entry of the name and frees
its inode. -/
theorem unlink_cases {r : Except FsError Unit} (h : fs.unlink p name = some (r, fs')) :
    (∃ err, r = .error err ∧ fs' = fs) ∨ ∃ pos e, r = .ok () ∧ p < maxInodes ∧
      (fs.inodes p).isDir = true ∧ (fs.inodes p).entries[pos]? = some e ∧ e.name = name ∧
      ((fs.inodes p).entries.find? fun e => e.name == name) = some e ∧
      fs' = (fs.removeEntry p pos).freeInode e.inodeId := by
  rw [unlink] at h
  split at h
  · cases h
    exact Or.inl ⟨_, rfl, rfl⟩
  rename_i hused
  split at h
  · cases h
    exact Or.inl ⟨_, rfl, rfl⟩
  rename_i hdir
  dsimp only at h
  split at h
  · cases h
    exact Or.inl ⟨_, rfl, rfl⟩
  · rename_i e he
    split at h
    · exact absurd h.symm (Option.some_ne_none _)
    · cases h
      rw [not_or, Bool.not_eq_false] at hused
      have hisDir : (fs.inodes p).isDir = true := by
        rw [Inode.isDir, hused.2, not_not.1 hdir]
        rfl
      have hfind := List.find?_eq_getElem?_findIdx.trans he
      have hname := List.find?_some hfind
      rw [beq_iff_eq] at hname
      exact Or.inr ⟨_, e, rfl, not_le.1 hused.1, hisDir, he, hname, hfind, rfl⟩

/-- `write` changes neither the entries of an inode nor what kind of inode it is. -/
theorem write_cases {offset : ℕ} {data : List (BitVec 8)} {r : Except FsError ℕ}
    (h : fs.write i offset data = some (r, fs')) (d : ℕ) :
    (fs'.inodes d).entries = (fs.inodes d).entries ∧
      (fs'.inodes d).inUse = (fs.inodes d).inUse ∧ (fs'.inodes d).ftype = (fs.inodes d).ftype := by
  rw [write] at h
  split at h
  · cases h
    exact ⟨rfl, rfl, rfl⟩
  split at h
  · cases h
    exact ⟨rfl, rfl, rfl⟩
  dsimp only at h
  split at h
  · exact absurd h.symm (Option.some_ne_none _)
  · cases h
    dsimp only
    by_cases hd : d = i
    · rw [hd, Function.update_self]
      exact ⟨rfl, rfl, rfl⟩
    · rw [Function.update_of_ne hd]
      exact ⟨rfl, rfl, rfl⟩

/-- A call leaves everything as it is, makes an entry for a free inode, writes, or removes an entry
and frees its inode. -/
theorem next_cases {c : FsCall} (h : fs.next c = some fs') :
    fs' = fs ∨
    (∃ p name ftype id, (c = .create p name ftype ∨ c = .mkdir p name) ∧ fs.CanCreate p name ∧
      fs.findFree = some id ∧ fs' = fs.withEntry p name id ftype) ∨
    (∃ i offset data r, c = .write i offset data ∧ fs.write i offset data = some (r, fs')) ∨
    ∃ p name pos e, c = .unlink p name ∧ p < maxInodes ∧ (fs.inodes p).isDir = true ∧
      (fs.inodes p).entries[pos]? = some e ∧ e.name = name ∧
      fs' = (fs.removeEntry p pos).freeInode e.inodeId := by
  cases c with
  | create p name ftype =>
      obtain ⟨⟨r, fs₁⟩, hcreate, rfl⟩ := Option.map_eq_some_iff.1 h
      rcases create_cases hcreate with ⟨_, _, hsame⟩ | ⟨id, _, hcan, hfree, heq⟩
      · exact .inl hsame
      · exact .inr (.inl ⟨p, name, ftype, id, .inl rfl, hcan, hfree, heq⟩)
  | mkdir p name =>
      obtain ⟨⟨r, fs₁⟩, hcreate, rfl⟩ := Option.map_eq_some_iff.1 h
      rcases create_cases hcreate with ⟨_, _, hsame⟩ | ⟨id, _, hcan, hfree, heq⟩
      · exact .inl hsame
      · exact .inr (.inl ⟨p, name, _, id, .inr rfl, hcan, hfree, heq⟩)
  | write i offset data =>
      obtain ⟨⟨r, fs₁⟩, hwrite, rfl⟩ := Option.map_eq_some_iff.1 h
      exact .inr (.inr (.inl ⟨i, offset, data, r, rfl, hwrite⟩))
  | unlink p name =>
      obtain ⟨⟨r, fs₁⟩, hunlink, rfl⟩ := Option.map_eq_some_iff.1 h
      rcases unlink_cases hunlink with ⟨_, _, hsame⟩ | ⟨pos, e, _, hp, hdir, he, hname, _, heq⟩
      · exact .inl hsame
      · exact .inr (.inr (.inr ⟨p, name, pos, e, rfl, hp, hdir, he, hname, heq⟩))

/-! ### Counting names -/

theorem namings_pos (hd : d < maxInodes) (hdir : (fs.inodes d).isDir = true)
    (he : e ∈ (fs.inodes d).entries) : 0 < fs.namings e.inodeId := by
  have hin : 0 < fs.namingsIn d e.inodeId := by
    rw [namingsIn, if_pos hdir]
    exact List.countP_pos_iff.2 ⟨e, he, beq_self_eq_true _⟩
  rw [namings]
  exact Finset.sum_pos' (fun _ _ => Nat.zero_le _) ⟨d, Finset.mem_range.2 hd, hin⟩

/-- An inode that is not in use is not named. -/
theorem IsTree.namings_eq_zero (h : fs.IsTree) (hi : (fs.inodes i).inUse = false) :
    fs.namings i = 0 := by
  refine Finset.sum_eq_zero fun d hd => ?_
  rw [namingsIn]
  split
  · rename_i hdir
    refine List.countP_eq_zero.2 fun e he heq => ?_
    have hused := (h.used d (Finset.mem_range.1 hd) hdir e he).2
    rw [beq_iff_eq.1 heq, hi] at hused
    exact absurd hused (by decide)
  · rfl

/-- One more name in one directory. -/
theorem namings_add {a b : RamFs} {n : ℕ} (hp : p < maxInodes)
    (h : ∀ d, a.namingsIn d i = b.namingsIn d i + if d = p then n else 0) :
    a.namings i = b.namings i + n := by
  rw [namings, namings, Finset.sum_congr rfl fun d _ => h d, Finset.sum_add_distrib,
    Finset.sum_ite_eq', if_pos (Finset.mem_range.2 hp)]

/-! ### The tree is kept -/

theorem rooted_new : new.Rooted := by
  have hroot : new.inodes 0 = Inode.new .directory := by
    simp only [new, Function.update_self]
  have hfree : ∀ d, d ≠ 0 → (new.inodes d).inUse = false := fun d hd => by
    simp only [new, Function.update_of_ne hd]
  have hzero : ∀ d, (new.inodes d).isDir = true → d = 0 := fun d hd => by
    by_contra hne
    rw [Inode.isDir, hfree d hne, Bool.false_and] at hd
    exact Bool.noConfusion hd
  have hentries : ∀ d, (new.inodes d).isDir = true → (new.inodes d).entries = [] :=
    fun d hd => by
      rw [hzero d hd, hroot]
      rfl
  refine ⟨⟨fun d _ hd e he => ?_, fun i _ hi hne => ?_, fun i _ hi => ?_, fun d _ hd => ?_⟩,
    ?_, ?_⟩
  · rw [hentries d hd] at he
    exact absurd he List.not_mem_nil
  · rw [hfree i hne] at hi
    exact absurd hi (by decide)
  · by_cases hne : i = 0
    · rw [hne]
      exact Relation.ReflTransGen.refl
    · rw [hfree i hne] at hi
      exact absurd hi (by decide)
  · rw [hentries d hd]
    exact List.nodup_nil
  · rw [hroot]
    rfl
  · refine Finset.sum_eq_zero fun d _ => ?_
    rw [namingsIn]
    split
    · rename_i hd
      rw [hentries d hd]
      rfl
    · rfl

/-- What the tree depends on. -/
theorem Rooted.congr (h : fs.Rooted)
    (hentries : ∀ d, (fs'.inodes d).entries = (fs.inodes d).entries)
    (hused : ∀ d, (fs'.inodes d).inUse = (fs.inodes d).inUse)
    (hftype : ∀ d, (fs'.inodes d).ftype = (fs.inodes d).ftype) : fs'.Rooted := by
  have hdir : ∀ d, (fs'.inodes d).isDir = (fs.inodes d).isDir := fun d => by
    rw [Inode.isDir, Inode.isDir, hused, hftype]
  have hnamings : ∀ i, fs'.namings i = fs.namings i := fun i =>
    Finset.sum_congr rfl fun d _ => by rw [namingsIn, namingsIn, hdir, hentries]
  have hedge : fs'.Edge = fs.Edge := by
    funext d i
    rw [Edge, Edge, hdir, hentries]
  refine ⟨⟨fun d hd hdd e he => ?_, fun i hi hu hne => ?_, fun i hi hu => ?_, fun d hd hdd => ?_⟩,
    ?_, ?_⟩
  · rw [hdir] at hdd
    rw [hentries] at he
    rw [hused]
    exact h.used d hd hdd e he
  · rw [hused] at hu
    rw [hnamings]
    exact h.namedOnce i hi hu hne
  · rw [hused] at hu
    rw [Reaches, hedge]
    exact h.reached i hi hu
  · rw [hdir] at hdd
    rw [hentries]
    exact h.distinct d hd hdd
  · rw [hdir]
    exact h.root
  · rw [hnamings]
    exact h.rootUnnamed

/-- Following a new set of edges that has the old ones. -/
theorem Reaches.mono (h : fs.Reaches i) (hedge : ∀ d i, fs.Edge d i → fs'.Edge d i) :
    fs'.Reaches i :=
  Relation.ReflTransGen.mono hedge _ _ h

theorem isDir_of_unused (h : (fs.inodes d).inUse = false) : (fs.inodes d).isDir = false := by
  rw [Inode.isDir, h, Bool.false_and]

theorem inUse_of_isDir (h : (fs.inodes d).isDir = true) : (fs.inodes d).inUse = true := by
  rw [Inode.isDir, Bool.and_eq_true] at h
  exact h.1

theorem ne_of_isDir (hp : (fs.inodes p).isDir = true) (hid : (fs.inodes id).isDir = false) :
    p ≠ id := by
  rintro rfl
  rw [hp] at hid
  exact Bool.noConfusion hid

/-! ### An entry more -/

section withEntry

theorem withEntry_parent (hne : p ≠ id) : (fs.withEntry p name id ftype).inodes p =
    { fs.inodes p with entries := (fs.inodes p).entries ++ [⟨name, id⟩] } := by
  simp only [withEntry, pushEntry, Function.update_self, Function.update_of_ne hne]

theorem withEntry_fresh (hne : p ≠ id) :
    (fs.withEntry p name id ftype).inodes id = Inode.new ftype := by
  simp only [withEntry, pushEntry, Function.update_self, Function.update_of_ne hne.symm]

theorem withEntry_other (hdp : d ≠ p) (hdi : d ≠ id) :
    (fs.withEntry p name id ftype).inodes d = fs.inodes d := by
  simp only [withEntry, pushEntry, Function.update_of_ne hdp, Function.update_of_ne hdi]

variable (hne : p ≠ id)
include hne

theorem withEntry_isDir (hdi : d ≠ id) :
    ((fs.withEntry p name id ftype).inodes d).isDir = (fs.inodes d).isDir := by
  by_cases hdp : d = p
  · rw [hdp, withEntry_parent hne, Inode.isDir, Inode.isDir]
  · rw [withEntry_other hdp hdi]

theorem withEntry_inUse (hdi : d ≠ id) :
    ((fs.withEntry p name id ftype).inodes d).inUse = (fs.inodes d).inUse := by
  by_cases hdp : d = p
  · rw [hdp, withEntry_parent hne]
  · rw [withEntry_other hdp hdi]

/-- The entries are the old ones and the new one. -/
theorem mem_withEntry : e ∈ ((fs.withEntry p name id ftype).inodes d).entries ↔
    (d ≠ id ∧ e ∈ (fs.inodes d).entries) ∨ (d = p ∧ e = ⟨name, id⟩) := by
  by_cases hdi : d = id
  · rw [hdi, withEntry_fresh hne]
    simp [Inode.new, hne.symm]
  by_cases hdp : d = p
  · rw [hdp, withEntry_parent hne, List.mem_append, List.mem_singleton]
    simp [hne]
  · rw [withEntry_other hdp hdi]
    simp [hdi, hdp]

variable (hunused : (fs.inodes id).inUse = false)
include hunused

/-- Only the new inode is named once more. -/
theorem namings_withEntry (hp : p < maxInodes) (hpdir : (fs.inodes p).isDir = true) :
    (fs.withEntry p name id ftype).namings i = fs.namings i + if id = i then 1 else 0 := by
  refine namings_add hp fun d => ?_
  rw [namingsIn, namingsIn]
  by_cases hdi : d = id
  · rw [hdi, withEntry_fresh hne, isDir_of_unused hunused, if_neg hne.symm]
    exact ite_self _
  rw [withEntry_isDir hne hdi]
  by_cases hdp : d = p
  · rw [hdp, withEntry_parent hne, hpdir, if_pos rfl, if_pos rfl, if_pos rfl, List.countP_append,
      List.countP_singleton]
    congr 1
    exact if_congr beq_iff_eq rfl rfl
  · rw [withEntry_other hdp hdi, if_neg hdp]
    rfl

theorem edge_withEntry (h : fs.Edge d i) : (fs.withEntry p name id ftype).Edge d i := by
  obtain ⟨hd, hdd, e, he, hei⟩ := h
  have hdi : d ≠ id := ne_of_isDir hdd (isDir_of_unused hunused)
  exact ⟨hd, (withEntry_isDir hne hdi).trans hdd, e, (mem_withEntry hne).2 (Or.inl ⟨hdi, he⟩), hei⟩

end withEntry

/-- The new entry keeps the tree: its name is fresh, and its inode was not named before. -/
theorem Rooted.create (h : fs.Rooted) (hc : fs.CanCreate p name) (hfree : fs.findFree = some id)
    (hfresh : ∀ e ∈ (fs.inodes p).entries, e.name ≠ name) :
    (fs.withEntry p name id ftype).Rooted := by
  obtain ⟨_, hp, hpdir, _, _⟩ := hc
  obtain ⟨hpos, hid, hunused⟩ := findFree_spec hfree
  have hne : p ≠ id := ne_of_isDir hpdir (isDir_of_unused hunused)
  have hreach : ∀ {i}, fs.Reaches i → (fs.withEntry p name id ftype).Reaches i :=
    fun h => h.mono fun _ _ => edge_withEntry hne hunused
  refine ⟨⟨fun d hd hdd e he => ?_, fun i hi hu hi0 => ?_, fun i hi hu => ?_, fun d hd hdd => ?_⟩,
    ?_, ?_⟩
  · rcases (mem_withEntry hne).1 he with ⟨hdi, hold⟩ | ⟨_, rfl⟩
    · rw [withEntry_isDir hne hdi] at hdd
      have hprev := h.used d hd hdd e hold
      refine ⟨hprev.1, ?_⟩
      -- an entry that was there before does not name the inode that was free
      have hei : e.inodeId ≠ id := fun heq => by
        rw [heq, hunused] at hprev
        exact Bool.noConfusion hprev.2
      rw [withEntry_inUse hne hei]
      exact hprev.2
    · refine ⟨hid, ?_⟩
      rw [withEntry_fresh hne]
      rfl
  · rw [namings_withEntry hne hunused hp hpdir]
    by_cases hi' : id = i
    · rw [if_pos hi', ← hi', h.toIsTree.namings_eq_zero hunused]
    · rw [withEntry_inUse hne (Ne.symm hi')] at hu
      rw [if_neg hi', h.namedOnce i hi hu hi0]
  · by_cases hi' : i = id
    · refine Relation.ReflTransGen.tail (hreach (h.reached p hp (inUse_of_isDir hpdir))) ?_
      exact ⟨hp, (withEntry_isDir hne hne).trans hpdir, ⟨name, id⟩,
        (mem_withEntry hne).2 (Or.inr ⟨rfl, rfl⟩), hi'.symm⟩
    · rw [withEntry_inUse hne hi'] at hu
      exact hreach (h.reached i hi hu)
  · by_cases hdi : d = id
    · rw [hdi, withEntry_fresh hne]
      exact List.nodup_nil
    rw [withEntry_isDir hne hdi] at hdd
    by_cases hdp : d = p
    · rw [hdp, withEntry_parent hne, List.map_append]
      refine List.Nodup.append (h.distinct p hp hpdir) (List.nodup_singleton _) ?_
      rw [List.map_singleton, List.disjoint_singleton]
      intro hmap
      obtain ⟨e, he, heq⟩ := List.mem_map.1 hmap
      exact hfresh e he heq
    · rw [withEntry_other hdp hdi]
      exact h.distinct d hd hdd
  · rw [withEntry_isDir hne hpos.ne]
    exact h.root
  · rw [namings_withEntry hne hunused hp hpdir, h.rootUnnamed, if_neg hpos.ne']

/-! ### An entry less -/

/-- The filesystem after the entry at a position has been removed and its inode freed. -/
def withoutEntry (fs : RamFs) (p pos t : ℕ) : RamFs := (fs.removeEntry p pos).freeInode t

section withoutEntry

variable {t : ℕ}

theorem withoutEntry_freed : ((fs.withoutEntry p pos t).inodes t).inUse = false := by
  simp only [withoutEntry, freeInode, Function.update_self]

theorem withoutEntry_parent (hne : p ≠ t) : (fs.withoutEntry p pos t).inodes p =
    { fs.inodes p with entries := (fs.inodes p).entries.eraseIdx pos } := by
  simp only [withoutEntry, freeInode, removeEntry, Function.update_self, Function.update_of_ne hne]

theorem withoutEntry_other (hdp : d ≠ p) (hdt : d ≠ t) :
    (fs.withoutEntry p pos t).inodes d = fs.inodes d := by
  simp only [withoutEntry, freeInode, removeEntry, Function.update_of_ne hdp,
    Function.update_of_ne hdt]

/-- An inode in use afterwards is not the one that was freed. -/
theorem ne_of_inUse_withoutEntry (h : ((fs.withoutEntry p pos t).inodes d).inUse = true) :
    d ≠ t := by
  rintro rfl
  rw [withoutEntry_freed] at h
  exact Bool.noConfusion h

variable (hne : p ≠ t)
include hne

theorem withoutEntry_isDir (hdt : d ≠ t) :
    ((fs.withoutEntry p pos t).inodes d).isDir = (fs.inodes d).isDir := by
  by_cases hdp : d = p
  · rw [hdp, withoutEntry_parent hne, Inode.isDir, Inode.isDir]
  · rw [withoutEntry_other hdp hdt]

theorem withoutEntry_inUse (hdt : d ≠ t) :
    ((fs.withoutEntry p pos t).inodes d).inUse = (fs.inodes d).inUse := by
  by_cases hdp : d = p
  · rw [hdp, withoutEntry_parent hne]
  · rw [withoutEntry_other hdp hdt]

/-- The entries of a directory are a part of its old ones, in their order. -/
theorem withoutEntry_sublist (hdt : d ≠ t) :
    ((fs.withoutEntry p pos t).inodes d).entries.Sublist (fs.inodes d).entries := by
  by_cases hdp : d = p
  · rw [hdp, withoutEntry_parent hne]
    exact List.eraseIdx_sublist ..
  · rw [withoutEntry_other hdp hdt]

variable (he : (fs.inodes p).entries[pos]? = some e) (het : e.inodeId = t)
include he

/-- The directory had the removed entry and the ones that it has now. -/
theorem withoutEntry_perm : (fs.inodes p).entries.Perm
    (e :: ((fs.withoutEntry p pos t).inodes p).entries) := by
  obtain ⟨hlt, hget⟩ := List.getElem?_eq_some_iff.1 he
  rw [withoutEntry_parent hne, ← hget]
  exact (List.getElem_cons_eraseIdx_perm hlt).symm

include het

/-- Only the freed inode is named once less. -/
theorem namings_withoutEntry (hp : p < maxInodes) (hpdir : (fs.inodes p).isDir = true)
    (hempty : (fs.inodes t).entries = []) :
    fs.namings i = (fs.withoutEntry p pos t).namings i + if t = i then 1 else 0 := by
  refine namings_add hp fun d => ?_
  rw [namingsIn, namingsIn]
  by_cases hdt : d = t
  · rw [hdt, hempty, isDir_of_unused withoutEntry_freed, if_neg hne.symm]
    exact ite_self _
  rw [withoutEntry_isDir hne hdt]
  by_cases hdp : d = p
  · rw [hdp, hpdir, if_pos rfl, if_pos rfl, if_pos rfl,
      (withoutEntry_perm hne he).countP_eq, List.countP_cons, het]
    congr 1
    exact if_congr beq_iff_eq rfl rfl
  · rw [withoutEntry_other hdp hdt, if_neg hdp]
    rfl

theorem edge_withoutEntry (h : fs.Edge d i) (hdt : d ≠ t) (hit : i ≠ t) :
    (fs.withoutEntry p pos t).Edge d i := by
  obtain ⟨hd, hdd, e', he', hei⟩ := h
  refine ⟨hd, (withoutEntry_isDir hne hdt).trans hdd, e', ?_, hei⟩
  by_cases hdp : d = p
  · rw [hdp] at he' ⊢
    rcases List.mem_cons.1 ((withoutEntry_perm hne he).mem_iff.1 he') with rfl | hrest
    · exact absurd (hei.symm.trans het) hit
    · exact hrest
  · rw [withoutEntry_other hdp hdt]
    exact he'

/-- What is reached without passing the freed inode is still reached. -/
theorem reaches_withoutEntry (hempty : (fs.inodes t).entries = []) (h : fs.Reaches i)
    (hit : i ≠ t) : (fs.withoutEntry p pos t).Reaches i := by
  induction h with
  | refl => exact Relation.ReflTransGen.refl
  | @tail b c _ hedge ih =>
      have hbt : b ≠ t := by
        rintro rfl
        obtain ⟨_, _, e', he', _⟩ := hedge
        rw [hempty] at he'
        exact absurd he' List.not_mem_nil
      exact (ih hbt).tail (edge_withoutEntry hne he het hedge hbt hit)

end withoutEntry

/-- Removing the entry of an inode that has no entries keeps the tree: nothing else is named or
reached by way of it. -/
theorem Rooted.unlink (h : fs.Rooted) (hp : p < maxInodes) (hpdir : (fs.inodes p).isDir = true)
    (he : (fs.inodes p).entries[pos]? = some e)
    (hempty : (fs.inodes e.inodeId).entries = []) :
    (fs.withoutEntry p pos e.inodeId).Rooted := by
  have hmem : e ∈ (fs.inodes p).entries := List.mem_of_getElem? he
  obtain ⟨ht, htused⟩ := h.used p hp hpdir e hmem
  have hne : p ≠ e.inodeId := fun heq => by
    rw [← heq] at hempty
    rw [hempty] at hmem
    exact absurd hmem List.not_mem_nil
  have ht0 : e.inodeId ≠ 0 := fun heq => by
    have hpos := namings_pos hp hpdir hmem
    rw [heq, h.rootUnnamed] at hpos
    exact absurd hpos (lt_irrefl 0)
  have hcount := fun i => namings_withoutEntry (i := i) hne he rfl hp hpdir hempty
  have hnone : (fs.withoutEntry p pos e.inodeId).namings e.inodeId = 0 := by
    have hone := hcount e.inodeId
    rw [h.namedOnce _ ht htused ht0, if_pos rfl] at hone
    omega
  refine ⟨⟨fun d hd hdd e' he' => ?_, fun i hi hu hi0 => ?_, fun i hi hu => ?_, fun d hd hdd => ?_⟩,
    ?_, ?_⟩
  · have hdt := ne_of_inUse_withoutEntry (inUse_of_isDir hdd)
    have hnamed := namings_pos hd hdd he'
    rw [withoutEntry_isDir hne hdt] at hdd
    have hprev := h.used d hd hdd e' ((withoutEntry_sublist hne hdt).subset he')
    refine ⟨hprev.1, ?_⟩
    have het : e'.inodeId ≠ e.inodeId := fun heq => by
      rw [heq, hnone] at hnamed
      exact absurd hnamed (lt_irrefl 0)
    rw [withoutEntry_inUse hne het]
    exact hprev.2
  · have hit := ne_of_inUse_withoutEntry hu
    rw [withoutEntry_inUse hne hit] at hu
    have hsame := hcount i
    rw [if_neg hit.symm, add_zero, h.namedOnce i hi hu hi0] at hsame
    exact hsame.symm
  · have hit := ne_of_inUse_withoutEntry hu
    rw [withoutEntry_inUse hne hit] at hu
    exact reaches_withoutEntry hne he rfl hempty (h.reached i hi hu) hit
  · have hdt := ne_of_inUse_withoutEntry (inUse_of_isDir hdd)
    rw [withoutEntry_isDir hne hdt] at hdd
    exact (h.distinct d hd hdd).sublist ((withoutEntry_sublist hne hdt).map _)
  · rw [withoutEntry_isDir hne ht0.symm]
    exact h.root
  · have hzero := hcount 0
    rw [h.rootUnnamed, if_neg ht0, add_zero] at hzero
    exact hzero.symm

/-- One call that keeps the tree. -/
theorem Rooted.next {c : FsCall} (h : fs.Rooted) (hk : KeepsTree fs c)
    (hc : fs.next c = some fs') : fs'.Rooted := by
  rcases next_cases hc with rfl | ⟨p, name, ftype, id, hcall, hcan, hfree, rfl⟩ |
    ⟨i, offset, data, r, rfl, hwrite⟩ | ⟨p, name, pos, e, rfl, hp, hpdir, he, hname, rfl⟩
  · exact h
  · have hfresh : fs.FreshName p name := by
      rcases hcall with rfl | rfl
      · exact hk
      · exact hk
    exact h.create hcan hfree (hfresh hcan)
  · have hsame := write_cases hwrite
    exact h.congr (fun d => (hsame d).1) (fun d => (hsame d).2.1) fun d => (hsame d).2.2
  · exact h.unlink hp hpdir he (hk e (List.mem_of_getElem? he) hname)

end RamFs

/-- In every run that creates no name twice and unlinks nothing that has entries, the filesystem is
a tree. -/
theorem ramFs_tree {fs : RamFs} (h : ramFsSystem.Reach KeepsTree fs) : fs.IsTree := by
  have hrooted : fs.Rooted := h.invariant
    (fun _ hi => by
      cases hi
      exact RamFs.rooted_new)
    fun _ _ _ hr hk hstep => hr.next hk hstep
  exact hrooted.toIsTree

/-- A directory with a file in it, and the file removed again. -/
theorem ramFs_tree_one : ∃ fs, ramFsSystem.Reach KeepsTree fs ∧ (fs.inodes 1).inUse = true ∧
    fs.IsTree := by
  obtain ⟨fs, hfs, hused⟩ : ∃ fs, Runs.replay RamFs.next (fun fs c => decide (KeepsTree fs c)) .new
      [.mkdir 0 "d", .create 1 "f" .regular, .write 2 0 [1#8], .unlink 1 "f"] = some fs ∧
      (fs.inodes 1).inUse = true :=
    (Option.any_eq_true (fun fs : RamFs => (fs.inodes 1).inUse) _).1 (by decide +kernel)
  have h := Runs.System.Reach.replay (M := ramFsSystem) (fun _ _ _ h => h) (.init rfl) hfs
  simp only [decide_eq_true_eq] at h
  exact ⟨fs, h, hused, ramFs_tree h⟩

/-- Unlinking a directory that holds a file: the file stays in use, and nothing names it.  Creating
a name twice: the root then has two entries of it. -/
theorem ramFs_orphan :
    (∃ fs, ramFsSystem.Reach Runs.anyStep fs ∧ (fs.inodes 2).inUse = true ∧ fs.namings 2 = 0 ∧
      ¬ fs.IsTree) ∧
    ∃ fs, ramFsSystem.Reach Runs.anyStep fs ∧
      (fs.inodes 0).entries.map DirEntry.name = ["f", "f"] ∧ ¬ fs.IsTree := by
  constructor
  · obtain ⟨fs, hfs, hused, hnone⟩ : ∃ fs, Runs.replay RamFs.next (fun _ _ => true) .new
        [.mkdir 0 "d", .create 1 "f" .regular, .unlink 0 "d"] = some fs ∧
        (fs.inodes 2).inUse = true ∧ fs.namings 2 = 0 :=
      ⟨_, rfl, by decide +kernel, by decide +kernel⟩
    have h := Runs.System.Reach.replay (M := ramFsSystem) (fun _ _ _ h => h) (.init rfl) hfs
    refine ⟨fs, h.free, hused, hnone, fun htree => ?_⟩
    have hone := htree.namedOnce 2 (by decide) hused (by decide)
    rw [hnone] at hone
    exact absurd hone (by decide)
  · obtain ⟨fs, hfs, hroot, hnames⟩ : ∃ fs, Runs.replay RamFs.next (fun _ _ => true) .new
        [.create 0 "f" .regular, .create 0 "f" .regular] = some fs ∧
        (fs.inodes 0).isDir = true ∧ (fs.inodes 0).entries.map DirEntry.name = ["f", "f"] :=
      ⟨_, rfl, by decide +kernel, by decide +kernel⟩
    have h := Runs.System.Reach.replay (M := ramFsSystem) (fun _ _ _ h => h) (.init rfl) hfs
    refine ⟨fs, h.free, hnames, fun htree => ?_⟩
    have hdistinct := htree.distinct 0 (by decide) hroot
    rw [hnames] at hdistinct
    exact absurd hdistinct (by decide)

end StarOS
