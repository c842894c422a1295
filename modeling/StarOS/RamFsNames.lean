/-
What the names of the RAM filesystem mean (`fs.rs`): `lookup` after `create` and after `unlink`.

`lookup` and `unlink` take the first entry of a name, and `create` appends without looking for one.
So after a name has been created twice in a directory, `lookup` gives the older inode, and `unlink`
uncovers the newer one.  As long as no name is created that its directory has, what was created is
what is looked up, what was unlinked is not found, and nothing else changes below the other
directories.

Unlinking a directory that has entries does no harm here: its entries go with it, and no other
directory has one that names the inode that became free.

* `StarOS.RamFs.goOn` — a run of calls, which a panic ends;
* `StarOS.RamFs.Creates`, `StarOS.RamFs.Unlinks`, `StarOS.RamFs.Lawful` — the laws of a call;
* `StarOS.MakesFresh` — the condition on the state before a call;
* `StarOS.RamFs.Unique` — no directory has two entries of one name or of one inode, and no two
  directories have entries of one inode;
* `StarOS.ramFs_lawful_iff` — the laws hold along a run exactly if the condition does;
* `StarOS.ramFs_create_twice` — the same name twice.
-/

import StarOS.RamFs

set_option autoImplicit false

namespace StarOS

/-! ### The laws -/

namespace RamFs

/-- The filesystem after a further call: none once a call has panicked. -/
def goOn (s : Option RamFs) (c : FsCall) : Option RamFs := s.bind fun fs => fs.next c

/-- The law of a `create` that returns an inode: the name is looked up as the inode, and the inode
can be opened and is of the kind that was asked for. -/
def Creates (fs : RamFs) (parent : ℕ) (name : String) (ftype : FileType) : Prop :=
  ∀ id fs', fs.create parent name ftype = some (.ok id, fs') →
    fs'.lookup parent name = .ok id ∧ fs'.open_ id = .ok ftype

/-- The law of an `unlink` that succeeds: the name is not found any more, and every other lookup in
a directory that is not the unlinked inode or below it gives what it gave before. -/
def Unlinks (fs : RamFs) (parent : ℕ) (name : String) : Prop :=
  ∀ fs', fs.unlink parent name = some (.ok (), fs') →
    fs'.lookup parent name = .error .notFound ∧
      ∀ id, fs.lookup parent name = .ok id → ∀ d n, (d, n) ≠ (parent, name) →
        ¬ Relation.ReflTransGen fs.Edge id d → fs'.lookup d n = fs.lookup d n

/-- The law of a call. -/
def Lawful (fs : RamFs) : FsCall → Prop
  | .create parent name ftype => fs.Creates parent name ftype
  | .mkdir parent name => fs.Creates parent name .directory
  | .write _ _ _ => True
  | .unlink parent name => fs.Unlinks parent name

end RamFs

/-- The calls that create no name that its directory has. -/
def MakesFresh (fs : RamFs) : FsCall → Prop
  | .create parent name _ => fs.FreshName parent name
  | .mkdir parent name => fs.FreshName parent name
  | .write _ _ _ => True
  | .unlink _ _ => True

namespace RamFs

variable {fs fs' : RamFs} {d i p id pos : ℕ} {e : DirEntry} {n name : String} {ftype : FileType}

/-! ### The invariant -/

/-- Two entries that have neither the name nor the inode in common. -/
def Apart (a b : DirEntry) : Prop := a.name ≠ b.name ∧ a.inodeId ≠ b.inodeId

theorem Apart.symm {a b : DirEntry} (h : Apart a b) : Apart b a := ⟨h.1.symm, h.2.symm⟩

/-- The invariant: only directories in use have entries, these name inodes in use and never their
own directory, and any two entries name different inodes and, in one directory, have different
names. -/
structure Unique (fs : RamFs) : Prop where
  ofDir : ∀ d e, e ∈ (fs.inodes d).entries → (fs.inodes d).isDir = true
  used : ∀ d e, e ∈ (fs.inodes d).entries →
    e.inodeId < maxInodes ∧ (fs.inodes e.inodeId).inUse = true ∧ e.inodeId ≠ d
  apart : ∀ d, (fs.inodes d).entries.Pairwise Apart
  across : ∀ d d' e e', e ∈ (fs.inodes d).entries → e' ∈ (fs.inodes d').entries →
    e.inodeId = e'.inodeId → d = d'

theorem unique_new : new.Unique := by
  have hentries : ∀ d, (new.inodes d).entries = [] := fun d => by
    by_cases hd : d = 0
    · rw [hd]
      rfl
    · simp only [new, Function.update_of_ne hd]
  have hnone : ∀ {d e}, e ∉ (new.inodes d).entries := fun {d e} => by
    rw [hentries]
    exact List.not_mem_nil
  exact ⟨fun _ _ he => absurd he hnone, fun _ _ he => absurd he hnone,
    fun d => by rw [hentries]; exact List.Pairwise.nil, fun _ _ _ _ he => absurd he hnone⟩

/-- What the invariant depends on. -/
theorem Unique.congr (h : fs.Unique)
    (hentries : ∀ d, (fs'.inodes d).entries = (fs.inodes d).entries)
    (hused : ∀ d, (fs'.inodes d).inUse = (fs.inodes d).inUse)
    (hftype : ∀ d, (fs'.inodes d).ftype = (fs.inodes d).ftype) : fs'.Unique := by
  refine ⟨fun d e he => ?_, fun d e he => ?_, fun d => ?_, fun d d' e e' he he' => ?_⟩
  · rw [hentries] at he
    rw [Inode.isDir, hused, hftype]
    exact h.ofDir d e he
  · rw [hentries] at he
    rw [hused]
    exact h.used d e he
  · rw [hentries]
    exact h.apart d
  · rw [hentries] at he he'
    exact h.across d d' e e' he he'

/-- A new entry whose name is fresh and whose inode was free keeps the invariant. -/
theorem Unique.withEntry (h : fs.Unique) (hpdir : (fs.inodes p).isDir = true)
    (hid : id < maxInodes) (hunused : (fs.inodes id).inUse = false)
    (hfresh : ∀ e ∈ (fs.inodes p).entries, e.name ≠ name) :
    (fs.withEntry p name id ftype).Unique := by
  have hne : p ≠ id := ne_of_isDir hpdir (isDir_of_unused hunused)
  -- an entry that was there before does not name the inode that was free
  have hold : ∀ {d e}, e ∈ (fs.inodes d).entries → e.inodeId ≠ id := fun {d e} he heq => by
    have hused := (h.used d e he).2.1
    rw [heq, hunused] at hused
    exact Bool.noConfusion hused
  refine ⟨fun d e he => ?_, fun d e he => ?_, fun d => ?_, fun d d' e e' he he' heq => ?_⟩
  · rcases (mem_withEntry hne).1 he with ⟨hdi, he⟩ | ⟨rfl, _⟩
    · rw [withEntry_isDir hne hdi]
      exact h.ofDir d e he
    · rw [withEntry_isDir hne hne]
      exact hpdir
  · rcases (mem_withEntry hne).1 he with ⟨_, he⟩ | ⟨rfl, rfl⟩
    · rw [withEntry_inUse hne (hold he)]
      exact h.used d e he
    · refine ⟨hid, ?_, hne.symm⟩
      rw [withEntry_fresh hne]
      rfl
  · by_cases hdi : d = id
    · rw [hdi, withEntry_fresh hne]
      exact List.Pairwise.nil
    by_cases hdp : d = p
    · rw [hdp, withEntry_parent hne]
      refine List.pairwise_append.2 ⟨h.apart p, List.pairwise_singleton _ _, fun e he e' he' => ?_⟩
      rw [List.mem_singleton.1 he']
      exact ⟨hfresh e he, hold he⟩
    · rw [withEntry_other hdp hdi]
      exact h.apart d
  · rcases (mem_withEntry hne).1 he with ⟨_, he⟩ | ⟨hd, rfl⟩ <;>
      rcases (mem_withEntry hne).1 he' with ⟨_, he'⟩ | ⟨hd', rfl⟩
    · exact h.across d d' e e' he he' heq
    · exact absurd heq (hold he)
    · exact absurd heq.symm (hold he')
    · exact hd.trans hd'.symm

theorem withoutEntry_freed_entries {t : ℕ} :
    ((fs.withoutEntry p pos t).inodes t).entries = [] := by
  simp only [withoutEntry, freeInode, Function.update_self]

/-- The entries of an inode are a part of its old ones, and none when it is the freed one. -/
theorem mem_withoutEntry {t : ℕ} (hne : p ≠ t)
    (he : e ∈ ((fs.withoutEntry p pos t).inodes d).entries) :
    d ≠ t ∧ e ∈ (fs.inodes d).entries := by
  have hdt : d ≠ t := fun heq => by
    rw [heq, withoutEntry_freed_entries] at he
    exact absurd he List.not_mem_nil
  exact ⟨hdt, (withoutEntry_sublist hne hdt).subset he⟩

section unlink

variable (h : fs.Unique) (he : (fs.inodes p).entries[pos]? = some e)
include h he

theorem Unique.ne_parent : p ≠ e.inodeId :=
  (h.used p e (List.mem_of_getElem? he)).2.2.symm

/-- The entries that are left in the directory are apart from the removed one. -/
theorem Unique.apart_removed {e' : DirEntry}
    (he' : e' ∈ ((fs.withoutEntry p pos e.inodeId).inodes p).entries) : Apart e e' := by
  have hperm := (h.apart p).perm (withoutEntry_perm (h.ne_parent he) he) Apart.symm
  exact (List.pairwise_cons.1 hperm).1 e' he'

/-- No entry that is left names the freed inode. -/
theorem Unique.not_freed {e' : DirEntry}
    (he' : e' ∈ ((fs.withoutEntry p pos e.inodeId).inodes d).entries) :
    e'.inodeId ≠ e.inodeId := by
  intro heq
  have hd : d = p :=
    h.across d p e' e (mem_withoutEntry (h.ne_parent he) he').2 (List.mem_of_getElem? he) heq
  rw [hd] at he'
  exact (h.apart_removed he he').2 heq.symm

/-- Removing an entry and freeing its inode keeps the invariant, also if the inode is a directory
that has entries. -/
theorem Unique.withoutEntry : (fs.withoutEntry p pos e.inodeId).Unique := by
  have hne := h.ne_parent he
  refine ⟨fun d e' he' => ?_, fun d e' he' => ?_, fun d => ?_, fun d d' e₁ e₂ he₁ he₂ => ?_⟩
  · obtain ⟨hdt, hold⟩ := mem_withoutEntry hne he'
    rw [withoutEntry_isDir hne hdt]
    exact h.ofDir d e' hold
  · rw [withoutEntry_inUse hne (h.not_freed he he')]
    exact h.used d e' (mem_withoutEntry hne he').2
  · by_cases hdt : d = e.inodeId
    · rw [hdt, withoutEntry_freed_entries]
      exact List.Pairwise.nil
    · exact (h.apart d).sublist (withoutEntry_sublist hne hdt)
  · exact h.across d d' e₁ e₂ (mem_withoutEntry hne he₁).2 (mem_withoutEntry hne he₂).2

end unlink

/-- One call that creates no name twice. -/
theorem Unique.next {c : FsCall} (h : fs.Unique) (hfresh : MakesFresh fs c)
    (hc : fs.next c = some fs') : fs'.Unique := by
  rcases next_cases hc with rfl | ⟨p, name, ftype, id, hcall, hcan, hfree, rfl⟩ |
    ⟨i, offset, data, r, rfl, hwrite⟩ | ⟨p, name, pos, e, rfl, _, _, he, _, rfl⟩
  · exact h
  · have hname : fs.FreshName p name := by
      rcases hcall with rfl | rfl
      · exact hfresh
      · exact hfresh
    obtain ⟨_, hid, hunused⟩ := findFree_spec hfree
    exact h.withEntry hcan.2.2.1 hid hunused (hname hcan)
  · have hsame := write_cases hwrite
    exact h.congr (fun d => (hsame d).1) (fun d => (hsame d).2.1) fun d => (hsame d).2.2
  · exact h.withoutEntry he

/-! ### Lookups -/

/-- What a lookup in a directory in use gives. -/
theorem lookup_of_isDir (hd : d < maxInodes) (hdir : (fs.inodes d).isDir = true) :
    fs.lookup d n =
      match (fs.inodes d).entries.find? fun e => e.name == n with
      | some e => .ok e.inodeId
      | none => .error .notFound := by
  rw [Inode.isDir, Bool.and_eq_true, beq_iff_eq] at hdir
  have hused : ¬ (maxInodes ≤ d ∨ (fs.inodes d).inUse = false) := by
    rw [hdir.1, not_or]
    exact ⟨not_le.2 hd, Bool.noConfusion⟩
  rw [lookup]
  exact (if_neg hused).trans (if_neg (not_not.2 hdir.2))

/-- A lookup depends on the inode only. -/
theorem lookup_congr (h : fs'.inodes d = fs.inodes d) : fs'.lookup d n = fs.lookup d n := by
  rw [lookup, lookup, h]

/-- Removing an element that is not looked for. -/
theorem find?_eraseIdx {α : Type} {l : List α} {q : α → Bool} {k : ℕ} {a : α}
    (ha : l[k]? = some a) (hq : q a = false) : (l.eraseIdx k).find? q = l.find? q := by
  induction l generalizing k with
  | nil => rfl
  | cons b l ih =>
      cases k with
      | zero =>
          rw [List.getElem?_cons_zero, Option.some_inj] at ha
          rw [List.eraseIdx_cons_zero, List.find?_cons, ha, hq]
      | succ k =>
          rw [List.getElem?_cons_succ] at ha
          rw [List.eraseIdx_cons_succ, List.find?_cons, List.find?_cons, ih ha]

/-- A `create` that can make an entry makes it. -/
theorem create_of_can (hcan : fs.CanCreate p name) (hfree : fs.findFree = some id) :
    fs.create p name ftype = some (.ok id, fs.withEntry p name id ftype) := by
  obtain ⟨hname, hp, hpdir, hroom, _⟩ := hcan
  rw [Inode.isDir, Bool.and_eq_true, beq_iff_eq] at hpdir
  have hdir : ¬ ((fs.inodes p).inUse = false ∨ (fs.inodes p).ftype ≠ .directory) := by
    rw [hpdir.1, hpdir.2]
    simp
  rw [create, if_neg (not_lt.2 hname), if_neg (not_le.2 hp), if_neg hdir,
    if_neg (not_le.2 hroom), allocInode, hfree]
  rfl

/-- The new entry is looked up exactly if its name is fresh: an older entry of the name comes first,
and names another inode. -/
theorem Unique.lookup_withEntry (h : fs.Unique) (hp : p < maxInodes)
    (hpdir : (fs.inodes p).isDir = true) (hunused : (fs.inodes id).inUse = false) :
    (fs.withEntry p name id ftype).lookup p name = .ok id ↔
      ∀ e ∈ (fs.inodes p).entries, e.name ≠ name := by
  have hne : p ≠ id := ne_of_isDir hpdir (isDir_of_unused hunused)
  rw [lookup_of_isDir hp ((withEntry_isDir hne hne).trans hpdir), withEntry_parent hne]
  dsimp only
  rw [List.find?_append]
  cases hfind : (fs.inodes p).entries.find? fun e => e.name == name with
  | none =>
      rw [Option.none_or, List.find?_singleton, if_pos (beq_self_eq_true _)]
      rw [List.find?_eq_none] at hfind
      exact iff_of_true rfl fun e he heq => hfind e he (beq_iff_eq.2 heq)
  | some e =>
      rw [Option.some_or]
      have hmem := List.mem_of_find?_eq_some hfind
      have hname := List.find?_some hfind
      rw [beq_iff_eq] at hname
      refine iff_of_false (fun heq => ?_) fun hfresh => hfresh e hmem hname
      have hused := (h.used p e hmem).2.1
      rw [Except.ok.inj heq, hunused] at hused
      exact Bool.noConfusion hused

theorem open_withEntry (hne : p ≠ id) (hid : id < maxInodes) :
    (fs.withEntry p name id ftype).open_ id = .ok ftype := by
  rw [open_, withEntry_fresh hne, if_neg]
  · rfl
  · rw [not_or]
    exact ⟨not_le.2 hid, Bool.noConfusion⟩

/-- `create` obeys its law exactly if it makes no name twice. -/
theorem Unique.creates_iff (h : fs.Unique) : fs.Creates p name ftype ↔ fs.FreshName p name := by
  constructor
  · intro hlaw hcan
    obtain ⟨id, hfree⟩ := Option.isSome_iff_exists.1 hcan.2.2.2.2
    obtain ⟨_, _, hunused⟩ := findFree_spec hfree
    have hlook := (hlaw id _ (create_of_can hcan hfree)).1
    exact (h.lookup_withEntry hcan.2.1 hcan.2.2.1 hunused).1 hlook
  · intro hfresh id fs' hc
    rcases create_cases hc with ⟨err, herr, _⟩ | ⟨_, hok, hcan, hfree, rfl⟩
    · exact absurd herr (by simp)
    · cases hok
      obtain ⟨_, hid, hunused⟩ := findFree_spec hfree
      have hne : p ≠ id := ne_of_isDir hcan.2.2.1 (isDir_of_unused hunused)
      exact ⟨(h.lookup_withEntry hcan.2.1 hcan.2.2.1 hunused).2 (hfresh hcan),
        open_withEntry hne hid⟩

/-- `unlink` obeys its law. -/
theorem Unique.unlinks (h : fs.Unique) : fs.Unlinks p name := by
  intro fs' hc
  rcases unlink_cases hc with ⟨err, herr, _⟩ | ⟨pos, e, _, hp, hpdir, he, hname, hfind, rfl⟩
  · exact absurd herr (by simp)
  have hne := h.ne_parent he
  have hpdir' : ((fs.withoutEntry p pos e.inodeId).inodes p).isDir = true :=
    (withoutEntry_isDir hne hne).trans hpdir
  constructor
  · have hnone : (((fs.withoutEntry p pos e.inodeId).inodes p).entries.find?
        fun e => e.name == name) = none := by
      refine List.find?_eq_none.2 fun e' he' heq => ?_
      exact (h.apart_removed he he').1 (hname.trans (beq_iff_eq.1 heq).symm)
    exact (lookup_of_isDir hp hpdir').trans (by rw [hnone])
  · intro id hlook d n hdn hbelow
    rw [lookup_of_isDir hp hpdir, hfind] at hlook
    have hdt : d ≠ e.inodeId := by
      rintro rfl
      rw [Except.ok.inj hlook] at hbelow
      exact hbelow Relation.ReflTransGen.refl
    by_cases hdp : d = p
    · subst hdp
      have hn : (e.name == n) = false := by
        rw [beq_eq_false_iff_ne, hname]
        rintro rfl
        exact hdn rfl
      have hsame : (((fs.withoutEntry d pos e.inodeId).inodes d).entries.find?
          fun e => e.name == n) = (fs.inodes d).entries.find? fun e => e.name == n := by
        rw [withoutEntry_parent hne]
        exact find?_eraseIdx he hn
      exact (lookup_of_isDir hp hpdir').trans (by rw [hsame, lookup_of_isDir hp hpdir])
    · exact lookup_congr (withoutEntry_other hdp hdt)

/-- A call obeys its law exactly if it makes no name twice. -/
theorem Unique.lawful_iff (h : fs.Unique) (c : FsCall) : fs.Lawful c ↔ MakesFresh fs c := by
  cases c with
  | create parent name ftype => exact h.creates_iff
  | mkdir parent name => exact h.creates_iff
  | write inode offset data => exact Iff.rfl
  | unlink parent name => exact iff_of_true h.unlinks trivial

end RamFs

/-- In every run of calls from a new filesystem, `create` and `unlink` obey their laws exactly if
nothing is created under a name that its directory has. -/
theorem ramFs_lawful_iff (calls : List FsCall) :
    Runs.Along RamFs.goOn (fun s c => ∀ fs ∈ s, fs.Lawful c) (some .new) calls ↔
      Runs.Along RamFs.goOn (fun s c => ∀ fs ∈ s, MakesFresh fs c) (some .new) calls := by
  refine Runs.along_iff (I := fun s => ∀ fs ∈ s, fs.Unique) (A := fun _ _ => True)
    (fun s c hI _ => forall₂_congr fun fs hfs => (hI fs hfs).lawful_iff c) ?_ ?_
    (Runs.along_true _ _ _)
  · intro s c hI _ hfresh fs' hfs'
    obtain ⟨fs, hfs, hnext⟩ := Option.bind_eq_some_iff.1 hfs'
    exact (hI fs hfs).next (hfresh fs hfs) hnext
  · rintro fs hfs
    cases hfs
    exact RamFs.unique_new

/-- After a file has been created twice, the name is looked up as the first one, and after it has
been unlinked as the second. -/
theorem ramFs_create_twice : ∃ fs, ramFsSystem.Reach Runs.anyStep fs ∧
    (∃ fs', fs.create 0 "f" .regular = some (.ok 2, fs') ∧ fs'.lookup 0 "f" = .ok 1 ∧
      ramFsSystem.Reach Runs.anyStep fs' ∧
      ∃ fs'', fs'.unlink 0 "f" = some (.ok (), fs'') ∧ fs''.lookup 0 "f" = .ok 2) ∧
    ¬ fs.Lawful (.create 0 "f" .regular) := by
  have hone : RamFs.new.create 0 "f" .regular =
      some (.ok 1, RamFs.new.withEntry 0 "f" 1 .regular) :=
    RamFs.create_of_can (by decide) (by decide)
  generalize hfs : RamFs.new.withEntry 0 "f" 1 .regular = fs at hone
  have htwo : fs.create 0 "f" .regular = some (.ok 2, fs.withEntry 0 "f" 2 .regular) :=
    RamFs.create_of_can (by rw [← hfs]; decide) (by rw [← hfs]; decide)
  have hlook : (fs.withEntry 0 "f" 2 .regular).lookup 0 "f" = .ok 1 := by
    rw [← hfs]
    decide
  have hunlink : ∃ fs', (fs.withEntry 0 "f" 2 .regular).unlink 0 "f" = some (.ok (), fs') ∧
      fs'.lookup 0 "f" = .ok 2 := by
    rw [← hfs]
    exact ⟨_, rfl, by decide⟩
  have hreach : ∀ {fs fs' : RamFs} {r}, ramFsSystem.Reach Runs.anyStep fs →
      fs.create 0 "f" .regular = some (r, fs') → ramFsSystem.Reach Runs.anyStep fs' :=
    fun hr hc => hr.step (a := .create 0 "f" .regular) trivial
      (Option.map_eq_some_iff.2 ⟨_, hc, rfl⟩)
  have hr := hreach (.init rfl) hone
  refine ⟨fs, hr, ⟨_, htwo, hlook, hreach hr htwo, hunlink⟩, fun hlaw => ?_⟩
  have hcontra := hlook.symm.trans (hlaw 2 _ htwo).1
  exact absurd hcontra (by decide)

end StarOS
