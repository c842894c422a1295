/-
Reading and writing files of the RAM filesystem (`fs.rs`).

A regular file is a buffer of 4096 bytes together with a size, and what lies behind the size is
zero.  So the file is the byte array in front of the size: `read` gives a part of it, and `write`
replaces a part of it, fills a gap with zeros and cuts off what does not fit.  One case is missing:
when a write starts behind the buffer, the end of its range is cut off to a place in front of its
start, and the kernel panics.

* `StarOS.spliced` — a byte array after a write;
* `StarOS.RamFs.content` — what a file holds;
* `StarOS.RamFs.ReadsArray`, `StarOS.RamFs.WritesArray` — the laws of `read` and of `write`;
* `StarOS.RamFs.StartsInside` — the condition on a write;
* `StarOS.RamFs.Backed` — the buffer of a regular file;
* `StarOS.ramFs_io_iff` — in every reachable filesystem `read` obeys its law, and `write` exactly if
  it starts inside the buffer;
* `StarOS.RamFs.write_wrapping` — the sum of offset and length may wrap without making a difference.
-/

import StarOS.RamFs

set_option autoImplicit false

namespace StarOS

/-! ### The laws -/

/-- A byte array after the bytes `d` have been written at `off`; a gap in front of them is filled
with zeros. -/
def spliced (bytes : List (BitVec 8)) (off : ℕ) (d : List (BitVec 8)) : List (BitVec 8) :=
  bytes.take off ++ List.replicate (off - bytes.length) 0#8 ++ d ++ bytes.drop (off + d.length)

namespace RamFs

/-- The bytes of a file. -/
def content (fs : RamFs) (i : ℕ) : List (BitVec 8) :=
  (fs.inodes i).data.take (fs.inodes i).size

/-- An inode number that names a regular file. -/
def IsFile (fs : RamFs) (i : ℕ) : Prop :=
  i < maxInodes ∧ (fs.inodes i).inUse = true ∧ (fs.inodes i).ftype = .regular

instance (fs : RamFs) (i : ℕ) : Decidable (fs.IsFile i) := inferInstanceAs (Decidable (_ ∧ _))

/-- The law of `read`: it returns, and from a file it returns the bytes at the offset that there
are, and as many of them as fit into the buffer. -/
def ReadsArray (fs : RamFs) (i off len : ℕ) : Prop :=
  ∃ r, fs.read i off len = some r ∧
    ∀ bytes, r = .ok bytes ↔ fs.IsFile i ∧ bytes = ((fs.content i).drop off).take len

/-- The law of `write`: it returns, and writing to a file succeeds.  Then as much of the data is
stored as fits into 4096 bytes, nothing of it if the offset is not below, with zeros in a gap in
front of it; all other bytes, files and directories are as before; and reading at the offset gives
the bytes that were stored. -/
def WritesArray (fs : RamFs) (i off : ℕ) (d : List (BitVec 8)) : Prop :=
  ∃ r fs', fs.write i off d = some (r, fs') ∧
    (¬ fs.IsFile i → (∃ err, r = .error err) ∧ fs' = fs) ∧
    (fs.IsFile i → ∃ n, r = .ok n ∧ n = min d.length (bufSize - off) ∧
      fs'.content i = spliced (fs.content i) off (d.take n) ∧
      (fs'.content i).length ≤ bufSize ∧
      (∀ j, j ≠ i → fs'.inodes j = fs.inodes j) ∧
      (∀ j, (fs'.inodes j).entries = (fs.inodes j).entries ∧
        (fs'.inodes j).inUse = (fs.inodes j).inUse ∧
        (fs'.inodes j).ftype = (fs.inodes j).ftype) ∧
      fs'.read i off n = some (.ok (d.take n)))

/-- A write to a file does not start behind the buffer. -/
def StartsInside (fs : RamFs) (i off : ℕ) : Prop := fs.IsFile i → off ≤ bufSize

/-- The invariant: the buffer of a file is as long as it was made, the size is inside, and the bytes
behind the size are zero. -/
structure Backed (node : Inode) : Prop where
  length : node.data.length = bufSize
  size : node.size ≤ bufSize
  zero : node.data.drop node.size = List.replicate (bufSize - node.size) 0#8

variable {fs fs' : RamFs} {i off : ℕ}

/-! ### Byte arrays -/

theorem length_spliced {bytes d : List (BitVec 8)} :
    (spliced bytes off d).length = max bytes.length (off + d.length) := by
  simp only [spliced, List.length_append, List.length_take, List.length_replicate,
    List.length_drop]
  omega

/-- The bytes that were written are the ones at the offset. -/
theorem drop_spliced (bytes d : List (BitVec 8)) (off : ℕ) :
    ((spliced bytes off d).drop off).take d.length = d := by
  have hfront : (bytes.take off ++ List.replicate (off - bytes.length) 0#8).length = off := by
    rw [List.length_append, List.length_take, List.length_replicate]
    omega
  rw [spliced, List.append_assoc _ d]
  generalize bytes.take off ++ List.replicate (off - bytes.length) 0#8 = front at hfront ⊢
  rw [← hfront, List.drop_left, List.take_left]

/-- Writing into a buffer that has only zeros behind the array splices the array. -/
theorem write_zeros (bytes d : List (BitVec 8)) (off : ℕ) {k : ℕ}
    (h : off + d.length ≤ bytes.length + k) :
    (bytes ++ List.replicate k 0#8).take off ++ d ++
        (bytes ++ List.replicate k 0#8).drop (off + d.length) =
      spliced bytes off d ++
        List.replicate (bytes.length + k - max bytes.length (off + d.length)) 0#8 := by
  have hrest : k - (off + d.length - bytes.length) =
      bytes.length + k - max bytes.length (off + d.length) := by omega
  rw [spliced, List.take_append, List.drop_append, List.take_replicate, List.drop_replicate,
    Nat.min_eq_left (by omega), hrest, ← List.append_assoc]

/-! ### The invariant -/

/-- The buffer is the bytes of the file and then zeros. -/
theorem Backed.data_eq (h : Backed (fs.inodes i)) : (fs.inodes i).data =
    fs.content i ++ List.replicate (bufSize - (fs.inodes i).size) 0#8 := by
  rw [content, ← h.zero, List.take_append_drop]

theorem Backed.length_content (h : Backed (fs.inodes i)) :
    (fs.content i).length = (fs.inodes i).size := by
  rw [content, List.length_take, h.length]
  exact Nat.min_eq_left h.size

/-- All files are backed. -/
def AllBacked (fs : RamFs) : Prop := ∀ i, fs.IsFile i → Backed (fs.inodes i)

/-- What may happen to an inode without a write: its entries change, or it is made anew, or it is
free afterwards. -/
theorem AllBacked.of_inodes (h : fs.AllBacked)
    (hinodes : ∀ i, (∃ entries, fs'.inodes i = { fs.inodes i with entries := entries }) ∨
      (∃ ftype, fs'.inodes i = Inode.new ftype) ∨ (fs'.inodes i).inUse = false) :
    fs'.AllBacked := by
  rintro i ⟨hi, hused, hfile⟩
  rcases hinodes i with ⟨entries, heq⟩ | ⟨ftype, heq⟩ | hfree
  · rw [heq] at hused hfile ⊢
    obtain ⟨hlength, hsize, hzero⟩ := h i ⟨hi, hused, hfile⟩
    exact ⟨hlength, hsize, hzero⟩
  · rw [heq] at hfile ⊢
    obtain rfl : ftype = .regular := hfile
    exact ⟨List.length_replicate, Nat.zero_le _, rfl⟩
  · rw [hfree] at hused
    cases hused

theorem allBacked_new : new.AllBacked := by
  rintro i ⟨-, hused, hfile⟩
  by_cases hi : i = 0
  · subst hi
    cases hfile
  · simp only [new, Function.update_of_ne hi] at hused
    cases hused

theorem AllBacked.withEntry (h : fs.AllBacked) {p id : ℕ} (name : String) (ftype : FileType)
    (hne : p ≠ id) : (fs.withEntry p name id ftype).AllBacked := by
  refine h.of_inodes fun i => ?_
  by_cases hid : i = id
  · subst hid
    exact Or.inr (Or.inl ⟨ftype, withEntry_fresh hne⟩)
  by_cases hip : i = p
  · subst hip
    exact Or.inl ⟨_, withEntry_parent hne⟩
  · exact Or.inl ⟨_, withEntry_other hip hid⟩

theorem AllBacked.withoutEntry (h : fs.AllBacked) (p pos t : ℕ) :
    (fs.withoutEntry p pos t).AllBacked := by
  refine h.of_inodes fun i => ?_
  by_cases hit : i = t
  · subst hit
    exact Or.inr (Or.inr withoutEntry_freed)
  by_cases hip : i = p
  · subst hip
    exact Or.inl ⟨_, withoutEntry_parent hit⟩
  · exact Or.inl ⟨_, withoutEntry_other hip hit⟩

/-! ### Writing and reading -/

/-- The inode after a write. -/
def written (node : Inode) (off : ℕ) (d : List (BitVec 8)) : Inode :=
  { node with
    data := node.data.take off ++ d ++ node.data.drop (off + d.length)
    size := max node.size (off + d.length) }

/-- What `write` does: nothing without a file, a panic behind the buffer, and otherwise as much is
stored as there is room for. -/
theorem write_spec (h : fs.AllBacked) (i off : ℕ) (d : List (BitVec 8)) :
    (¬ fs.IsFile i ∧ ∃ err, fs.write i off d = some (.error err, fs)) ∨
    (fs.IsFile i ∧ bufSize < off ∧ fs.write i off d = none) ∨
    (fs.IsFile i ∧ off ≤ bufSize ∧ fs.write i off d =
      some (.ok (min d.length (bufSize - off)), ⟨Function.update fs.inodes i
        (written (fs.inodes i) off (d.take (min d.length (bufSize - off))))⟩)) := by
  rw [write]
  by_cases hvalid : maxInodes ≤ i ∨ (fs.inodes i).inUse = false
  · refine Or.inl ⟨fun hfile => ?_, _, if_pos hvalid⟩
    rcases hvalid with hi | hfree
    · exact absurd hfile.1 (not_lt.2 hi)
    · rw [hfile.2.1] at hfree
      cases hfree
  rw [if_neg hvalid]
  by_cases hregular : (fs.inodes i).ftype ≠ .regular
  · exact Or.inl ⟨fun hfile => hregular hfile.2.2, _, if_pos hregular⟩
  rw [if_neg hregular]
  rw [not_or, Bool.not_eq_false] at hvalid
  have hfile : fs.IsFile i := ⟨not_le.1 hvalid.1, hvalid.2, not_not.1 hregular⟩
  have hlength := (h i hfile).length
  dsimp only
  rw [hlength]
  by_cases hoff : bufSize < off
  · exact Or.inr (Or.inl ⟨hfile, hoff, if_pos (Or.inl (by omega))⟩)
  · refine Or.inr (Or.inr ⟨hfile, not_lt.1 hoff, ?_⟩)
    have hcount : min (off + d.length) bufSize - off = min d.length (bufSize - off) := by omega
    have hend : min (off + d.length) bufSize =
        off + (d.take (min d.length (bufSize - off))).length := by
      rw [List.length_take]
      omega
    rw [if_neg (by omega), hcount]
    nth_rewrite 1 [hend]
    nth_rewrite 1 [hend]
    rfl

/-- The file after a write that fits. -/
theorem Backed.write (h : Backed (fs.inodes i)) (fs' : RamFs) {d : List (BitVec 8)}
    (hroom : off + d.length ≤ bufSize) (hi : fs'.inodes i = written (fs.inodes i) off d) :
    fs'.content i = spliced (fs.content i) off d ∧ Backed (fs'.inodes i) := by
  have hsize : (fs'.inodes i).size = (spliced (fs.content i) off d).length := by
    rw [hi, length_spliced, h.length_content]
    rfl
  have hle : (spliced (fs.content i) off d).length ≤ bufSize := by
    have hold := h.size
    rw [length_spliced, h.length_content]
    omega
  have hdata : (fs'.inodes i).data = spliced (fs.content i) off d ++
      List.replicate (bufSize - (spliced (fs.content i) off d).length) 0#8 := by
    have hold := h.size
    have hzeros := write_zeros (fs.content i) d off (k := bufSize - (fs.inodes i).size)
      (by rw [h.length_content]; omega)
    rw [← h.data_eq, h.length_content, Nat.add_sub_cancel' hold] at hzeros
    rw [length_spliced, h.length_content, hi]
    exact hzeros
  refine ⟨?_, ?_, ?_, ?_⟩
  · rw [content, hdata, hsize, List.take_left]
  · rw [hdata, List.length_append, List.length_replicate]
    omega
  · rwa [hsize]
  · rw [hdata, hsize, List.drop_left]

/-- What `read` does. -/
theorem AllBacked.readsArray (h : fs.AllBacked) (i off len : ℕ) : fs.ReadsArray i off len := by
  rw [ReadsArray, read]
  by_cases hvalid : maxInodes ≤ i ∨ (fs.inodes i).inUse = false
  · refine ⟨_, if_pos hvalid, fun bytes => ⟨nofun, fun ⟨hfile, _⟩ => ?_⟩⟩
    rcases hvalid with hi | hfree
    · exact absurd hfile.1 (not_lt.2 hi)
    · rw [hfile.2.1] at hfree
      cases hfree
  rw [if_neg hvalid]
  by_cases hregular : (fs.inodes i).ftype ≠ .regular
  · exact ⟨_, if_pos hregular, fun bytes => ⟨nofun, fun ⟨hfile, _⟩ => absurd hfile.2.2 hregular⟩⟩
  rw [if_neg hregular]
  rw [not_or, Bool.not_eq_false] at hvalid
  have hfile : fs.IsFile i := ⟨not_le.1 hvalid.1, hvalid.2, not_not.1 hregular⟩
  have hbacked := h i hfile
  by_cases hend : (fs.inodes i).size ≤ off
  · have hnone : (fs.content i).drop off = [] :=
      List.drop_eq_nil_of_le (by rw [hbacked.length_content]; exact hend)
    refine ⟨_, if_pos hend, fun bytes => ?_⟩
    rw [hnone, List.take_nil, and_iff_right hfile, Except.ok.injEq, eq_comm]
  rw [if_neg hend]
  dsimp only
  have hold := hbacked.size
  rw [if_neg (by rw [hbacked.length]; omega)]
  refine ⟨_, rfl, fun bytes => ?_⟩
  rw [and_iff_right hfile, Except.ok.injEq, eq_comm, content, List.drop_take, List.take_take]

/-- What was read from a file. -/
theorem ReadsArray.read_eq {len : ℕ} (h : fs.ReadsArray i off len) (hfile : fs.IsFile i) :
    fs.read i off len = some (.ok (((fs.content i).drop off).take len)) := by
  obtain ⟨r, hread, hbytes⟩ := h
  rw [hread, (hbytes _).2 ⟨hfile, rfl⟩]

/-- A write to one file keeps the files backed. -/
theorem AllBacked.write (h : fs.AllBacked) (i off : ℕ) (d : List (BitVec 8))
    (hroom : off + d.length ≤ bufSize) (hfile : fs.IsFile i) :
    AllBacked ⟨Function.update fs.inodes i (written (fs.inodes i) off d)⟩ := by
  rintro j ⟨hj, hused, hregular⟩
  dsimp only at hused hregular
  by_cases hji : j = i
  · subst hji
    exact ((h j hfile).write _ hroom (Function.update_self ..)).2
  · dsimp only
    rw [Function.update_of_ne hji] at hused hregular ⊢
    exact h j ⟨hj, hused, hregular⟩

/-- One call keeps the files backed. -/
theorem AllBacked.next {c : FsCall} (h : fs.AllBacked) (hc : fs.next c = some fs') :
    fs'.AllBacked := by
  rcases next_cases hc with rfl | ⟨p, name, ftype, id, _, hcan, hfree, rfl⟩ |
    ⟨i, offset, data, r, _, hwrite⟩ | ⟨p, name, pos, e, _, _, _, _, _, rfl⟩
  · exact h
  · obtain ⟨_, _, hunused⟩ := findFree_spec hfree
    exact h.withEntry _ _ (ne_of_isDir hcan.2.2.1 (isDir_of_unused hunused))
  · rcases write_spec h i offset data with ⟨_, err, heq⟩ | ⟨_, _, heq⟩ | ⟨hfile, hoff, heq⟩
    · rw [heq] at hwrite
      cases hwrite
      exact h
    · rw [heq] at hwrite
      cases hwrite
    · rw [heq] at hwrite
      cases hwrite
      exact h.write _ _ _ (by rw [List.length_take]; omega) hfile
  · exact h.withoutEntry _ _ _

/-- `write` obeys its law exactly if it starts inside the buffer. -/
theorem AllBacked.writesArray_iff (h : fs.AllBacked) (i off : ℕ) (d : List (BitVec 8)) :
    fs.WritesArray i off d ↔ fs.StartsInside i off := by
  rcases write_spec h i off d with ⟨hno, err, heq⟩ | ⟨hfile, hoff, heq⟩ | ⟨hfile, hoff, heq⟩
  · refine iff_of_true ⟨_, _, heq, fun _ => ⟨⟨err, rfl⟩, rfl⟩, fun hfile => absurd hfile hno⟩ ?_
    exact fun hfile => absurd hfile hno
  · refine iff_of_false ?_ fun hin => absurd (hin hfile) (not_le.2 hoff)
    rintro ⟨r, fs', hsome, -⟩
    rw [heq] at hsome
    cases hsome
  · refine iff_of_true ⟨_, _, heq, fun hno => absurd hfile hno, fun _ => ⟨_, rfl, rfl, ?_⟩⟩
      fun _ => hoff
    have hcount : (d.take (min d.length (bufSize - off))).length =
        min d.length (bufSize - off) := by
      rw [List.length_take]
      omega
    have hroom : off + (d.take (min d.length (bufSize - off))).length ≤ bufSize := by
      rw [hcount]
      omega
    obtain ⟨hcontent, hbacked⟩ := (h i hfile).write
      ⟨Function.update fs.inodes i (written (fs.inodes i) off
        (d.take (min d.length (bufSize - off))))⟩ hroom (Function.update_self ..)
    have hsame := write_cases heq
    have hfile' : IsFile ⟨Function.update fs.inodes i (written (fs.inodes i) off
        (d.take (min d.length (bufSize - off))))⟩ i :=
      ⟨hfile.1, (hsame i).2.1.trans hfile.2.1, (hsame i).2.2.trans hfile.2.2⟩
    refine ⟨hcontent, ?_, fun j hj => Function.update_of_ne hj _ _, hsame, ?_⟩
    · rw [hbacked.length_content]
      exact hbacked.size
    · have hread := ((h.write i off _ hroom hfile).readsArray i off
        (d.take (min d.length (bufSize - off))).length).read_eq hfile'
      rw [hcontent, drop_spliced, hcount] at hread
      exact hread

/-! ### Machine arithmetic -/

/-- The end of the range of a write, with the sum that wraps around. -/
def writeEnd (offset len : Usize) : ℕ := min (offset + len).toNat bufSize

/-- No slice is longer than `isize::MAX`.  Then the end that is computed with a sum that wraps is in
front of the start exactly if the other one is, and otherwise it is the same. -/
theorem write_wrapping {offset len : Usize} (hlen : len.toNat < 2 ^ 63) :
    (writeEnd offset len < offset.toNat ↔
      min (offset.toNat + len.toNat) bufSize < offset.toNat) ∧
    (offset.toNat ≤ writeEnd offset len →
      writeEnd offset len = min (offset.toNat + len.toNat) bufSize) := by
  have hoffset := offset.isLt
  have hbuf : bufSize = 4096 := rfl
  rw [writeEnd, BitVec.toNat_add]
  omega

end RamFs

/-- In every reachable filesystem, for every inode number, offset and buffer: `read` obeys its law,
and `write` obeys it exactly if no write to a file starts behind its buffer. -/
theorem ramFs_io_iff {fs : RamFs} (h : ramFsSystem.Reach Runs.anyStep fs) (i off : ℕ) :
    (∀ len, fs.ReadsArray i off len) ∧
      ∀ d, fs.WritesArray i off d ↔ fs.StartsInside i off := by
  have hbacked : fs.AllBacked := h.invariant
    (fun _ hi => by
      cases hi
      exact RamFs.allBacked_new)
    fun _ _ _ hb _ hstep => hb.next hstep
  exact ⟨hbacked.readsArray i off, hbacked.writesArray_iff i off⟩

/-- A filesystem with one file. -/
def oneFile : RamFs := RamFs.new.withEntry 0 "f" 1 .regular

theorem oneFile_reach : ramFsSystem.Reach Runs.anyStep oneFile := by
  have hcreate : RamFs.new.next (.create 0 "f" .regular) = some oneFile := rfl
  exact Runs.System.Reach.step (.init rfl) trivial hcreate

theorem ramFs_io_one : oneFile.ReadsArray 1 0 16 ∧ oneFile.WritesArray 1 10 [1#8] := by
  obtain ⟨-, hwrites⟩ := ramFs_io_iff oneFile_reach 1 10
  refine ⟨(ramFs_io_iff oneFile_reach 1 0).1 16, (hwrites [1#8]).2 fun _ => ?_⟩
  exact show 10 ≤ 4096 by decide

/-- A write of one byte at offset 4097 panics. -/
theorem ramFs_write_behind : ramFsSystem.Reach Runs.anyStep oneFile ∧
    oneFile.write 1 4097 [1#8] = none ∧ ¬ oneFile.WritesArray 1 4097 [1#8] := by
  have hnone : oneFile.write 1 4097 [1#8] = none := rfl
  refine ⟨oneFile_reach, hnone, ?_⟩
  rintro ⟨r, fs', hsome, -⟩
  rw [hnone] at hsome
  cases hsome

end StarOS
