/-
The ELF64 parser (`elf.rs`): the checks it makes on an image, and what they leave open.

An image that is accepted has its program header table inside the file, and its segments are the
`PT_LOAD` headers of the table: each ends below the limit of user space, has no more bytes in the
file than in memory, and overlaps no other.  The place of a segment's bytes in the file is passed on
as the header gives it and is not compared with the length of the file.

* `StarOS.Elf64Ehdr`, `StarOS.Elf64Phdr`, `StarOS.LoadSegment`, `StarOS.ElfInfo` — the data;
* `StarOS.parseElf64` — the parser;
* `StarOS.loadHeaders` — the `PT_LOAD` headers of an image;
* `StarOS.LoadSegment.Checked`, `StarOS.LoadSegment.Backed` — what the parser checks of a segment,
  and what it does not;
* `StarOS.parseElf64_segments` — what holds of an image that is accepted;
* `StarOS.parseElf64_unbacked` — an accepted image with a segment beyond its end.
-/

import StarOS.ByteMem

set_option autoImplicit false

namespace StarOS

/-! ### Data -/

/-- Why an image is refused. -/
inductive ElfError where
  | tooShort | badMagic | notElf64 | notLittleEndian | notAarch64 | invalidPhdr | segmentOutOfRange
  | overlappingSegments
  deriving DecidableEq, Repr

/-- A segment to load. -/
structure LoadSegment where
  vaddr : BitVec 64
  memsz : BitVec 64
  filesz : BitVec 64
  offset : BitVec 64
  flags : BitVec 32
  deriving DecidableEq, Repr

/-- What the parser returns. -/
structure ElfInfo where
  entryPoint : BitVec 64
  segments : List LoadSegment
  deriving DecidableEq, Repr

/-- The file header, as far as the parser uses it. -/
structure Elf64Ehdr where
  /-- The first six bytes of `e_ident`. -/
  ident : List (BitVec 8)
  machine : BitVec 16
  entry : BitVec 64
  phoff : BitVec 64
  phentsize : BitVec 16
  phnum : BitVec 16
  deriving DecidableEq, Repr

/-- A program header, as far as the parser uses it. -/
structure Elf64Phdr where
  ptype : BitVec 32
  flags : BitVec 32
  offset : BitVec 64
  vaddr : BitVec 64
  filesz : BitVec 64
  memsz : BitVec 64
  deriving DecidableEq, Repr

/-- `size_of::<Elf64Ehdr>()`. -/
def ehdrSize : ℕ := 64

/-- `size_of::<Elf64Phdr>()`. -/
def phdrSize : ℕ := 56

/-- `ELF_MAGIC`. -/
def elfMagic : List (BitVec 8) := [0x7f#8, 0x45#8, 0x4c#8, 0x46#8]

/-- `ELFCLASS64`. -/
def elfClass64 : BitVec 8 := 2#8

/-- `ELFDATA2LSB`. -/
def elfData2Lsb : BitVec 8 := 1#8

/-- `EM_AARCH64`. -/
def emAarch64 : BitVec 16 := 0xB7#16

/-- `PT_LOAD`. -/
def ptLoad : BitVec 32 := 1#32

/-- `USER_SPACE_LIMIT`. -/
def userSpaceLimit : ℕ := 0x0000800000000000

/-! ### The parser -/

/-- The little-endian field of `w` bytes at an offset of the file. -/
def leField (data : List (BitVec 8)) (off w : ℕ) : ℕ :=
  leRead (fun a => data.getD a.toNat 0#8) (BitVec.ofNat 64 off) w

/-- Reading the file header. -/
def readEhdr (data : List (BitVec 8)) : Elf64Ehdr where
  ident := data.take 6
  machine := BitVec.ofNat 16 (leField data 18 2)
  entry := BitVec.ofNat 64 (leField data 24 8)
  phoff := BitVec.ofNat 64 (leField data 32 8)
  phentsize := BitVec.ofNat 16 (leField data 54 2)
  phnum := BitVec.ofNat 16 (leField data 56 2)

/-- Reading the program header at an offset. -/
def readPhdr (data : List (BitVec 8)) (off : ℕ) : Elf64Phdr where
  ptype := BitVec.ofNat 32 (leField data off 4)
  flags := BitVec.ofNat 32 (leField data (off + 4) 4)
  offset := BitVec.ofNat 64 (leField data (off + 8) 8)
  vaddr := BitVec.ofNat 64 (leField data (off + 16) 8)
  filesz := BitVec.ofNat 64 (leField data (off + 32) 8)
  memsz := BitVec.ofNat 64 (leField data (off + 40) 8)

/-- The segment of a header. -/
def Elf64Phdr.segment (p : Elf64Phdr) : LoadSegment :=
  ⟨p.vaddr, p.memsz, p.filesz, p.offset, p.flags⟩

/-- `checked_add` and `checked_mul`: a result that fits in 64 bits. -/
def checked (n : ℕ) : Option ℕ := if n < 2 ^ 64 then some n else none

theorem eq_of_checked {n m : ℕ} (h : checked n = some m) : n = m := by
  rw [checked] at h
  split at h
  · exact Option.some.inj h
  · exact absurd h.symm (Option.some_ne_none _)

/-- One round of the loop over the program headers. -/
def phdrStep (data : List (BitVec 8)) (phOff phSize : ℕ) (segments : List LoadSegment) (i : ℕ) :
    Except ElfError (List LoadSegment) :=
  let p := readPhdr data (phOff + i * phSize)
  if p.ptype ≠ ptLoad then .ok segments
  else
    match checked (p.vaddr.toNat + p.memsz.toNat) with
    | none => .error .segmentOutOfRange
    | some e =>
        if userSpaceLimit < e then .error .segmentOutOfRange
        else if p.memsz < p.filesz then .error .invalidPhdr
        else .ok (segments ++ [p.segment])

/-- The test `a.vaddr < b_end && b.vaddr < a_end`. -/
def LoadSegment.overlaps (a b : LoadSegment) : Bool :=
  decide (a.vaddr < b.vaddr + b.memsz) && decide (b.vaddr < a.vaddr + a.memsz)

/-- The loops that look for overlapping segments. -/
def anyOverlap : List LoadSegment → Bool
  | [] => false
  | a :: rest => rest.any a.overlaps || anyOverlap rest

/-- `parse_elf64`. -/
def parseElf64 (data : List (BitVec 8)) : Except ElfError ElfInfo :=
  if data.length < ehdrSize then .error .tooShort
  else
    let ehdr := readEhdr data
    if ehdr.ident.take 4 ≠ elfMagic then .error .badMagic
    else if ehdr.ident.getD 4 0#8 ≠ elfClass64 then .error .notElf64
    else if ehdr.ident.getD 5 0#8 ≠ elfData2Lsb then .error .notLittleEndian
    else if ehdr.machine ≠ emAarch64 then .error .notAarch64
    else
      let phOff := ehdr.phoff.toNat
      let phSize := ehdr.phentsize.toNat
      let phNum := ehdr.phnum.toNat
      match (checked (phSize * phNum)).bind fun n => checked (phOff + n) with
      | none => .error .invalidPhdr
      | some phdrEnd =>
          if phSize < phdrSize ∨ data.length < phdrEnd then .error .invalidPhdr
          else
            match (List.range phNum).foldlM (phdrStep data phOff phSize) [] with
            | .error e => .error e
            | .ok segments =>
                if anyOverlap segments then .error .overlappingSegments
                else .ok ⟨ehdr.entry, segments⟩

/-! ### What is checked -/

/-- The offset of a program header in the file. -/
def phdrOffset (data : List (BitVec 8)) (i : ℕ) : ℕ :=
  (readEhdr data).phoff.toNat + i * (readEhdr data).phentsize.toNat

/-- The `PT_LOAD` headers of the table, in order. -/
def loadHeaders (data : List (BitVec 8)) : List Elf64Phdr :=
  ((List.range (readEhdr data).phnum.toNat).map fun i => readPhdr data (phdrOffset data i)).filter
    fun p => p.ptype == ptLoad

/-- What is checked of a `PT_LOAD` header. -/
structure LoadSegment.Checked (s : LoadSegment) : Prop where
  limit : s.vaddr.toNat + s.memsz.toNat ≤ userSpaceLimit
  filesz : s.filesz.toNat ≤ s.memsz.toNat

/-- The bytes of the segment lie in the file. -/
def LoadSegment.Backed (data : List (BitVec 8)) (s : LoadSegment) : Prop :=
  s.offset.toNat + s.filesz.toNat ≤ data.length

instance (data : List (BitVec 8)) (s : LoadSegment) : Decidable (s.Backed data) :=
  inferInstanceAs (Decidable (_ ≤ _))

variable {data : List (BitVec 8)} {phOff phSize : ℕ} {segments segments' : List LoadSegment}

/-- A round of the loop skips a header that is not `PT_LOAD`, and else appends its segment, which
has been checked. -/
theorem phdrStep_ok {i : ℕ} (h : phdrStep data phOff phSize segments i = .ok segments') :
    ((readPhdr data (phOff + i * phSize)).ptype ≠ ptLoad ∧ segments' = segments) ∨
      ((readPhdr data (phOff + i * phSize)).ptype = ptLoad ∧
        segments' = segments ++ [(readPhdr data (phOff + i * phSize)).segment] ∧
        (readPhdr data (phOff + i * phSize)).segment.Checked) := by
  rw [phdrStep] at h
  split at h
  · rename_i htype
    exact Or.inl ⟨htype, (Except.ok.inj h).symm⟩
  · rename_i htype
    refine Or.inr ⟨not_not.1 htype, ?_⟩
    split at h
    · exact absurd h (by simp)
    · rename_i e he
      obtain rfl := eq_of_checked he
      split at h
      · exact absurd h (by simp)
      · rename_i hlimit
        split at h
        · exact absurd h (by simp)
        · rename_i hfilesz
          exact ⟨(Except.ok.inj h).symm, ⟨not_lt.1 hlimit, not_lt.1 hfilesz⟩⟩

/-- The loop collects the segments of the `PT_LOAD` headers, all of which have been checked. -/
theorem foldlM_phdrStep_ok {l : List ℕ}
    (h : l.foldlM (phdrStep data phOff phSize) segments = .ok segments')
    (hchecked : ∀ s ∈ segments, s.Checked) :
    segments' = segments ++ ((l.map fun i => readPhdr data (phOff + i * phSize)).filter
      fun p => p.ptype == ptLoad).map Elf64Phdr.segment ∧ ∀ s ∈ segments', s.Checked := by
  induction l generalizing segments with
  | nil =>
      obtain rfl : segments = segments' := Except.ok.inj h
      exact ⟨(List.append_nil _).symm, hchecked⟩
  | cons i l ih =>
      rw [List.foldlM_cons] at h
      cases hstep : phdrStep data phOff phSize segments i with
      | error e =>
          rw [hstep] at h
          exact absurd h (by simp [bind, Except.bind])
      | ok next =>
          rw [hstep] at h
          rcases phdrStep_ok hstep with ⟨htype, rfl⟩ | ⟨htype, rfl, hc⟩
          · obtain ⟨heq, hall⟩ := ih h hchecked
            refine ⟨?_, hall⟩
            rw [List.map_cons, List.filter_cons_of_neg (by simpa using htype)]
            exact heq
          · obtain ⟨heq, hall⟩ := ih h fun s hs => by
              rcases List.mem_append.1 hs with hs | hs
              · exact hchecked s hs
              · rw [List.mem_singleton.1 hs]
                exact hc
            refine ⟨?_, hall⟩
            rw [List.map_cons, List.filter_cons_of_pos (by simpa using htype), List.map_cons,
              heq, List.append_assoc]
            rfl

/-- If no overlap is found, no two segments overlap. -/
theorem pairwise_of_anyOverlap (h : anyOverlap segments = false) :
    segments.Pairwise fun a b => a.overlaps b = false := by
  induction segments with
  | nil => exact List.Pairwise.nil
  | cons a rest ih =>
      rw [anyOverlap, Bool.or_eq_false_iff] at h
      refine List.pairwise_cons.2 ⟨fun b hb => ?_, ih h.2⟩
      rw [List.any_eq_false] at h
      exact Bool.eq_false_iff.2 (h.1 b hb)

/-- **What holds of an image that is accepted.**  The program header table lies in the file; the
segments are its `PT_LOAD` headers; each segment ends below the limit of user space, without
overflow, and has at most as many bytes in the file as in memory; no two segments overlap; and the
bytes of the segments lie in the file exactly if the `PT_LOAD` headers say so. -/
theorem parseElf64_segments {data : List (BitVec 8)} {info : ElfInfo}
    (h : parseElf64 data = .ok info) :
    (∀ i < (readEhdr data).phnum.toNat, phdrOffset data i + phdrSize ≤ data.length) ∧
      info.segments = (loadHeaders data).map Elf64Phdr.segment ∧
      (∀ s ∈ info.segments, s.Checked) ∧
      info.segments.Pairwise (fun a b => a.overlaps b = false) ∧
      ((∀ s ∈ info.segments, s.Backed data) ↔
        ∀ p ∈ loadHeaders data, p.offset.toNat + p.filesz.toNat ≤ data.length) := by
  rw [parseElf64] at h
  dsimp only at h
  split at h
  · exact absurd h (by simp)
  split at h
  · exact absurd h (by simp)
  split at h
  · exact absurd h (by simp)
  split at h
  · exact absurd h (by simp)
  split at h
  · exact absurd h (by simp)
  split at h
  · exact absurd h (by simp)
  · rename_i phdrEnd hend
    split at h
    · exact absurd h (by simp)
    · rename_i htable
      split at h
      · exact absurd h (by simp)
      · rename_i segments hloop
        split at h
        · exact absurd h (by simp)
        · rename_i hoverlap
          obtain rfl := Except.ok.inj h
          obtain ⟨heq, hchecked⟩ := foldlM_phdrStep_ok hloop fun s hs => absurd hs List.not_mem_nil
          rw [List.nil_append] at heq
          have hsegments : segments = (loadHeaders data).map Elf64Phdr.segment := heq
          refine ⟨fun i hi => ?_, hsegments, hchecked,
            pairwise_of_anyOverlap (Bool.not_eq_true _ ▸ hoverlap), ?_⟩
          · obtain ⟨m, hm, he⟩ := Option.bind_eq_some_iff.1 hend
            obtain rfl := eq_of_checked hm
            obtain rfl := eq_of_checked he
            have hrow : (i + 1) * (readEhdr data).phentsize.toNat ≤
                (readEhdr data).phnum.toNat * (readEhdr data).phentsize.toNat :=
              Nat.mul_le_mul_right _ hi
            rw [Nat.succ_mul, Nat.mul_comm (readEhdr data).phnum.toNat] at hrow
            rw [phdrOffset]
            omega
          · dsimp only
            rw [hsegments, List.forall_mem_map]
            rfl

/-- The bytes of a number, the lowest first. -/
def leBytes (w n : ℕ) : List (BitVec 8) :=
  (List.range w).map fun i => BitVec.ofNat 8 (n / 256 ^ i)

/-- An image of 120 bytes: the file header and one `PT_LOAD` header, whose segment takes `filesz`
bytes from the start of the file. -/
def oneSegmentElf (filesz : ℕ) : List (BitVec 8) :=
  elfMagic ++ [elfClass64, elfData2Lsb, 1#8] ++ List.replicate 9 0#8 ++ leBytes 2 2 ++
    leBytes 2 0xB7 ++ leBytes 4 1 ++ leBytes 8 0x400000 ++ leBytes 8 64 ++ leBytes 14 0 ++
    leBytes 2 56 ++ leBytes 2 1 ++ leBytes 6 0 ++
    (leBytes 4 1 ++ leBytes 4 5 ++ leBytes 8 0 ++ leBytes 8 0x400000 ++ leBytes 8 0x400000 ++
      leBytes 8 filesz ++ leBytes 8 0x1000 ++ leBytes 8 0)

/-- What the parser returns for it. -/
def oneSegmentInfo (filesz : ℕ) : ElfInfo :=
  ⟨0x400000#64, [⟨0x400000#64, 0x1000#64, BitVec.ofNat 64 filesz, 0#64, 5#32⟩]⟩

/-- The segment of an accepted image of 120 bytes lies in the file if it takes 120 bytes. -/
theorem parseElf64_segments_backed :
    parseElf64 (oneSegmentElf 120) = .ok (oneSegmentInfo 120) ∧
      ∀ s ∈ (oneSegmentInfo 120).segments, s.Backed (oneSegmentElf 120) := by
  have hok : parseElf64 (oneSegmentElf 120) = .ok (oneSegmentInfo 120) := by decide +kernel
  refine ⟨hok, (parseElf64_segments hok).2.2.2.2.2 ?_⟩
  decide +kernel

/-- An image of 120 bytes is accepted with a segment of 2048 bytes. -/
theorem parseElf64_unbacked :
    (oneSegmentElf 0x800).length = 120 ∧
      parseElf64 (oneSegmentElf 0x800) = .ok (oneSegmentInfo 0x800) ∧
      ∀ s ∈ (oneSegmentInfo 0x800).segments, ¬ s.Backed (oneSegmentElf 0x800) := by
  refine ⟨by decide +kernel, by decide +kernel, ?_⟩
  decide +kernel

end StarOS
