/-
Which images the ELF64 parser accepts, and what it reads of them.

The parser reads headers through pointers at computed offsets and adds without a check in several
places.  It is written down here once more with every such read and addition guarded: one that would
read outside the image, index a list past its end or overflow gives no result at all.  This guarded
parser always has a result, the same as `parse_elf64`, so no guard is ever needed.

* `StarOS.ByteSlice` — a byte slice;
* `StarOS.parseElf64Guarded` — the parser with guards, and its loops;
* `StarOS.Acceptable` — the images that should be accepted;
* `StarOS.LoadSegment.span` — the addresses of a segment;
* `StarOS.parseElf64_accepts_iff` — no read outside, no overflow, and which images are accepted with
  which segments.
-/

import StarOS.Elf
import Mathlib.Order.Interval.Set.Basic

set_option autoImplicit false

namespace StarOS

/-- A byte slice: no slice is longer than `isize::MAX`. -/
structure ByteSlice where
  bytes : List (BitVec 8)
  length_lt : bytes.length < 2 ^ 63

/-! ### The parser with guards -/

/-- Reading the file header, inside the image only. -/
def readEhdrGuarded (data : List (BitVec 8)) : Option Elf64Ehdr :=
  if ehdrSize ≤ data.length then some (readEhdr data) else none

/-- Reading the program header at an offset, inside the image only. -/
def readPhdrGuarded (data : List (BitVec 8)) (off : ℕ) : Option Elf64Phdr :=
  if off + phdrSize ≤ data.length then some (readPhdr data off) else none

/-- `ph_off + i * ph_size`. -/
def phdrOffGuarded (phOff phSize i : ℕ) : Option ℕ :=
  (checked (i * phSize)).bind fun n => checked (phOff + n)

/-- One round of the loop over the program headers. -/
def phdrStepGuarded (data : List (BitVec 8)) (phOff phSize : ℕ) (segments : List LoadSegment)
    (i : ℕ) : Option (Except ElfError (List LoadSegment)) :=
  match (phdrOffGuarded phOff phSize i).bind (readPhdrGuarded data) with
  | none => none
  | some p =>
      if p.ptype ≠ ptLoad then some (.ok segments)
      else
        match checked (p.vaddr.toNat + p.memsz.toNat) with
        | none => some (.error .segmentOutOfRange)
        | some e =>
            if userSpaceLimit < e then some (.error .segmentOutOfRange)
            else if p.memsz < p.filesz then some (.error .invalidPhdr)
            else some (.ok (segments ++ [p.segment]))

/-- The loop over the program headers, with `n` headers left from header `i` on. -/
def phdrLoopGuarded (data : List (BitVec 8)) (phOff phSize : ℕ) :
    ℕ → ℕ → List LoadSegment → Option (Except ElfError (List LoadSegment))
  | 0, _, segments => some (.ok segments)
  | n + 1, i, segments =>
      match phdrStepGuarded data phOff phSize segments i with
      | none => none
      | some (.error e) => some (.error e)
      | some (.ok segments') => phdrLoopGuarded data phOff phSize n (i + 1) segments'

/-- `a_end`, `b_end` and the test `a.vaddr < b_end && b.vaddr < a_end`. -/
def LoadSegment.overlapsGuarded (a b : LoadSegment) : Option Bool :=
  match checked (a.vaddr.toNat + a.memsz.toNat), checked (b.vaddr.toNat + b.memsz.toNat) with
  | some aEnd, some bEnd => some (decide (a.vaddr.toNat < bEnd) && decide (b.vaddr.toNat < aEnd))
  | _, _ => none

/-- The loop over `j`, with `n` segments left from segment `j` on. -/
def innerLoopGuarded (segments : List LoadSegment) (i : ℕ) : ℕ → ℕ → Option Bool
  | 0, _ => some false
  | n + 1, j =>
      match segments[i]?, segments[j]? with
      | some a, some b =>
          match a.overlapsGuarded b with
          | none => none
          | some true => some true
          | some false => innerLoopGuarded segments i n (j + 1)
      | _, _ => none

/-- The loop over `i`, with `n` segments left from segment `i` on. -/
def outerLoopGuarded (segments : List LoadSegment) : ℕ → ℕ → Option Bool
  | 0, _ => some false
  | n + 1, i =>
      match innerLoopGuarded segments i (segments.length - (i + 1)) (i + 1) with
      | none => none
      | some true => some true
      | some false => outerLoopGuarded segments n (i + 1)

/-- `parse_elf64`, with a result only if no guard fails. -/
def parseElf64Guarded (data : List (BitVec 8)) : Option (Except ElfError ElfInfo) :=
  if data.length < ehdrSize then some (.error .tooShort)
  else
    match readEhdrGuarded data with
    | none => none
    | some ehdr =>
        if ehdr.ident.take 4 ≠ elfMagic then some (.error .badMagic)
        else if ehdr.ident.getD 4 0#8 ≠ elfClass64 then some (.error .notElf64)
        else if ehdr.ident.getD 5 0#8 ≠ elfData2Lsb then some (.error .notLittleEndian)
        else if ehdr.machine ≠ emAarch64 then some (.error .notAarch64)
        else
          let phOff := ehdr.phoff.toNat
          let phSize := ehdr.phentsize.toNat
          let phNum := ehdr.phnum.toNat
          match (checked (phSize * phNum)).bind fun n => checked (phOff + n) with
          | none => some (.error .invalidPhdr)
          | some phdrEnd =>
              if phSize < phdrSize ∨ data.length < phdrEnd then some (.error .invalidPhdr)
              else
                match phdrLoopGuarded data phOff phSize phNum 0 [] with
                | none => none
                | some (.error e) => some (.error e)
                | some (.ok segments) =>
                    match outerLoopGuarded segments segments.length 0 with
                    | none => none
                    | some true => some (.error .overlappingSegments)
                    | some false => some (.ok ⟨ehdr.entry, segments⟩)

/-! ### No guard fails -/

theorem checked_of_lt {n : ℕ} (h : n < 2 ^ 64) : checked n = some n := if_pos h

variable {data : List (BitVec 8)} {phOff phSize phNum : ℕ} {segments : List LoadSegment}

/-- Every header of the table lies in the image. -/
structure TableInside (data : List (BitVec 8)) (phOff phSize phNum : ℕ) : Prop where
  size : phdrSize ≤ phSize
  fits : phOff + phSize * phNum < 2 ^ 64
  inside : phOff + phSize * phNum ≤ data.length

theorem TableInside.header (h : TableInside data phOff phSize phNum) {i : ℕ} (hi : i < phNum) :
    (phdrOffGuarded phOff phSize i).bind (readPhdrGuarded data) =
      some (readPhdr data (phOff + i * phSize)) := by
  have hsize := h.size
  have hfits := h.fits
  have hinside := h.inside
  have hrow : (i + 1) * phSize ≤ phNum * phSize := Nat.mul_le_mul_right _ hi
  rw [Nat.succ_mul, Nat.mul_comm phNum] at hrow
  rw [phdrOffGuarded, checked_of_lt (by omega), Option.bind_some, checked_of_lt (by omega),
    Option.bind_some, readPhdrGuarded, if_pos (by omega)]

theorem TableInside.phdrStep (h : TableInside data phOff phSize phNum) {i : ℕ} (hi : i < phNum)
    (segments : List LoadSegment) :
    phdrStepGuarded data phOff phSize segments i =
      some (StarOS.phdrStep data phOff phSize segments i) := by
  rw [phdrStepGuarded, h.header hi, StarOS.phdrStep]
  dsimp only
  split
  · rfl
  · cases checked ((readPhdr data (phOff + i * phSize)).vaddr.toNat +
      (readPhdr data (phOff + i * phSize)).memsz.toNat) with
    | none => rfl
    | some e =>
        dsimp only
        split
        · rfl
        · split
          · rfl
          · rfl

/-- The loop over the headers, in which every header is inside. -/
theorem TableInside.phdrLoop (h : TableInside data phOff phSize phNum) {n i : ℕ}
    (hn : i + n ≤ phNum) (segments : List LoadSegment) :
    phdrLoopGuarded data phOff phSize n i segments =
      some ((List.range' i n).foldlM (StarOS.phdrStep data phOff phSize) segments) := by
  induction n generalizing i segments with
  | zero => rfl
  | succ n ih =>
      rw [phdrLoopGuarded, h.phdrStep (by omega), List.range'_succ, List.foldlM_cons]
      cases StarOS.phdrStep data phOff phSize segments i with
      | error e => rfl
      | ok segments' => exact ih (by omega) segments'

/-- The ends of segments that have been checked do not overflow. -/
theorem LoadSegment.Checked.overlaps {a b : LoadSegment} (ha : a.Checked) (hb : b.Checked) :
    a.overlapsGuarded b = some (a.overlaps b) ∧
      (a.overlaps b = true ↔ a.vaddr.toNat < b.vaddr.toNat + b.memsz.toNat ∧
        b.vaddr.toNat < a.vaddr.toNat + a.memsz.toNat) := by
  have hlimit : userSpaceLimit = 0x0000800000000000 := rfl
  have ha' := ha.limit
  have hb' := hb.limit
  have hsum : ∀ {s : LoadSegment}, s.Checked →
      (s.vaddr + s.memsz).toNat = s.vaddr.toNat + s.memsz.toNat := by
    intro s hs
    have hs' := hs.limit
    rw [BitVec.toNat_add, Nat.mod_eq_of_lt (by omega)]
  constructor
  · rw [overlapsGuarded, checked_of_lt (by omega), checked_of_lt (by omega), LoadSegment.overlaps]
    simp only [BitVec.lt_def, hsum ha, hsum hb]
  · rw [LoadSegment.overlaps, Bool.and_eq_true, decide_eq_true_eq, decide_eq_true_eq,
      BitVec.lt_def, BitVec.lt_def, hsum ha, hsum hb]

/-- The loop over `j` compares a segment with those behind it. -/
theorem innerLoop_eq (hall : ∀ s ∈ segments, s.Checked) {i : ℕ} {a : LoadSegment}
    (ha : segments[i]? = some a) {n j : ℕ} (hn : j + n = segments.length) :
    innerLoopGuarded segments i n j = some ((segments.drop j).any a.overlaps) := by
  induction n generalizing j with
  | zero =>
      rw [List.drop_eq_nil_of_le (by omega)]
      rfl
  | succ n ih =>
      have hj : j < segments.length := by omega
      have hb : segments[j]? = some segments[j] := List.getElem?_eq_getElem hj
      obtain ⟨hguard, -⟩ := (hall a (List.mem_of_getElem? ha)).overlaps
        (hall segments[j] (List.getElem_mem hj))
      rw [innerLoopGuarded, ha, hb, List.drop_eq_getElem_cons hj, List.any_cons]
      dsimp only
      rw [hguard]
      cases a.overlaps segments[j] with
      | true => rfl
      | false =>
          rw [Bool.false_or]
          exact ih (by omega)

theorem outerLoop_eq (hall : ∀ s ∈ segments, s.Checked) {n i : ℕ}
    (hn : i + n = segments.length) :
    outerLoopGuarded segments n i = some (anyOverlap (segments.drop i)) := by
  induction n generalizing i with
  | zero =>
      rw [List.drop_eq_nil_of_le (by omega)]
      rfl
  | succ n ih =>
      have hi : i < segments.length := by omega
      have ha : segments[i]? = some segments[i] := List.getElem?_eq_getElem hi
      rw [outerLoopGuarded, innerLoop_eq hall ha (by omega), List.drop_eq_getElem_cons hi,
        anyOverlap]
      cases (segments.drop (i + 1)).any segments[i].overlaps with
      | true => rfl
      | false =>
          rw [Bool.false_or]
          exact ih (by omega)

/-- The table end that has been checked. -/
theorem tableInside_of_end {phdrEnd : ℕ}
    (hend : ((checked (phSize * phNum)).bind fun n => checked (phOff + n)) = some phdrEnd)
    (htable : ¬(phSize < phdrSize ∨ data.length < phdrEnd)) :
    TableInside data phOff phSize phNum := by
  obtain ⟨n, hn, he⟩ := Option.bind_eq_some_iff.1 hend
  obtain rfl := eq_of_checked hn
  have hlt : phOff + phSize * phNum < 2 ^ 64 := by
    rw [checked] at he
    split at he
    · assumption
    · cases he
  obtain rfl := eq_of_checked he
  rw [not_or, not_lt, not_lt] at htable
  exact ⟨htable.1, hlt, htable.2⟩

/-- The guarded parser always has a result: the same as the parser. -/
theorem parseElf64Guarded_eq (data : List (BitVec 8)) :
    parseElf64Guarded data = some (parseElf64 data) := by
  rw [parseElf64Guarded, parseElf64]
  by_cases hshort : data.length < ehdrSize
  · rw [if_pos hshort, if_pos hshort]
  rw [if_neg hshort, if_neg hshort, readEhdrGuarded, if_pos (not_lt.1 hshort)]
  dsimp only
  split
  · rfl
  split
  · rfl
  split
  · rfl
  split
  · rfl
  cases hend : (checked ((readEhdr data).phentsize.toNat * (readEhdr data).phnum.toNat)).bind
      fun n => checked ((readEhdr data).phoff.toNat + n) with
  | none => rfl
  | some phdrEnd =>
  dsimp only
  by_cases htable : (readEhdr data).phentsize.toNat < phdrSize ∨ data.length < phdrEnd
  · rw [if_pos htable, if_pos htable]
  · have hinside := tableInside_of_end hend htable
    rw [if_neg htable, if_neg htable, hinside.phdrLoop (by omega), ← List.range_eq_range']
    cases hloop : (List.range (readEhdr data).phnum.toNat).foldlM
        (phdrStep data (readEhdr data).phoff.toNat (readEhdr data).phentsize.toNat) [] with
    | error e => rfl
    | ok segments =>
        obtain ⟨-, hall⟩ := foldlM_phdrStep_ok hloop fun s hs => absurd hs List.not_mem_nil
        dsimp only
        rw [outerLoop_eq hall (Nat.zero_add _), List.drop_zero]
        cases anyOverlap segments with
        | true => rfl
        | false => rfl

/-! ### Which images are accepted -/

/-- The addresses of a segment. -/
def LoadSegment.span (s : LoadSegment) : Set ℕ :=
  Set.Ico s.vaddr.toNat (s.vaddr.toNat + s.memsz.toNat)

/-- The half-open overlap test for two headers. -/
def Elf64Phdr.Overlaps (p q : Elf64Phdr) : Prop :=
  p.vaddr.toNat < q.vaddr.toNat + q.memsz.toNat ∧ q.vaddr.toNat < p.vaddr.toNat + p.memsz.toNat

/-- The images that should be accepted. -/
structure Acceptable (data : List (BitVec 8)) : Prop where
  length : ehdrSize ≤ data.length
  magic : (readEhdr data).ident.take 4 = elfMagic
  elf64 : (readEhdr data).ident.getD 4 0#8 = elfClass64
  lsb : (readEhdr data).ident.getD 5 0#8 = elfData2Lsb
  aarch64 : (readEhdr data).machine = emAarch64
  phentsize : phdrSize ≤ (readEhdr data).phentsize.toNat
  table : (readEhdr data).phoff.toNat +
    (readEhdr data).phentsize.toNat * (readEhdr data).phnum.toNat ≤ data.length
  limit : ∀ p ∈ loadHeaders data, p.vaddr.toNat + p.memsz.toNat ≤ userSpaceLimit
  filesz : ∀ p ∈ loadHeaders data, p.filesz.toNat ≤ p.memsz.toNat
  apart : (loadHeaders data).Pairwise fun p q => ¬p.Overlaps q

/-- Headers that have been checked are collected. -/
theorem foldlM_phdrStep_of_checked {l : List ℕ}
    (h : ∀ p ∈ (l.map fun i => readPhdr data (phOff + i * phSize)).filter
      fun p => p.ptype == ptLoad, p.segment.Checked) (segments : List LoadSegment) :
    ∃ segments', l.foldlM (phdrStep data phOff phSize) segments = .ok segments' := by
  induction l generalizing segments with
  | nil => exact ⟨segments, rfl⟩
  | cons i l ih =>
      rw [List.map_cons] at h
      rw [List.foldlM_cons]
      by_cases htype : (readPhdr data (phOff + i * phSize)).ptype = ptLoad
      · rw [List.filter_cons_of_pos (by simpa using htype)] at h
        obtain ⟨hchecked, hrest⟩ := List.forall_mem_cons.1 h
        have hlimit : userSpaceLimit = 0x0000800000000000 := rfl
        have hsum : (readPhdr data (phOff + i * phSize)).vaddr.toNat +
            (readPhdr data (phOff + i * phSize)).memsz.toNat ≤ userSpaceLimit := hchecked.limit
        have hfilesz : ¬(readPhdr data (phOff + i * phSize)).memsz <
            (readPhdr data (phOff + i * phSize)).filesz := not_lt.2 hchecked.filesz
        have hstep : phdrStep data phOff phSize segments i =
            .ok (segments ++ [(readPhdr data (phOff + i * phSize)).segment]) := by
          rw [phdrStep]
          rw [if_neg (not_not.2 htype), checked_of_lt (by omega)]
          dsimp only
          rw [if_neg (not_lt.2 hsum), if_neg hfilesz]
        rw [hstep]
        exact ih hrest _
      · rw [List.filter_cons_of_neg (by simpa using htype)] at h
        have hstep : phdrStep data phOff phSize segments i = .ok segments := if_pos htype
        rw [hstep]
        exact ih h segments

/-- No two segments that do not overlap are found to overlap. -/
theorem anyOverlap_of_pairwise (h : segments.Pairwise fun a b => a.overlaps b = false) :
    anyOverlap segments = false := by
  induction h with
  | nil => rfl
  | cons ha _ ih =>
      rw [anyOverlap, ih, Bool.or_false, List.any_eq_false]
      exact fun b hb => Bool.eq_false_iff.1 (ha b hb)

/-- An image that should be accepted is accepted. -/
theorem Acceptable.accepted (h : Acceptable data) (hlength : data.length < 2 ^ 64) :
    ∃ info, parseElf64 data = .ok info := by
  have hchecked : ∀ p ∈ loadHeaders data, p.segment.Checked :=
    fun p hp => ⟨h.limit p hp, h.filesz p hp⟩
  obtain ⟨segments, hloop⟩ := foldlM_phdrStep_of_checked hchecked []
  obtain ⟨heq, hall⟩ := foldlM_phdrStep_ok hloop fun s hs => absurd hs List.not_mem_nil
  have hsegments : segments = (loadHeaders data).map Elf64Phdr.segment := heq
  have hnone : anyOverlap segments = false := by
    refine anyOverlap_of_pairwise ?_
    rw [hsegments, List.pairwise_map]
    refine h.apart.imp_of_mem fun {p q} hp hq hno => ?_
    exact Bool.eq_false_iff.2 fun hover =>
      hno (((hchecked p hp).overlaps (hchecked q hq)).2.1 hover)
  have htable := h.table
  refine ⟨⟨(readEhdr data).entry, segments⟩, ?_⟩
  rw [parseElf64, if_neg (not_lt.2 h.length)]
  dsimp only
  rw [if_neg (not_not.2 h.magic), if_neg (not_not.2 h.elf64), if_neg (not_not.2 h.lsb),
    if_neg (not_not.2 h.aarch64), checked_of_lt (by omega), Option.bind_some,
    checked_of_lt (by omega)]
  dsimp only
  rw [if_neg (by rw [not_or, not_lt, not_lt]; exact ⟨h.phentsize, htable⟩), hloop]
  dsimp only
  rw [hnone]
  rfl

/-- An image that is accepted should be. -/
theorem acceptable_of_accepted {info : ElfInfo} (h : parseElf64 data = .ok info) :
    Acceptable data := by
  obtain ⟨-, hsegments, hchecked, hapart, -⟩ := parseElf64_segments h
  rw [hsegments, List.forall_mem_map] at hchecked
  rw [hsegments, List.pairwise_map] at hapart
  rw [parseElf64] at h
  dsimp only at h
  split at h
  · cases h
  rename_i hlength
  split at h
  · cases h
  rename_i hmagic
  split at h
  · cases h
  rename_i helf64
  split at h
  · cases h
  rename_i hlsb
  split at h
  · cases h
  rename_i haarch64
  split at h
  · cases h
  rename_i phdrEnd hend
  split at h
  · cases h
  rename_i htable
  have hinside := tableInside_of_end hend htable
  refine ⟨not_lt.1 hlength, not_not.1 hmagic, not_not.1 helf64, not_not.1 hlsb,
    not_not.1 haarch64, hinside.size, hinside.inside, fun p hp => (hchecked p hp).limit,
    fun p hp => (hchecked p hp).filesz, hapart.imp_of_mem fun {p q} hp hq hno hover => ?_⟩
  have hover' := ((hchecked p hp).overlaps (hchecked q hq)).2.2 hover
  rw [hno] at hover'
  cases hover'

/-- **What the parser reads and accepts.**  For every byte slice the parser reads only inside it and
adds without overflow; it accepts exactly the images whose header is that of a little-endian ELF64
image for AArch64 with a program header table inside the slice, whose `PT_LOAD` headers end below
the limit of user space, have no more bytes in the file than in memory and do not overlap; and the
segments it returns are the `PT_LOAD` headers in the order of the table, with no address in two of
them. -/
theorem parseElf64_accepts_iff (data : ByteSlice) :
    parseElf64Guarded data.bytes = some (parseElf64 data.bytes) ∧
      ((∃ info, parseElf64 data.bytes = .ok info) ↔ Acceptable data.bytes) ∧
      ∀ info, parseElf64 data.bytes = .ok info →
        info.segments = (loadHeaders data.bytes).map Elf64Phdr.segment ∧
          info.segments.Pairwise fun a b => Disjoint a.span b.span := by
  refine ⟨parseElf64Guarded_eq _, ⟨fun ⟨info, h⟩ => acceptable_of_accepted h, fun h => ?_⟩,
    fun info h => ?_⟩
  · exact h.accepted (data.length_lt.trans (by decide))
  · obtain ⟨-, hsegments, hchecked, hapart, -⟩ := parseElf64_segments h
    refine ⟨hsegments, hapart.imp_of_mem fun {a b} ha hb hno => ?_⟩
    rw [Set.disjoint_left]
    rintro x ⟨hax, hxa⟩ ⟨hbx, hxb⟩
    have hover := ((hchecked a ha).overlaps (hchecked b hb)).2.2 ⟨by omega, by omega⟩
    rw [hno] at hover
    cases hover

end StarOS
