/-
Boot images (`boot_integration/boot_image.rs`): three headers, and the sections behind them, each
filled up with zeros to whole pages.

`pack_v2` leaves the command line out of its header, and the size of the ramdisk is cut to 32 bits.

* `StarOS.BootImage`, `StarOS.BootImageHeaderV2`, `StarOS.BootImageHeaderV3`,
  `StarOS.BootImageHeaderV4` — an image and its headers;
* `StarOS.BootImage.pack`, `StarOS.BootImage.totalSize` — packing, and the size announced;
* `StarOS.unpack` — reading the sizes of the header and slicing at the pages;
* `StarOS.BootImage.Recoverable` — the image is read back;
* `StarOS.bootImage_recoverable_iff` — when it is.
-/

import StarOS.BigEndian
import StarOS.Elf
import StarOS.Error

set_option autoImplicit false

namespace StarOS

/-! ### Data -/

/-- `PAGE_SIZE`. -/
def bootPageSize : ℕ := 2048

/-- `BOOT_MAGIC`, the letters `ANDROID!`. -/
def bootMagic : Bytes := [0x41#8, 0x4E#8, 0x44#8, 0x52#8, 0x4F#8, 0x49#8, 0x44#8, 0x21#8]

/-- `BootImageVersion`. -/
inductive BootImageVersion where
  | v2
  | v3
  | v4
  deriving DecidableEq, Repr

/-- `BootImage`. -/
structure BootImage where
  kernel : Bytes
  dtb : Bytes
  ramdisk : Option Bytes
  cmdline : Bytes
  version : BootImageVersion
  deriving DecidableEq, Repr

/-- A `u32` in memory. -/
def u32Bytes (v : BitVec 32) : Bytes := leBytes 4 v.toNat

/-- A `u64` in memory. -/
def u64Bytes (v : BitVec 64) : Bytes := leBytes 8 v.toNat

/-- `BootImageHeaderV2`, which is packed. -/
structure BootImageHeaderV2 where
  magic : Bytes
  kernelSize : BitVec 32
  kernelAddr : BitVec 32
  ramdiskSize : BitVec 32
  ramdiskAddr : BitVec 32
  secondSize : BitVec 32
  secondAddr : BitVec 32
  tagsAddr : BitVec 32
  pageSize : BitVec 32
  headerVersion : BitVec 32
  osVersion : BitVec 32
  name : Bytes
  cmdline : Bytes
  id : List (BitVec 32)
  extraCmdline : Bytes
  recoveryDtboSize : BitVec 32
  recoveryDtboOffset : BitVec 64
  headerSize : BitVec 32
  dtbSize : BitVec 32
  dtbAddr : BitVec 64

/-- The header in memory. -/
def BootImageHeaderV2.bytes (h : BootImageHeaderV2) : Bytes :=
  h.magic ++ (u32Bytes h.kernelSize ++ (u32Bytes h.kernelAddr ++ (u32Bytes h.ramdiskSize ++
    (u32Bytes h.ramdiskAddr ++ (u32Bytes h.secondSize ++ (u32Bytes h.secondAddr ++
    (u32Bytes h.tagsAddr ++ (u32Bytes h.pageSize ++ (u32Bytes h.headerVersion ++
    (u32Bytes h.osVersion ++ (h.name ++ (h.cmdline ++ (h.id.flatMap u32Bytes ++
    (h.extraCmdline ++ (u32Bytes h.recoveryDtboSize ++ (u64Bytes h.recoveryDtboOffset ++
    (u32Bytes h.headerSize ++ (u32Bytes h.dtbSize ++ u64Bytes h.dtbAddr))))))))))))))))))

/-- `BootImageHeaderV3`, which is packed. -/
structure BootImageHeaderV3 where
  magic : Bytes
  kernelSize : BitVec 32
  ramdiskSize : BitVec 32
  osVersion : BitVec 32
  headerSize : BitVec 32
  reserved : List (BitVec 32)
  headerVersion : BitVec 32
  cmdline : Bytes

/-- The header in memory. -/
def BootImageHeaderV3.bytes (h : BootImageHeaderV3) : Bytes :=
  h.magic ++ (u32Bytes h.kernelSize ++ (u32Bytes h.ramdiskSize ++ (u32Bytes h.osVersion ++
    (u32Bytes h.headerSize ++ (h.reserved.flatMap u32Bytes ++ (u32Bytes h.headerVersion ++
    h.cmdline))))))

/-- `BootImageHeaderV4`, which is packed. -/
structure BootImageHeaderV4 where
  magic : Bytes
  kernelSize : BitVec 32
  ramdiskSize : BitVec 32
  osVersion : BitVec 32
  headerSize : BitVec 32
  reserved : List (BitVec 32)
  headerVersion : BitVec 32
  cmdline : Bytes
  signatureSize : BitVec 32

/-- The header in memory. -/
def BootImageHeaderV4.bytes (h : BootImageHeaderV4) : Bytes :=
  h.magic ++ (u32Bytes h.kernelSize ++ (u32Bytes h.ramdiskSize ++ (u32Bytes h.osVersion ++
    (u32Bytes h.headerSize ++ (h.reserved.flatMap u32Bytes ++ (u32Bytes h.headerVersion ++
    (h.cmdline ++ u32Bytes h.signatureSize)))))))

namespace BootImage

/-! ### Packing -/

/-- `align_to_page`. -/
def alignToPage (data : Bytes) : Bytes :=
  let remainder := data.length % bootPageSize
  if remainder ≠ 0 then data ++ List.replicate (bootPageSize - remainder) 0#8 else data

/-- `aligned_size`. -/
def alignedSize (size : ℕ) : ℕ := (size + bootPageSize - 1) / bootPageSize * bootPageSize

/-- `total_size`. -/
def totalSize (img : BootImage) : ℕ :=
  let size := bootPageSize + alignedSize img.kernel.length
  let size := match img.ramdisk with
    | some ramdisk => size + alignedSize ramdisk.length
    | none => size
  size + alignedSize img.dtb.length

/-- The size of the ramdisk in a header. -/
def ramdiskSize (img : BootImage) : BitVec 32 :=
  (img.ramdisk.map fun r => BitVec.ofNat 32 r.length).getD 0#32

/-- The header that `pack_v2` builds. -/
def headerV2 (img : BootImage) : BootImageHeaderV2 where
  magic := bootMagic
  kernelSize := BitVec.ofNat 32 img.kernel.length
  kernelAddr := 0x80000000#32
  ramdiskSize := img.ramdiskSize
  ramdiskAddr := 0x81000000#32
  secondSize := 0#32
  secondAddr := 0#32
  tagsAddr := 0x80000100#32
  pageSize := BitVec.ofNat 32 bootPageSize
  headerVersion := 2#32
  osVersion := 0#32
  name := List.replicate 16 0#8
  cmdline := List.replicate 512 0#8
  id := List.replicate 8 0#32
  extraCmdline := List.replicate 1024 0#8
  recoveryDtboSize := 0#32
  recoveryDtboOffset := 0#64
  headerSize := 1660#32
  dtbSize := BitVec.ofNat 32 img.dtb.length
  dtbAddr := 0x82000000#64

/-- The field of a command line of `n` bytes: what fits of it, and zeros. -/
def cmdlineField (n : ℕ) (cmdline : Bytes) : Bytes :=
  if cmdline ≠ [] then
    let len := min cmdline.length n
    cmdline.take len ++ (List.replicate n 0#8).drop len
  else List.replicate n 0#8

/-- The header that `pack_v3` builds. -/
def headerV3 (img : BootImage) : BootImageHeaderV3 where
  magic := bootMagic
  kernelSize := BitVec.ofNat 32 img.kernel.length
  ramdiskSize := img.ramdiskSize
  osVersion := 0#32
  headerSize := 1580#32
  reserved := List.replicate 4 0#32
  headerVersion := 3#32
  cmdline := cmdlineField 1536 img.cmdline

/-- The header that `pack_v4` builds. -/
def headerV4 (img : BootImage) : BootImageHeaderV4 where
  magic := bootMagic
  kernelSize := BitVec.ofNat 32 img.kernel.length
  ramdiskSize := img.ramdiskSize
  osVersion := 0#32
  headerSize := 1584#32
  reserved := List.replicate 4 0#32
  headerVersion := 4#32
  cmdline := cmdlineField 1536 img.cmdline
  signatureSize := 0#32

/-- What the packers do with the bytes of their headers. -/
def packWith (img : BootImage) (header : Bytes) : Except KernelError Bytes :=
  let output := alignToPage header
  let output := alignToPage (output ++ img.kernel)
  let output := match img.ramdisk with
    | some ramdisk => alignToPage (output ++ ramdisk)
    | none => output
  .ok (alignToPage (output ++ img.dtb))

/-- `pack_v2`. -/
def packV2 (img : BootImage) : Except KernelError Bytes := img.packWith img.headerV2.bytes

/-- `pack_v3`. -/
def packV3 (img : BootImage) : Except KernelError Bytes := img.packWith img.headerV3.bytes

/-- `pack_v4`. -/
def packV4 (img : BootImage) : Except KernelError Bytes := img.packWith img.headerV4.bytes

/-- `MAX_KERNEL_SIZE`. -/
def maxKernelSize : ℕ := 64 * 1024 * 1024

/-- `pack`. -/
def pack (img : BootImage) : Except KernelError Bytes :=
  if img.kernel = [] then .error .invalidAddress
  else if maxKernelSize < img.kernel.length then .error .invalidAddress
  else if bootPageSize = 0 ∨ bootPageSize &&& (bootPageSize - 1) ≠ 0 then .error .invalidAddress
  else
    match img.version with
    | .v2 => img.packV2
    | .v3 => img.packV3
    | .v4 => img.packV4

/-! ### Pages -/

theorem dvd_alignedSize (size : ℕ) : bootPageSize ∣ alignedSize size := ⟨_, Nat.mul_comm _ _⟩

theorem length_alignToPage (data : Bytes) :
    (alignToPage data).length = alignedSize data.length := by
  unfold alignToPage alignedSize bootPageSize
  dsimp only
  split
  · rw [List.length_append, List.length_replicate]
    omega
  · omega

/-- Whole pages in front do not change how the rest is filled up. -/
theorem alignToPage_append {front : Bytes} (h : bootPageSize ∣ front.length) (back : Bytes) :
    alignToPage (front ++ back) = front ++ alignToPage back := by
  have hmod : (front ++ back).length % bootPageSize = back.length % bootPageSize := by
    rw [List.length_append, Nat.add_mod, Nat.mod_eq_zero_of_dvd h, Nat.zero_add, Nat.mod_mod]
  unfold alignToPage
  rw [hmod]
  dsimp only
  split
  · rw [List.append_assoc]
  · rfl

/-- A section is a prefix of its pages. -/
theorem prefix_alignToPage (data : Bytes) : data <+: alignToPage data := by
  unfold alignToPage
  dsimp only
  split
  · exact List.prefix_append _ _
  · exact List.prefix_rfl

theorem alignToPage_nil : alignToPage [] = [] := rfl

/-- The bytes of the ramdisk. -/
def ramdiskBytes (img : BootImage) : Bytes := img.ramdisk.getD []

/-- The sections of an image, each in whole pages. -/
theorem packWith_eq (img : BootImage) (header : Bytes) :
    img.packWith header = .ok (alignToPage header ++ (alignToPage img.kernel ++
      (alignToPage img.ramdiskBytes ++ alignToPage img.dtb))) := by
  have hpage : ∀ data, bootPageSize ∣ (alignToPage data).length := fun data => by
    rw [length_alignToPage]
    exact dvd_alignedSize _
  unfold packWith ramdiskBytes
  dsimp only
  rw [alignToPage_append (hpage header)]
  have hkernel : bootPageSize ∣ (alignToPage header ++ alignToPage img.kernel).length := by
    rw [List.length_append]
    exact Nat.dvd_add (hpage _) (hpage _)
  cases img.ramdisk with
  | none =>
      dsimp only
      rw [alignToPage_append hkernel, Option.getD_none, alignToPage_nil, List.nil_append,
        List.append_assoc]
  | some ramdisk =>
      have hramdisk : bootPageSize ∣
          (alignToPage header ++ alignToPage img.kernel ++ alignToPage ramdisk).length := by
        rw [List.length_append]
        exact Nat.dvd_add hkernel (hpage _)
      dsimp only
      rw [alignToPage_append hkernel, alignToPage_append hramdisk, Option.getD_some,
        List.append_assoc, List.append_assoc]

theorem totalSize_eq (img : BootImage) :
    img.totalSize = bootPageSize + (alignedSize img.kernel.length +
      (alignedSize img.ramdiskBytes.length + alignedSize img.dtb.length)) := by
  unfold totalSize ramdiskBytes
  cases img.ramdisk with
  | none => exact (Nat.add_assoc _ _ _).trans (congrArg _ (congrArg _ (Nat.zero_add _).symm))
  | some ramdisk => exact (Nat.add_assoc _ _ _).trans (by rw [Nat.add_assoc]; rfl)

/-- The number of a size that a header holds. -/
theorem toNat_ramdiskSize (img : BootImage) :
    img.ramdiskSize.toNat = img.ramdiskBytes.length % 2 ^ 32 := by
  unfold ramdiskSize ramdiskBytes
  cases img.ramdisk with
  | none => rfl
  | some ramdisk => exact BitVec.toNat_ofNat _ _

end BootImage

/-! ### Reading an image -/

/-- Reading a `u32` of memory. -/
def readU32 (data : Bytes) (off : ℕ) : ℕ := beNat ((data.drop off).take 4).reverse

theorem reverse_leBytes (w n : ℕ) : (leBytes w n).reverse = beBytes w n := by
  induction w generalizing n with
  | zero => rfl
  | succ w ih =>
      have hcons : leBytes (w + 1) n = BitVec.ofNat 8 n :: leBytes w (n / 256) := by
        rw [leBytes, List.range_succ_eq_map, List.map_cons, List.map_map, leBytes]
        congr 1
        · rw [Nat.pow_zero, Nat.div_one]
        · refine List.map_congr_left fun i _ => ?_
          rw [Function.comp_apply, Nat.pow_succ', Nat.div_div_eq_div_mul]
      rw [hcons, List.reverse_cons, ih, beBytes]

/-- A `u32` is read back. -/
theorem readU32_here (v : BitVec 32) (back : Bytes) : readU32 (u32Bytes v ++ back) 0 = v.toNat := by
  have htake : (u32Bytes v ++ back).take 4 = u32Bytes v := List.take_left' rfl
  rw [readU32, List.drop_zero, htake, u32Bytes, reverse_leBytes, beNat_beBytes]
  exact Nat.mod_eq_of_lt v.isLt

/-- What stands behind other bytes is read behind them. -/
theorem drop_behind {front : Bytes} {n : ℕ} (h : front.length = n) (back : Bytes) (k : ℕ) :
    (front ++ back).drop (k + n) = back.drop k := by
  rw [Nat.add_comm, ← List.drop_drop, List.drop_left' h]

theorem readU32_behind {front : Bytes} {n : ℕ} (h : front.length = n) (back : Bytes) (k : ℕ) :
    readU32 (front ++ back) (k + n) = readU32 back k := by
  rw [readU32, drop_behind h, readU32]

/-- An image that has been read. -/
structure Unpacked where
  kernel : Bytes
  ramdisk : Bytes
  rest : Bytes
  cmdline : Bytes
  deriving DecidableEq, Repr

/-- Reading an image: the sizes stand in the header, and the sections at consecutive pages. -/
def unpack (data : Bytes) : Unpacked :=
  let v2 := readU32 data 40 = 2
  let kernelSize := readU32 data 8
  let ramdiskSize := readU32 data (if v2 then 16 else 12)
  let ramdiskStart := bootPageSize + BootImage.alignedSize kernelSize
  { kernel := (data.drop bootPageSize).take kernelSize
    ramdisk := (data.drop ramdiskStart).take ramdiskSize
    rest := data.drop (ramdiskStart + BootImage.alignedSize ramdiskSize)
    cmdline := (data.drop (if v2 then 64 else 44)).take (if v2 then 512 else 1536) }

namespace BootImage

/-- What a reader finds in the header of an image, whatever stands behind the header. -/
structure HeaderReads (img : BootImage) (data : Bytes) (ramdiskOff cmdlineOff : ℕ) (number : ℕ)
    (field : Bytes) : Prop where
  kernelSize : readU32 data 8 = img.kernel.length % 2 ^ 32
  ramdiskSize : readU32 data ramdiskOff = img.ramdiskBytes.length % 2 ^ 32
  version : readU32 data 40 = number
  cmdline : (data.drop cmdlineOff).take field.length = field

theorem length_magic : bootMagic.length = 8 := rfl

theorem length_u32 (v : BitVec 32) : (u32Bytes v).length = 4 := rfl

theorem headerReads_v2 (img : BootImage) (back : Bytes) :
    img.HeaderReads (img.headerV2.bytes ++ back) 16 64 2 (List.replicate 512 0#8) := by
  simp only [BootImageHeaderV2.bytes, headerV2, List.append_assoc]
  refine ⟨?_, ?_, ?_, ?_⟩
  · rw [readU32_behind length_magic _ 0, readU32_here, BitVec.toNat_ofNat]
  · rw [readU32_behind length_magic _ 8, readU32_behind (length_u32 _) _ 4,
      readU32_behind (length_u32 _) _ 0, readU32_here, toNat_ramdiskSize]
  · rw [readU32_behind length_magic _ 32, readU32_behind (length_u32 _) _ 28,
      readU32_behind (length_u32 _) _ 24, readU32_behind (length_u32 _) _ 20,
      readU32_behind (length_u32 _) _ 16, readU32_behind (length_u32 _) _ 12,
      readU32_behind (length_u32 _) _ 8, readU32_behind (length_u32 _) _ 4,
      readU32_behind (length_u32 _) _ 0, readU32_here]
    rfl
  · rw [drop_behind length_magic _ 56, drop_behind (length_u32 _) _ 52,
      drop_behind (length_u32 _) _ 48, drop_behind (length_u32 _) _ 44,
      drop_behind (length_u32 _) _ 40, drop_behind (length_u32 _) _ 36,
      drop_behind (length_u32 _) _ 32, drop_behind (length_u32 _) _ 28,
      drop_behind (length_u32 _) _ 24, drop_behind (length_u32 _) _ 20,
      drop_behind (length_u32 _) _ 16, List.drop_left' List.length_replicate, List.take_left]

/-- The headers of the versions 3 and 4 begin alike. -/
theorem headerReads_v3 (img : BootImage) (headerSize version : BitVec 32) (field back : Bytes) :
    img.HeaderReads (bootMagic ++ (u32Bytes (BitVec.ofNat 32 img.kernel.length) ++
      (u32Bytes img.ramdiskSize ++ (u32Bytes 0#32 ++ (u32Bytes headerSize ++
      ((List.replicate 4 0#32).flatMap u32Bytes ++ (u32Bytes version ++ (field ++ back))))))))
      12 44 version.toNat field := by
  have hreserved : ((List.replicate 4 0#32).flatMap u32Bytes).length = 16 := rfl
  refine ⟨?_, ?_, ?_, ?_⟩
  · rw [readU32_behind length_magic _ 0, readU32_here, BitVec.toNat_ofNat]
  · rw [readU32_behind length_magic _ 4, readU32_behind (length_u32 _) _ 0, readU32_here,
      toNat_ramdiskSize]
  · rw [readU32_behind length_magic _ 32, readU32_behind (length_u32 _) _ 28,
      readU32_behind (length_u32 _) _ 24, readU32_behind (length_u32 _) _ 20,
      readU32_behind (length_u32 _) _ 16, readU32_behind hreserved _ 0, readU32_here]
  · rw [drop_behind length_magic _ 36, drop_behind (length_u32 _) _ 32,
      drop_behind (length_u32 _) _ 28, drop_behind (length_u32 _) _ 24,
      drop_behind (length_u32 _) _ 20, drop_behind hreserved _ 4,
      List.drop_left' (length_u32 _), List.take_left]

/-- The size of the field of the command line. -/
def cmdlineSize (img : BootImage) : ℕ :=
  match img.version with
  | .v2 => 512
  | .v3 | .v4 => 1536

theorem length_cmdlineField (n : ℕ) (cmdline : Bytes) : (cmdlineField n cmdline).length = n := by
  unfold cmdlineField
  dsimp only
  split
  · rw [List.length_append, List.length_take, List.length_drop, List.length_replicate]
    omega
  · exact List.length_replicate

/-- A command line that fits stands in its field, with zeros behind it. -/
theorem cmdlineField_eq {n : ℕ} {cmdline : Bytes} (h : cmdline.length ≤ n) :
    cmdlineField n cmdline = cmdline ++ List.replicate (n - cmdline.length) 0#8 := by
  unfold cmdlineField
  dsimp only
  rw [Nat.min_eq_left h, List.take_length, List.drop_replicate]
  split
  · rfl
  · rename_i hnil
    rw [not_not.1 hnil]
    rfl

theorem length_u64 (v : BitVec 64) : (u64Bytes v).length = 8 := rfl

theorem length_flatMap_u32 (words : List (BitVec 32)) :
    (words.flatMap u32Bytes).length = 4 * words.length := by
  induction words with
  | nil => rfl
  | cons v words ih =>
      rw [List.flatMap_cons, List.length_append, ih, length_u32, List.length_cons]
      omega

/-- The sizes that the headers announce are their own. -/
theorem length_headers (img : BootImage) :
    img.headerV2.bytes.length = img.headerV2.headerSize.toNat ∧
      img.headerV3.bytes.length = img.headerV3.headerSize.toNat ∧
      img.headerV4.bytes.length = img.headerV4.headerSize.toNat := by
  simp only [BootImageHeaderV2.bytes, BootImageHeaderV3.bytes, BootImageHeaderV4.bytes, headerV2,
    headerV3, headerV4, List.length_append, length_magic, length_u32, length_u64,
    List.length_replicate, length_flatMap_u32, length_cmdlineField, BitVec.toNat_ofNat]
  decide

/-- A whole image, for each version: a header of at most one page, and what it holds. -/
theorem pack_spec (img : BootImage) (hkernel : img.kernel ≠ [])
    (hmax : img.kernel.length ≤ maxKernelSize) :
    ∃ header, alignedSize header.length = bootPageSize ∧ img.pack = img.packWith header ∧
      ((img.version = .v2 ∧
        ∀ back, img.HeaderReads (header ++ back) 16 64 2 (List.replicate 512 0#8)) ∨
      (img.version ≠ .v2 ∧ ∃ number, number ≠ 2 ∧
        ∀ back, img.HeaderReads (header ++ back) 12 44 number
          (cmdlineField 1536 img.cmdline))) := by
  have hpage : ¬(bootPageSize = 0 ∨ bootPageSize &&& (bootPageSize - 1) ≠ 0) := by decide
  have hpack : img.pack = match img.version with
      | .v2 => img.packV2
      | .v3 => img.packV3
      | .v4 => img.packV4 := by
    rw [pack, if_neg hkernel, if_neg (not_lt.2 hmax), if_neg hpage]
  rw [hpack]
  cases img.version with
  | v2 =>
      refine ⟨img.headerV2.bytes, ?_, rfl, .inl ⟨rfl, img.headerReads_v2⟩⟩
      rw [img.length_headers.1]
      exact (by decide : alignedSize 1660 = bootPageSize)
  | v3 =>
      refine ⟨img.headerV3.bytes, ?_, rfl,
        .inr ⟨by decide, (3#32).toNat, by decide, fun back => ?_⟩⟩
      · rw [img.length_headers.2.1]
        exact (by decide : alignedSize 1580 = bootPageSize)
      · have h := img.headerReads_v3 1580#32 3#32 (cmdlineField 1536 img.cmdline) back
        simpa only [BootImageHeaderV3.bytes, headerV3, List.append_assoc] using h
  | v4 =>
      refine ⟨img.headerV4.bytes, ?_, rfl,
        .inr ⟨by decide, (4#32).toNat, by decide, fun back => ?_⟩⟩
      · rw [img.length_headers.2.2]
        exact (by decide : alignedSize 1584 = bootPageSize)
      · have h := img.headerReads_v3 1584#32 4#32 (cmdlineField 1536 img.cmdline)
          (u32Bytes 0#32 ++ back)
        simpa only [BootImageHeaderV4.bytes, headerV4, List.append_assoc] using h

/-! ### Reading an image back -/

/-- The image is packed into as many bytes as announced, and read back from them: the kernel, the
ramdisk, a section that starts with the device tree, and the command line with zeros behind it. -/
def Recoverable (img : BootImage) : Prop :=
  ∃ out, img.pack = .ok out ∧ out.length = img.totalSize ∧
    (unpack out).kernel = img.kernel ∧ (unpack out).ramdisk = img.ramdiskBytes ∧
    img.dtb <+: (unpack out).rest ∧
    (unpack out).cmdline =
      img.cmdline ++ List.replicate (img.cmdlineSize - img.cmdline.length) 0#8

/-- The sections behind a header. -/
def sections (img : BootImage) : Bytes :=
  alignToPage img.kernel ++ (alignToPage img.ramdiskBytes ++ alignToPage img.dtb)

theorem length_sections (img : BootImage) {header : Bytes}
    (h : alignedSize header.length = bootPageSize) :
    (alignToPage header ++ img.sections).length = img.totalSize := by
  rw [totalSize_eq, sections, List.length_append, List.length_append, List.length_append,
    length_alignToPage, length_alignToPage, length_alignToPage, length_alignToPage, h]

/-- A section at the front is read with its length. -/
theorem take_alignToPage (data back : Bytes) :
    (alignToPage data ++ back).take data.length = data := by
  obtain ⟨pad, hpad⟩ := prefix_alignToPage data
  rw [← hpad, List.append_assoc, List.take_left]

/-- The sections that a reader finds. -/
theorem unpack_sections (img : BootImage) {header field : Bytes} {ramdiskOff cmdlineOff number : ℕ}
    (hmax : img.kernel.length ≤ maxKernelSize) (hheader : alignedSize header.length = bootPageSize)
    (hv2 : number = 2 ∧ ramdiskOff = 16 ∧ cmdlineOff = 64 ∧ field.length = 512 ∨
      number ≠ 2 ∧ ramdiskOff = 12 ∧ cmdlineOff = 44 ∧ field.length = 1536)
    (hreads : ∀ back, img.HeaderReads (header ++ back) ramdiskOff cmdlineOff number field) :
    (unpack (alignToPage header ++ img.sections)).kernel = img.kernel ∧
      ((unpack (alignToPage header ++ img.sections)).ramdisk = img.ramdiskBytes ↔
        img.ramdiskBytes.length < 2 ^ 32) ∧
      (img.ramdiskBytes.length < 2 ^ 32 →
        (unpack (alignToPage header ++ img.sections)).rest = alignToPage img.dtb) ∧
      (unpack (alignToPage header ++ img.sections)).cmdline = field := by
  have hread : img.HeaderReads (alignToPage header ++ img.sections) ramdiskOff cmdlineOff number
      field := by
    obtain ⟨pad, hpad⟩ := prefix_alignToPage header
    rw [← hpad, List.append_assoc]
    exact hreads _
  have hlen : (alignToPage header).length = bootPageSize := by rw [length_alignToPage, hheader]
  have hkernel : img.kernel.length % 2 ^ 32 = img.kernel.length :=
    Nat.mod_eq_of_lt (lt_of_le_of_lt hmax (by decide))
  -- what the reader makes of the header, whichever version it is
  have heq : unpack (alignToPage header ++ img.sections) =
      { kernel := img.sections.take img.kernel.length
        ramdisk := (alignToPage img.ramdiskBytes ++ alignToPage img.dtb).take
          (img.ramdiskBytes.length % 2 ^ 32)
        rest := (alignToPage img.ramdiskBytes ++ alignToPage img.dtb).drop
          (alignedSize (img.ramdiskBytes.length % 2 ^ 32))
        cmdline := field } := by
    have hfirst : (alignToPage header ++ img.sections).drop bootPageSize = img.sections :=
      List.drop_left' hlen
    have hsecond : (alignToPage header ++ img.sections).drop
        (bootPageSize + alignedSize img.kernel.length) =
          alignToPage img.ramdiskBytes ++ alignToPage img.dtb := by
      rw [← List.drop_drop, hfirst, sections, List.drop_left' (length_alignToPage _)]
    have hcmdline := hread.cmdline
    have hramdisk := hread.ramdiskSize
    rw [unpack, hread.version, hread.kernelSize, hkernel]
    rcases hv2 with ⟨hnumber, rfl, rfl, hfield⟩ | ⟨hnumber, rfl, rfl, hfield⟩
    · rw [hfield] at hcmdline
      simp only [if_pos hnumber, hramdisk, hfirst, ← List.drop_drop, hsecond, hcmdline]
    · rw [hfield] at hcmdline
      simp only [if_neg hnumber, hramdisk, hfirst, ← List.drop_drop, hsecond, hcmdline]
  rw [heq]
  refine ⟨take_alignToPage _ _, ⟨fun hram => ?_, fun hlt => ?_⟩, fun hlt => ?_, rfl⟩
  · have hle := congrArg List.length hram
    dsimp only at hle
    rw [List.length_take] at hle
    have hmod := Nat.mod_lt img.ramdiskBytes.length (by decide : 0 < 2 ^ 32)
    omega
  · dsimp only
    rw [Nat.mod_eq_of_lt hlt, take_alignToPage]
  · dsimp only
    rw [Nat.mod_eq_of_lt hlt, List.drop_left' (length_alignToPage _)]

/-- Zeros are a command line with zeros behind it exactly if that is all zeros. -/
theorem zeros_eq_append_iff {n : ℕ} {cmdline : Bytes} (h : cmdline.length ≤ n) :
    List.replicate n 0#8 = cmdline ++ List.replicate (n - cmdline.length) 0#8 ↔
      ∀ b ∈ cmdline, b = 0#8 := by
  rw [eq_comm, List.eq_replicate_iff, List.length_append, List.length_replicate,
    Nat.add_sub_cancel' h]
  constructor
  · rintro ⟨-, hall⟩ b hb
    exact hall b (List.mem_append_left _ hb)
  · refine fun hall => ⟨rfl, fun b hb => ?_⟩
    rcases List.mem_append.1 hb with hmem | hmem
    · exact hall b hmem
    · exact List.eq_of_mem_replicate hmem

/-- Packing, and what is read back, for an image that the packers accept. -/
theorem recoverable_iff (img : BootImage) (hkernel : img.kernel ≠ [])
    (hmax : img.kernel.length ≤ maxKernelSize) (hcmdline : img.cmdline.length ≤ img.cmdlineSize) :
    img.Recoverable ↔ img.ramdiskBytes.length < 2 ^ 32 ∧
      (img.version = .v2 → ∀ b ∈ img.cmdline, b = 0#8) := by
  obtain ⟨header, hheader, hpack, hversion⟩ := img.pack_spec hkernel hmax
  rw [packWith_eq] at hpack
  change img.pack = .ok (alignToPage header ++ img.sections) at hpack
  -- the field of the command line as the header has it
  obtain ⟨field, hfield, hunpack⟩ : ∃ field,
      (field = img.cmdline ++ List.replicate (img.cmdlineSize - img.cmdline.length) 0#8 ↔
        (img.version = .v2 → ∀ b ∈ img.cmdline, b = 0#8)) ∧
      (unpack (alignToPage header ++ img.sections)).kernel = img.kernel ∧
      ((unpack (alignToPage header ++ img.sections)).ramdisk = img.ramdiskBytes ↔
        img.ramdiskBytes.length < 2 ^ 32) ∧
      (img.ramdiskBytes.length < 2 ^ 32 →
        (unpack (alignToPage header ++ img.sections)).rest = alignToPage img.dtb) ∧
      (unpack (alignToPage header ++ img.sections)).cmdline = field := by
    rcases hversion with ⟨hv, hreads⟩ | ⟨hv, number, hnumber, hreads⟩
    · have hsize : img.cmdlineSize = 512 := by rw [cmdlineSize, hv]
      refine ⟨_, ?_, img.unpack_sections hmax hheader
        (.inl ⟨rfl, rfl, rfl, List.length_replicate⟩) hreads⟩
      rw [hsize] at hcmdline ⊢
      rw [zeros_eq_append_iff hcmdline]
      exact ⟨fun hall _ => hall, fun hall => hall hv⟩
    · have hsize : img.cmdlineSize = 1536 := by
        rw [cmdlineSize]
        cases hcase : img.version with
        | v2 => exact absurd hcase hv
        | v3 | v4 => rfl
      refine ⟨_, ?_, img.unpack_sections hmax hheader
        (.inr ⟨hnumber, rfl, rfl, length_cmdlineField _ _⟩) hreads⟩
      rw [hsize] at hcmdline ⊢
      exact iff_of_true (cmdlineField_eq hcmdline) fun hv2 => absurd hv2 hv
  obtain ⟨hker, hram, hrest, hcmd⟩ := hunpack
  constructor
  · rintro ⟨out, hout, -, -, hramdisk, -, hline⟩
    rw [hpack] at hout
    cases hout
    exact ⟨hram.1 hramdisk, hfield.1 (hcmd.symm.trans hline)⟩
  · rintro ⟨hlt, hzero⟩
    refine ⟨_, hpack, img.length_sections hheader, hker, hram.2 hlt, ?_,
      hcmd.trans (hfield.2 hzero)⟩
    rw [hrest hlt]
    exact prefix_alignToPage _

end BootImage

/-- **An image with a kernel of 1 byte to 64 MiB and a command line that fits is read back from its
bytes exactly if the ramdisk has less than 4 GiB and a version 2 image has no command line but
zeros.** -/
theorem bootImage_recoverable_iff (img : BootImage) (hpos : 1 ≤ img.kernel.length)
    (hmax : img.kernel.length ≤ 64 * 1024 * 1024)
    (hcmdline : img.cmdline.length ≤ img.cmdlineSize) :
    img.Recoverable ↔ img.ramdiskBytes.length < 2 ^ 32 ∧
      (img.version = .v2 → ∀ b ∈ img.cmdline, b = 0#8) :=
  img.recoverable_iff (fun h => by rw [h] at hpos; exact absurd hpos (by decide)) hmax hcmdline

/-- An image of version 4 with a kernel, a device tree and a command line of one byte each. -/
theorem bootImage_v4_recoverable :
    BootImage.Recoverable ⟨[1#8], [2#8], none, [3#8], .v4⟩ :=
  (bootImage_recoverable_iff ⟨[1#8], [2#8], none, [3#8], .v4⟩ (by decide) (by decide)
    (by decide)).2 ⟨by decide, fun h => by cases h⟩

/-- The same image of version 2 loses its command line. -/
theorem bootImage_v2_cmdline :
    ¬∀ img : BootImage, 1 ≤ img.kernel.length → img.kernel.length ≤ 64 * 1024 * 1024 →
      img.cmdline.length ≤ img.cmdlineSize → img.Recoverable := by
  intro hall
  have h := hall ⟨[1#8], [2#8], none, [3#8], .v2⟩ (by decide) (by decide) (by decide)
  rw [BootImage.recoverable_iff _ (by decide) (by decide) (by decide)] at h
  exact absurd (h.2 rfl 3#8 List.mem_cons_self) (by decide)

end StarOS
