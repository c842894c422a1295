/-
Where the parser of device trees reads.

Every token, node name and property name is read inside the blob, whatever the structure and the
strings hold.  The data of a property is not: the length in its record is used as it is.  So the
slices of `read_property` and the copies of `get_all_properties` lie in the blob exactly if the
records do that a walk meets in a node, before its first subnode and its end, and whose names can be
read.

* `StarOS.Reads.Logs` — a condition on all that is read for a result;
* `StarOS.FdtParser.readToken_logs` and its like — the helpers read inside the blob;
* `StarOS.FdtParser.Walks` — the positions of a walk;
* `StarOS.FdtParser.StaysInside` — reads, slices and copies are inside the blob;
* `StarOS.FdtParser.RecordsInside` — the condition on the blob;
* `StarOS.fdt_staysInside_iff` — the one holds exactly if the other does;
* `StarOS.fdt_slice_leaves_blob` — a blob that is accepted, and a slice that leaves it.
-/

import StarOS.FdtParser

set_option autoImplicit false

namespace StarOS

open Loops

/-! ### What is read for a result -/

namespace Reads

variable {α β : Type} {Q : Span → Prop}

/-- All that was read satisfies a condition. -/
def Logs (Q : Span → Prop) (x : Reads α) : Prop := ∀ s ∈ x.2, Q s

theorem logs_pure (a : α) : (Reads.pure a).Logs Q := fun _ hs => absurd hs List.not_mem_nil

theorem logs_fail (e : KernelError) : (Reads.fail e : Reads α).Logs Q :=
  fun _ hs => absurd hs List.not_mem_nil

theorem logs_ofSpan {s : Span} (a : α) (h : Q s) : (Reads.ofSpan s a).Logs Q := fun r hr => by
  rw [List.mem_singleton.1 hr]
  exact h

theorem logs_bind {x : Reads α} {f : α → Reads β} (hx : x.Logs Q)
    (hf : ∀ a, x.1 = .ok a → (f a).Logs Q) : (x >>= f).Logs Q := by
  intro s hs
  change s ∈ (Reads.bind x f).2 at hs
  rw [Reads.bind] at hs
  split at hs
  · rename_i a ha
    exact (List.mem_append.1 hs).elim (hx s) (hf a ha s)
  · exact hx s hs

theorem bind_eq_ok {x : Reads α} {f : α → Reads β} {b : β} :
    (x >>= f).1 = .ok b ↔ ∃ a, x.1 = .ok a ∧ (f a).1 = .ok b := by
  change (Reads.bind x f).1 = .ok b ↔ _
  rw [Reads.bind]
  split
  · rename_i a ha
    rw [ha]
    constructor
    · exact fun h => ⟨a, rfl, h⟩
    · rintro ⟨a', ha', h⟩
      cases ha'
      exact h
  · rename_i e he
    rw [he]
    constructor
    · intro h
      cases h
    · rintro ⟨a', ha', _⟩
      cases ha'

end Reads

namespace FdtParser

open Reads

variable {p : FdtParser} {mem : Mem} {addr left len n offset : ℕ}

/-! ### The helpers read inside the blob -/

theorem readU32_logs : (p.readU32 mem addr).Logs p.Inside := by
  rw [readU32]
  split
  · exact logs_fail _
  · rename_i h
    rw [not_or, not_lt, not_lt] at h
    exact logs_ofSpan _ h

theorem readByte_logs (h : p.base ≤ addr) : (p.readByte mem addr).Logs p.Inside := by
  rw [readByte]
  split
  · exact logs_fail _
  · rename_i hlt
    exact logs_ofSpan _ ⟨h, not_le.1 hlt⟩

theorem lt_of_readByte {byte : BitVec 8} (h : (p.readByte mem addr).1 = .ok byte) :
    addr < p.blobEnd := by
  rw [readByte] at h
  split at h
  · cases h
  · rename_i hlt
    exact not_le.1 hlt

theorem scanString_logs (h : p.base ≤ addr) :
    (p.scanString mem addr left len).Logs p.Inside := by
  have hbyte : ∀ len, (p.readByte mem (addr + len)).Logs p.Inside := fun len =>
    readByte_logs (Nat.le_add_right_of_le h)
  induction left generalizing len with
  | zero =>
      rw [scanString]
      refine logs_bind (hbyte len) fun byte _ => ?_
      split
      · exact logs_pure _
      · exact logs_fail _
  | succ left ih =>
      rw [scanString]
      refine logs_bind (hbyte len) fun byte _ => ?_
      split
      · exact logs_pure _
      · exact ih

/-- A string that was found ends in the blob. -/
theorem lt_of_scanString (h : (p.scanString mem addr left len).1 = .ok n) :
    addr + n < p.blobEnd := by
  induction left generalizing len with
  | zero =>
      rw [scanString] at h
      obtain ⟨byte, hbyte, h⟩ := bind_eq_ok.1 h
      split at h
      · cases h
        exact lt_of_readByte hbyte
      · cases h
  | succ left ih =>
      rw [scanString] at h
      obtain ⟨byte, hbyte, h⟩ := bind_eq_ok.1 h
      split at h
      · cases h
        exact lt_of_readByte hbyte
      · exact ih h

theorem readString_logs : (p.readString mem addr).Logs p.Inside := by
  rw [readString]
  split
  · exact logs_fail _
  · rename_i h
    refine logs_bind (scanString_logs (not_lt.1 h)) fun n hn => ?_
    refine logs_bind (logs_ofSpan _ ⟨not_lt.1 h, (lt_of_scanString hn).le⟩) fun bytes _ => ?_
    split
    · exact logs_pure _
    · exact logs_fail _

theorem readToken_logs : (p.readToken mem offset).Logs p.Inside := by
  rw [readToken]
  refine logs_bind readU32_logs fun token _ => ?_
  split
  · exact logs_bind readString_logs fun _ _ => logs_pure _
  split
  · exact logs_pure _
  split
  · exact logs_bind readU32_logs fun _ _ => logs_bind readU32_logs fun _ _ => logs_pure _
  split
  · exact logs_pure _
  split <;> exact logs_pure _

/-! ### The positions of a walk -/

/-- The positions of a walk through the structure, whatever it looks for. -/
inductive Walks (p : FdtParser) (mem : Mem) : FdtPos → Prop
  | start : p.Walks mem ⟨0, [], 0, false⟩
  | token {pos pos' : FdtPos} {t : FdtToken} : p.Walks mem pos →
      p.structStart + pos.offset < p.structEnd → (p.readToken mem pos.offset).1 = .ok t →
      pos.next t = some pos' → p.Walks mem pos'

/-- The data of a property record at an offset. -/
def dataSpan (p : FdtParser) (offset len : ℕ) : Span := ⟨p.structStart + (offset + 12), len⟩

/-- Every property record that a walk meets in a node, before its first subnode and its end, and
whose name can be read, has its data inside the blob. -/
def RecordsInside (p : FdtParser) (mem : Mem) : Prop :=
  ∀ pos, p.Walks mem pos → pos.inNode = true → p.structStart + pos.offset < p.structEnd →
    ∀ len nameoff name, (p.readToken mem pos.offset).1 = .ok (.prop len nameoff) →
      (p.readString mem (p.stringsBase + nameoff)).1 = .ok name →
      p.Inside (p.dataSpan pos.offset len)

/-- All three walkers return and read inside the blob, and so lie the slices of `read_property` and
what `get_all_properties` copies. -/
structure StaysInside (p : FdtParser) (mem : Mem) : Prop where
  walk : ∀ {σ : Type} (callback : σ → Bytes → ℕ → ℕ → Except KernelError Bool × σ) (s : σ)
    (fuel : ℕ), p.header.sizeDtStruct < fuel → ∃ out,
      p.walkNodes mem fuel callback s = some out ∧ ∀ r ∈ out.2, p.Inside r
  slice : ∀ (nodePath propName : Bytes) (fuel : ℕ), p.header.sizeDtStruct < fuel → ∃ out,
    p.readProperty mem fuel nodePath propName = some out ∧ (∀ s, out.1 = some s → p.Inside s) ∧
      ∀ r ∈ out.2, p.Inside r
  copies : ∀ (nodePath : Bytes) (fuel : ℕ), p.header.sizeDtStruct < fuel → ∃ out,
    p.getAllProperties mem fuel nodePath = some out ∧ ∀ r ∈ out.2, p.Inside r

/-! ### Records inside keep the walkers inside -/

section seek

variable {α ρ : Type} {nodePath : Bytes} {onProp : α → Bytes → Span → Round α ρ × List Span}
  {finish : α → ρ} {P : ρ → Prop} {c : SeekState α} {pos : FdtPos}

/-- What a walker does with data inside the blob: it stays inside, and returns what it may. -/
def Keeps (p : FdtParser) (onProp : α → Bytes → Span → Round α ρ × List Span) (P : ρ → Prop) :
    Prop :=
  ∀ acc name data, p.Inside data →
    (∀ s ∈ (onProp acc name data).2, p.Inside s) ∧ ∀ r, (onProp acc name data).1 = .done r → P r

theorem seekProp_inside (hon : p.Keeps onProp P) {len nameoff : ℕ}
    (hdata : c.inTarget = true → ∀ name, (p.readString mem (p.stringsBase + nameoff)).1 = .ok name →
      p.Inside (p.dataSpan c.offset len)) :
    (∀ s ∈ (p.seekProp mem onProp c len nameoff).2, p.Inside s) ∧
      ∀ r, (p.seekProp mem onProp c len nameoff).1 = .done r → P r := by
  rw [seekProp]
  split
  · rename_i hin
    dsimp only
    split
    · exact ⟨readString_logs, fun r hr => by cases hr⟩
    · rename_i name hname
      obtain ⟨hlogs, hdone⟩ := hon c.acc name _ (hdata hin name hname)
      have hall : ∀ s ∈ (p.readString mem (p.stringsBase + nameoff)).2 ++
          (onProp c.acc name (p.dataSpan c.offset len)).2, p.Inside s := fun s hs =>
        (List.mem_append.1 hs).elim (readString_logs s) (hlogs s)
      split
      · exact ⟨hall, fun r hr => by cases hr⟩
      · rename_i r' hr'
        refine ⟨hall, fun r hr => ?_⟩
        cases hr
        exact hdone _ hr'
  · exact ⟨fun s hs => absurd hs List.not_mem_nil, fun r hr => by cases hr⟩

/-- One round at a position of the walk. -/
theorem seekRound_inside (hrec : p.RecordsInside mem) (hon : p.Keeps onProp P)
    (hfinish : ∀ acc, P (finish acc)) (hw : p.Walks mem pos) (hat : c.At pos)
    (haim : c.Aims nodePath pos) :
    (∀ s ∈ (p.seekRound mem nodePath onProp finish c).2, p.Inside s) ∧
      ∀ r, (p.seekRound mem nodePath onProp finish c).1 = .done r → P r := by
  have hfin : ∀ r, Round.done (σ := SeekState α) (finish c.acc) = .done r → P r := by
    rintro r hr
    cases hr
    exact hfinish c.acc
  rw [seekRound]
  split
  · rename_i hlt
    dsimp only
    split
    · exact ⟨readToken_logs, hfin⟩
    · rename_i t ht
      -- only at a property is anything read besides the token
      have hrest : (∀ s ∈ (p.seekToken mem nodePath onProp finish c t).2, p.Inside s) ∧
          ∀ r, (p.seekToken mem nodePath onProp finish c t).1 = .done r → P r := by
        have hnil : ∀ s ∈ ([] : List Span), p.Inside s := fun s hs => absurd hs List.not_mem_nil
        cases t with
        | beginNode name => exact ⟨hnil, fun r hr => by cases hr⟩
        | endNode =>
            rw [seekToken]
            split
            · exact ⟨hnil, hfin⟩
            · exact ⟨hnil, fun r hr => by cases hr⟩
        | prop len nameoff =>
            refine seekProp_inside hon fun hin name hname => ?_
            rw [haim, Bool.and_eq_true] at hin
            rw [hat.1] at hlt ht ⊢
            exact hrec pos hw hin.1 hlt len nameoff name ht hname
        | nop => exact ⟨hnil, fun r hr => by cases hr⟩
        | fin => exact ⟨hnil, hfin⟩
        | unknown => exact ⟨hnil, hfin⟩
      exact ⟨fun s hs => (List.mem_append.1 hs).elim (readToken_logs s) (hrest.1 s), hrest.2⟩
  · exact ⟨fun s hs => absurd hs List.not_mem_nil, hfin⟩

/-- A whole walk. -/
theorem seek_inside (hrec : p.RecordsInside mem) (hon : p.Keeps onProp P)
    (hfinish : ∀ acc, P (finish acc)) {acc : α} {fuel : ℕ} {out : ρ × List Span}
    (h : run (logged (p.seekRound mem nodePath onProp finish)) fuel (⟨0, [], 0, false, acc⟩, []) =
      some out) : P out.1 ∧ ∀ s ∈ out.2, p.Inside s := by
  refine run_logged_invariant
    (I := fun c => ∃ pos, p.Walks mem pos ∧ c.At pos ∧ c.Aims nodePath pos) ?_ ?_ ?_ ?_ h
  · rintro c ⟨pos, hw, hat, haim⟩
    exact (seekRound_inside hrec hon hfinish hw hat haim).1
  · rintro c c' ⟨pos, hw, hat, haim⟩ hround
    obtain ⟨hlt, t, pos', ht, hnext, hat', haim'⟩ := seekRound_more hat hround
    rw [hat.1] at hlt ht
    exact ⟨pos', hw.token hlt ht hnext, hat', haim' haim⟩
  · rintro c r ⟨pos, hw, hat, haim⟩ hround
    exact (seekRound_inside hrec hon hfinish hw hat haim).2 r hround
  · exact ⟨_, .start, ⟨rfl, rfl, rfl⟩, rfl⟩

end seek

/-- `walk_nodes` reads only tokens and names. -/
theorem walkNodes_inside {σ : Type} {callback : σ → Bytes → ℕ → ℕ → Except KernelError Bool × σ}
    {s : σ} {fuel : ℕ} {out : (Except KernelError Unit × σ) × List Span}
    (h : p.walkNodes mem fuel callback s = some out) : ∀ r ∈ out.2, p.Inside r := by
  refine (run_logged_invariant (I := fun _ => True) (P := fun _ => True) ?_ (fun _ _ _ _ => trivial)
    (fun _ _ _ _ => trivial) trivial h).2
  intro c _
  rw [walkRound]
  split
  · dsimp only
    split
    · exact readToken_logs
    · exact readToken_logs
  · exact fun s hs => absurd hs List.not_mem_nil

theorem staysInside_of_records (hrec : p.RecordsInside mem) : p.StaysInside mem where
  walk callback s fuel hfuel := by
    obtain ⟨out, h⟩ := Option.isSome_iff_exists.1 (walkNodes_isSome s hfuel)
    exact ⟨out, h, walkNodes_inside h⟩
  slice nodePath propName fuel hfuel := by
    obtain ⟨out, h⟩ := Option.isSome_iff_exists.1 (seek_isSome () hfuel)
    refine ⟨out, h, seek_inside (P := fun r => ∀ s, r = some s → p.Inside s) hrec ?_ ?_ h⟩
    · intro acc name data hdata
      rw [takeProperty]
      split
      · refine ⟨fun s hs => absurd hs List.not_mem_nil, fun r hr s hs => ?_⟩
        cases hr
        cases hs
        exact hdata
      · exact ⟨fun s hs => absurd hs List.not_mem_nil, fun r hr => by cases hr⟩
    · exact fun _ s hs => absurd hs.symm (Option.some_ne_none s)
  copies nodePath fuel hfuel := by
    obtain ⟨out, h⟩ := Option.isSome_iff_exists.1 (seek_isSome [] hfuel)
    refine ⟨out, h, (seek_inside (P := fun _ => True) hrec ?_ (fun _ => trivial) h).2⟩
    intro acc name data hdata
    refine ⟨fun s hs => ?_, fun _ _ => trivial⟩
    rw [List.mem_singleton.1 hs]
    exact hdata

/-! ### A record outside is copied -/

/-- `get_all_properties` goes on at every token that a walk goes on at. -/
theorem copy_visits (nodePath : Bytes) {pos : FdtPos} (hw : p.Walks mem pos) :
    ∃ c, Visits (fun c => (p.seekRound mem nodePath (copyProperty mem) id c).1)
      ⟨0, [], 0, false, []⟩ c ∧ c.At pos ∧ c.Aims nodePath pos := by
  induction hw with
  | start => exact ⟨_, .refl, ⟨rfl, rfl, rfl⟩, rfl⟩
  | @token pos pos' t hw hlt ht hnext ih =>
      obtain ⟨c, hvisits, hat, haim⟩ := ih
      have hmore : ∃ c', (p.seekRound mem nodePath (copyProperty mem) id c).1 = .more c' := by
        rw [← hat.1] at hlt ht
        rw [seekRound, if_pos hlt]
        dsimp only
        rw [ht]
        dsimp only
        cases t with
        | beginNode name => exact ⟨_, rfl⟩
        | endNode =>
            have hdepth : c.depth ≠ 0 := fun h0 => by
              rw [FdtPos.next, if_pos (hat.2.2 ▸ h0)] at hnext
              exact absurd hnext.symm (Option.some_ne_none _)
            rw [seekToken, if_neg hdepth]
            exact ⟨_, rfl⟩
        | prop len nameoff =>
            rw [seekToken, seekProp]
            split
            · dsimp only
              split <;> exact ⟨_, rfl⟩
            · exact ⟨_, rfl⟩
        | nop => exact ⟨_, rfl⟩
        | fin => exact absurd hnext.symm (Option.some_ne_none _)
        | unknown => exact absurd hnext.symm (Option.some_ne_none _)
      obtain ⟨c', hc'⟩ := hmore
      obtain ⟨_, t', pos'', ht', hnext', hat', haim'⟩ := seekRound_more hat hc'
      rw [hat.1, ht] at ht'
      cases ht'
      rw [hnext] at hnext'
      cases hnext'
      exact ⟨c', hvisits.more hc', hat', haim' haim⟩

theorem records_of_staysInside (h : p.StaysInside mem) : p.RecordsInside mem := by
  intro pos hw hin hlt len nameoff name ht hname
  obtain ⟨c, hvisits, hat, haim⟩ := copy_visits pos.path hw
  obtain ⟨out, hout, hinside⟩ := h.copies pos.path _ (Nat.lt_succ_self p.header.sizeDtStruct)
  refine hinside _ (hvisits.logged hout _ ?_)
  -- the round at the record copies its data
  have htarget : c.inTarget = true := by
    rw [haim, hin, Bool.true_and, beq_self_eq_true]
  rw [← hat.1] at hlt ht
  rw [seekRound, if_pos hlt]
  dsimp only
  rw [ht, ← hat.1]
  refine List.mem_append_right _ ?_
  rw [seekToken, seekProp, if_pos htarget]
  dsimp only
  rw [hname]
  exact List.mem_append_right _ (List.mem_singleton.2 rfl)

end FdtParser

/-- The parser stays inside the blob exactly if the records do. -/
theorem fdt_staysInside_iff (p : FdtParser) (mem : Mem) :
    p.StaysInside mem ↔ p.RecordsInside mem :=
  ⟨FdtParser.records_of_staysInside, FdtParser.staysInside_of_records⟩

/-- A blob of 64 bytes: a node `a` with a property `reg` whose record says that its data is 64 KiB
long. -/
def overlongBlob : Bytes :=
  [fdtMagic, 64, 40, 60, 0, 17, 16, 0, 4, 20].flatMap (beBytes 4) ++
    ([fdtBeginNode, 0x61000000, fdtProp, 0x10000, 0].flatMap (beBytes 4) ++ beBytes 4 0x72656700)

/-- The blob is accepted, and the slice of the property leaves it. -/
theorem fdt_slice_leaves_blob : ∃ mem addr p, FdtParser.new mem addr = .ok p ∧
    (∃ s log, p.readProperty mem 21 [0x61#8] [0x72#8, 0x65#8, 0x67#8] = some (some s, log) ∧
      p.blobEnd < s.addr + s.len) ∧ ¬ p.StaysInside mem := by
  have hnew : FdtParser.new (memOf 4096 overlongBlob) 4096 =
      .ok ⟨4096, ⟨fdtMagic, 64, 40, 60, 0, 17, 16, 0, 4, 20⟩⟩ := by decide +kernel
  have hslice : ((FdtParser.mk 4096 ⟨fdtMagic, 64, 40, 60, 0, 17, 16, 0, 4, 20⟩).readProperty
      (memOf 4096 overlongBlob) 21 [0x61#8] [0x72#8, 0x65#8, 0x67#8]).map Prod.fst =
      some (some ⟨4156, 0x10000⟩) := by decide +kernel
  obtain ⟨⟨r, log⟩, hread, rfl⟩ := Option.map_eq_some_iff.1 hslice
  have hend : 4096 + 64 < 4156 + 0x10000 := by decide
  refine ⟨_, _, _, hnew, ⟨_, log, hread, hend⟩, fun h => ?_⟩
  obtain ⟨out, hout, hinside, _⟩ := h.slice [0x61#8] [0x72#8, 0x65#8, 0x67#8] 21 (by decide)
  rw [hread] at hout
  cases hout
  exact absurd (hinside _ rfl).2 (not_le.2 hend)

end StarOS
