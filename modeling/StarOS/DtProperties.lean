/-
Cells of device-tree properties (`devicetree/properties.rs`): `parse_reg` and `parse_ranges`.

Both take the size of an entry as a divisor before they look at the cell counts.  A count that is
not 1 or 2 is an error of `parse_cells`, but when all counts are 0 the division comes first.

* `StarOS.parseCells`, `StarOS.parseEntries`, `StarOS.parseReg`, `StarOS.parseRanges` — the parsers;
* `StarOS.encodeEntry`, `StarOS.FitsCells` — the bytes of an entry, and values that the cells hold;
* `StarOS.RegLaw`, `StarOS.RangesLaw` — what the parsers should do;
* `StarOS.deviceTree_cells_iff` — when they do.
-/

import StarOS.Error
import StarOS.Loops
import StarOS.OfAddress

set_option autoImplicit false

namespace StarOS

/-! ### The parsers -/

/-- `parse_cells`.  There is no result if an index is out of range. -/
def parseCells (data : Bytes) (cells : ℕ) : Option (Except KernelError (BitVec 64)) :=
  if cells = 0 ∨ 2 < cells then some (.error .invalidAddress)
  else if data.length < cells * 4 then some (.error .invalidAddress)
  else
    ((List.range cells).foldlM (fun (result : BitVec 64) i =>
      (byteSlice data (i * 4) (i * 4 + 4)).map fun cell =>
        (result <<< 32) ||| BitVec.ofNat 64 (beNat cell)) 0#64).map .ok

/-- The fields of an entry from an offset on, one for each cell count, and the offset behind them.
-/
def parseFields (prop : Bytes) :
    List ℕ → ℕ → Option (Except KernelError (List (BitVec 64) × ℕ))
  | [], offset => some (.ok ([], offset))
  | cells :: widths, offset =>
      -- `&prop[offset..]`
      match byteSlice prop offset prop.length with
      | none => none
      | some rest =>
          match parseCells rest cells with
          | none => none
          | some (.error e) => some (.error e)
          | some (.ok value) =>
              (parseFields prop widths (offset + cells * 4)).map
                (Except.map fun (values, offset) => (value :: values, offset))

/-- A round of the loop over the entries. -/
def entriesRound (prop : Bytes) (widths : List ℕ) (s : ℕ × List (List (BitVec 64))) :
    Loops.Round (ℕ × List (List (BitVec 64)))
      (Option (Except KernelError (List (List (BitVec 64))))) :=
  if s.1 < prop.length then
    match parseFields prop widths s.1 with
    | none => .done none
    | some (.error e) => .done (some (.error e))
    | some (.ok (values, offset)) => .more (offset, s.2 ++ [values])
  else .done (some (.ok s.2))

/-- What `parse_reg` and `parse_ranges` do.  There is no result if the size of an entry is zero: the
remainder panics.  The counts are 32 bits wide, so that no size wraps around. -/
def parseEntries (prop : Bytes) (widths : List ℕ) :
    Option (Except KernelError (List (List (BitVec 64)))) :=
  let entrySize := widths.sum * 4
  if entrySize = 0 then none
  else if prop.length % entrySize ≠ 0 then some (.error .invalidAddress)
  else (Loops.run (entriesRound prop widths) (prop.length + 1) (0, [])).join

/-- The pair of an entry of two fields. -/
def entryPair (values : List (BitVec 64)) : BitVec 64 × BitVec 64 :=
  (values.getD 0 0#64, values.getD 1 0#64)

/-- The triple of an entry of three fields. -/
def entryTriple (values : List (BitVec 64)) : BitVec 64 × BitVec 64 × BitVec 64 :=
  (values.getD 0 0#64, values.getD 1 0#64, values.getD 2 0#64)

/-- `parse_reg`. -/
def parseReg (prop : Bytes) (addressCells sizeCells : ℕ) :
    Option (Except KernelError (List (BitVec 64 × BitVec 64))) :=
  (parseEntries prop [addressCells, sizeCells]).map (Except.map (List.map entryPair))

/-- `parse_ranges`. -/
def parseRanges (prop : Bytes) (childAddrCells addrCells sizeCells : ℕ) :
    Option (Except KernelError (List (BitVec 64 × BitVec 64 × BitVec 64))) :=
  if prop = [] then some (.ok [])
  else
    (parseEntries prop [childAddrCells, addrCells, sizeCells]).map
      (Except.map (List.map entryTriple))

/-! ### Encodings -/

/-- The bytes of an entry. -/
def encodeEntry : List ℕ → List (BitVec 64) → Bytes
  | cells :: widths, value :: values => beBytes (4 * cells) value.toNat ++ encodeEntry widths values
  | _, _ => []

/-- The values of an entry fit into its cells. -/
def FitsCells (widths : List ℕ) (values : List (BitVec 64)) : Prop :=
  List.Forall₂ (fun cells value => value.toNat < 2 ^ (32 * cells)) widths values

theorem length_encodeEntry {widths : List ℕ} {values : List (BitVec 64)}
    (h : FitsCells widths values) : (encodeEntry widths values).length = widths.sum * 4 := by
  induction h with
  | nil => rfl
  | cons _ _ ih =>
      rw [encodeEntry, List.length_append, length_beBytes, ih, List.sum_cons]
      omega

/-- Two numbers that fit have different bytes. -/
theorem toNat_inj_of_beBytes {n : ℕ} {v v' : BitVec 64} (hv : v.toNat < 256 ^ n)
    (hv' : v'.toNat < 256 ^ n) (h : beBytes n v.toNat = beBytes n v'.toNat) : v = v' := by
  have hnat := congrArg beNat h
  rw [beNat_beBytes, beNat_beBytes, Nat.mod_eq_of_lt hv, Nat.mod_eq_of_lt hv'] at hnat
  exact BitVec.eq_of_toNat_eq hnat

theorem encodeEntry_inj {widths : List ℕ} {values values' : List (BitVec 64)}
    (h : FitsCells widths values) (h' : FitsCells widths values')
    (heq : encodeEntry widths values = encodeEntry widths values') : values = values' := by
  induction h generalizing values' with
  | nil =>
      cases h'
      rfl
  | cons hv hrest ih =>
      cases h' with
      | cons hv' hrest' =>
          rw [encodeEntry, encodeEntry] at heq
          obtain ⟨hhead, htail⟩ := List.append_inj heq (by rw [length_beBytes, length_beBytes])
          rw [← pow_cells] at hv hv'
          rw [toNat_inj_of_beBytes hv hv' hhead, ih hrest' htail]

/-- The bytes of a number of a string of bytes are that string. -/
theorem beBytes_beNat (bytes : Bytes) : beBytes bytes.length (beNat bytes) = bytes := by
  induction bytes using List.reverseRecOn with
  | nil => rfl
  | append_singleton bytes b ih =>
      have hb := b.isLt
      have hdiv : (beNat bytes * 256 + b.toNat) / 256 = beNat bytes := by omega
      have hlast : BitVec.ofNat 8 (beNat bytes * 256 + b.toNat) = b := by
        refine BitVec.eq_of_toNat_eq ?_
        rw [BitVec.toNat_ofNat]
        omega
      rw [List.length_append, List.length_singleton, beBytes, beNat_append, beNat_singleton,
        List.length_singleton, Nat.pow_one, hdiv, ih, hlast]

/-! ### Cells -/

/-- The loop of `parse_cells` reads the number in the first cells. -/
theorem parseCells_loop {data : Bytes} {cells : ℕ} (h : cells * 4 ≤ data.length) :
    (List.range cells).foldlM (fun (result : BitVec 64) i =>
      (byteSlice data (i * 4) (i * 4 + 4)).map fun cell =>
        (result <<< 32) ||| BitVec.ofNat 64 (beNat cell)) 0#64 =
      some (ofReadNumber data cells) := by
  induction cells with
  | zero => rfl
  | succ cells ih =>
      have hslice : byteSlice data (cells * 4) (cells * 4 + 4) =
          some ((data.drop (cells * 4)).take 4) := by
        rw [byteSlice, if_pos (by omega), List.drop_take, Nat.add_sub_cancel_left]
      have hread : ofReadNumber data (cells + 1) =
          (ofReadNumber data cells <<< 32) |||
            BitVec.ofNat 64 (beNat ((data.drop (cells * 4)).take 4)) := by
        rw [ofReadNumber, List.range_succ, List.foldl_append, List.foldl_cons, List.foldl_nil,
          if_pos (by omega), ofReadNumber]
      rw [List.range_succ, List.foldlM_append, ih (by omega)]
      change (byteSlice data (cells * 4) (cells * 4 + 4)).map _ >>= pure = _
      rw [hslice, hread]
      rfl

/-- `parse_cells` reads one or two cells if they are there, and refuses everything else. -/
theorem parseCells_eq (data : Bytes) (cells : ℕ) :
    parseCells data cells =
      if (cells = 1 ∨ cells = 2) ∧ cells * 4 ≤ data.length then
        some (.ok (BitVec.ofNat 64 (beNat (data.take (4 * cells)))))
      else some (.error .invalidAddress) := by
  unfold parseCells
  by_cases hcells : cells = 0 ∨ 2 < cells
  · rw [if_pos hcells, if_neg (by omega)]
  · by_cases hlen : data.length < cells * 4
    · rw [if_neg hcells, if_pos hlen, if_neg (by omega)]
    · rw [if_neg hcells, if_neg hlen, if_pos (by omega), parseCells_loop (not_lt.1 hlen),
        ofReadNumber_eq (by omega)]
      rfl

/-! ### Fields -/

/-- From an offset inside the property, the fields are refused or read to an offset inside. -/
theorem parseFields_total (prop : Bytes) (widths : List ℕ) {offset : ℕ}
    (h : offset ≤ prop.length) :
    (∃ e, parseFields prop widths offset = some (.error e)) ∨
      ∃ values, parseFields prop widths offset = some (.ok (values, offset + widths.sum * 4)) ∧
        offset + widths.sum * 4 ≤ prop.length := by
  induction widths generalizing offset with
  | nil => exact .inr ⟨[], by rw [parseFields]; rfl, h⟩
  | cons cells widths ih =>
      have hslice : byteSlice prop offset prop.length = some (prop.drop offset) := by
        rw [byteSlice, if_pos ⟨h, le_rfl⟩, List.take_length]
      rw [parseFields, hslice]
      dsimp only
      rw [parseCells_eq, List.length_drop]
      by_cases hcells : (cells = 1 ∨ cells = 2) ∧ cells * 4 ≤ prop.length - offset
      · rw [if_pos hcells]
        dsimp only
        rcases ih (by omega : offset + cells * 4 ≤ prop.length) with ⟨e, heq⟩ | ⟨values, heq, hle⟩
        · exact .inl ⟨e, by rw [heq]; rfl⟩
        · refine .inr
            ⟨BitVec.ofNat 64 (beNat ((prop.drop offset).take (4 * cells))) :: values, ?_, ?_⟩
          · rw [heq, List.sum_cons, Nat.add_mul, ← Nat.add_assoc]
            rfl
          · rw [List.sum_cons, Nat.add_mul]
            omega
      · rw [if_neg hcells]
        exact .inl ⟨_, rfl⟩

/-- Fields of one or two cells are read, and what is read is what they encode. -/
theorem parseFields_spec {widths : List ℕ} (hwidths : ∀ w ∈ widths, w = 1 ∨ w = 2)
    (front entry back : Bytes) (hentry : entry.length = widths.sum * 4) :
    ∃ values, parseFields (front ++ (entry ++ back)) widths front.length =
        some (.ok (values, front.length + widths.sum * 4)) ∧
      FitsCells widths values ∧ entry = encodeEntry widths values := by
  induction widths generalizing front entry with
  | nil =>
      rw [List.sum_nil, Nat.zero_mul] at hentry
      exact ⟨[], rfl, .nil, List.eq_nil_of_length_eq_zero hentry⟩
  | cons cells widths ih =>
      rw [List.sum_cons, Nat.add_mul] at hentry
      have hcells := hwidths cells List.mem_cons_self
      obtain ⟨cell, rest, rfl, hcell⟩ :
          ∃ cell rest, entry = cell ++ rest ∧ cell.length = 4 * cells :=
        ⟨entry.take (4 * cells), entry.drop (4 * cells), (List.take_append_drop _ _).symm,
          by rw [List.length_take]; omega⟩
      rw [List.length_append] at hentry
      obtain ⟨values, heq, hfits, hrest⟩ := ih (fun w hw => hwidths w (List.mem_cons_of_mem _ hw))
        (front ++ cell) rest (by omega)
      have hslice : byteSlice (front ++ (cell ++ rest ++ back)) front.length
          (front ++ (cell ++ rest ++ back)).length = some (cell ++ rest ++ back) := by
        rw [byteSlice, if_pos ⟨by rw [List.length_append]; omega, le_rfl⟩, List.take_length,
          List.drop_left]
      have hlt : beNat cell < 2 ^ (32 * cells) := by
        rw [← pow_cells, ← hcell]
        exact beNat_lt cell
      have hsmall : beNat cell < 2 ^ 64 := lt_of_lt_of_le hlt (pow_cells_le hcells)
      have htake : (cell ++ rest ++ back).take (4 * cells) = cell := by
        rw [List.append_assoc, List.take_left' hcell]
      have hparse : parseCells (cell ++ rest ++ back) cells =
          some (.ok (BitVec.ofNat 64 (beNat cell))) := by
        have hlen : cells * 4 ≤ (cell ++ rest ++ back).length := by
          rw [List.length_append, List.length_append]
          omega
        rw [parseCells_eq, if_pos ⟨hcells, hlen⟩, htake]
      have hval : (BitVec.ofNat 64 (beNat cell)).toNat = beNat cell := by
        rw [BitVec.toNat_ofNat, Nat.mod_eq_of_lt hsmall]
      refine ⟨BitVec.ofNat 64 (beNat cell) :: values, ?_, .cons ?_ hfits, ?_⟩
      · have hoffset : front.length + cells * 4 = (front ++ cell).length := by
          rw [List.length_append]
          omega
        have hdata : front ++ (cell ++ rest ++ back) = front ++ cell ++ (rest ++ back) := by
          simp only [List.append_assoc]
        rw [parseFields, hslice]
        dsimp only
        rw [hparse]
        dsimp only
        rw [hoffset, hdata, heq, ← hoffset, List.sum_cons, Nat.add_mul, ← Nat.add_assoc]
        rfl
      · rwa [hval]
      · rw [encodeEntry, hval, ← hcell, beBytes_beNat, ← hrest]

/-! ### Entries -/

/-- A round from an offset inside moves on to another one, or it ends the loop with a result. -/
theorem entriesRound_cases (prop : Bytes) {widths : List ℕ} (hsum : widths.sum ≠ 0)
    {s : ℕ × List (List (BitVec 64))} (hs : s.1 ≤ prop.length) :
    (∃ t, entriesRound prop widths s = .more t ∧ s.1 < t.1 ∧ t.1 ≤ prop.length) ∨
      ∃ r, entriesRound prop widths s = .done (some r) := by
  unfold entriesRound
  by_cases hlt : s.1 < prop.length
  · rw [if_pos hlt]
    rcases parseFields_total prop widths hs with ⟨e, heq⟩ | ⟨values, heq, hle⟩
    · rw [heq]
      exact .inr ⟨_, rfl⟩
    · rw [heq]
      exact .inl ⟨_, rfl, by dsimp only; omega, hle⟩
  · rw [if_neg hlt]
    exact .inr ⟨_, rfl⟩

/-- The loop ends with a result if an entry has a size. -/
theorem entries_run (prop : Bytes) {widths : List ℕ} (hsum : widths.sum ≠ 0) :
    ∃ r, Loops.run (entriesRound prop widths) (prop.length + 1) (0, []) = some (some r) := by
  have hmore : ∀ s t, s.1 ≤ prop.length → entriesRound prop widths s = .more t →
      s.1 < t.1 ∧ t.1 ≤ prop.length := by
    intro s t hs hround
    rcases entriesRound_cases prop hsum hs with ⟨t', ht', hmove⟩ | ⟨r, hr⟩
    · rw [ht'] at hround
      cases hround
      exact hmove
    · rw [hr] at hround
      cases hround
  have hdone : ∀ s r, s.1 ≤ prop.length → entriesRound prop widths s = .done r →
      ∃ r', r = some r' := by
    intro s r hs hround
    rcases entriesRound_cases prop hsum hs with ⟨t', ht', -⟩ | ⟨r', hr'⟩
    · rw [ht'] at hround
      cases hround
    · rw [hr'] at hround
      cases hround
      exact ⟨r', rfl⟩
  have hstart : ((0, []) : ℕ × List (List (BitVec 64))).1 ≤ prop.length := Nat.zero_le _
  have hsome := Loops.run_isSome_of (I := fun s => s.1 ≤ prop.length)
    (μ := fun s => prop.length - s.1) (n := prop.length + 1)
    (fun s t hs hround => (hmore s t hs hround).2)
    (fun s t hs hround => by
      have hmove := hmore s t hs hround
      omega) hstart (Nat.lt_succ_self _)
  obtain ⟨r, hr⟩ := Option.isSome_iff_exists.1 hsome
  obtain ⟨r', rfl⟩ := Loops.run_invariant (I := fun s => s.1 ≤ prop.length)
    (P := fun r => ∃ r', r = some r') (fun s t hs hround => (hmore s t hs hround).2) hdone hstart hr
  exact ⟨r', hr⟩

/-- `parse_reg` and `parse_ranges` return unless all counts are zero. -/
theorem parseEntries_isSome (prop : Bytes) (widths : List ℕ) :
    (∃ r, parseEntries prop widths = some r) ↔ widths.sum ≠ 0 := by
  unfold parseEntries
  dsimp only
  by_cases hsum : widths.sum = 0
  · rw [if_pos (by omega)]
    exact iff_of_false (fun ⟨_, h⟩ => by cases h) (not_not.2 hsum)
  · refine iff_of_true ?_ hsum
    rw [if_neg (by omega)]
    split
    · exact ⟨_, rfl⟩
    · obtain ⟨r, hr⟩ := entries_run prop hsum
      exact ⟨r, by rw [hr]; rfl⟩

/-- From an offset on, the loop reads entries of one and two cells as they are encoded. -/
theorem entries_returns {widths : List ℕ} (hwidths : ∀ w ∈ widths, w = 1 ∨ w = 2)
    (hsum : widths.sum ≠ 0) (k : ℕ) (front back : Bytes) (result : List (List (BitVec 64)))
    (hback : back.length = k * (widths.sum * 4)) :
    ∃ list, Loops.Returns (entriesRound (front ++ back) widths) (front.length, result)
        (some (.ok (result ++ list))) ∧
      (∀ values ∈ list, FitsCells widths values) ∧ back = list.flatMap (encodeEntry widths) := by
  induction k generalizing front back result with
  | zero =>
      rw [Nat.zero_mul] at hback
      obtain rfl := List.eq_nil_of_length_eq_zero hback
      refine ⟨[], .done ?_, fun _ h => absurd h List.not_mem_nil, rfl⟩
      rw [entriesRound, List.append_nil, if_neg (lt_irrefl _), List.append_nil]
  | succ k ih =>
      rw [Nat.succ_mul] at hback
      obtain ⟨entry, rest, rfl, hentry⟩ : ∃ entry rest, back = entry ++ rest ∧
          entry.length = widths.sum * 4 :=
        ⟨back.take (widths.sum * 4), back.drop (widths.sum * 4), (List.take_append_drop _ _).symm,
          by rw [List.length_take]; omega⟩
      rw [List.length_append] at hback
      obtain ⟨values, hfields, hfits, henc⟩ := parseFields_spec hwidths front entry rest hentry
      obtain ⟨list, hreturns, hall, hrest⟩ :=
        ih (front ++ entry) rest (result ++ [values]) (by omega)
      have hinside : front.length < (front ++ (entry ++ rest)).length := by
        rw [List.length_append, List.length_append]
        omega
      have hround : entriesRound (front ++ (entry ++ rest)) widths (front.length, result) =
          .more (front.length + widths.sum * 4, result ++ [values]) := by
        rw [entriesRound, if_pos hinside, hfields]
      refine ⟨values :: list, .more hround ?_, ?_, ?_⟩
      · rw [List.append_assoc, List.length_append, hentry, List.append_assoc] at hreturns
        exact hreturns
      · exact List.forall_mem_cons.2 ⟨hfits, hall⟩
      · rw [List.flatMap_cons, ← henc, ← hrest]

/-- Different lists of entries have different bytes. -/
theorem flatMap_encodeEntry_inj {widths : List ℕ} (hsum : widths.sum ≠ 0)
    {list list' : List (List (BitVec 64))} (h : ∀ values ∈ list, FitsCells widths values)
    (h' : ∀ values ∈ list', FitsCells widths values)
    (heq : list.flatMap (encodeEntry widths) = list'.flatMap (encodeEntry widths)) :
    list = list' := by
  induction list generalizing list' with
  | nil =>
      cases list' with
      | nil => rfl
      | cons values' list' =>
          have hlen := congrArg List.length heq
          rw [List.flatMap_cons, List.length_append,
            length_encodeEntry (h' values' List.mem_cons_self), List.flatMap_nil,
            List.length_nil] at hlen
          omega
  | cons values list ih =>
      have hvalues := h values List.mem_cons_self
      cases list' with
      | nil =>
          have hlen := congrArg List.length heq
          rw [List.flatMap_cons, List.length_append, length_encodeEntry hvalues, List.flatMap_nil,
            List.length_nil] at hlen
          omega
      | cons values' list' =>
          have hvalues' := h' values' List.mem_cons_self
          rw [List.flatMap_cons, List.flatMap_cons] at heq
          obtain ⟨hhead, htail⟩ := List.append_inj heq
            (by rw [length_encodeEntry hvalues, length_encodeEntry hvalues'])
          rw [encodeEntry_inj hvalues hvalues' hhead,
            ih (fun v hv => h v (List.mem_cons_of_mem _ hv))
              (fun v hv => h' v (List.mem_cons_of_mem _ hv)) htail]

/-- For counts of one and two, the parser returns exactly the list that the property encodes. -/
theorem parseEntries_ok_iff {widths : List ℕ} (hwidths : ∀ w ∈ widths, w = 1 ∨ w = 2)
    (hsum : widths.sum ≠ 0) (prop : Bytes) (list : List (List (BitVec 64))) :
    parseEntries prop widths = some (.ok list) ↔
      (∀ values ∈ list, FitsCells widths values) ∧ prop = list.flatMap (encodeEntry widths) := by
  have hlength : ∀ list : List (List (BitVec 64)), (∀ values ∈ list, FitsCells widths values) →
      (list.flatMap (encodeEntry widths)).length = list.length * (widths.sum * 4) := by
    intro list hall
    induction list with
    | nil => exact (Nat.zero_mul _).symm
    | cons values list ih =>
        rw [List.forall_mem_cons] at hall
        rw [List.flatMap_cons, List.length_append, length_encodeEntry hall.1, ih hall.2,
          List.length_cons, Nat.succ_mul, Nat.add_comm]
  by_cases hmod : prop.length % (widths.sum * 4) = 0
  · obtain ⟨r, hrun⟩ := entries_run prop hsum
    obtain ⟨k, hk⟩ := Nat.dvd_of_mod_eq_zero hmod
    obtain ⟨list', hreturns, hfits, hprop⟩ := entries_returns hwidths hsum k [] prop []
      (hk.trans (Nat.mul_comm _ _))
    have hr : some r = some (.ok list') := hreturns.eq hrun
    have hparse : parseEntries prop widths = some (.ok list') := by
      unfold parseEntries
      dsimp only
      rw [if_neg (by omega), if_neg (not_not.2 hmod), hrun, hr]
      rfl
    rw [hparse]
    constructor
    · intro h
      cases h
      exact ⟨hfits, hprop⟩
    · rintro ⟨hall, henc⟩
      rw [flatMap_encodeEntry_inj hsum hfits hall (hprop.symm.trans henc)]
  · have hparse : parseEntries prop widths = some (.error .invalidAddress) := by
      unfold parseEntries
      dsimp only
      rw [if_neg (by omega), if_pos hmod]
    rw [hparse]
    refine iff_of_false (fun h => by cases h) fun ⟨hall, henc⟩ => hmod ?_
    rw [henc, hlength list hall, Nat.mul_mod_left]

/-- The same for what is made of the entries, if each can be told from what is made of it. -/
theorem mapped_ok_iff {β : Type} {widths : List ℕ} (hwidths : ∀ w ∈ widths, w = 1 ∨ w = 2)
    (hsum : widths.sum ≠ 0) {make : List (BitVec 64) → β} (fields : β → List (BitVec 64))
    (hmake : ∀ b, make (fields b) = b)
    (hfields : ∀ values, FitsCells widths values → fields (make values) = values) (prop : Bytes)
    (list : List β) :
    (parseEntries prop widths).map (Except.map (List.map make)) = some (.ok list) ↔
      (∀ b ∈ list, FitsCells widths (fields b)) ∧
        prop = list.flatMap fun b => encodeEntry widths (fields b) := by
  constructor
  · intro h
    obtain ⟨r, hr, hmap⟩ := Option.map_eq_some_iff.1 h
    cases r with
    | error e => cases hmap
    | ok entries =>
        cases hmap
        obtain ⟨hall, hprop⟩ := (parseEntries_ok_iff hwidths hsum prop entries).1 hr
        have hsame : ∀ values ∈ entries, fields (make values) = values := fun values hv =>
          hfields values (hall values hv)
        refine ⟨List.forall_mem_map.2 fun values hv => ?_, ?_⟩
        · rw [hsame values hv]
          exact hall values hv
        · rw [hprop, List.flatMap_map]
          exact List.flatMap_congr fun values hv => by rw [hsame values hv]
  · rintro ⟨hall, hprop⟩
    have hparse := (parseEntries_ok_iff hwidths hsum prop (list.map fields)).2
      ⟨List.forall_mem_map.2 hall, by rw [hprop, List.flatMap_map]⟩
    have hlist : (list.map fields).map make = list := by
      rw [List.map_map]
      exact (List.map_congr_left fun b _ => hmake b).trans (List.map_id list)
    rw [hparse, Option.map_some, Except.map, hlist]

/-! ### The laws -/

/-- A property encodes a list of pairs of numbers in `a` and in `s` cells. -/
def RegEncodes (prop : Bytes) (a s : ℕ) (list : List (BitVec 64 × BitVec 64)) : Prop :=
  (∀ e ∈ list, e.1.toNat < 2 ^ (32 * a) ∧ e.2.toNat < 2 ^ (32 * s)) ∧
    prop = list.flatMap fun e => beBytes (4 * a) e.1.toNat ++ beBytes (4 * s) e.2.toNat

/-- A property encodes a list of triples of numbers in `c`, in `a` and in `s` cells. -/
def RangesEncodes (prop : Bytes) (c a s : ℕ) (list : List (BitVec 64 × BitVec 64 × BitVec 64)) :
    Prop :=
  (∀ e ∈ list, e.1.toNat < 2 ^ (32 * c) ∧ e.2.1.toNat < 2 ^ (32 * a) ∧
      e.2.2.toNat < 2 ^ (32 * s)) ∧
    prop = list.flatMap fun e => beBytes (4 * c) e.1.toNat ++
      (beBytes (4 * a) e.2.1.toNat ++ beBytes (4 * s) e.2.2.toNat)

/-- `parse_reg` returns, and for counts of one and two it returns the list that the property
encodes. -/
def RegLaw (prop : Bytes) (a s : ℕ) : Prop :=
  (∃ r, parseReg prop a s = some r) ∧
    ((a = 1 ∨ a = 2) → (s = 1 ∨ s = 2) → ∀ list,
      parseReg prop a s = some (.ok list) ↔ RegEncodes prop a s list)

/-- `parse_ranges` returns, and for counts of one and two it returns the list that the property
encodes. -/
def RangesLaw (prop : Bytes) (c a s : ℕ) : Prop :=
  (∃ r, parseRanges prop c a s = some r) ∧
    ((c = 1 ∨ c = 2) → (a = 1 ∨ a = 2) → (s = 1 ∨ s = 2) → ∀ list,
      parseRanges prop c a s = some (.ok list) ↔ RangesEncodes prop c a s list)

theorem exists_map_eq_some {α β : Type} (f : α → β) (o : Option α) :
    (∃ r, o.map f = some r) ↔ ∃ r, o = some r := by
  rw [← Option.isSome_iff_exists, Option.isSome_map, Option.isSome_iff_exists]

/-- `parse_reg` meets its law unless both counts are zero. -/
theorem regLaw_iff (prop : Bytes) (a s : ℕ) : RegLaw prop a s ↔ ¬(a = 0 ∧ s = 0) := by
  have hsum : [a, s].sum ≠ 0 ↔ ¬(a = 0 ∧ s = 0) := by
    rw [List.sum_cons, List.sum_singleton]
    omega
  have hsome : (∃ r, parseReg prop a s = some r) ↔ ¬(a = 0 ∧ s = 0) := by
    rw [← hsum, ← parseEntries_isSome prop]
    exact exists_map_eq_some _ _
  refine ⟨fun h => hsome.1 h.1, fun hzero => ⟨hsome.2 hzero, fun ha hs list => ?_⟩⟩
  have hwidths : ∀ w ∈ [a, s], w = 1 ∨ w = 2 :=
    List.forall_mem_cons.2 ⟨ha, List.forall_mem_singleton.2 hs⟩
  have hfields : ∀ values, FitsCells [a, s] values →
      [(entryPair values).1, (entryPair values).2] = values := by
    intro values hfits
    cases hfits with
    | cons _ hrest =>
        cases hrest with
        | cons _ hnil =>
            cases hnil
            rfl
  rw [parseReg, mapped_ok_iff hwidths (hsum.2 hzero) (fun e : BitVec 64 × BitVec 64 => [e.1, e.2])
    (fun _ => rfl) hfields]
  simp only [RegEncodes, FitsCells, List.forall₂_cons, List.Forall₂.nil, and_true, encodeEntry,
    List.append_nil]

/-- `parse_ranges` meets its law unless all counts are zero and the property is not empty. -/
theorem rangesLaw_iff (prop : Bytes) (c a s : ℕ) :
    RangesLaw prop c a s ↔ ¬(c = 0 ∧ a = 0 ∧ s = 0 ∧ prop ≠ []) := by
  have hsum : [c, a, s].sum ≠ 0 ↔ ¬(c = 0 ∧ a = 0 ∧ s = 0) := by
    rw [List.sum_cons, List.sum_cons, List.sum_singleton]
    omega
  -- the empty property is no case of its own where an entry has a size
  have hparse : ¬(c = 0 ∧ a = 0 ∧ s = 0) → parseRanges prop c a s =
      (parseEntries prop [c, a, s]).map (Except.map (List.map entryTriple)) := by
    intro hzero
    rw [parseRanges]
    split
    · rename_i hnil
      have hempty : parseEntries [] [c, a, s] = some (.ok []) := by
        have hne := hsum.2 hzero
        exact (if_neg (by omega)).trans (if_neg (not_not.2 (Nat.zero_mod _)))
      rw [hnil, hempty]
      rfl
    · rfl
  have hsome : (∃ r, parseRanges prop c a s = some r) ↔
      ¬(c = 0 ∧ a = 0 ∧ s = 0 ∧ prop ≠ []) := by
    by_cases hzero : c = 0 ∧ a = 0 ∧ s = 0
    · rw [parseRanges]
      split
      · rename_i hnil
        exact iff_of_true ⟨_, rfl⟩ fun h => h.2.2.2 hnil
      · rename_i hnil
        rw [exists_map_eq_some, parseEntries_isSome, hsum]
        exact iff_of_false (not_not.2 hzero) (not_not.2 ⟨hzero.1, hzero.2.1, hzero.2.2, hnil⟩)
    · rw [hparse hzero, exists_map_eq_some, parseEntries_isSome, hsum]
      exact iff_of_true hzero fun h => hzero ⟨h.1, h.2.1, h.2.2.1⟩
  refine ⟨fun h => hsome.1 h.1, fun hcond => ⟨hsome.2 hcond, fun hc ha hs list => ?_⟩⟩
  have hzero : ¬(c = 0 ∧ a = 0 ∧ s = 0) := by omega
  have hwidths : ∀ w ∈ [c, a, s], w = 1 ∨ w = 2 :=
    List.forall_mem_cons.2 ⟨hc, List.forall_mem_cons.2 ⟨ha, List.forall_mem_singleton.2 hs⟩⟩
  have hfields : ∀ values, FitsCells [c, a, s] values →
      [(entryTriple values).1, (entryTriple values).2.1, (entryTriple values).2.2] = values := by
    intro values hfits
    cases hfits with
    | cons _ hrest =>
        cases hrest with
        | cons _ hrest =>
            cases hrest with
            | cons _ hnil =>
                cases hnil
                rfl
  rw [hparse hzero, mapped_ok_iff hwidths (hsum.2 hzero)
    (fun e : BitVec 64 × BitVec 64 × BitVec 64 => [e.1, e.2.1, e.2.2]) (fun _ => rfl) hfields]
  simp only [RangesEncodes, FitsCells, List.forall₂_cons, List.Forall₂.nil, and_true, encodeEntry,
    List.append_nil]

/-- **For every property and all cell counts of 32 bits, `parse_reg` and `parse_ranges` return, and
read what is encoded in cells of one and two, exactly if not all counts are zero (or, for
`parse_ranges`, the property is empty).** -/
theorem deviceTree_cells_iff (prop : Bytes) (c a s : BitVec 32) :
    (RegLaw prop a.toNat s.toNat ↔ ¬(a = 0#32 ∧ s = 0#32)) ∧
      (RangesLaw prop c.toNat a.toNat s.toNat ↔
        ¬(c = 0#32 ∧ a = 0#32 ∧ s = 0#32 ∧ prop ≠ [])) := by
  have hzero : ∀ v : BitVec 32, v.toNat = 0 ↔ v = 0#32 := fun v =>
    ⟨fun h => BitVec.eq_of_toNat_eq h, fun h => by rw [h]; rfl⟩
  rw [regLaw_iff, rangesLaw_iff, hzero, hzero, hzero]
  exact ⟨Iff.rfl, Iff.rfl⟩

/-- `parse_reg` divides by zero when both counts are zero. -/
theorem parseReg_zero_cells :
    ¬∀ (prop : Bytes) (a s : BitVec 32), RegLaw prop a.toNat s.toNat := by
  intro hall
  obtain ⟨⟨r, hr⟩, -⟩ := hall [] 0#32 0#32
  cases hr

end StarOS
