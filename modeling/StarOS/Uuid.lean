/-
The text form of a UUID (`Uuid::parse` in `net/vless.rs`).

The parser checks that the text has 36 bytes, and then goes through it two digits at a time, over
dashes wherever they stand between two pairs.  A text with fewer than four dashes has room for a
17th pair, which is written behind the end of the array; with four dashes, any places between the
pairs will do.

* `StarOS.hexNibble`, `StarOS.hexByte`, `StarOS.Uuid.parse` — the code; a panic is `none`;
* `StarOS.HexDigit`, `StarOS.Spells`, `StarOS.IsUuidText` — texts of dashes and pairs of digits, and
  the canonical form;
* `StarOS.parseLoop_spells`, `StarOS.parseLoop_cases` — what the loop does;
* `StarOS.uuid_parse_exact_iff` — when a text is parsed as the canonical form says.
-/

import StarOS.Error
import Mathlib.Data.BitVec

set_option autoImplicit false

namespace StarOS

/-! ### The parser -/

/-- `Uuid`. -/
structure Uuid where
  bytes : Vector (BitVec 8) 16
  deriving DecidableEq, Repr

/-- `b'-'`. -/
def dash : BitVec 8 := 0x2D#8

/-- `hex_nibble`. -/
def hexNibble (c : BitVec 8) : Except KernelError (BitVec 8) :=
  if 0x30#8 ≤ c ∧ c ≤ 0x39#8 then .ok (c - 0x30#8)
  else if 0x61#8 ≤ c ∧ c ≤ 0x66#8 then .ok (c - 0x61#8 + 10#8)
  else if 0x41#8 ≤ c ∧ c ≤ 0x46#8 then .ok (c - 0x41#8 + 10#8)
  else .error (.invalidParameter "invalid hex")

/-- `hex_byte`. -/
def hexByte (hi lo : BitVec 8) : Except KernelError (BitVec 8) :=
  match hexNibble hi with
  | .error e => .error e
  | .ok h =>
      match hexNibble lo with
      | .error e => .error e
      | .ok l => .ok (h <<< 4 ||| l)

namespace Uuid

/-- `uuid[idx] = v`. -/
def setByte (uuid : Uuid) (idx : ℕ) (v : BitVec 8) : Option Uuid :=
  if h : idx < 16 then some ⟨uuid.bytes.set idx v h⟩ else none

/-- The loop of `parse`, from a place in the text on, with the array and the index of its next cell.
The digits are looked at before the cell is. -/
def parseLoop : List (BitVec 8) → Uuid → ℕ → Option (Except KernelError (Uuid × ℕ))
  | [], uuid, idx => some (.ok (uuid, idx))
  | [b], uuid, idx =>
      if b = dash then some (.ok (uuid, idx))
      else some (.error (.invalidParameter "invalid UUID"))
  | b :: c :: rest, uuid, idx =>
      if b = dash then parseLoop (c :: rest) uuid idx
      else
        match hexByte b c with
        | .error e => some (.error e)
        | .ok v => (uuid.setByte idx v).bind fun uuid => parseLoop rest uuid (idx + 1)

/-- `Uuid::parse`, on the bytes of the text. -/
def parse (s : List (BitVec 8)) : Option (Except KernelError Uuid) :=
  if s.length ≠ 36 then some (.error (.invalidParameter "UUID must be 36 chars"))
  else
    (parseLoop s ⟨Vector.replicate 16 0#8⟩ 0).map fun res =>
      match res with
      | .error e => .error e
      | .ok (uuid, idx) =>
          if idx ≠ 16 then .error (.invalidParameter "invalid UUID length") else .ok uuid

end Uuid

/-! ### Texts -/

/-- A digit and its value. -/
inductive HexDigit : BitVec 8 → ℕ → Prop
  | digit {v : ℕ} : v < 10 → HexDigit (BitVec.ofNat 8 (0x30 + v)) v
  | lower {v : ℕ} : v < 6 → HexDigit (BitVec.ofNat 8 (0x61 + v)) (10 + v)
  | upper {v : ℕ} : v < 6 → HexDigit (BitVec.ofNat 8 (0x41 + v)) (10 + v)

/-- A text of dashes and of pairs of digits, with the bytes that the pairs are. -/
inductive Spells : List (BitVec 8) → List (Option (BitVec 8)) → Prop
  | nil : Spells [] []
  | dash {s : List (BitVec 8)} {items : List (Option (BitVec 8))} :
      Spells s items → Spells (dash :: s) (none :: items)
  | pair {hi lo : BitVec 8} {h l : ℕ} {s : List (BitVec 8)} {items : List (Option (BitVec 8))} :
      HexDigit hi h → HexDigit lo l → Spells s items →
        Spells (hi :: lo :: s) (some (BitVec.ofNat 8 (16 * h + l)) :: items)

/-- Four bytes, two, two, two and six, and dashes between them. -/
def uuidItems (u : Uuid) : List (Option (BitVec 8)) :=
  (u.bytes.toList.take 4).map some ++ none :: (((u.bytes.toList.drop 4).take 2).map some ++
    none :: (((u.bytes.toList.drop 6).take 2).map some ++
      none :: (((u.bytes.toList.drop 8).take 2).map some ++
        none :: (u.bytes.toList.drop 10).map some)))

/-- The text is the canonical form of the UUID. -/
def IsUuidText (s : List (BitVec 8)) (u : Uuid) : Prop := Spells s (uuidItems u)

/-- The bytes of the pairs. -/
def pairBytes (items : List (Option (BitVec 8))) : List (BitVec 8) := items.filterMap id

/-- Where the dashes of the canonical form are. -/
def uuidShape : List Bool :=
  [true, true, true, true, false, true, true, false, true, true, false, true, true, false,
    true, true, true, true, true, true]

/-- The law: the parser returns, and it returns a UUID exactly for its canonical form. -/
def UuidExact (s : List (BitVec 8)) : Prop :=
  ∃ out, Uuid.parse s = some out ∧ ∀ u, out = .ok u ↔ IsUuidText s u

/-- A text of 36 bytes that begins with 17 pairs, with dashes between them or not, or that consists
of 16 pairs and dashes in other places than those of the canonical form. -/
def UuidMisdashed (s : List (BitVec 8)) : Prop :=
  s.length = 36 ∧
    ((∃ front back items, s = front ++ back ∧ Spells front items ∧ (pairBytes items).length = 17) ∨
      ∃ items, Spells s items ∧ (pairBytes items).length = 16 ∧
        items.map Option.isSome ≠ uuidShape)

/-! ### Digits -/

theorem HexDigit.hexNibble_eq {c : BitVec 8} {n : ℕ} (h : HexDigit c n) :
    hexNibble c = .ok (BitVec.ofNat 8 n) ∧ n < 16 := by
  have hdigit : ∀ v < 10, hexNibble (BitVec.ofNat 8 (0x30 + v)) = .ok (BitVec.ofNat 8 v) := by
    decide
  have hletter : ∀ v < 6, hexNibble (BitVec.ofNat 8 (0x61 + v)) =
      .ok (BitVec.ofNat 8 (10 + v)) ∧
        hexNibble (BitVec.ofNat 8 (0x41 + v)) = .ok (BitVec.ofNat 8 (10 + v)) := by
    decide
  obtain hv | hv | hv := h
  · exact ⟨hdigit _ hv, by omega⟩
  · exact ⟨(hletter _ hv).1, by omega⟩
  · exact ⟨(hletter _ hv).2, by omega⟩

theorem hexDigit_of_hexNibble {c v : BitVec 8} (h : hexNibble c = .ok v) : HexDigit c v.toNat := by
  rw [hexNibble] at h
  split at h
  · rename_i hc
    obtain rfl := Except.ok.inj h
    have hdigit := HexDigit.digit (v := (c - 0x30#8).toNat) (by bv_omega)
    rwa [show BitVec.ofNat 8 (0x30 + (c - 0x30#8).toNat) = c by bv_omega] at hdigit
  · split at h
    · rename_i hc
      obtain rfl := Except.ok.inj h
      have hletter := HexDigit.lower (v := (c - 0x61#8).toNat) (by bv_omega)
      rwa [show BitVec.ofNat 8 (0x61 + (c - 0x61#8).toNat) = c by bv_omega,
        show 10 + (c - 0x61#8).toNat = (c - 0x61#8 + 10#8).toNat by bv_omega] at hletter
    · split at h
      · rename_i hc
        obtain rfl := Except.ok.inj h
        have hletter := HexDigit.upper (v := (c - 0x41#8).toNat) (by bv_omega)
        rwa [show BitVec.ofNat 8 (0x41 + (c - 0x41#8).toNat) = c by bv_omega,
          show 10 + (c - 0x41#8).toNat = (c - 0x41#8 + 10#8).toNat by bv_omega] at hletter
      · cases h

theorem HexDigit.ne_dash {c : BitVec 8} {n : ℕ} (h : HexDigit c n) : c ≠ dash := by
  rintro rfl
  have hdash : hexNibble dash = .error (.invalidParameter "invalid hex") := by decide
  have hok := h.hexNibble_eq.1
  rw [hdash] at hok
  cases hok

/-- The byte of a pair of digits. -/
theorem hexByte_eq_ok {hi lo v : BitVec 8} :
    hexByte hi lo = .ok v ↔
      ∃ h l, HexDigit hi h ∧ HexDigit lo l ∧ v = BitVec.ofNat 8 (16 * h + l) := by
  have hjoin : ∀ h < 16, ∀ l < 16,
      BitVec.ofNat 8 h <<< 4 ||| BitVec.ofNat 8 l = BitVec.ofNat 8 (16 * h + l) := by
    decide
  constructor
  · intro hbyte
    rw [hexByte] at hbyte
    split at hbyte
    · cases hbyte
    · rename_i h hh
      split at hbyte
      · cases hbyte
      · rename_i l hl
        cases hbyte
        have hhi := hexDigit_of_hexNibble hh
        have hlo := hexDigit_of_hexNibble hl
        refine ⟨_, _, hhi, hlo, ?_⟩
        rw [← hjoin _ hhi.hexNibble_eq.2 _ hlo.hexNibble_eq.2, BitVec.ofNat_toNat,
          BitVec.ofNat_toNat, BitVec.setWidth_eq, BitVec.setWidth_eq]
  · rintro ⟨h, l, hhi, hlo, rfl⟩
    obtain ⟨hh, hh16⟩ := hhi.hexNibble_eq
    obtain ⟨hl, hl16⟩ := hlo.hexNibble_eq
    rw [hexByte, hh]
    dsimp only
    rw [hl]
    dsimp only
    rw [hjoin h hh16 l hl16]

/-! ### The loop -/

namespace Uuid

variable {s front : List (BitVec 8)} {items : List (Option (BitVec 8))}

theorem parseLoop_dash (s : List (BitVec 8)) (uuid : Uuid) (idx : ℕ) :
    parseLoop (dash :: s) uuid idx = parseLoop s uuid idx := by
  cases s with
  | nil => exact if_pos rfl
  | cons c s => rw [parseLoop, if_pos rfl]

theorem parseLoop_pair {hi lo : BitVec 8} {h l : ℕ} (hhi : HexDigit hi h) (hlo : HexDigit lo l)
    (s : List (BitVec 8)) (uuid : Uuid) (idx : ℕ) :
    parseLoop (hi :: lo :: s) uuid idx =
      (uuid.setByte idx (BitVec.ofNat 8 (16 * h + l))).bind fun uuid =>
        parseLoop s uuid (idx + 1) := by
  have hbyte := hexByte_eq_ok.2 ⟨h, l, hhi, hlo, rfl⟩
  rw [parseLoop, if_neg hhi.ne_dash, hbyte]

/-- A text of dashes and pairs is gone through, if there is room for the pairs. -/
theorem parseLoop_spells (h : Spells s items) (uuid : Uuid) (idx : ℕ)
    (hroom : idx + (pairBytes items).length ≤ 16) :
    ∃ uuid', parseLoop s uuid idx = some (.ok (uuid', idx + (pairBytes items).length)) ∧
      uuid'.bytes.toList = uuid.bytes.toList.take idx ++
        (pairBytes items ++ uuid.bytes.toList.drop (idx + (pairBytes items).length)) := by
  induction h generalizing uuid idx with
  | nil => exact ⟨uuid, by rw [parseLoop]; rfl, (List.take_append_drop idx _).symm⟩
  | dash _ ih =>
      rw [parseLoop_dash]
      exact ih uuid idx hroom
  | @pair hi lo h l s items hhi hlo _ ih =>
      have hbytes : pairBytes (some (BitVec.ofNat 8 (16 * h + l)) :: items) =
          BitVec.ofNat 8 (16 * h + l) :: pairBytes items := rfl
      rw [hbytes, List.length_cons] at hroom ⊢
      have hidx : idx < 16 := by omega
      obtain ⟨uuid', hloop, hlist⟩ :=
        ih ⟨uuid.bytes.set idx (BitVec.ofNat 8 (16 * h + l)) hidx⟩ (idx + 1) (by omega)
      refine ⟨uuid', ?_, ?_⟩
      · rw [parseLoop_pair hhi hlo, setByte, dif_pos hidx, Option.bind_some, hloop, Nat.add_assoc,
          Nat.add_comm 1]
      · have hlen : idx < uuid.bytes.toList.length := by rwa [Vector.length_toList]
        rw [hlist, Vector.toList_set, List.take_succ_eq_append_getElem (by rwa [List.length_set]),
          List.getElem_set_self, List.take_set_of_le (Nat.le_refl _),
          List.drop_set_of_lt (by omega), List.append_assoc, Nat.add_assoc, Nat.add_comm 1]
        rfl

/-- A 17th byte is written behind the end. -/
theorem parseLoop_overflow (h : Spells front items) (back : List (BitVec 8)) (uuid : Uuid)
    {idx : ℕ} (hidx : idx ≤ 16) (hfull : idx + (pairBytes items).length = 17) :
    parseLoop (front ++ back) uuid idx = none := by
  induction h generalizing uuid idx with
  | nil =>
      rw [pairBytes, List.filterMap_nil, List.length_nil] at hfull
      omega
  | dash _ ih =>
      rw [List.cons_append, parseLoop_dash]
      exact ih uuid hidx hfull
  | @pair hi lo h l s items hhi hlo _ ih =>
      have hbytes : pairBytes (some (BitVec.ofNat 8 (16 * h + l)) :: items) =
          BitVec.ofNat 8 (16 * h + l) :: pairBytes items := rfl
      rw [hbytes, List.length_cons] at hfull
      rw [List.cons_append, List.cons_append, parseLoop_pair hhi hlo, setByte]
      split
      · exact ih _ (by omega) (by omega)
      · rfl

/-- The loop ends with an error, at the end of a text of dashes and pairs, or with a 17th byte. -/
theorem parseLoop_cases (s : List (BitVec 8)) (uuid : Uuid) (idx : ℕ) (hidx : idx ≤ 16) :
    (∃ e, parseLoop s uuid idx = some (.error e)) ∨
      (∃ items, Spells s items ∧ idx + (pairBytes items).length ≤ 16) ∨
        ∃ front back items, s = front ++ back ∧ Spells front items ∧
          idx + (pairBytes items).length = 17 := by
  induction s, uuid, idx using parseLoop.induct with
  | case1 uuid idx => exact .inr (.inl ⟨[], .nil, hidx⟩)
  | case2 uuid idx => exact .inr (.inl ⟨[none], .dash .nil, hidx⟩)
  | case3 b uuid idx hb => exact .inl ⟨_, if_neg hb⟩
  | case4 c rest uuid idx ih =>
      rw [parseLoop_dash]
      obtain herr | ⟨items, hspells, hle⟩ | ⟨front, back, items, heq, hspells, hfull⟩ := ih hidx
      · exact .inl herr
      · exact .inr (.inl ⟨none :: items, .dash hspells, hle⟩)
      · exact .inr (.inr ⟨dash :: front, back, none :: items, by rw [heq, List.cons_append],
          .dash hspells, hfull⟩)
  | case5 b c rest uuid idx hb e herr => exact .inl ⟨e, by rw [parseLoop, if_neg hb, herr]⟩
  | case6 b c rest uuid idx hb v hv ih =>
      obtain ⟨h, l, hhi, hlo, rfl⟩ := hexByte_eq_ok.1 hv
      rw [parseLoop_pair hhi hlo, setByte]
      have hbytes : ∀ items, (pairBytes (some (BitVec.ofNat 8 (16 * h + l)) :: items)).length =
          (pairBytes items).length + 1 := fun _ => rfl
      split
      · rw [Option.bind_some]
        obtain herr | ⟨items, hspells, hle⟩ | ⟨front, back, items, heq, hspells, hfull⟩ :=
          ih _ (by omega)
        · exact .inl herr
        · refine .inr (.inl ⟨_, .pair hhi hlo hspells, ?_⟩)
          rw [hbytes]
          omega
        · refine .inr (.inr ⟨b :: c :: front, back, _, by rw [heq]; rfl, .pair hhi hlo hspells, ?_⟩)
          rw [hbytes]
          omega
      · -- the array is full: this pair is the 17th
        rename_i hroom
        refine .inr (.inr ⟨[b, c], rest, _, rfl, .pair hhi hlo .nil, ?_⟩)
        rw [hbytes]
        show idx + 1 = 17
        omega

end Uuid

/-! ### What a text spells -/

variable {s : List (BitVec 8)} {items items' : List (Option (BitVec 8))}

theorem HexDigit.unique {c : BitVec 8} {n n' : ℕ} (h : HexDigit c n) (h' : HexDigit c n') :
    n = n' := by
  obtain ⟨hn, hn16⟩ := h.hexNibble_eq
  obtain ⟨hn', hn16'⟩ := h'.hexNibble_eq
  rw [hn] at hn'
  have heq := congrArg BitVec.toNat (Except.ok.inj hn')
  rw [BitVec.toNat_ofNat, BitVec.toNat_ofNat] at heq
  omega

theorem Spells.of_dash (h : Spells (StarOS.dash :: s) items) :
    ∃ items', items = none :: items' := by
  cases h with
  | dash _ => exact ⟨_, rfl⟩
  | pair hhi => exact absurd rfl hhi.ne_dash

/-- A text spells one thing. -/
theorem Spells.unique (h : Spells s items) (h' : Spells s items') : items = items' := by
  induction h generalizing items' with
  | nil =>
      cases h'
      rfl
  | dash _ ih =>
      cases h' with
      | dash h' => rw [ih h']
      | pair hhi => exact absurd rfl hhi.ne_dash
  | pair hhi hlo _ ih =>
      cases h' with
      | dash => exact absurd rfl hhi.ne_dash
      | pair hhi' hlo' h' => rw [ih h', hhi.unique hhi', hlo.unique hlo']

/-- Two bytes of text for a pair, one for a dash. -/
theorem Spells.length_eq (h : Spells s items) :
    s.length = items.length + (pairBytes items).length := by
  induction h with
  | nil => rfl
  | dash _ ih => simp only [List.length_cons, ih, pairBytes, List.filterMap_cons, id]; omega
  | pair _ _ _ ih => simp only [List.length_cons, ih, pairBytes, List.filterMap_cons, id]; omega

/-- The shape and the bytes make up what is spelled. -/
theorem eq_of_shape : ∀ {items items' : List (Option (BitVec 8))},
    items.map Option.isSome = items'.map Option.isSome → pairBytes items = pairBytes items' →
      items = items'
  | [], [], _, _ => rfl
  | [], _ :: _, hshape, _ => by cases hshape
  | _ :: _, [], hshape, _ => by cases hshape
  | none :: items, none :: items', hshape, hbytes => by
      rw [eq_of_shape (List.cons.inj hshape).2 hbytes]
  | none :: items, some _ :: items', hshape, _ => by cases (List.cons.inj hshape).1
  | some _ :: items, none :: items', hshape, _ => by cases (List.cons.inj hshape).1
  | some a :: items, some b :: items', hshape, hbytes => by
      have hcons : a :: pairBytes items = b :: pairBytes items' := hbytes
      obtain ⟨rfl, hrest⟩ := List.cons.inj hcons
      rw [eq_of_shape (List.cons.inj hshape).2 hrest]

theorem pairBytes_uuidItems (u : Uuid) : pairBytes (uuidItems u) = u.bytes.toList := by
  have hdrop : ∀ (l : List (BitVec 8)) (m n : ℕ),
      (l.drop m).take n ++ l.drop (m + n) = l.drop m := by
    intro l m n
    rw [← List.drop_drop, List.take_append_drop]
  have hsome : ∀ l : List (BitVec 8), (l.map some).filterMap (fun b => b) = l := by
    intro l
    rw [List.filterMap_map]
    exact List.filterMap_some
  simp only [pairBytes, uuidItems, List.filterMap_append, List.filterMap_cons, id, hsome]
  rw [hdrop _ 8 2, hdrop _ 6 2, hdrop _ 4 2, List.take_append_drop]

theorem shape_uuidItems (u : Uuid) : (uuidItems u).map Option.isSome = uuidShape := by
  have hsome : ∀ l : List (BitVec 8), (l.map some).map Option.isSome =
      List.replicate l.length true := by
    intro l
    rw [List.map_map]
    exact List.map_const
  simp only [uuidItems, List.map_append, List.map_cons, hsome, List.length_take, List.length_drop,
    Vector.length_toList]
  rfl

theorem IsUuidText.length {u : Uuid} (h : IsUuidText s u) : s.length = 36 := by
  have hshape := congrArg List.length (shape_uuidItems u)
  rw [List.length_map] at hshape
  rw [Spells.length_eq h, pairBytes_uuidItems, hshape, Vector.length_toList]
  rfl

/-! ### When a text is parsed -/

theorem Uuid.parse_of_length {s : List (BitVec 8)} (h : s.length = 36) :
    Uuid.parse s = (Uuid.parseLoop s ⟨Vector.replicate 16 0#8⟩ 0).map fun res =>
      match res with
      | .error e => .error e
      | .ok (uuid, idx) =>
          if idx ≠ 16 then .error (.invalidParameter "invalid UUID length") else .ok uuid := by
  rw [Uuid.parse, if_neg (not_not.2 h)]

/-- A text of dashes and at most 16 pairs is parsed as the bytes of the pairs, if they are 16. -/
theorem Uuid.parse_spells (h : Spells s items) (hlen : s.length = 36)
    (hroom : (pairBytes items).length ≤ 16) :
    ∃ u, Uuid.parse s = some (if (pairBytes items).length = 16 then .ok u
        else .error (.invalidParameter "invalid UUID length")) ∧
      ((pairBytes items).length = 16 → u.bytes.toList = pairBytes items) := by
  obtain ⟨u, hloop, hlist⟩ :=
    Uuid.parseLoop_spells h ⟨Vector.replicate 16 0#8⟩ 0 (by rwa [Nat.zero_add])
  refine ⟨u, ?_, ?_⟩
  · rw [Uuid.parse_of_length hlen, hloop, Option.map_some, Nat.zero_add]
    by_cases hfull : (pairBytes items).length = 16
    · rw [if_pos hfull]
      exact congrArg some (if_neg (not_not.2 hfull))
    · rw [if_neg hfull]
      exact congrArg some (if_pos hfull)
  · intro hfull
    rw [hlist, hfull, List.take_zero, List.nil_append, List.drop_of_length_le, List.append_nil]
    rw [Vector.length_toList]

/-- The law fails for a text with room for a 17th pair, or with its dashes elsewhere. -/
theorem UuidMisdashed.not_exact {s : List (BitVec 8)} (h : UuidMisdashed s) : ¬ UuidExact s := by
  rintro ⟨out, hparse, hout⟩
  obtain ⟨hlen, ⟨front, back, items, rfl, hspells, hfull⟩ | ⟨items, hspells, hfull, hshape⟩⟩ := h
  · rw [Uuid.parse_of_length hlen, Uuid.parseLoop_overflow hspells back _ (Nat.zero_le 16)
      (by rwa [Nat.zero_add])] at hparse
    cases hparse
  · obtain ⟨u, hu, -⟩ := Uuid.parse_spells hspells hlen hfull.le
    rw [hu, if_pos hfull] at hparse
    have htext := (hout u).1 (Option.some.inj hparse).symm
    exact hshape (by rw [hspells.unique htext, shape_uuidItems])

/-- A text that the loop refuses is no UUID. -/
theorem uuidExact_of_error {s : List (BitVec 8)} {e : KernelError} (hlen : s.length = 36)
    (herr : Uuid.parseLoop s ⟨Vector.replicate 16 0#8⟩ 0 = some (.error e)) : UuidExact s := by
  refine ⟨.error e, by rw [Uuid.parse_of_length hlen, herr]; rfl, fun u => ⟨?_, ?_⟩⟩
  · intro h
    cases h
  · intro h
    obtain ⟨u', hloop, -⟩ := Uuid.parseLoop_spells h ⟨Vector.replicate 16 0#8⟩ 0
      (by rw [pairBytes_uuidItems, Vector.length_toList])
    rw [herr] at hloop
    cases hloop

/-- A text of at most 16 pairs and dashes is a UUID if it has 16 pairs, and then with the dashes in
their places. -/
theorem uuidExact_of_spells {s : List (BitVec 8)} {items : List (Option (BitVec 8))}
    (hlen : s.length = 36) (hspells : Spells s items) (hle : (pairBytes items).length ≤ 16)
    (hshape : (pairBytes items).length = 16 → items.map Option.isSome = uuidShape) :
    UuidExact s := by
  obtain ⟨u', hu', hbytes⟩ := Uuid.parse_spells hspells hlen hle
  -- with 16 pairs in their places, the text determines the items, and the items the bytes
  refine ⟨_, hu', fun u => ⟨?_, ?_⟩⟩
  · intro h
    split at h
    · rename_i hfull
      obtain rfl := Except.ok.inj h
      have hitems := eq_of_shape ((hshape hfull).trans (shape_uuidItems u').symm)
        ((hbytes hfull).symm.trans (pairBytes_uuidItems u').symm)
      rw [hitems] at hspells
      exact hspells
    · cases h
  · intro h
    have hitems := hspells.unique h
    have hfull : (pairBytes items).length = 16 := by
      rw [hitems, pairBytes_uuidItems, Vector.length_toList]
    have hu : u' = u := by
      cases u'
      cases u
      have hlist := hbytes hfull
      rw [hitems, pairBytes_uuidItems] at hlist
      exact congrArg Uuid.mk (Vector.toList_inj.1 hlist)
    rw [if_pos hfull, hu]

/-- The parser is exact but for texts with room for a 17th pair, or with their dashes elsewhere. -/
theorem uuid_parse_exact_iff (s : List (BitVec 8)) : UuidExact s ↔ ¬ UuidMisdashed s := by
  constructor
  · exact fun hexact hmis => hmis.not_exact hexact
  · intro hmis
    by_cases hlen : s.length = 36
    swap
    · refine ⟨_, if_pos hlen, fun u => ⟨?_, ?_⟩⟩
      · intro h
        cases h
      · intro h
        exact absurd (IsUuidText.length h) hlen
    obtain ⟨e, herr⟩ | ⟨items, hspells, hle⟩ | ⟨front, back, items, heq, hspells, hfull⟩ :=
      Uuid.parseLoop_cases s ⟨Vector.replicate 16 0#8⟩ 0 (Nat.zero_le 16)
    · exact uuidExact_of_error hlen herr
    · rw [Nat.zero_add] at hle
      refine uuidExact_of_spells hlen hspells hle fun hfull => ?_
      by_contra hne
      exact hmis ⟨hlen, .inr ⟨items, hspells, hfull, hne⟩⟩
    · rw [Nat.zero_add] at hfull
      exact absurd ⟨hlen, .inl ⟨front, back, items, heq, hspells, hfull⟩⟩ hmis

/-- 36 digits and no dash are read past the end of the array; four dashes and 32 digits are a UUID
wherever the dashes are. -/
theorem uuid_misdashed :
    Uuid.parse (List.replicate 36 0x30#8) = none ∧
      Uuid.parse (List.replicate 4 dash ++ List.replicate 32 0x30#8) =
        some (.ok ⟨Vector.replicate 16 0#8⟩) ∧
      ¬ UuidExact (List.replicate 36 0x30#8) ∧
      ¬ UuidExact (List.replicate 4 dash ++ List.replicate 32 0x30#8) := by
  have hpanic : Uuid.parse (List.replicate 36 0x30#8) = none := by decide
  have hparse : Uuid.parse (List.replicate 4 dash ++ List.replicate 32 0x30#8) =
      some (.ok ⟨Vector.replicate 16 0#8⟩) := by decide
  refine ⟨hpanic, hparse, ?_, ?_⟩
  · rintro ⟨out, hout, -⟩
    rw [hpanic] at hout
    cases hout
  · rintro ⟨out, hout, hexact⟩
    rw [hparse] at hout
    have htext := (hexact _).1 (Option.some.inj hout).symm
    -- The canonical form begins with a pair.
    obtain ⟨items, hitems⟩ := Spells.of_dash htext
    have hshape := shape_uuidItems ⟨Vector.replicate 16 0#8⟩
    rw [hitems] at hshape
    cases hshape

end StarOS
