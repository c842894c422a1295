/-
The RSN element of a network (`net/mac80211/auth.rs`): a version, the group cipher, and two lists of
selectors, each behind its count.

`RsnCapabilities::parse` returns the first selector of each list.  It compares the length of the
element with the counts, and then reads a first selector that a count of zero does not promise: it
takes four bytes of what follows for a selector, or reads behind the end.

* `StarOS.RsnCapabilities.parse` — the code; a read outside the element is `none`;
* `StarOS.RsnElement`, `StarOS.RsnElement.bytes` — the elements of the format, and their bytes;
* `StarOS.RsnExact`, `StarOS.RsnStarved` — the law, and the elements with a count of zero;
* `StarOS.RsnElement.parse_bytes`, `StarOS.parse_cases_of_not_starved` — elements of the format are
  parsed, and apart from counts of zero nothing else is;
* `StarOS.rsn_parse_exact_iff` — when an element is parsed as the format says.
-/

import StarOS.ByteFields

set_option autoImplicit false

namespace StarOS

/-! ### The parser -/

/-- `RsnCapabilities`. -/
structure RsnCapabilities where
  groupCipher : BitVec 32
  pairwiseCipher : BitVec 32
  akm : BitVec 32
  mfpRequired : Bool
  mfpCapable : Bool
  deriving DecidableEq, Repr

namespace RsnCapabilities

/-- `parse` from the AKM count on. -/
def parseAkms (ie : List (BitVec 8)) (group pairwise : BitVec 32) (off : ℕ) :
    Option (Option RsnCapabilities) :=
  if ie.length < off + 2 then some none
  else
    (le16At ie off).bind fun akmCount =>
      if ie.length < off + 2 + akmCount.toNat * 4 then some none
      else
        -- read also if the count is zero
        (be32At ie (off + 2)).bind fun akm =>
          let capOff := off + 2 + akmCount.toNat * 4
          (if capOff + 2 ≤ ie.length then le16At ie capOff else some 0#16).map fun rsnCap =>
            some
              { groupCipher := group
                pairwiseCipher := pairwise
                akm := akm
                mfpRequired := rsnCap &&& (1#16 <<< 6) != 0#16
                mfpCapable := rsnCap &&& (1#16 <<< 7) != 0#16 }

/-- `parse` from the pairwise count on. -/
def parsePairwise (ie : List (BitVec 8)) (group : BitVec 32) : Option (Option RsnCapabilities) :=
  if ie.length < 10 then some none
  else
    (le16At ie 6).bind fun pwCount =>
      if ie.length < 8 + pwCount.toNat * 4 then some none
      else
        -- read also if the count is zero
        (be32At ie 8).bind fun pairwise => parseAkms ie group pairwise (8 + pwCount.toNat * 4)

/-- `RsnCapabilities::parse`.  The outer `none` is a panic. -/
def parse (ie : List (BitVec 8)) : Option (Option RsnCapabilities) :=
  if ie.length < 4 then some none
  else
    (le16At ie 0).bind fun version =>
      if version ≠ 1#16 then some none
      else if ie.length < 8 then some none
      else (be32At ie 2).bind fun group => parsePairwise ie group

end RsnCapabilities

/-! ### The format -/

/-- A selector: an OUI and a type. -/
abbrev Selector := Vector (BitVec 8) 4

/-- A bit of the capabilities, the first two of the bytes behind the lists. -/
def capabilityBit (i : ℕ) : List (BitVec 8) → Bool
  | lo :: _ :: _ => lo.getLsbD i
  | _ => false

/-- The bytes of an element: the version 1, a group cipher, two counted lists of selectors and
anything. -/
def rsnBytes (group : Selector) (pairwise akms : List Selector) (rest : List (BitVec 8)) :
    List (BitVec 8) :=
  leBytes16 1#16 ++ (group.toList ++ (leBytes16 (BitVec.ofNat 16 pairwise.length) ++
    (chunkBytes pairwise ++ (leBytes16 (BitVec.ofNat 16 akms.length) ++
      (chunkBytes akms ++ rest)))))

/-- An element of the format: neither list is empty, and the counts fit their two bytes. -/
structure RsnElement where
  group : Selector
  pairwise : List Selector
  akms : List Selector
  rest : List (BitVec 8)
  pairwise_ne : pairwise ≠ []
  akms_ne : akms ≠ []
  pairwise_lt : pairwise.length < 2 ^ 16
  akms_lt : akms.length < 2 ^ 16

namespace RsnElement

/-- The bytes of the element. -/
def bytes (e : RsnElement) : List (BitVec 8) := rsnBytes e.group e.pairwise e.akms e.rest

/-- What the element says. -/
def caps (e : RsnElement) : RsnCapabilities where
  groupCipher := be32Of e.group
  pairwiseCipher := be32Of (e.pairwise.head e.pairwise_ne)
  akm := be32Of (e.akms.head e.akms_ne)
  mfpRequired := capabilityBit 6 e.rest
  mfpCapable := capabilityBit 7 e.rest

end RsnElement

/-- The law: the parser returns, and it returns capabilities exactly for the elements of the format,
namely what the element says. -/
def RsnExact (ie : List (BitVec 8)) : Prop :=
  ∃ out, RsnCapabilities.parse ie = some out ∧
    ∀ caps, out = some caps ↔ ∃ e : RsnElement, e.bytes = ie ∧ e.caps = caps

/-- An element of version 1 of whose counts one is zero, and in which the selectors follow that the
counts promise, or which ends within the first selector that a pairwise count of zero does not
promise. -/
def RsnStarved (ie : List (BitVec 8)) : Prop :=
  ∃ p k, le16At ie 0 = some 1#16 ∧ le16At ie 6 = some p ∧ le16At ie (8 + p.toNat * 4) = some k ∧
    (p = 0#16 ∨ k = 0#16) ∧
      (8 + p.toNat * 4 + 2 + k.toNat * 4 ≤ ie.length ∨ (p = 0#16 ∧ ie.length < 12))

/-! ### Reading the parts -/

section Parts

variable {group : BitVec 32} {pairwise : BitVec 32} {front rest : List (BitVec 8)} {k : BitVec 16}

/-- The bits of the capabilities in the word that the first two bytes are. -/
theorem capability_eq (lo hi : BitVec 8) {i : ℕ} (h : i < 8) :
    ((hi ++ lo) &&& (1#16 <<< i) != 0#16) = lo.getLsbD i := by
  have hbit : ∀ x : BitVec 16, ∀ j < 16, (x &&& (1#16 <<< j) != 0#16) = x.getLsbD j := by
    intro x j hj
    have hone : ∀ m, (1#16 <<< j).getLsbD m = decide (m = j) := by
      intro m
      rw [BitVec.getLsbD_shiftLeft, BitVec.getLsbD_one]
      by_cases hm : m = j
      · simp [hm, hj]
      · simp [hm]
        omega
    cases hx : x.getLsbD j with
    | true =>
        rw [bne_iff_ne]
        intro hzero
        have hand := congrArg (fun w : BitVec 16 => w.getLsbD j) hzero
        simp [hx, hone] at hand
    | false =>
        rw [bne_eq_false_iff_eq]
        refine BitVec.eq_of_getLsbD_eq fun m _ => ?_
        rw [BitVec.getLsbD_and, hone, BitVec.getLsbD_zero]
        by_cases hm : m = j
        · rw [hm, hx, Bool.false_and]
        · rw [decide_eq_false hm, Bool.and_false]
  rw [hbit _ i (by omega), BitVec.getLsbD_append, if_pos h]

/-- The word of the capabilities. -/
theorem exists_capabilities (front rest : List (BitVec 8)) :
    ∃ w, (if front.length + 2 ≤ (front ++ rest).length then le16At (front ++ rest) front.length
        else some 0#16) = some w ∧
      (w &&& (1#16 <<< 6) != 0#16) = capabilityBit 6 rest ∧
        (w &&& (1#16 <<< 7) != 0#16) = capabilityBit 7 rest := by
  match rest with
  | [] => exact ⟨0#16, if_neg (by simp), by decide, by decide⟩
  | [_] => exact ⟨0#16, if_neg (by simp), rfl, rfl⟩
  | lo :: hi :: rest =>
      refine ⟨hi ++ lo, ?_, capability_eq lo hi (by decide), capability_eq lo hi (by decide)⟩
      have hread := le16At_mid front rest (hi ++ lo) rfl
      rw [leBytes16_append] at hread
      rw [if_pos (by simp)]
      exact hread

/-- The AKM list has the selectors that its count promises, and the count is not zero. -/
theorem parseAkms_full {akms : List Selector} (hne : akms ≠ []) (hk : akms.length = k.toNat) :
    RsnCapabilities.parseAkms (front ++ (leBytes16 k ++ (chunkBytes akms ++ rest))) group pairwise
        front.length =
      some (some ⟨group, pairwise, be32Of (akms.head hne), capabilityBit 6 rest,
        capabilityBit 7 rest⟩) := by
  have hlen : (front ++ (leBytes16 k ++ (chunkBytes akms ++ rest))).length =
      front.length + 2 + k.toNat * 4 + rest.length := by
    rw [List.length_append, List.length_append, List.length_append, leBytes16_length,
      length_chunkBytes, hk]
    omega
  have hcount : le16At (front ++ (leBytes16 k ++ (chunkBytes akms ++ rest))) front.length =
      some k := le16At_mid _ _ k rfl
  have hakm : be32At (front ++ (leBytes16 k ++ (chunkBytes akms ++ rest))) (front.length + 2) =
      some (be32Of (akms.head hne)) := by
    obtain ⟨s, akms', rfl⟩ := List.exists_cons_of_ne_nil hne
    have h := be32At_mid (front ++ leBytes16 k) (chunkBytes akms' ++ rest) s
      (i := front.length + 2) (by rw [List.length_append, leBytes16_length])
    rw [List.append_assoc, ← List.append_assoc s.toList] at h
    exact h
  have hcaps := exists_capabilities (front ++ (leBytes16 k ++ chunkBytes akms)) rest
  have hfront : (front ++ (leBytes16 k ++ chunkBytes akms)).length =
      front.length + 2 + k.toNat * 4 := by
    rw [List.length_append, List.length_append, leBytes16_length, length_chunkBytes, hk]
    omega
  rw [List.append_assoc, List.append_assoc, hfront] at hcaps
  obtain ⟨w, hw, h6, h7⟩ := hcaps
  rw [RsnCapabilities.parseAkms, if_neg (by omega), hcount, Option.bind_some, if_neg (by omega),
    hakm, Option.bind_some]
  dsimp only
  rw [hw, Option.map_some, h6, h7]

/-- The AKM list is not as long as its count says. -/
theorem parseAkms_short (front : List (BitVec 8)) (group pairwise : BitVec 32)
    (h : rest.length < k.toNat * 4) :
    RsnCapabilities.parseAkms (front ++ (leBytes16 k ++ rest)) group pairwise front.length =
      some none := by
  have hlen : (front ++ (leBytes16 k ++ rest)).length = front.length + 2 + rest.length := by
    rw [List.length_append, List.length_append, leBytes16_length, Nat.add_assoc]
  rw [RsnCapabilities.parseAkms, if_neg (by omega), le16At_mid _ _ k rfl, Option.bind_some,
    if_pos (by omega)]

end Parts

/-! ### Elements of the format -/

section Format

variable {ie : List (BitVec 8)} {group : Selector} {p k : BitVec 16}
  {pairwise akms : List Selector} {front back : List (BitVec 8)}

/-- What is in front of the pairwise list. -/
theorem length_rsnHeader (v p : BitVec 16) (group : Selector) :
    (leBytes16 v ++ (group.toList ++ leBytes16 p)).length = 8 := by
  rw [List.length_append, List.length_append, leBytes16_length, leBytes16_length,
    Vector.length_toList]

/-- The header of an element is read. -/
theorem parse_header (h : 10 ≤ (leBytes16 1#16 ++ (group.toList ++ (leBytes16 p ++ back))).length) :
    RsnCapabilities.parse (leBytes16 1#16 ++ (group.toList ++ (leBytes16 p ++ back))) =
      if back.length < p.toNat * 4 then some none
      else
        (be32At (leBytes16 1#16 ++ (group.toList ++ (leBytes16 p ++ back))) 8).bind fun pairwise =>
          RsnCapabilities.parseAkms (leBytes16 1#16 ++ (group.toList ++ (leBytes16 p ++ back)))
            (be32Of group) pairwise (8 + p.toNat * 4) := by
  have hlen : (leBytes16 1#16 ++ (group.toList ++ (leBytes16 p ++ back))).length =
      8 + back.length := by
    rw [List.length_append, List.length_append, List.length_append, leBytes16_length,
      leBytes16_length, Vector.length_toList]
    omega
  have hversion := le16At_mid [] (group.toList ++ (leBytes16 p ++ back)) 1#16 rfl
  have hgroup := be32At_mid (leBytes16 1#16) (leBytes16 p ++ back) group rfl
  have hcount := le16At_mid (leBytes16 1#16 ++ group.toList) back p
    (i := 6) (by rw [List.length_append, leBytes16_length, Vector.length_toList])
  rw [List.nil_append, List.length_nil] at hversion
  rw [leBytes16_length] at hgroup
  rw [List.append_assoc] at hcount
  rw [RsnCapabilities.parse, if_neg (by omega), hversion, Option.bind_some, if_neg (by simp),
    if_neg (by omega), hgroup, Option.bind_some, RsnCapabilities.parsePairwise, if_neg (by omega),
    hcount, Option.bind_some, hlen]
  exact if_congr (by omega) rfl rfl

/-- The parts of the bytes of an element. -/
theorem rsnBytes_eq (rest : List (BitVec 8)) :
    rsnBytes group pairwise akms rest =
      (leBytes16 1#16 ++ (group.toList ++ leBytes16 (BitVec.ofNat 16 pairwise.length)) ++
        chunkBytes pairwise) ++ (leBytes16 (BitVec.ofNat 16 akms.length) ++
          (chunkBytes akms ++ rest)) := by
  simp only [rsnBytes, List.append_assoc]

theorem length_rsnFront (group : Selector) (pairwise : List Selector) :
    (leBytes16 1#16 ++ (group.toList ++ leBytes16 (BitVec.ofNat 16 pairwise.length)) ++
      chunkBytes pairwise).length = 8 + pairwise.length * 4 := by
  rw [List.length_append, length_rsnHeader, length_chunkBytes]

/-- A list that is not empty is parsed behind the header. -/
theorem parse_pairwise (hne : pairwise ≠ []) (hlt : pairwise.length < 2 ^ 16)
    (hback : 2 ≤ back.length ∨ 10 ≤ 8 + pairwise.length * 4) :
    RsnCapabilities.parse (leBytes16 1#16 ++ (group.toList ++
        (leBytes16 (BitVec.ofNat 16 pairwise.length) ++ (chunkBytes pairwise ++ back)))) =
      RsnCapabilities.parseAkms (leBytes16 1#16 ++ (group.toList ++ leBytes16
          (BitVec.ofNat 16 pairwise.length)) ++ chunkBytes pairwise ++ back)
        (be32Of group) (be32Of (pairwise.head hne)) (8 + pairwise.length * 4) := by
  have hcount : (BitVec.ofNat 16 pairwise.length).toNat = pairwise.length := by
    rw [BitVec.toNat_ofNat, Nat.mod_eq_of_lt hlt]
  have hpairwise : be32At (leBytes16 1#16 ++ (group.toList ++
      (leBytes16 (BitVec.ofNat 16 pairwise.length) ++ (chunkBytes pairwise ++ back)))) 8 =
        some (be32Of (pairwise.head hne)) := by
    obtain ⟨s, pairwise', rfl⟩ := List.exists_cons_of_ne_nil hne
    have h := be32At_mid (leBytes16 1#16 ++ (group.toList ++
      leBytes16 (BitVec.ofNat 16 (s :: pairwise').length))) (chunkBytes pairwise' ++ back) s
      (i := 8) (length_rsnHeader _ _ _).symm
    simp only [List.append_assoc] at h
    simp only [chunkBytes, List.flatMap_cons, List.append_assoc]
    exact h
  rw [parse_header, hcount, if_neg, hpairwise, Option.bind_some]
  · simp only [List.append_assoc]
  · rw [List.length_append, length_chunkBytes]
    omega
  · rw [List.length_append, List.length_append, List.length_append, List.length_append,
      leBytes16_length, leBytes16_length, Vector.length_toList, length_chunkBytes]
    omega

/-- An element of the format is parsed, and says what the parser returns. -/
theorem RsnElement.parse_bytes (e : RsnElement) :
    RsnCapabilities.parse e.bytes = some (some e.caps) := by
  have hpos := List.length_pos_iff.2 e.pairwise_ne
  have hcount : e.akms.length = (BitVec.ofNat 16 e.akms.length).toNat := by
    rw [BitVec.toNat_ofNat, Nat.mod_eq_of_lt e.akms_lt]
  rw [bytes, rsnBytes, parse_pairwise e.pairwise_ne e.pairwise_lt (by omega), ← length_rsnFront,
    parseAkms_full e.akms_ne hcount]
  rfl

/-- The counts of an element of the format are not zero. -/
theorem RsnElement.not_starved (e : RsnElement) : ¬ RsnStarved e.bytes := by
  rintro ⟨p, k, -, hp, hk, hzero, -⟩
  have hcount := le16At_mid (leBytes16 1#16 ++ e.group.toList)
    (chunkBytes e.pairwise ++ (leBytes16 (BitVec.ofNat 16 e.akms.length) ++
      (chunkBytes e.akms ++ e.rest))) (BitVec.ofNat 16 e.pairwise.length)
    (i := 6) (by rw [List.length_append, leBytes16_length, Vector.length_toList])
  rw [List.append_assoc] at hcount
  obtain rfl : BitVec.ofNat 16 e.pairwise.length = p := Option.some.inj (hcount.symm.trans hp)
  have htoNat : (BitVec.ofNat 16 e.pairwise.length).toNat = e.pairwise.length := by
    rw [BitVec.toNat_ofNat, Nat.mod_eq_of_lt e.pairwise_lt]
  rw [htoNat, bytes, rsnBytes_eq, le16At_mid _ _ _ (length_rsnFront _ _).symm] at hk
  have hne : ∀ n, n ≠ 0 → n < 2 ^ 16 → BitVec.ofNat 16 n ≠ 0#16 := by
    intro n hn hlt h
    have hnat := congrArg BitVec.toNat h
    rw [BitVec.toNat_ofNat, Nat.mod_eq_of_lt hlt] at hnat
    exact hn hnat
  rcases hzero with hzero | hzero
  · exact hne _ (mt List.length_eq_zero_iff.1 e.pairwise_ne) e.pairwise_lt hzero
  · exact hne _ (mt List.length_eq_zero_iff.1 e.akms_ne) e.akms_lt
      ((Option.some.inj hk).trans hzero)

/-- Counts of zero, with the selectors that they promise. -/
theorem rsnStarved_of {rest : List (BitVec 8)} (hp : pairwise.length = p.toNat)
    (hzero : p = 0#16 ∨ k = 0#16)
    (hrest : k.toNat * 4 ≤ rest.length ∨ (p = 0#16 ∧ rest.length < 2)) :
    RsnStarved (leBytes16 1#16 ++ (group.toList ++ (leBytes16 p ++
      (chunkBytes pairwise ++ (leBytes16 k ++ rest))))) := by
  have hfront : (leBytes16 1#16 ++ (group.toList ++ leBytes16 p) ++
      chunkBytes pairwise).length = 8 + p.toNat * 4 := by
    rw [List.length_append, length_rsnHeader, length_chunkBytes, hp]
  have hfirst := le16At_mid (leBytes16 1#16 ++ group.toList)
    (chunkBytes pairwise ++ (leBytes16 k ++ rest)) p
    (i := 6) (by rw [List.length_append, leBytes16_length, Vector.length_toList])
  have hsecond := le16At_mid _ rest k hfront.symm
  have hlen : (leBytes16 1#16 ++ (group.toList ++ (leBytes16 p ++
      (chunkBytes pairwise ++ (leBytes16 k ++ rest))))).length =
        8 + p.toNat * 4 + 2 + rest.length := by
    simp only [List.length_append, leBytes16_length, Vector.length_toList, length_chunkBytes, hp]
    omega
  simp only [List.append_assoc] at hfirst hsecond
  refine ⟨p, k, le16At_mid [] _ 1#16 rfl, hfirst, hsecond, hzero, ?_⟩
  rw [hlen]
  rcases hrest with hrest | ⟨rfl, hrest⟩
  · exact .inl (by omega)
  · exact .inr ⟨rfl, by simp only [BitVec.toNat_ofNat]; omega⟩

/-- With such counts the parser does not refuse the element. -/
theorem RsnStarved.parse_ne (h : RsnStarved ie) : RsnCapabilities.parse ie ≠ some none := by
  obtain ⟨p, k, hversion, hp, hk, -, hlen⟩ := h
  have hsize : ¬ ie.length < 8 + p.toNat * 4 + 2 := fun hlt => by
    rw [le16At_of_length_lt hlt] at hk
    cases hk
  rw [RsnCapabilities.parse, if_neg (by omega), hversion, Option.bind_some, if_neg (by simp),
    if_neg (by omega)]
  cases be32At ie 2 with
  | none => exact fun h => by cases h
  | some group =>
      rw [Option.bind_some, RsnCapabilities.parsePairwise, if_neg (by omega), hp, Option.bind_some,
        if_neg (by omega)]
      rcases hlen with hlen | ⟨-, hlen⟩
      · cases be32At ie 8 with
        | none => exact fun h => by cases h
        | some pairwise =>
            rw [Option.bind_some, RsnCapabilities.parseAkms, if_neg hsize, hk, Option.bind_some,
              if_neg (by omega)]
            intro hnone
            obtain ⟨akm, -, hcaps⟩ := Option.bind_eq_some_iff.1 hnone
            obtain ⟨w, -, hsome⟩ := Option.map_eq_some_iff.1 hcaps
            cases hsome
      · rw [be32At_of_length_lt (by omega)]
        exact fun h => by cases h

/-- Without a pairwise selector, the first one is read of what follows; an AKM list that is not as
long as its count says is refused. -/
theorem parse_no_pairwise (group : Selector) {rest : List (BitVec 8)} (hlong : 2 ≤ rest.length)
    (hrest : rest.length < k.toNat * 4) :
    RsnCapabilities.parse (leBytes16 1#16 ++ (group.toList ++ (leBytes16 0#16 ++
      (leBytes16 k ++ rest)))) = some none := by
  obtain ⟨s, rest', hs⟩ := exists_bytes4 (leBytes16 k ++ rest)
    (by rw [List.length_append, leBytes16_length]; omega)
  have hfirst := be32At_mid (leBytes16 1#16 ++ (group.toList ++ leBytes16 0#16)) rest' s
    (i := 8) (length_rsnHeader _ _ _).symm
  have hakms := parseAkms_short (leBytes16 1#16 ++ (group.toList ++ leBytes16 0#16))
    (be32Of group) (be32Of s) hrest
  rw [length_rsnHeader, List.append_assoc, List.append_assoc] at hakms
  rw [← hs, List.append_assoc, List.append_assoc] at hfirst
  have hzero : (0#16).toNat * 4 = 0 := rfl
  rw [parse_header, hzero, if_neg (Nat.not_lt_zero _), hfirst, Option.bind_some]
  · exact hakms
  · simp only [List.length_append, leBytes16_length, Vector.length_toList]
    omega

/-- Behind the pairwise list the parser refuses the string, or there is an AKM list. -/
theorem parseAkms_cases (front back : List (BitVec 8)) (group pairwise : BitVec 32) :
    RsnCapabilities.parseAkms (front ++ back) group pairwise front.length = some none ∨
      ∃ (k : BitVec 16) (akms : List Selector) (rest : List (BitVec 8)),
        back = leBytes16 k ++ (chunkBytes akms ++ rest) ∧ akms.length = k.toNat ∧
          k.toNat * 4 ≤ (chunkBytes akms ++ rest).length := by
  by_cases hshort : back.length < 2
  · refine .inl ?_
    rw [RsnCapabilities.parseAkms, if_pos (by rw [List.length_append]; omega)]
  obtain ⟨k, rest, rfl⟩ := exists_leBytes16 _ (Nat.le_of_not_lt hshort)
  by_cases hrest : rest.length < k.toNat * 4
  · exact .inl (parseAkms_short _ _ _ hrest)
  obtain ⟨akms, rest, rfl, hk⟩ := exists_chunks (Nat.le_of_not_lt hrest)
  exact .inr ⟨k, akms, rest, rfl, hk, Nat.le_of_not_lt hrest⟩

/-- Apart from counts of zero, the parser refuses what is no element of the format. -/
theorem parse_cases_of_not_starved (h : ¬ RsnStarved ie) :
    RsnCapabilities.parse ie = some none ∨ ∃ e : RsnElement, e.bytes = ie := by
  by_cases h4 : ie.length < 4
  · exact .inl (by rw [RsnCapabilities.parse, if_pos h4])
  obtain ⟨v, tail, rfl⟩ := exists_leBytes16 ie (by omega)
  have hversion := le16At_mid [] tail v rfl
  rw [List.nil_append, List.length_nil] at hversion
  by_cases hv : v = 1#16
  swap
  · exact .inl (by rw [RsnCapabilities.parse, if_neg h4, hversion, Option.bind_some, if_pos hv])
  subst hv
  by_cases h8 : (leBytes16 1#16 ++ tail).length < 8
  · exact .inl (by rw [RsnCapabilities.parse, if_neg h4, hversion, Option.bind_some,
      if_neg (by simp), if_pos h8])
  have htail : 6 ≤ tail.length := by
    rw [List.length_append, leBytes16_length] at h8
    omega
  obtain ⟨group, tail, rfl⟩ := exists_bytes4 tail (by omega)
  have hgroup := be32At_mid (leBytes16 1#16) tail group rfl
  by_cases h10 : (leBytes16 1#16 ++ (group.toList ++ tail)).length < 10
  · exact .inl (by rw [RsnCapabilities.parse, if_neg h4, hversion, Option.bind_some,
      if_neg (by simp), if_neg h8, ← leBytes16_length 1#16, hgroup, Option.bind_some,
      RsnCapabilities.parsePairwise, if_pos h10])
  have hcount : 2 ≤ tail.length := by
    rw [List.length_append, Vector.length_toList] at htail
    omega
  obtain ⟨p, back, rfl⟩ := exists_leBytes16 _ hcount
  have hparse := parse_header (Nat.le_of_not_lt h10)
  by_cases hback : back.length < p.toNat * 4
  · exact .inl (by rw [hparse, if_pos hback])
  obtain ⟨pairwise, back, rfl, hp⟩ := exists_chunks (Nat.le_of_not_lt hback)
  obtain rfl : BitVec.ofNat 16 pairwise.length = p := by rw [hp, BitVec.ofNat_toNat,
    BitVec.setWidth_eq]
  have hlt : pairwise.length < 2 ^ 16 := hp.trans_lt (BitVec.isLt _)
  by_cases hnil : pairwise = []
  · -- no pairwise selector: the parser goes on only if a first one can be read
    subst hnil
    have hlong : 2 ≤ back.length := by
      simp only [List.length_append, leBytes16_length, Vector.length_toList, chunkBytes,
        List.flatMap_nil, List.length_nil] at h10
      omega
    obtain ⟨k, rest, rfl⟩ := exists_leBytes16 _ hlong
    have hrest : 2 ≤ rest.length ∧ rest.length < k.toNat * 4 := by
      by_contra hno
      refine h (rsnStarved_of rfl (.inl rfl) ?_)
      by_cases hk : k.toNat * 4 ≤ rest.length
      · exact .inl hk
      · exact .inr ⟨rfl, by omega⟩
    exact .inl (parse_no_pairwise group hrest.1 hrest.2)
  · have hpos := List.length_pos_iff.2 hnil
    rw [parse_pairwise hnil hlt (.inr (by omega)), ← length_rsnFront group pairwise]
    obtain hnone | ⟨k, akms, rest, rfl, hk, hle⟩ := parseAkms_cases (leBytes16 1#16 ++
      (group.toList ++ leBytes16 (BitVec.ofNat 16 pairwise.length)) ++ chunkBytes pairwise) back
      (be32Of group) (be32Of (pairwise.head hnil))
    · exact .inl hnone
    obtain rfl : BitVec.ofNat 16 akms.length = k := by rw [hk, BitVec.ofNat_toNat,
      BitVec.setWidth_eq]
    by_cases hakms : akms = []
    · subst hakms
      exact absurd (rsnStarved_of hp (.inr rfl) (.inl hle)) h
    · exact .inr ⟨⟨group, pairwise, akms, rest, hnil, hakms, hlt, hk.trans_lt (BitVec.isLt _)⟩, rfl⟩

end Format

/-- **When an RSN element is parsed as the format says.**  The parser returns, and it returns
capabilities exactly for the elements of the format, unless one of the counts is zero and the
element has the selectors that the counts promise, or ends within the first selector that a pairwise
count of zero does not promise. -/
theorem rsn_parse_exact_iff (ie : List (BitVec 8)) : RsnExact ie ↔ ¬ RsnStarved ie := by
  constructor
  · rintro ⟨out, hparse, hexact⟩ hstarved
    cases out with
    | none => exact hstarved.parse_ne hparse
    | some caps =>
        obtain ⟨e, rfl, -⟩ := (hexact caps).1 rfl
        exact e.not_starved hstarved
  · intro hstarved
    rcases parse_cases_of_not_starved hstarved with hparse | ⟨e, rfl⟩
    · refine ⟨none, hparse, fun caps => iff_of_false (fun h => by cases h) ?_⟩
      rintro ⟨e, rfl, -⟩
      rw [e.parse_bytes] at hparse
      cases hparse
    · refine ⟨some e.caps, e.parse_bytes, fun caps => ⟨fun h => ?_, ?_⟩⟩
      · exact ⟨e, rfl, Option.some.inj h⟩
      · rintro ⟨e', heq, rfl⟩
        have hparse := e'.parse_bytes
        rw [heq, e.parse_bytes] at hparse
        exact Option.some.inj hparse

/-- An element that ends behind a pairwise count of zero and two more bytes is read outside; with
more behind it, and with two counts of zero, capabilities are returned. -/
theorem rsn_zero_counts :
    RsnCapabilities.parse [1, 0, 0, 0x0F, 0xAC, 4, 0, 0, 1, 0] = none ∧
      RsnCapabilities.parse [1, 0, 0, 0x0F, 0xAC, 4, 0, 0, 0, 0, 0xDE, 0xAD, 0xBE, 0xEF] =
        some (some ⟨0x000FAC04, 0x0000DEAD, 0xDEADBEEF, true, true⟩) ∧
      ¬ RsnExact [1, 0, 0, 0x0F, 0xAC, 4, 0, 0, 1, 0] ∧
        ¬ RsnExact [1, 0, 0, 0x0F, 0xAC, 4, 0, 0, 0, 0, 0xDE, 0xAD, 0xBE, 0xEF] := by
  have hpanic : RsnCapabilities.parse [1, 0, 0, 0x0F, 0xAC, 4, 0, 0, 1, 0] = none := by decide
  have hsome : RsnCapabilities.parse
      [1, 0, 0, 0x0F, 0xAC, 4, 0, 0, 0, 0, 0xDE, 0xAD, 0xBE, 0xEF] =
        some (some ⟨0x000FAC04, 0x0000DEAD, 0xDEADBEEF, true, true⟩) := by decide
  refine ⟨hpanic, hsome, ?_, ?_⟩
  · rintro ⟨out, hparse, -⟩
    rw [hpanic] at hparse
    cases hparse
  · rintro ⟨out, hparse, hexact⟩
    obtain ⟨e, hbytes, -⟩ := (hexact _).1 (Option.some.inj (hparse.symm.trans hsome))
    refine e.not_starved ?_
    rw [hbytes]
    exact ⟨0#16, 0#16, by decide, by decide, by decide, .inl rfl, .inl (by decide)⟩

end StarOS
