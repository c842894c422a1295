/-
The text form of IPv6 addresses (`net/ipv6/mod.rs`).

`to_string` writes the longest run of zero groups as `::`, and what it writes is read back as the
same address.  `from_str` splits at `::` and fills the address from both ends.  It checks on neither
side how many groups there are together, and it takes whatever `u16::from_str_radix` takes: too few
groups, groups that overlap, signs and long numbers are accepted.  The position of the right side is
computed with a subtraction that overflows for more than eight parts.

* `StarOS.u16FromStrRadix16`, `StarOS.Ipv6Addr.fromStr` — the parser; a panic is `none`;
* `StarOS.Ipv6Addr.toString` — the text form;
* `StarOS.Ipv6Text` — the grammar of addresses, with the address that a text stands for;
* `StarOS.Ipv6Misread`, `StarOS.Ipv6Overlong` — the texts that are accepted although they are none,
  and those for which the position overflows;
* `StarOS.Ipv6Addr.fromStr_of_text`, `StarOS.Ipv6Addr.fromStr_cases` — what is accepted;
* `StarOS.ipv6_text_round_trip` — the round trip;
* `StarOS.ipv6_parse_law_iff` — when the parser accepts addresses only.
-/

import StarOS.Ipv6
import StarOS.Splitting
import Mathlib.Data.List.OfFn

set_option autoImplicit false

namespace StarOS

open Splitting

/-! ### Numbers -/

/-- `char::to_digit`, for radix 16. -/
def hexDigit (c : Char) : Option ℕ :=
  if '0' ≤ c ∧ c ≤ '9' then some (c.toNat - 48)
  else if 'a' ≤ c ∧ c ≤ 'f' then some (c.toNat - 87)
  else if 'A' ≤ c ∧ c ≤ 'F' then some (c.toNat - 55)
  else none

/-- The digits of a number of 16 bits. -/
def u16Digits : List Char → ℕ → Option ℕ
  | [], v => some v
  | c :: cs, v =>
      match hexDigit c with
      | none => none
      | some d => if 16 * v + d < 2 ^ 16 then u16Digits cs (16 * v + d) else none

/-- `u16::from_str_radix`, for radix 16. -/
def u16FromStrRadix16 : List Char → Option (BitVec 16)
  | [] => none
  | c :: cs =>
      if c = '+' then
        if cs = [] then none else (u16Digits cs 0).map (BitVec.ofNat 16)
      else (u16Digits (c :: cs) 0).map (BitVec.ofNat 16)

/-! ### Parsing -/

namespace Ipv6Addr

/-- `u16::from_be_bytes` of the bytes of group `k`. -/
def group (a : Ipv6Addr) (k : Fin 8) : BitVec 16 :=
  a.addr ⟨2 * k.val, by omega⟩ ++ a.addr ⟨2 * k.val + 1, by omega⟩

/-- The groups. -/
def groups (a : Ipv6Addr) : List (BitVec 16) := List.ofFn a.group

/-- The two bytes of a group stored at `pos`. -/
def setGroup (a : Ipv6Addr) (pos : ℕ) (val : BitVec 16) : Ipv6Addr where
  addr i :=
    if i.val = pos then (val >>> 8).setWidth 8
    else if i.val = pos + 1 then val.setWidth 8
    else a.addr i

/-- `Ipv6Addr::unspecified`. -/
def unspecified : Ipv6Addr := ⟨fun _ => 0#8⟩

/-- The loop that stores the parts of one side, from `pos` on. -/
def storeGroups (a : Ipv6Addr) (pos : ℕ) : List (List Char) → Option Ipv6Addr
  | [] => some a
  | part :: parts =>
      if 16 ≤ pos then none
      else
        match u16FromStrRadix16 part with
        | none => none
        | some val => storeGroups (a.setGroup pos val) (pos + 2) parts

/-- What `from_str` does with the two sides of `::`, with or without overflow checks. -/
def fromSides (checks : Bool) (left right : List Char) : Option (Option Ipv6Addr) :=
  match if left = [] then some unspecified else storeGroups unspecified 0 (left.splitOn ':') with
  | none => some none
  | some a =>
      if right = [] then some (some a)
      else
        let rightParts := right.splitOn ':'
        if 16 < rightParts.length * 2 then
          -- without checks the position wraps around, and lies behind the end of the address
          if checks then none else some none
        else some (storeGroups a (16 - rightParts.length * 2) rightParts)

/-- `Ipv6Addr::from_str`. -/
def fromStr (checks : Bool) (s : List Char) : Option (Option Ipv6Addr) :=
  let parts := splitDouble ':' s
  if 2 < parts.length then some none
  else fromSides checks (parts.getD 0 []) (if parts.length = 2 then parts.getD 1 [] else [])

/-! ### Printing -/

/-- `{:x}`. -/
def formatHex (w : BitVec 16) : List Char := Nat.toDigits 16 w.toNat

/-- The variables of the loop that looks for the longest run of zeros. -/
structure ZeroRun where
  bestStart : ℕ
  bestLen : ℕ
  curStart : ℕ
  curLen : ℕ

/-- The longest run, once the current one has ended. -/
def ZeroRun.close (r : ZeroRun) : ZeroRun :=
  if r.bestLen < r.curLen then { r with bestStart := r.curStart, bestLen := r.curLen } else r

/-- One pass of the loop. -/
def zeroRunStep (a : Ipv6Addr) (r : ZeroRun) (i : Fin 8) : ZeroRun :=
  if a.group i = 0#16 then
    { r with curStart := if r.curLen = 0 then i.val else r.curStart, curLen := r.curLen + 1 }
  else { r.close with curLen := 0 }

/-- The longest run of zeros. -/
def zeroRun (a : Ipv6Addr) : ZeroRun :=
  ((List.finRange 8).foldl a.zeroRunStep ⟨0, 0, 0, 0⟩).close

/-- The loop that writes the groups from `i` on. -/
def writeGroups (a : Ipv6Addr) (r : ZeroRun) (i : ℕ) : List Char :=
  if h : i < 8 then
    if i = r.bestStart ∧ 1 < r.bestLen then [':', ':'] ++ writeGroups a r (i + r.bestLen)
    else
      (if 0 < i ∧ ¬ (i = r.bestStart + r.bestLen ∧ 1 < r.bestLen) then [':'] else []) ++
        formatHex (a.group ⟨i, h⟩) ++ writeGroups a r (i + 1)
  else []
  termination_by 8 - i

/-- `Ipv6Addr::to_string`. -/
def toString (a : Ipv6Addr) : List Char := a.writeGroups a.zeroRun 0

end Ipv6Addr

/-! ### The grammar -/

/-- A group: one to four hexadecimal digits. -/
def IsGroup (g : List Char) : Prop :=
  g ≠ [] ∧ g.length ≤ 4 ∧ ∀ c ∈ g, (hexDigit c).isSome

/-- The value of hexadecimal digits. -/
def hexValue (g : List Char) : ℕ := g.foldl (fun v c => 16 * v + (hexDigit c).getD 0) 0

/-- The value of a group. -/
def groupValue (g : List Char) : BitVec 16 := BitVec.ofNat 16 (hexValue g)

/-- Groups with colons between them. -/
def joinGroups (gs : List (List Char)) : List Char := [':'].intercalate gs

/-- The texts of addresses: eight groups, or at most seven with one `::` that stands for the groups
that are left out, which are zero. -/
def Ipv6Text (s : List Char) (a : Ipv6Addr) : Prop :=
  (∃ gs : List (List Char), (∀ g ∈ gs, IsGroup g) ∧ gs.length = 8 ∧ s = joinGroups gs ∧
    a.groups = gs.map groupValue) ∨
  (∃ ls rs : List (List Char), (∀ g ∈ ls ++ rs, IsGroup g) ∧ ls.length + rs.length ≤ 7 ∧
    s = joinGroups ls ++ [':', ':'] ++ joinGroups rs ∧
    a.groups = ls.map groupValue ++ List.replicate (8 - (ls.length + rs.length)) 0#16 ++
      rs.map groupValue)

/-- The law for one text: there is no panic, and a text that is accepted is that of the address. -/
def Ipv6ParseLaw (checks : Bool) (s : List Char) : Prop :=
  ∃ result, Ipv6Addr.fromStr checks s = some result ∧ ∀ a, result = some a → Ipv6Text s a

/-- What is taken for a group. -/
def IsNumeral (g : List Char) : Prop := (u16FromStrRadix16 g).isSome = true

/-- At most eight numerals on each side of `::`, or without one, that are not the groups of an
address: too few or too many of them, or one with a sign or more than four digits. -/
def Ipv6Misread (s : List Char) : Prop :=
  (∃ ls : List (List Char), (∀ g ∈ ls, IsNumeral g) ∧ ls.length ≤ 8 ∧ s = joinGroups ls ∧
    ¬ (ls.length = 8 ∧ ∀ g ∈ ls, IsGroup g)) ∨
  (∃ ls rs : List (List Char), (∀ g ∈ ls ++ rs, IsNumeral g) ∧ ls.length ≤ 8 ∧ rs.length ≤ 8 ∧
    s = joinGroups ls ++ [':', ':'] ++ joinGroups rs ∧
    ¬ (ls.length + rs.length ≤ 7 ∧ ∀ g ∈ ls ++ rs, IsGroup g))

/-- At most eight numerals, `::`, and more than eight parts behind it. -/
def Ipv6Overlong (s : List Char) : Prop :=
  ∃ (ls : List (List Char)) (r : List Char), (∀ g ∈ ls, IsNumeral g) ∧ ls.length ≤ 8 ∧
    s = joinGroups ls ++ [':', ':'] ++ r ∧ NoDouble ':' r ∧ 8 ≤ r.count ':'

/-! ### The value of numbers -/

theorem hexDigit_lt {c : Char} {d : ℕ} (h : hexDigit c = some d) : d < 16 := by
  have hle : ∀ x y : Char, x ≤ y ↔ x.toNat ≤ y.toNat := fun _ _ => Iff.rfl
  simp only [hexDigit, hle] at h
  have h0 : '0'.toNat = 48 ∧ '9'.toNat = 57 ∧ 'a'.toNat = 97 ∧ 'f'.toNat = 102 ∧
    'A'.toNat = 65 ∧ 'F'.toNat = 70 := by decide
  split at h
  · obtain rfl := Option.some.inj h
    omega
  split at h
  · obtain rfl := Option.some.inj h
    omega
  split at h
  · obtain rfl := Option.some.inj h
    omega
  · cases h

/-- Going on with more digits. -/
theorem foldl_hex_le (cs : List Char) (v : ℕ) :
    v ≤ cs.foldl (fun v c => 16 * v + (hexDigit c).getD 0) v := by
  induction cs generalizing v with
  | nil => exact Nat.le_refl v
  | cons c cs ih =>
      have hrest := ih (16 * v + (hexDigit c).getD 0)
      rw [List.foldl_cons]
      omega

theorem foldl_hex_lt (cs : List Char) (v : ℕ) :
    cs.foldl (fun v c => 16 * v + (hexDigit c).getD 0) v < (v + 1) * 16 ^ cs.length := by
  induction cs generalizing v with
  | nil => simp
  | cons c cs ih =>
      have hdigit : (hexDigit c).getD 0 < 16 := by
        cases h : hexDigit c with
        | none => exact Nat.zero_lt_succ 15
        | some d => exact hexDigit_lt h
      have hle : (16 * v + (hexDigit c).getD 0 + 1) * 16 ^ cs.length ≤
          ((v + 1) * 16) * 16 ^ cs.length := Nat.mul_le_mul_right _ (by omega)
      rw [List.foldl_cons, List.length_cons, Nat.pow_succ', ← Nat.mul_assoc]
      exact Nat.lt_of_lt_of_le (ih _) hle

/-- Digits with a value of 16 bits. -/
theorem u16Digits_eq {cs : List Char} (hdigits : ∀ c ∈ cs, (hexDigit c).isSome) {v : ℕ}
    (hlt : cs.foldl (fun v c => 16 * v + (hexDigit c).getD 0) v < 2 ^ 16) :
    u16Digits cs v = some (cs.foldl (fun v c => 16 * v + (hexDigit c).getD 0) v) := by
  induction cs generalizing v with
  | nil => rfl
  | cons c cs ih =>
      obtain ⟨d, hd⟩ := Option.isSome_iff_exists.1 (hdigits c List.mem_cons_self)
      rw [List.foldl_cons, hd, Option.getD_some] at hlt ⊢
      have hle := foldl_hex_le cs (16 * v + d)
      rw [u16Digits, hd]
      dsimp only
      rw [if_pos (by omega), ih (fun c' hc' => hdigits c' (List.mem_cons_of_mem c hc')) hlt]

/-- Only digits are taken. -/
theorem hexDigit_of_u16Digits {cs : List Char} {v v' : ℕ} (h : u16Digits cs v = some v') :
    ∀ c ∈ cs, (hexDigit c).isSome := by
  induction cs generalizing v with
  | nil => exact fun c hc => absurd hc List.not_mem_nil
  | cons c cs ih =>
      rw [u16Digits] at h
      cases hd : hexDigit c with
      | none =>
          rw [hd] at h
          cases h
      | some d =>
          rw [hd] at h
          dsimp only at h
          split at h
          · intro c' hc'
            rcases List.mem_cons.1 hc' with rfl | hc'
            · rw [hd]
              rfl
            · exact ih h c' hc'
          · cases h

/-- A group is read as its value. -/
theorem IsGroup.u16FromStrRadix16 {g : List Char} (h : IsGroup g) :
    u16FromStrRadix16 g = some (groupValue g) := by
  obtain ⟨hne, hlen, hdigits⟩ := h
  have hlt : hexValue g < 2 ^ 16 := by
    have hbound := foldl_hex_lt g 0
    have hpow : 16 ^ g.length ≤ 16 ^ 4 := Nat.pow_le_pow_right (by decide) hlen
    rw [hexValue]
    omega
  cases g with
  | nil => exact absurd rfl hne
  | cons c cs =>
      have hplus : c ≠ '+' := by
        rintro rfl
        exact absurd (hdigits '+' List.mem_cons_self) (by decide)
      rw [StarOS.u16FromStrRadix16, if_neg hplus, u16Digits_eq hdigits hlt]
      rfl

theorem IsGroup.isNumeral {g : List Char} (h : IsGroup g) : IsNumeral g := by
  rw [IsNumeral, h.u16FromStrRadix16]
  rfl

/-- What is taken for a group is not empty, and has no colon. -/
theorem IsNumeral.noColon {g : List Char} (h : IsNumeral g) : g ≠ [] ∧ ':' ∉ g := by
  have hdigits : ∀ cs : List Char, ((u16Digits cs 0).map (BitVec.ofNat 16)).isSome → ':' ∉ cs := by
    intro cs hcs hmem
    rw [Option.isSome_map] at hcs
    obtain ⟨v, hv⟩ := Option.isSome_iff_exists.1 hcs
    exact absurd (hexDigit_of_u16Digits hv ':' hmem) (by decide)
  cases g with
  | nil => cases h
  | cons c cs =>
      refine ⟨List.cons_ne_nil c cs, ?_⟩
      rw [IsNumeral, u16FromStrRadix16] at h
      split at h
      · rename_i hplus
        split at h
        · cases h
        · rw [List.mem_cons, not_or, hplus]
          exact ⟨by decide, hdigits cs h⟩
      · exact hdigits (c :: cs) h

/-! ### Storing groups -/

/-- The value of what is taken for a group. -/
def numeralValue (g : List Char) : BitVec 16 := (u16FromStrRadix16 g).getD 0#16

theorem IsGroup.numeralValue {g : List Char} (h : IsGroup g) :
    StarOS.numeralValue g = groupValue g := by
  rw [StarOS.numeralValue, h.u16FromStrRadix16, Option.getD_some]

namespace Ipv6Addr

/-- An address is made of its groups. -/
theorem ext_group {a b : Ipv6Addr} (h : ∀ j, a.group j = b.group j) : a = b := by
  have hbyte : ∀ i : Fin 16, a.addr i = b.addr i := by
    intro i
    have hgroup := h ⟨i.val / 2, by omega⟩
    have hsplit : ∀ x y x' y' : BitVec 8, x ++ y = x' ++ y' → x = x' ∧ y = y' := by
      intro x y x' y' hxy
      have hnat := congrArg BitVec.toNat hxy
      rw [BitVec.toNat_append, BitVec.toNat_append, Nat.shiftLeft_eq, Nat.shiftLeft_eq,
        Nat.mul_comm x.toNat, ← Nat.two_pow_add_eq_or_of_lt y.isLt, Nat.mul_comm x'.toNat,
        ← Nat.two_pow_add_eq_or_of_lt y'.isLt] at hnat
      have hy := y.isLt
      have hy' := y'.isLt
      exact ⟨BitVec.eq_of_toNat_eq (by omega), BitVec.eq_of_toNat_eq (by omega)⟩
    obtain ⟨hhigh, hlow⟩ := hsplit _ _ _ _ hgroup
    rcases Nat.mod_two_eq_zero_or_one i.val with heven | hodd
    · have hi : (⟨2 * (i.val / 2), by omega⟩ : Fin 16) = i := Fin.ext (by dsimp only; omega)
      rwa [hi] at hhigh
    · have hi : (⟨2 * (i.val / 2) + 1, by omega⟩ : Fin 16) = i := Fin.ext (by dsimp only; omega)
      rwa [hi] at hlow
  cases a
  cases b
  exact congrArg mk (funext hbyte)

theorem group_setGroup (a : Ipv6Addr) (k : ℕ) (val : BitVec 16) (j : Fin 8) :
    (a.setGroup (2 * k) val).group j = if j.val = k then val else a.group j := by
  rw [group, setGroup]
  dsimp only
  by_cases hj : j.val = k
  · rw [if_pos (by omega), if_neg (by omega), if_pos (by omega), if_pos hj]
    refine BitVec.eq_of_getLsbD_eq fun i hi => ?_
    rw [BitVec.getLsbD_append, BitVec.getLsbD_setWidth, BitVec.getLsbD_setWidth,
      BitVec.getLsbD_ushiftRight]
    by_cases hlow : i < 8
    · rw [if_pos hlow, decide_eq_true hlow, Bool.true_and]
    · rw [if_neg hlow, decide_eq_true (show i - 8 < 8 by omega), Bool.true_and,
        show 8 + (i - 8) = i by omega]
  · rw [if_neg (by omega), if_neg (by omega), if_neg (by omega), if_neg (by omega), if_neg hj]
    rfl

/-- Parts that are numerals are stored, if there is room for them. -/
theorem storeGroups_ok (a : Ipv6Addr) {k : ℕ} {parts : List (List Char)}
    (hparts : ∀ g ∈ parts, IsNumeral g) (hroom : k + parts.length ≤ 8) :
    ∃ a', a.storeGroups (2 * k) parts = some a' ∧ ∀ j : Fin 8, a'.group j =
      if k ≤ j.val ∧ j.val < k + parts.length then numeralValue (parts.getD (j.val - k) [])
      else a.group j := by
  induction parts generalizing a k with
  | nil =>
      refine ⟨a, rfl, fun j => ?_⟩
      rw [List.length_nil, if_neg (by omega)]
  | cons part parts ih =>
      rw [List.length_cons] at hroom
      obtain ⟨val, hval⟩ := Option.isSome_iff_exists.1 (hparts part List.mem_cons_self)
      obtain ⟨a', ha', hgroups⟩ := ih (a.setGroup (2 * k) val) (k := k + 1)
        (fun g hg => hparts g (List.mem_cons_of_mem part hg)) (by omega)
      refine ⟨a', ?_, fun j => ?_⟩
      · rw [storeGroups, if_neg (by omega), hval]
        exact ha'
      · rw [hgroups, group_setGroup, List.length_cons]
        rcases Nat.lt_trichotomy j.val k with hlt | heq | hgt
        · rw [if_neg (by omega), if_neg (by omega), if_neg (by omega)]
        · rw [if_neg (by omega), if_pos heq, if_pos (by omega), heq, Nat.sub_self,
            List.getD_cons_zero, numeralValue, hval, Option.getD_some]
        · have hsub : j.val - k = (j.val - (k + 1)) + 1 := by omega
          rw [hsub, List.getD_cons_succ]
          by_cases hin : j.val < k + (parts.length + 1)
          · rw [if_pos (by omega), if_pos (by omega)]
          · rw [if_neg (by omega), if_neg (by omega), if_neg (by omega)]

/-- Only numerals are stored, and only as long as there is room. -/
theorem storeGroups_inv {a a' : Ipv6Addr} {k : ℕ} {parts : List (List Char)}
    (h : a.storeGroups (2 * k) parts = some a') :
    (∀ g ∈ parts, IsNumeral g) ∧ (parts = [] ∨ k + parts.length ≤ 8) := by
  induction parts generalizing a k with
  | nil => exact ⟨fun g hg => absurd hg List.not_mem_nil, .inl rfl⟩
  | cons part parts ih =>
      rw [storeGroups] at h
      split at h
      · cases h
      · rename_i hpos
        cases hval : u16FromStrRadix16 part with
        | none =>
            rw [hval] at h
            cases h
        | some val =>
            rw [hval] at h
            obtain ⟨hrest, hroom⟩ := ih (k := k + 1) h
            constructor
            · intro g hg
              rcases List.mem_cons.1 hg with rfl | hg
              · rw [IsNumeral, hval]
                rfl
              · exact hrest g hg
            · right
              rw [List.length_cons]
              rcases hroom with rfl | hroom
              · rw [List.length_nil]
                omega
              · omega

end Ipv6Addr

/-! ### Joined numerals -/

section Join

variable {ls rs : List (List Char)}

theorem noColon_of_numerals (h : ∀ g ∈ ls, IsNumeral g) : ∀ g ∈ ls, g ≠ [] ∧ ':' ∉ g :=
  fun g hg => (h g hg).noColon

theorem joinGroups_eq_nil (h : ∀ g ∈ ls, IsNumeral g) : joinGroups ls = [] ↔ ls = [] := by
  constructor
  · intro hnil
    rcases ls with _ | ⟨g, _ | ⟨g', ls⟩⟩
    · rfl
    · rw [joinGroups, List.intercalate_singleton] at hnil
      exact absurd hnil (h g List.mem_cons_self).noColon.1
    · rw [joinGroups, List.intercalate_cons_cons, List.append_assoc] at hnil
      exact absurd (List.append_eq_nil_iff.1 hnil).1 (h g List.mem_cons_self).noColon.1
  · rintro rfl
    rfl

theorem splitOn_joinGroups (h : ∀ g ∈ ls, IsNumeral g) (hne : ls ≠ []) :
    (joinGroups ls).splitOn ':' = ls :=
  List.splitOn_intercalate ':' (fun g hg => (h g hg).noColon.2) hne

theorem joinGroups_injective (hls : ∀ g ∈ ls, IsNumeral g) (hrs : ∀ g ∈ rs, IsNumeral g)
    (h : joinGroups ls = joinGroups rs) : ls = rs := by
  by_cases hne : ls = []
  · rw [hne] at h ⊢
    exact ((joinGroups_eq_nil hrs).1 h.symm).symm
  · have hne' : rs ≠ [] := fun hnil => hne ((joinGroups_eq_nil hls).1 (by rw [h, hnil]; rfl))
    rw [← splitOn_joinGroups hls hne, h, splitOn_joinGroups hrs hne']

theorem noDouble_joinGroups (h : ∀ g ∈ ls, IsNumeral g) : NoDouble ':' (joinGroups ls) :=
  (noDouble_intercalate (noColon_of_numerals h)).left_of_append

theorem splitDouble_joinGroups (h : ∀ g ∈ ls, IsNumeral g) :
    splitDouble ':' (joinGroups ls) = [joinGroups ls] :=
  splitDouble_of_noDouble (noDouble_joinGroups h)

theorem splitDouble_joinGroups_append (h : ∀ g ∈ ls, IsNumeral g) {r : List Char}
    (hr : NoDouble ':' r) :
    splitDouble ':' (joinGroups ls ++ [':', ':'] ++ r) = [joinGroups ls, r] := by
  rw [List.append_assoc]
  exact (splitDouble_append (noDouble_intercalate (noColon_of_numerals h)) r).trans
    (congrArg _ (splitDouble_of_noDouble hr))

end Join

/-! ### What is accepted -/

namespace Ipv6Addr

variable {checks : Bool} {ls rs : List (List Char)}

theorem fromStr_joinGroups (h : ∀ g ∈ ls, IsNumeral g) :
    fromStr checks (joinGroups ls) = fromSides checks (joinGroups ls) [] := by
  rw [fromStr, splitDouble_joinGroups h]
  rfl

theorem fromStr_append (h : ∀ g ∈ ls, IsNumeral g) {r : List Char} (hr : NoDouble ':' r) :
    fromStr checks (joinGroups ls ++ [':', ':'] ++ r) = fromSides checks (joinGroups ls) r := by
  rw [fromStr, splitDouble_joinGroups_append h hr]
  rfl

/-- The left side of joined numerals. -/
theorem storeLeft_eq (h : ∀ g ∈ ls, IsNumeral g) :
    (if joinGroups ls = [] then some unspecified
      else storeGroups unspecified 0 ((joinGroups ls).splitOn ':')) =
      unspecified.storeGroups (2 * 0) ls := by
  by_cases hne : ls = []
  · rw [if_pos ((joinGroups_eq_nil h).2 hne), hne]
    rfl
  · rw [if_neg (mt (joinGroups_eq_nil h).1 hne), splitOn_joinGroups h hne]

theorem group_unspecified (j : Fin 8) : unspecified.group j = 0#16 := by
  change 0#8 ++ 0#8 = 0#16
  decide

variable (checks) in
/-- Numerals on both sides, at most eight on each, are accepted; those on the right are stored last,
over those on the left. -/
theorem fromSides_ok (hls : ∀ g ∈ ls, IsNumeral g) (hrs : ∀ g ∈ rs, IsNumeral g)
    (hleft : ls.length ≤ 8) (hright : rs.length ≤ 8) :
    ∃ a, fromSides checks (joinGroups ls) (joinGroups rs) = some (some a) ∧
      ∀ j : Fin 8, a.group j =
        if 8 - rs.length ≤ j.val then numeralValue (rs.getD (j.val - (8 - rs.length)) [])
        else if j.val < ls.length then numeralValue (ls.getD j.val [])
        else 0#16 := by
  obtain ⟨a, ha, hgroups⟩ := storeGroups_ok unspecified (k := 0) hls (by omega)
  obtain ⟨a', ha', hgroups'⟩ := storeGroups_ok a (k := 8 - rs.length) hrs (by omega)
  refine ⟨a', ?_, fun j => ?_⟩
  · rw [fromSides, storeLeft_eq hls, ha]
    dsimp only
    by_cases hne : rs = []
    · rw [hne] at ha' ⊢
      exact congrArg some ha'
    · rw [if_neg (mt (joinGroups_eq_nil hrs).1 hne), splitOn_joinGroups hrs hne,
        if_neg (by omega), show 16 - rs.length * 2 = 2 * (8 - rs.length) by omega, ha']
  · rw [hgroups', hgroups, group_unspecified]
    by_cases hr : 8 - rs.length ≤ j.val
    · rw [if_pos ⟨hr, by omega⟩, if_pos hr]
    · rw [if_neg (by omega), if_neg hr, Nat.sub_zero]
      by_cases hl : j.val < ls.length
      · rw [if_pos (by omega), if_pos hl]
      · rw [if_neg (by omega), if_neg hl]

/-- The left side, if it is stored. -/
theorem storeLeft_inv {left : List Char} {a : Ipv6Addr}
    (h : (if left = [] then some unspecified
      else storeGroups unspecified 0 (left.splitOn ':')) = some a) :
    ∃ ls, (∀ g ∈ ls, IsNumeral g) ∧ ls.length ≤ 8 ∧ left = joinGroups ls := by
  split at h
  · rename_i hnil
    exact ⟨[], fun g hg => absurd hg List.not_mem_nil, Nat.zero_le 8, hnil⟩
  · obtain ⟨hnumerals, hroom⟩ := storeGroups_inv (k := 0) h
    refine ⟨left.splitOn ':', hnumerals, ?_, (List.intercalate_splitOn ':').symm⟩
    rcases hroom with hnil | hroom
    · rw [hnil]
      exact Nat.zero_le 8
    · omega

/-- The outcomes of the two sides: a panic for more than eight parts on the right, and an address
for numerals only. -/
theorem fromSides_cases (checks : Bool) (left right : List Char) :
    (fromSides checks left right = none ∧ checks = true ∧ 8 ≤ right.count ':' ∧
      ∃ ls, (∀ g ∈ ls, IsNumeral g) ∧ ls.length ≤ 8 ∧ left = joinGroups ls) ∨
    fromSides checks left right = some none ∨
    (∃ a, fromSides checks left right = some (some a) ∧
      ∃ ls rs, (∀ g ∈ ls, IsNumeral g) ∧ (∀ g ∈ rs, IsNumeral g) ∧ ls.length ≤ 8 ∧
        rs.length ≤ 8 ∧ left = joinGroups ls ∧ right = joinGroups rs) := by
  rw [fromSides]
  cases hleft : (if left = [] then some unspecified
      else storeGroups unspecified 0 (left.splitOn ':')) with
  | none => exact .inr (.inl rfl)
  | some a =>
      obtain ⟨ls, hls, hlen, hjoin⟩ := storeLeft_inv hleft
      dsimp only
      by_cases hright : right = []
      · rw [if_pos hright]
        exact .inr (.inr ⟨a, rfl, ls, [], hls, fun g hg => absurd hg List.not_mem_nil, hlen,
          Nat.zero_le 8, hjoin, hright⟩)
      · rw [if_neg hright]
        by_cases hlong : 16 < (right.splitOn ':').length * 2
        · rw [if_pos hlong]
          rw [length_splitOn] at hlong
          cases checks with
          | true => exact .inl ⟨rfl, rfl, by omega, ls, hls, hlen, hjoin⟩
          | false => exact .inr (.inl rfl)
        · rw [if_neg hlong]
          cases hstore : a.storeGroups (16 - (right.splitOn ':').length * 2)
              (right.splitOn ':') with
          | none => exact .inr (.inl rfl)
          | some a' =>
              rw [show 16 - (right.splitOn ':').length * 2 = 2 * (8 - (right.splitOn ':').length)
                by omega] at hstore
              exact .inr (.inr ⟨a', rfl, ls, right.splitOn ':', hls, (storeGroups_inv hstore).1,
                hlen, by omega, hjoin, (List.intercalate_splitOn ':').symm⟩)

/-- The outcomes for a text. -/
theorem fromStr_cases (checks : Bool) (s : List Char) :
    (fromStr checks s = none ∧ checks = true ∧ Ipv6Overlong s) ∨
    fromStr checks s = some none ∨
    (∃ a, fromStr checks s = some (some a) ∧
      ((∃ ls, (∀ g ∈ ls, IsNumeral g) ∧ ls.length ≤ 8 ∧ s = joinGroups ls) ∨
        ∃ ls rs, (∀ g ∈ ls, IsNumeral g) ∧ (∀ g ∈ rs, IsNumeral g) ∧ ls.length ≤ 8 ∧
          rs.length ≤ 8 ∧ s = joinGroups ls ++ [':', ':'] ++ joinGroups rs)) := by
  have hjoin := intercalate_splitDouble (c := ':') s
  have hdouble := fun p => noDouble_of_mem_splitDouble (c := ':') (l := s) (p := p)
  rw [fromStr]
  rcases hparts : splitDouble ':' s with _ | ⟨left, _ | ⟨right, _ | ⟨third, parts⟩⟩⟩
  · exact absurd hparts (splitDouble_ne_nil s)
  · rw [hparts, List.intercalate_singleton] at hjoin
    change _ ∨ _ ∨ _
    rcases fromSides_cases checks left [] with ⟨-, -, hcount, -⟩ | hnone | ⟨a, ha, ls, rs, hls, -,
      hlen, -, hl, -⟩
    · exact absurd hcount (by decide)
    · exact .inr (.inl hnone)
    · exact .inr (.inr ⟨a, ha, .inl ⟨ls, hls, hlen, by rw [← hjoin, hl]⟩⟩)
  · rw [hparts, List.intercalate_cons_cons, List.intercalate_singleton] at hjoin
    have hr : NoDouble ':' right := hdouble right (by rw [hparts]; simp)
    rcases fromSides_cases checks left right with ⟨hpanic, hchecks, hcount, ls, hls, hlen, hl⟩ |
      hnone | ⟨a, ha, ls, rs, hls, hrs, hlen, hlen', hl, hr'⟩
    · exact .inl ⟨hpanic, hchecks, ls, right, hls, hlen, by rw [← hjoin, hl], hr, hcount⟩
    · exact .inr (.inl hnone)
    · exact .inr (.inr ⟨a, ha, .inr ⟨ls, rs, hls, hrs, hlen, hlen', by rw [← hjoin, hl, hr']⟩⟩)
  · exact .inr (.inl (if_pos (by simp)))

/-! ### Texts of addresses -/

/-- An address filled from both ends. -/
theorem groups_of_sides {a : Ipv6Addr} (hls : ∀ g ∈ ls, IsGroup g) (hrs : ∀ g ∈ rs, IsGroup g)
    (hroom : ls.length + rs.length ≤ 8)
    (ha : ∀ j : Fin 8, a.group j =
      if 8 - rs.length ≤ j.val then numeralValue (rs.getD (j.val - (8 - rs.length)) [])
      else if j.val < ls.length then numeralValue (ls.getD j.val [])
      else 0#16) :
    a.groups = ls.map groupValue ++ List.replicate (8 - (ls.length + rs.length)) 0#16 ++
      rs.map groupValue := by
  refine List.ext_getElem (by simp [groups]; omega) fun j hj _ => ?_
  have hj8 : j < 8 := by simpa [groups] using hj
  have hgetD : ∀ (gs : List (List Char)) (i : ℕ) (hi : i < gs.length), (∀ g ∈ gs, IsGroup g) →
      numeralValue (gs.getD i []) = groupValue gs[i] := by
    intro gs i hi hgs
    rw [List.getD_eq_getElem?_getD, List.getElem?_eq_getElem hi, Option.getD_some]
    exact (hgs _ (List.getElem_mem hi)).numeralValue
  simp only [groups, List.getElem_ofFn, ha, List.getElem_append, List.length_append,
    List.length_map, List.length_replicate, List.getElem_map, List.getElem_replicate]
  by_cases hright : 8 - rs.length ≤ j
  · rw [if_pos hright, dif_neg (by omega), hgetD rs _ (by omega) hrs]
    congr 2
    omega
  · rw [if_neg hright, dif_pos (by omega)]
    by_cases hleft : j < ls.length
    · rw [if_pos hleft, dif_pos hleft, hgetD ls _ hleft hls]
    · rw [if_neg hleft, dif_neg hleft]

theorem groups_injective {a b : Ipv6Addr} (h : a.groups = b.groups) : a = b :=
  ext_group fun j => congrFun (List.ofFn_injective h) j

/-- The text of an address is accepted as this address. -/
theorem fromStr_of_text {s : List Char} {a : Ipv6Addr} (h : Ipv6Text s a) :
    fromStr checks s = some (some a) := by
  rcases h with ⟨gs, hgs, hlen, rfl, ha⟩ | ⟨ls, rs, hgroups, hlen, rfl, ha⟩
  · have hnum := fun g hg => (hgs g hg).isNumeral
    obtain ⟨a', ha', hsides⟩ := fromSides_ok checks hnum (List.forall_mem_nil IsNumeral)
      (by omega) (Nat.zero_le 8)
    have heq := groups_of_sides hgs (fun g hg => absurd hg List.not_mem_nil)
      (by rw [List.length_nil]; omega) hsides
    rw [hlen, List.length_nil, List.replicate_zero, List.map_nil, List.append_nil,
      List.append_nil, ← ha] at heq
    rw [fromStr_joinGroups hnum, ← groups_injective heq]
    exact ha'
  · have hls := fun g hg => hgroups g (List.mem_append_left rs hg)
    have hrs := fun g hg => hgroups g (List.mem_append_right ls hg)
    have hnls := fun g hg => (hls g hg).isNumeral
    have hnrs := fun g hg => (hrs g hg).isNumeral
    obtain ⟨a', ha', hsides⟩ := fromSides_ok checks hnls hnrs (by omega) (by omega)
    have heq := groups_of_sides hls hrs (by omega) hsides
    rw [← ha] at heq
    rw [fromStr_append hnls (noDouble_joinGroups hnrs), ← groups_injective heq]
    exact ha'

/-- More than eight parts on the right are a panic. -/
theorem fromStr_of_overlong {s : List Char} (h : Ipv6Overlong s) : fromStr true s = none := by
  obtain ⟨ls, r, hls, hlen, rfl, hr, hcount⟩ := h
  obtain ⟨a, ha, -⟩ := storeGroups_ok unspecified (k := 0) hls (by omega)
  have hne : r ≠ [] := by
    rintro rfl
    exact absurd hcount (by decide)
  rw [fromStr_append hls hr, fromSides, storeLeft_eq hls, ha]
  dsimp only
  rw [if_neg hne, length_splitOn, if_pos (by omega), if_pos rfl]

end Ipv6Addr

/-! ### The text form -/

theorem hexDigit_digitChar : ∀ d < 16, hexDigit d.digitChar = some d := by decide

/-- The digits of a number. -/
theorem hexValue_toDigits (n : ℕ) :
    (∀ c ∈ Nat.toDigits 16 n, (hexDigit c).isSome) ∧ hexValue (Nat.toDigits 16 n) = n := by
  induction n using Nat.strong_induction_on with
  | _ n ih =>
      rw [Nat.toDigits_eq_if (by decide)]
      split
      · rename_i hlt
        have hdigit := hexDigit_digitChar n hlt
        constructor
        · intro c hc
          rw [List.mem_singleton.1 hc, hdigit]
          rfl
        · rw [hexValue, List.foldl_cons, List.foldl_nil, hdigit, Option.getD_some]
          omega
      · obtain ⟨hdigits, hvalue⟩ := ih (n / 16) (by omega)
        have hdigit := hexDigit_digitChar (n % 16) (Nat.mod_lt n (by decide))
        rw [hexValue] at hvalue
        constructor
        · intro c hc
          rcases List.mem_append.1 hc with hc | hc
          · exact hdigits c hc
          · rw [List.mem_singleton.1 hc, hdigit]
            rfl
        · rw [hexValue, List.foldl_append, hvalue, List.foldl_cons, List.foldl_nil, hdigit,
            Option.getD_some]
          omega

theorem isGroup_formatHex (w : BitVec 16) : IsGroup (Ipv6Addr.formatHex w) :=
  ⟨Nat.toDigits_ne_nil, (Nat.length_toDigits_le_iff (by decide) (by decide)).2 w.isLt,
    (hexValue_toDigits w.toNat).1⟩

theorem groupValue_formatHex (w : BitVec 16) : groupValue (Ipv6Addr.formatHex w) = w := by
  rw [groupValue, Ipv6Addr.formatHex, (hexValue_toDigits w.toNat).2, BitVec.ofNat_toNat,
    BitVec.setWidth_eq]

theorem joinGroups_cons (g : List Char) (gs : List (List Char)) :
    joinGroups (g :: gs) = g ++ gs.flatMap fun g => ':' :: g := by
  induction gs generalizing g with
  | nil => rw [joinGroups, List.intercalate_singleton, List.flatMap_nil, List.append_nil]
  | cons g' gs ih =>
      rw [joinGroups, List.intercalate_cons_cons, ← joinGroups, ih, List.append_assoc,
        List.flatMap_cons]
      rfl

/-- A fold over the indices, by an invariant for the first of them. -/
theorem foldl_finRange {β : Type} {n : ℕ} (f : β → Fin n → β) {P : ℕ → β → Prop} {init : β}
    (hinit : P 0 init) (hstep : ∀ b (i : Fin n), P i.val b → P (i.val + 1) (f b i)) :
    P n ((List.finRange n).foldl f init) := by
  have htake : ∀ m ≤ n, P m (((List.finRange n).take m).foldl f init) := by
    intro m hm
    induction m with
    | zero => exact hinit
    | succ m ih =>
        have hlt : m < (List.finRange n).length := by rwa [List.length_finRange]
        rw [← List.take_append_getElem hlt, List.foldl_append, List.getElem_finRange]
        exact hstep _ ⟨m, hm⟩ (ih (Nat.le_of_succ_le hm))
  have hall := htake n (Nat.le_refl n)
  rwa [List.take_of_length_le (by rw [List.length_finRange])] at hall

namespace Ipv6Addr

variable (a : Ipv6Addr)

/-- A group in its text form. -/
def hexGroup (k : ℕ) : List Char := formatHex (a.groups.getD k 0#16)

theorem groups_getD {k : ℕ} (hk : k < 8) : a.groups.getD k 0#16 = a.group ⟨k, hk⟩ := by
  rw [groups, List.getD_eq_getElem?_getD, List.getElem?_ofFn, dif_pos hk, Option.getD_some]

/-- After the first `i` groups: both runs are of zeros. -/
structure ZeroRunOk (i : ℕ) (r : ZeroRun) : Prop where
  best_le : r.bestStart + r.bestLen ≤ i
  best : ∀ k, r.bestStart ≤ k → k < r.bestStart + r.bestLen → a.groups.getD k 0#16 = 0#16
  cur_le : r.curLen ≠ 0 → r.curStart + r.curLen = i
  cur : ∀ k, r.curStart ≤ k → k < r.curStart + r.curLen → a.groups.getD k 0#16 = 0#16

variable {a}

theorem ZeroRunOk.close {i : ℕ} {r : ZeroRun} (h : a.ZeroRunOk i r) : a.ZeroRunOk i r.close := by
  rw [ZeroRun.close]
  split
  · have hcur := h.cur_le (by omega)
    exact ⟨Nat.le_of_eq hcur, h.cur, h.cur_le, h.cur⟩
  · exact h

theorem ZeroRunOk.step {r : ZeroRun} {i : Fin 8} (h : a.ZeroRunOk i.val r) :
    a.ZeroRunOk (i.val + 1) (a.zeroRunStep r i) := by
  have hbest := h.best_le
  have hcur := h.cur_le
  rw [zeroRunStep]
  split
  · rename_i hzero
    rw [← groups_getD a i.isLt] at hzero
    refine ⟨Nat.le_succ_of_le hbest, h.best, fun _ => ?_, fun k hk hk' => ?_⟩
    · dsimp only
      by_cases hnone : r.curLen = 0
      · rw [if_pos hnone]
        omega
      · rw [if_neg hnone]
        have := hcur hnone
        omega
    · dsimp only at hk hk'
      by_cases hnone : r.curLen = 0
      · rw [if_pos hnone] at hk hk'
        obtain rfl : k = i.val := by omega
        exact hzero
      · rw [if_neg hnone] at hk hk'
        have hstart := hcur hnone
        rcases Nat.lt_or_ge k i.val with hlt | hge
        · exact h.cur k hk (by omega)
        · obtain rfl : k = i.val := by omega
          exact hzero
  · obtain ⟨hbest', hzeros, -, -⟩ := h.close
    exact ⟨Nat.le_succ_of_le hbest', hzeros, fun hne => absurd rfl hne,
      fun k hk hk' => absurd hk' (Nat.not_lt_of_le hk)⟩

/-- The run that is compressed lies in the address, and is one of zeros. -/
theorem zeroRunOk (a : Ipv6Addr) : a.ZeroRunOk 8 a.zeroRun := by
  refine ZeroRunOk.close (foldl_finRange a.zeroRunStep (P := a.ZeroRunOk) ?_ fun _ _ h => h.step)
  exact ⟨Nat.le_refl 0, fun k hk hk' => absurd hk' (Nat.not_lt_of_le hk),
    fun hne => absurd rfl hne, fun k hk hk' => absurd hk' (Nat.not_lt_of_le hk)⟩

section Write

variable {r : ZeroRun} {i e : ℕ}

theorem writeGroups_group (hi : i < 8) (hrun : ¬ (i = r.bestStart ∧ 1 < r.bestLen)) :
    a.writeGroups r i =
      (if 0 < i ∧ ¬ (i = r.bestStart + r.bestLen ∧ 1 < r.bestLen) then [':'] else []) ++
        a.hexGroup i ++ a.writeGroups r (i + 1) := by
  rw [writeGroups, dif_pos hi, if_neg hrun, hexGroup, groups_getD a hi]

theorem writeGroups_run (hi : i < 8) (hrun : i = r.bestStart ∧ 1 < r.bestLen) :
    a.writeGroups r i = [':', ':'] ++ a.writeGroups r (i + r.bestLen) := by
  rw [writeGroups, dif_pos hi, if_pos hrun]

theorem writeGroups_end : a.writeGroups r 8 = [] := by
  rw [writeGroups, dif_neg (by decide)]

/-- Groups behind the first one, none of them at an end of the run. -/
theorem writeGroups_colons (hpos : 0 < i) (hie : i ≤ e) (he : e ≤ 8)
    (hfree : ∀ k, i ≤ k → k < e →
      ¬ (k = r.bestStart ∧ 1 < r.bestLen) ∧ ¬ (k = r.bestStart + r.bestLen ∧ 1 < r.bestLen)) :
    a.writeGroups r i =
      ((List.range' i (e - i)).map a.hexGroup).flatMap (fun g => ':' :: g) ++
        a.writeGroups r e := by
  induction hn : e - i generalizing i with
  | zero =>
      obtain rfl : i = e := by omega
      rfl
  | succ n ih =>
      obtain ⟨hrun, hend⟩ := hfree i (Nat.le_refl i) (by omega)
      rw [writeGroups_group (by omega) hrun, if_pos ⟨hpos, hend⟩,
        ih (Nat.succ_pos i) (by omega) (fun k hk => hfree k (by omega)) (by omega),
        List.range'_succ, List.map_cons, List.flatMap_cons, List.append_assoc, List.append_assoc]
      rfl

/-- Groups from the first one on, or from the end of the run. -/
theorem writeGroups_join (hie : i ≤ e) (he : e ≤ 8)
    (hfirst : ¬ (0 < i ∧ ¬ (i = r.bestStart + r.bestLen ∧ 1 < r.bestLen)))
    (hfree : ∀ k, i ≤ k → k < e → ¬ (k = r.bestStart ∧ 1 < r.bestLen))
    (hend : ∀ k, i < k → k < e → ¬ (k = r.bestStart + r.bestLen ∧ 1 < r.bestLen)) :
    a.writeGroups r i =
      joinGroups ((List.range' i (e - i)).map a.hexGroup) ++ a.writeGroups r e := by
  by_cases heq : i = e
  · rw [heq, Nat.sub_self]
    rfl
  · rw [writeGroups_group (by omega) (hfree i (Nat.le_refl i) (by omega)), if_neg hfirst,
      writeGroups_colons (i := i + 1) (e := e) (Nat.succ_pos i) (by omega) he
        fun k hk hk' => ⟨hfree k (by omega) hk', hend k (by omega) hk'⟩,
      show e - i = (e - (i + 1)) + 1 by omega, List.range'_succ, List.map_cons, joinGroups_cons,
      List.nil_append, List.append_assoc]

end Write

/-- The groups from `i` on, read back. -/
theorem map_groupValue_hexGroup (l : List ℕ) :
    (l.map a.hexGroup).map groupValue = l.map fun k => a.groups.getD k 0#16 := by
  rw [List.map_map]
  exact List.map_congr_left fun k _ => groupValue_formatHex _

theorem groups_eq_map (a : Ipv6Addr) :
    a.groups = (List.range' 0 8).map fun k => a.groups.getD k 0#16 := by
  refine List.ext_getElem (by simp [groups]) fun k hk _ => ?_
  rw [List.getElem_map, List.getElem_range', Nat.zero_add, Nat.one_mul,
    List.getD_eq_getElem?_getD, List.getElem?_eq_getElem hk, Option.getD_some]

/-- `to_string` writes a text of the address. -/
theorem ipv6Text_toString (a : Ipv6Addr) : Ipv6Text a.toString a := by
  obtain ⟨hle, hzeros, -, -⟩ := a.zeroRunOk
  have hgroups : ∀ l : List ℕ, ∀ g ∈ l.map a.hexGroup, IsGroup g := by
    intro l g hg
    obtain ⟨k, -, rfl⟩ := List.mem_map.1 hg
    exact isGroup_formatHex _
  rw [toString]
  generalize hs : a.zeroRun.bestStart = s at hle hzeros
  generalize hl : a.zeroRun.bestLen = l at hle hzeros
  by_cases hrun : 1 < l
  · refine .inr ⟨(List.range' 0 s).map a.hexGroup,
      (List.range' (s + l) (8 - (s + l))).map a.hexGroup, ?_, ?_, ?_, ?_⟩
    · rw [← List.map_append]
      exact hgroups _
    · rw [List.length_map, List.length_map, List.length_range', List.length_range']
      omega
    · rw [writeGroups_join (i := 0) (e := s) (Nat.zero_le s) (by omega) (by omega)
          (fun k _ hk => by omega) (fun k _ hk => by omega),
        writeGroups_run (i := s) (by omega) ⟨hs.symm, by omega⟩, hl,
        writeGroups_join (i := s + l) (e := 8) (by omega) (Nat.le_refl 8) (by omega)
          (fun k hk _ => by omega) (fun k hk _ => by omega),
        writeGroups_end, List.append_nil, Nat.sub_zero, List.append_assoc]
    · have hrange : List.range' 0 8 =
          List.range' 0 s ++ List.range' s l ++ List.range' (s + l) (8 - (s + l)) := by
        have hfirst : List.range' 0 s ++ List.range' s l = List.range' 0 (s + l) := by
          have happend := @List.range'_append_1 0 s l
          rwa [Nat.zero_add] at happend
        have hall := @List.range'_append_1 0 (s + l) (8 - (s + l))
        rw [Nat.zero_add, Nat.add_sub_cancel' hle] at hall
        rw [hfirst, hall]
      have hmiddle : ((List.range' s l).map fun k => a.groups.getD k 0#16) =
          List.replicate l 0#16 := by
        refine List.eq_replicate_iff.2 ⟨by rw [List.length_map, List.length_range'], ?_⟩
        intro w hw
        obtain ⟨k, hk, rfl⟩ := List.mem_map.1 hw
        rw [List.mem_range'_1] at hk
        exact hzeros k hk.1 hk.2
      rw [map_groupValue_hexGroup, map_groupValue_hexGroup, List.length_map, List.length_map,
        List.length_range', List.length_range', show 8 - (s + (8 - (s + l))) = l by omega,
        ← hmiddle, ← List.map_append, ← List.map_append, ← hrange]
      exact a.groups_eq_map
  · refine .inl ⟨(List.range' 0 8).map a.hexGroup, hgroups _, ?_, ?_, ?_⟩
    · rw [List.length_map, List.length_range']
    · rw [writeGroups_join (i := 0) (e := 8) (by omega) (Nat.le_refl 8) (by omega)
          (fun k _ _ => by omega) (fun k _ _ => by omega),
        writeGroups_end, List.append_nil]
    · rw [map_groupValue_hexGroup]
      exact a.groups_eq_map

end Ipv6Addr

/-- What `to_string` writes is read back as the address, with or without overflow checks. -/
theorem ipv6_text_round_trip (checks : Bool) (a : Ipv6Addr) :
    Ipv6Addr.fromStr checks a.toString = some (some a) :=
  Ipv6Addr.fromStr_of_text a.ipv6Text_toString

/-! ### The law of the parser -/

section Law

variable {s : List Char} {ls rs : List (List Char)}

/-- The groups of the text of an address without `::`. -/
theorem ipv6Text_joinGroups {a : Ipv6Addr} (hls : ∀ g ∈ ls, IsNumeral g)
    (h : Ipv6Text (joinGroups ls) a) : ls.length = 8 ∧ ∀ g ∈ ls, IsGroup g := by
  rcases h with ⟨gs, hgs, hlen, heq, -⟩ | ⟨ls', rs', hgroups, -, heq, -⟩
  · obtain rfl := joinGroups_injective hls (fun g hg => (hgs g hg).isNumeral) heq
    exact ⟨hlen, hgs⟩
  · have hls' := fun g hg => (hgroups g (List.mem_append_left rs' hg)).isNumeral
    have hrs' := fun g hg => (hgroups g (List.mem_append_right ls' hg)).isNumeral
    have hparts := splitDouble_joinGroups hls
    rw [heq, splitDouble_joinGroups_append hls' (noDouble_joinGroups hrs')] at hparts
    exact absurd (List.cons.inj hparts).2 (List.cons_ne_nil _ _)

/-- The groups of the text of an address with `::`. -/
theorem ipv6Text_append {a : Ipv6Addr} (hls : ∀ g ∈ ls, IsNumeral g)
    (hrs : ∀ g ∈ rs, IsNumeral g)
    (h : Ipv6Text (joinGroups ls ++ [':', ':'] ++ joinGroups rs) a) :
    ls.length + rs.length ≤ 7 ∧ ∀ g ∈ ls ++ rs, IsGroup g := by
  have hparts := splitDouble_joinGroups_append hls (noDouble_joinGroups hrs)
  rcases h with ⟨gs, hgs, -, heq, -⟩ | ⟨ls', rs', hgroups, hlen, heq, -⟩
  · rw [heq, splitDouble_joinGroups fun g hg => (hgs g hg).isNumeral] at hparts
    exact absurd (List.cons.inj hparts).2.symm (List.cons_ne_nil _ _)
  · have hls' := fun g hg => (hgroups g (List.mem_append_left rs' hg)).isNumeral
    have hrs' := fun g hg => (hgroups g (List.mem_append_right ls' hg)).isNumeral
    rw [heq, splitDouble_joinGroups_append hls' (noDouble_joinGroups hrs')] at hparts
    obtain ⟨hl, hr⟩ := List.cons.inj hparts
    obtain rfl := joinGroups_injective hls' hls hl
    obtain rfl := joinGroups_injective hrs' hrs (List.cons.inj hr).1
    exact ⟨hlen, hgroups⟩

/-- A text that is misread is accepted, and is not the text of an address. -/
theorem not_law_of_misread {checks : Bool} (h : Ipv6Misread s) : ¬ Ipv6ParseLaw checks s := by
  rintro ⟨result, hresult, htext⟩
  rcases h with ⟨ls, hls, hlen, rfl, hbad⟩ | ⟨ls, rs, hgroups, hl, hr, rfl, hbad⟩
  · obtain ⟨a, ha, -⟩ := Ipv6Addr.fromSides_ok checks hls (List.forall_mem_nil IsNumeral) hlen
      (Nat.zero_le 8)
    rw [Ipv6Addr.fromStr_joinGroups hls] at hresult
    obtain rfl := Option.some.inj (ha.symm.trans hresult)
    exact hbad (ipv6Text_joinGroups hls (htext a rfl))
  · have hls := fun g hg => hgroups g (List.mem_append_left rs hg)
    have hrs := fun g hg => hgroups g (List.mem_append_right ls hg)
    obtain ⟨a, ha, -⟩ := Ipv6Addr.fromSides_ok checks hls hrs hl hr
    rw [Ipv6Addr.fromStr_append hls (noDouble_joinGroups hrs)] at hresult
    obtain rfl := Option.some.inj (ha.symm.trans hresult)
    exact hbad (ipv6Text_append hls hrs (htext a rfl))

/-- What is accepted and not misread is the text of the address. -/
theorem ipv6Text_of_accepted {checks : Bool} {a : Ipv6Addr} (hmisread : ¬ Ipv6Misread s)
    (ha : Ipv6Addr.fromStr checks s = some (some a))
    (h : (∃ ls, (∀ g ∈ ls, IsNumeral g) ∧ ls.length ≤ 8 ∧ s = joinGroups ls) ∨
      ∃ ls rs, (∀ g ∈ ls, IsNumeral g) ∧ (∀ g ∈ rs, IsNumeral g) ∧ ls.length ≤ 8 ∧
        rs.length ≤ 8 ∧ s = joinGroups ls ++ [':', ':'] ++ joinGroups rs) : Ipv6Text s a := by
  rcases h with ⟨ls, hls, hlen, rfl⟩ | ⟨ls, rs, hls, hrs, hl, hr, rfl⟩
  · obtain ⟨hfull, hgroups⟩ : ls.length = 8 ∧ ∀ g ∈ ls, IsGroup g :=
      by_contra fun hbad => hmisread (.inl ⟨ls, hls, hlen, rfl, hbad⟩)
    obtain ⟨a', ha', hsides⟩ := Ipv6Addr.fromSides_ok checks hls (List.forall_mem_nil IsNumeral)
      hlen (Nat.zero_le 8)
    rw [Ipv6Addr.fromStr_joinGroups hls] at ha
    obtain rfl := Option.some.inj (Option.some.inj (ha'.symm.trans ha))
    have heq := Ipv6Addr.groups_of_sides hgroups (fun g hg => absurd hg List.not_mem_nil)
      (by rw [List.length_nil]; omega) hsides
    rw [hfull, List.length_nil, List.replicate_zero, List.map_nil, List.append_nil,
      List.append_nil] at heq
    exact .inl ⟨ls, hgroups, hfull, rfl, heq⟩
  · obtain ⟨hroom, hgroups⟩ : ls.length + rs.length ≤ 7 ∧ ∀ g ∈ ls ++ rs, IsGroup g := by
      refine by_contra fun hbad => hmisread (.inr ⟨ls, rs, fun g hg => ?_, hl, hr, rfl, hbad⟩)
      exact (List.mem_append.1 hg).elim (hls g) (hrs g)
    obtain ⟨a', ha', hsides⟩ := Ipv6Addr.fromSides_ok checks hls hrs hl hr
    rw [Ipv6Addr.fromStr_append hls (noDouble_joinGroups hrs)] at ha
    obtain rfl := Option.some.inj (Option.some.inj (ha'.symm.trans ha))
    exact .inr ⟨ls, rs, hgroups, hroom, rfl, Ipv6Addr.groups_of_sides
      (fun g hg => hgroups g (List.mem_append_left rs hg))
      (fun g hg => hgroups g (List.mem_append_right ls hg)) (by omega) hsides⟩

end Law

/-- The parser accepts the texts of addresses only, and does not panic, exactly for the texts that
are not misread and, with overflow checks, not overlong. -/
theorem ipv6_parse_law_iff (checks : Bool) (s : List Char) :
    Ipv6ParseLaw checks s ↔ ¬ Ipv6Misread s ∧ (checks = true → ¬ Ipv6Overlong s) := by
  constructor
  · intro hlaw
    refine ⟨fun hmisread => not_law_of_misread hmisread hlaw, ?_⟩
    rintro rfl hoverlong
    obtain ⟨result, hresult, -⟩ := hlaw
    rw [Ipv6Addr.fromStr_of_overlong hoverlong] at hresult
    cases hresult
  · rintro ⟨hmisread, hoverlong⟩
    rcases Ipv6Addr.fromStr_cases checks s with ⟨-, hchecks, hlong⟩ | hnone | ⟨a, ha, hshape⟩
    · exact absurd hlong (hoverlong hchecks)
    · exact ⟨none, hnone, fun a ha => by cases ha⟩
    · refine ⟨some a, ha, fun a' ha' => ?_⟩
      obtain rfl := Option.some.inj ha'
      exact ipv6Text_of_accepted hmisread ha hshape

/-- `1:2` is accepted as the address `1:2::`. -/
theorem ipv6_short_accepted : ¬ Ipv6ParseLaw true ['1', ':', '2'] := by
  refine not_law_of_misread (.inl ⟨[['1'], ['2']], ?_, by decide, rfl, fun h => ?_⟩)
  · simp only [IsNumeral]
    decide
  · exact absurd h.1 (by decide)

end StarOS
