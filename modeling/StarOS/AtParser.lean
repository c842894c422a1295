/-
Responses of a modem that arrive a byte at a time (`drivers/wwan/at.rs`).

`at_recv_byte` looks for the words of a result in the whole buffer after every byte, and takes the
first one that is there.  The longer results end in a number or contain a shorter one: `CONNECT` is
taken before its number has come, and `ERROR` before the text that follows it in `+CME ERROR: n`;
and a word is also taken where it is a part of another line.

* `StarOS.AtSession`, `StarOS.parseDecimal`, `StarOS.parseBuffer`,
  `StarOS.AtSession.tryParseResponse`, `StarOS.atRecvByte` — the code;
* `StarOS.AtFinal`, `StarOS.AtLine`, `StarOS.responseText` — responses;
* `StarOS.AtWord`, `StarOS.FirstWord` — the words that are taken, and the first one of a text;
* `StarOS.parseBuffer_concat` — what one more byte gives;
* `StarOS.at_incremental_iff` — when a response is recognised.
-/

import StarOS.FdtParser
import StarOS.Packed
import StarOS.Scan
import Mathlib.Logic.Function.Basic

set_option autoImplicit false

namespace StarOS

/-! ### Parsing -/

/-- The bytes of a string of ASCII characters. -/
def ascii (s : String) : Bytes := s.toList.map fun c => BitVec.ofNat 8 c.toNat

/-- `AT_MAX_RESP_LEN`. -/
def atMaxRespLen : ℕ := 256

/-- `AtResponse`. -/
inductive AtResponse where
  | ok
  | error
  | cmeError (code : BitVec 32)
  | cmsError (code : BitVec 32)
  | connect (baud : BitVec 32)
  | noCarrier
  | busy
  | noDialtone
  | timeout
  | data (bytes : Vector (BitVec 8) 256) (len : ℕ)
  deriving DecidableEq, Repr

/-- The loop of `parse_decimal`. -/
def parseDecimalLoop : Bytes → BitVec 32 → Bool → Option (BitVec 32)
  | [], n, found => if found then some n else none
  | b :: buf, n, found =>
      if 0x30#8 ≤ b ∧ b ≤ 0x39#8 then
        parseDecimalLoop buf (n * 10#32 + (b - 0x30#8).setWidth 32) true
      else if found then some n
      else parseDecimalLoop buf n found

/-- `parse_decimal`. -/
def parseDecimal (buf : Bytes) : Option (BitVec 32) := parseDecimalLoop buf 0#32 false

/-- `buf.windows(word.len()).any(|w| w == word)`. -/
def hasWord (buf word : Bytes) : Bool := (Scan.windows word.length buf).any fun w => w = word

/-- What `try_parse_response` makes of the buffer. -/
def parseBuffer (buf : Bytes) : Option AtResponse :=
  match Scan.find buf (ascii "+CME ERROR: ") with
  | some pos => some (.cmeError ((parseDecimal (buf.drop (pos + 12))).getD 0#32))
  | none =>
      match Scan.find buf (ascii "+CMS ERROR: ") with
      | some pos => some (.cmsError ((parseDecimal (buf.drop (pos + 12))).getD 0#32))
      | none =>
          if hasWord buf (ascii "OK") then some .ok
          else if hasWord buf (ascii "ERROR") then some .error
          else if hasWord buf (ascii "NO CARRIER") then some .noCarrier
          else if hasWord buf (ascii "BUSY") then some .busy
          else
            match Scan.find buf (ascii "CONNECT") with
            | some pos => some (.connect ((parseDecimal (buf.drop (pos + 7))).getD 0#32))
            | none => none

/-! ### Sessions -/

/-- `AtState`. -/
inductive AtState where
  | closed | idle | waitingResponse | dataMode
  deriving DecidableEq, Repr

/-- `AtSession`. -/
structure AtSession where
  devIdx : BitVec 8
  state : AtState
  rxBuf : Bytes
  rxLen : ℕ
  length_rxBuf : rxBuf.length = atMaxRespLen

namespace AtSession

/-- `AtSession::new`. -/
def new (devIdx : BitVec 8) : AtSession :=
  ⟨devIdx, .closed, List.replicate atMaxRespLen 0#8, 0, List.length_replicate⟩

/-- The bytes that were received. -/
def buf (s : AtSession) : Bytes := Packed.entries s.rxBuf s.rxLen

/-- `push_byte`. -/
def pushByte (s : AtSession) (b : BitVec 8) : AtSession :=
  if s.rxLen < atMaxRespLen then
    { s with
      rxBuf := Packed.push s.rxBuf s.rxLen b
      rxLen := s.rxLen + 1
      length_rxBuf := (Packed.length_push _ _ _).trans s.length_rxBuf }
  else s

/-- `try_parse_response`. -/
def tryParseResponse (s : AtSession) : Option AtResponse × AtSession :=
  match parseBuffer s.buf with
  | some resp => (some resp, { s with rxLen := 0 })
  | none => (none, s)

end AtSession

/-- `AT_MAX_SESSIONS`. -/
def atMaxSessions : ℕ := 4

/-- `AtSessionTable`. -/
abbrev AtSessionTable := Fin atMaxSessions → AtSession

/-- `at_recv_byte`. -/
def atRecvByte (tbl : AtSessionTable) (devIdx byte : BitVec 8) :
    Option AtResponse × AtSessionTable :=
  if h : devIdx.toNat < atMaxSessions then
    let s := (tbl ⟨devIdx.toNat, h⟩).pushByte byte
    if s.state = .waitingResponse then
      match s.tryParseResponse with
      | (some resp, s) =>
          (some resp, Function.update tbl ⟨devIdx.toNat, h⟩ { s with state := .idle })
      | (none, s) => (none, Function.update tbl ⟨devIdx.toNat, h⟩ s)
    else (none, Function.update tbl ⟨devIdx.toNat, h⟩ s)
  else (none, tbl)

/-- What `at_recv_byte` returns for each of some bytes. -/
def atFeed (devIdx : BitVec 8) : AtSessionTable → Bytes → List (Option AtResponse)
  | _, [] => []
  | tbl, b :: bytes =>
      (atRecvByte tbl devIdx b).1 :: atFeed devIdx (atRecvByte tbl devIdx b).2 bytes

/-! ### Responses -/

/-- CR LF. -/
def crlf : Bytes := [0x0D#8, 0x0A#8]

/-- The value of a string of decimal digits. -/
def digitsValue (digits : List (Fin 10)) : ℕ := digits.foldl (fun n d => n * 10 + d.val) 0

/-- A number below 2^32 in decimal digits. -/
structure AtNumber where
  digits : List (Fin 10)
  nonempty : digits ≠ []
  lt : digitsValue digits < 2 ^ 32

/-- The digits of a number. -/
def AtNumber.text (n : AtNumber) : Bytes := n.digits.map fun d => 0x30#8 + BitVec.ofNat 8 d.val

/-- A number as the code returns it. -/
def AtNumber.word (n : AtNumber) : BitVec 32 := BitVec.ofNat 32 (digitsValue n.digits)

/-- A final result. -/
inductive AtFinal where
  | ok
  | error
  | cmeError (n : AtNumber)
  | cmsError (n : AtNumber)
  | noCarrier
  | busy
  | connect (n : AtNumber)

namespace AtFinal

/-- The line of a result. -/
def text : AtFinal → Bytes
  | ok => ascii "OK"
  | error => ascii "ERROR"
  | cmeError n => ascii "+CME ERROR: " ++ n.text
  | cmsError n => ascii "+CMS ERROR: " ++ n.text
  | noCarrier => ascii "NO CARRIER"
  | busy => ascii "BUSY"
  | connect n => ascii "CONNECT " ++ n.text

/-- The response that a result denotes. -/
def response : AtFinal → AtResponse
  | ok => .ok
  | error => .error
  | cmeError n => .cmeError n.word
  | cmsError n => .cmsError n.word
  | noCarrier => .noCarrier
  | busy => .busy
  | connect n => .connect n.word

end AtFinal

/-- A line of text that is not a result. -/
structure AtLine where
  bytes : Bytes
  no_break : ∀ b ∈ bytes, b ≠ 0x0D#8 ∧ b ≠ 0x0A#8
  not_final : ∀ f : AtFinal, f.text ≠ bytes

/-- Lines of text, and a final result. -/
def responseText (body : List AtLine) (f : AtFinal) : Bytes :=
  body.flatMap (fun l => l.bytes ++ crlf) ++ (f.text ++ crlf)

/-! ### Words -/

/-- The words that the parser looks for, up to those that contain another one. -/
inductive AtWord where
  | ok | error | noCarrier | busy | connect
  deriving DecidableEq, Repr

namespace AtWord

/-- The bytes of a word. -/
def text : AtWord → Bytes
  | ok => ascii "OK"
  | error => ascii "ERROR"
  | noCarrier => ascii "NO CARRIER"
  | busy => ascii "BUSY"
  | connect => ascii "CONNECT"

/-- What the parser returns when a word has just come. -/
def response : AtWord → AtResponse
  | ok => .ok
  | error => .error
  | noCarrier => .noCarrier
  | busy => .busy
  | connect => .connect 0#32

/-- The word is that of the result, which has no number other than 0. -/
def StandsFor : AtWord → AtFinal → Prop
  | ok, .ok => True
  | error, .error => True
  | noCarrier, .noCarrier => True
  | busy, .busy => True
  | connect, .connect n => digitsValue n.digits = 0
  | _, _ => False

end AtWord

/-- The word is the first one that is complete in the text. -/
def FirstWord (text : Bytes) (w : AtWord) : Prop :=
  ∃ front back, text = front ++ w.text ++ back ∧
    ∀ v : AtWord, ¬ v.text <:+: (front ++ w.text).dropLast

/-! ### One more byte -/

section Parse

variable {buf : Bytes} {word : Bytes} {b : BitVec 8} {v w : AtWord}

theorem hasWord_iff : hasWord buf word = true ↔ word <:+: buf := by
  rw [hasWord, List.any_eq_true, ← Scan.mem_windows]
  constructor
  · rintro ⟨v, hv, heq⟩
    rwa [of_decide_eq_true heq] at hv
  · intro hw
    exact ⟨word, hw, decide_eq_true rfl⟩

theorem hasWord_eq_false : hasWord buf word = false ↔ ¬ word <:+: buf := by
  rw [← hasWord_iff, Bool.not_eq_true]

/-- `ERROR` is a part of the longer errors, which end in a blank. -/
theorem extended_error {e : Bytes} (he : e = ascii "+CME ERROR: " ∨ e = ascii "+CMS ERROR: ") :
    ∃ short, e = short ++ [0x20#8] ∧ AtWord.error.text <:+: short := by
  rcases he with rfl | rfl
  · exact ⟨ascii "+CME ERROR:", by decide +kernel, by decide +kernel⟩
  · exact ⟨ascii "+CMS ERROR:", by decide +kernel, by decide +kernel⟩

/-- Where `ERROR` is not, a longer error is not either, not even with one more byte. -/
theorem not_extended {e : Bytes} (he : e = ascii "+CME ERROR: " ∨ e = ascii "+CMS ERROR: ")
    (hfree : ¬ AtWord.error.text <:+: buf) : ¬ e <:+: buf ++ [b] := by
  obtain ⟨short, rfl, herror⟩ := extended_error he
  rw [List.infix_concat_iff]
  rintro (⟨front, hfront⟩ | hin)
  · rw [← List.append_assoc] at hfront
    obtain ⟨rfl, -⟩ := List.append_inj' hfront rfl
    exact hfree (herror.trans (List.suffix_append front short).isInfix)
  · exact hfree ((herror.trans ⟨[], [0x20#8], rfl⟩).trans hin)

theorem not_extended_self {e : Bytes} (he : e = ascii "+CME ERROR: " ∨ e = ascii "+CMS ERROR: ")
    (hfree : ¬ AtWord.error.text <:+: buf) : ¬ e <:+: buf := by
  obtain ⟨short, rfl, herror⟩ := extended_error he
  exact fun hin => hfree ((herror.trans ⟨[], [0x20#8], rfl⟩).trans hin)

/-- Without the longer errors, the parser tests for one word after the other. -/
theorem parseBuffer_of_not_extended (hcme : ¬ ascii "+CME ERROR: " <:+: buf)
    (hcms : ¬ ascii "+CMS ERROR: " <:+: buf) :
    parseBuffer buf =
      if hasWord buf AtWord.ok.text then some .ok
      else if hasWord buf AtWord.error.text then some .error
      else if hasWord buf AtWord.noCarrier.text then some .noCarrier
      else if hasWord buf AtWord.busy.text then some .busy
      else
        (Scan.find buf AtWord.connect.text).map fun pos =>
          .connect ((parseDecimal (buf.drop (pos + 7))).getD 0#32) := by
  unfold parseBuffer
  rw [Scan.find_eq_none.2 hcme]
  dsimp only
  rw [Scan.find_eq_none.2 hcms]
  dsimp only [AtWord.text]
  cases Scan.find buf (ascii "CONNECT") with
  | none => rfl
  | some pos => rfl

/-- The parser returns nothing exactly if no word is there. -/
theorem parseBuffer_eq_none : parseBuffer buf = none ↔ ∀ w : AtWord, ¬ w.text <:+: buf := by
  constructor
  · intro h
    have hcme : Scan.find buf (ascii "+CME ERROR: ") = none := by
      cases hfind : Scan.find buf (ascii "+CME ERROR: ") with
      | none => rfl
      | some pos =>
          unfold parseBuffer at h
          rw [hfind] at h
          cases h
    have hcms : Scan.find buf (ascii "+CMS ERROR: ") = none := by
      cases hfind : Scan.find buf (ascii "+CMS ERROR: ") with
      | none => rfl
      | some pos =>
          unfold parseBuffer at h
          rw [hcme] at h
          dsimp only at h
          rw [hfind] at h
          cases h
    rw [parseBuffer_of_not_extended (Scan.find_eq_none.1 hcme) (Scan.find_eq_none.1 hcms)] at h
    split at h
    · cases h
    split at h
    · cases h
    split at h
    · cases h
    split at h
    · cases h
    rename_i hok herror hcarrier hbusy
    intro w
    cases w with
    | ok => exact fun hin => hok (hasWord_iff.2 hin)
    | error => exact fun hin => herror (hasWord_iff.2 hin)
    | noCarrier => exact fun hin => hcarrier (hasWord_iff.2 hin)
    | busy => exact fun hin => hbusy (hasWord_iff.2 hin)
    | connect => exact Scan.find_eq_none.1 (Option.map_eq_none_iff.1 h)
  · intro h
    rw [parseBuffer_of_not_extended (not_extended_self (.inl rfl) (h .error))
      (not_extended_self (.inr rfl) (h .error)), hasWord_eq_false.2 (h .ok),
      hasWord_eq_false.2 (h .error), hasWord_eq_false.2 (h .noCarrier),
      hasWord_eq_false.2 (h .busy), Scan.find_eq_none.2 (h .connect)]
    rfl

/-- No word is the end of another one. -/
theorem AtWord.eq_of_suffix (hv : v.text <:+ buf) (hw : w.text <:+ buf) : v = w := by
  have hdecide : ∀ v w : AtWord, v.text <:+ w.text → v = w := by
    intro v w
    cases v <;> cases w <;> decide +kernel
  rcases Nat.le_total v.text.length w.text.length with hle | hle
  · exact hdecide v w (List.suffix_of_suffix_length_le hv hw hle)
  · exact (hdecide w v (List.suffix_of_suffix_length_le hw hv hle)).symm

/-- One more byte gives the result of the word that it completes. -/
theorem parseBuffer_concat (hnone : parseBuffer buf = none) (hw : w.text <:+ buf ++ [b]) :
    parseBuffer (buf ++ [b]) = some w.response := by
  have hfree := parseBuffer_eq_none.1 hnone
  have hhas : ∀ v : AtWord, hasWord (buf ++ [b]) v.text = decide (v = w) := by
    intro v
    by_cases hv : v = w
    · rw [hv, decide_eq_true rfl]
      exact hasWord_iff.2 hw.isInfix
    · rw [decide_eq_false hv]
      refine hasWord_eq_false.2 fun hin => ?_
      rcases List.infix_concat_iff.1 hin with hend | hin
      · exact hv (AtWord.eq_of_suffix hend hw)
      · exact hfree v hin
  rw [parseBuffer_of_not_extended (not_extended (.inl rfl) (hfree .error))
    (not_extended (.inr rfl) (hfree .error)), hhas, hhas, hhas, hhas]
  cases w with
  | ok => rfl
  | error => rfl
  | noCarrier => rfl
  | busy => rfl
  | connect =>
      cases hfind : Scan.find (buf ++ [b]) AtWord.connect.text with
      | none => exact absurd hw.isInfix (Scan.find_eq_none.1 hfind)
      | some pos =>
          have hdrop : (buf ++ [b]).drop (pos + 7) = [] :=
            Scan.find_concat (hfree .connect) hfind
          rw [Option.map_some, hdrop]
          rfl

/-- The first result of a text is that of its first word. -/
theorem first_parseBuffer {text : Bytes} {resp : AtResponse} :
    Scan.first parseBuffer [] text = some resp ↔ ∃ w, FirstWord text w ∧ w.response = resp := by
  have hnil : parseBuffer [] = none := by decide +kernel
  have hmono : ∀ l a, parseBuffer (l ++ [a]) = none → parseBuffer l = none := by
    intro l a h
    refine parseBuffer_eq_none.2 fun w hin => parseBuffer_eq_none.1 h w ?_
    exact hin.trans ⟨[], [a], rfl⟩
  rw [Scan.first_eq_some hmono hnil]
  constructor
  · rintro ⟨front, a, back, rfl, hnone, hsome⟩
    rw [List.nil_append] at hnone hsome
    have hfree := parseBuffer_eq_none.1 hnone
    have hex : ∃ w : AtWord, w.text <:+: front ++ [a] := by
      by_contra hno
      rw [parseBuffer_eq_none.2 fun w hin => hno ⟨w, hin⟩] at hsome
      cases hsome
    obtain ⟨w, hin⟩ := hex
    have hend : w.text <:+ front ++ [a] :=
      (List.infix_concat_iff.1 hin).resolve_right (hfree w)
    rw [parseBuffer_concat hnone hend] at hsome
    obtain ⟨before, hbefore⟩ := hend
    refine ⟨w, ⟨before, back, ?_, fun v => ?_⟩, Option.some.inj hsome⟩
    · rw [hbefore, List.append_assoc]
      rfl
    · rw [hbefore, List.dropLast_concat]
      exact hfree v
  · rintro ⟨w, ⟨front, back, rfl, hfree⟩, rfl⟩
    have hne : front ++ w.text ≠ [] := by
      refine List.append_ne_nil_of_right_ne_nil front ?_
      cases w <;> decide +kernel
    have hconcat := List.dropLast_concat_getLast hne
    have hnone := parseBuffer_eq_none.2 hfree
    refine ⟨(front ++ w.text).dropLast, (front ++ w.text).getLast hne, back, ?_, hnone, ?_⟩
    · rw [List.append_cons, hconcat]
    · refine parseBuffer_concat hnone ?_
      rw [List.nil_append, hconcat]
      exact List.suffix_append front w.text

end Parse

/-! ### Bytes one at a time -/

section Feed

variable {s : AtSession} {tbl : AtSessionTable} {devIdx b : BitVec 8}

theorem AtSession.pushByte_state (s : AtSession) (b : BitVec 8) :
    (s.pushByte b).state = s.state := by
  rw [pushByte]
  split
  · rfl
  · rfl

/-- A byte that fits is behind the others. -/
theorem AtSession.pushByte_buf (h : s.rxLen < atMaxRespLen) (b : BitVec 8) :
    (s.pushByte b).rxLen = s.rxLen + 1 ∧ (s.pushByte b).buf = s.buf ++ [b] := by
  rw [pushByte, if_pos h]
  exact ⟨rfl, Packed.entries_push (h.trans_eq s.length_rxBuf.symm) b⟩

/-- A session that does not wait for a response returns none. -/
theorem atFeed_idle (hdev : devIdx.toNat < atMaxSessions) (bytes : Bytes)
    (hstate : (tbl ⟨devIdx.toNat, hdev⟩).state ≠ .waitingResponse) :
    (atFeed devIdx tbl bytes).filterMap id = [] := by
  induction bytes generalizing tbl with
  | nil => rfl
  | cons b bytes ih =>
      have hpush : ((tbl ⟨devIdx.toNat, hdev⟩).pushByte b).state ≠ .waitingResponse := by
        rwa [AtSession.pushByte_state]
      have hstep : atRecvByte tbl devIdx b = (none, Function.update tbl ⟨devIdx.toNat, hdev⟩
          ((tbl ⟨devIdx.toNat, hdev⟩).pushByte b)) := by
        rw [atRecvByte, dif_pos hdev]
        exact if_neg hpush
      rw [atFeed, hstep, List.filterMap_cons_none rfl]
      refine ih ?_
      dsimp only
      rwa [Function.update_self]

/-- What a session that waits does with a byte. -/
theorem atRecvByte_waiting (hdev : devIdx.toNat < atMaxSessions)
    (hstate : (tbl ⟨devIdx.toNat, hdev⟩).state = .waitingResponse)
    (hlen : (tbl ⟨devIdx.toNat, hdev⟩).rxLen < atMaxRespLen) (b : BitVec 8) :
    ∃ s, atRecvByte tbl devIdx b =
        (parseBuffer ((tbl ⟨devIdx.toNat, hdev⟩).buf ++ [b]),
          Function.update tbl ⟨devIdx.toNat, hdev⟩ s) ∧
      (parseBuffer ((tbl ⟨devIdx.toNat, hdev⟩).buf ++ [b]) = none →
        s.state = .waitingResponse ∧ s.rxLen = (tbl ⟨devIdx.toNat, hdev⟩).rxLen + 1 ∧
          s.buf = (tbl ⟨devIdx.toNat, hdev⟩).buf ++ [b]) ∧
      (parseBuffer ((tbl ⟨devIdx.toNat, hdev⟩).buf ++ [b]) ≠ none → s.state = .idle) := by
  obtain ⟨hpush, hbuf⟩ := AtSession.pushByte_buf hlen b
  have hwait : ((tbl ⟨devIdx.toNat, hdev⟩).pushByte b).state = .waitingResponse := by
    rw [AtSession.pushByte_state, hstate]
  rw [atRecvByte, dif_pos hdev]
  dsimp only
  rw [if_pos hwait]
  unfold AtSession.tryParseResponse
  rw [hbuf]
  cases hparse : parseBuffer ((tbl ⟨devIdx.toNat, hdev⟩).buf ++ [b]) with
  | some resp =>
      exact ⟨_, rfl, fun hf => (by cases hf), fun _ => rfl⟩
  | none => exact ⟨_, rfl, fun _ => ⟨hwait, hpush, hbuf⟩, fun hf => absurd rfl hf⟩

/-- A session that waits returns the first result once. -/
theorem atFeed_waiting (hdev : devIdx.toNat < atMaxSessions) (bytes : Bytes)
    (hstate : (tbl ⟨devIdx.toNat, hdev⟩).state = .waitingResponse)
    (hfits : (tbl ⟨devIdx.toNat, hdev⟩).rxLen + bytes.length ≤ atMaxRespLen) :
    (atFeed devIdx tbl bytes).filterMap id =
      (Scan.first parseBuffer (tbl ⟨devIdx.toNat, hdev⟩).buf bytes).toList := by
  induction bytes generalizing tbl with
  | nil => rfl
  | cons b bytes ih =>
      rw [List.length_cons] at hfits
      obtain ⟨s, hstep, hnone, hsome⟩ := atRecvByte_waiting hdev hstate (by omega) b
      rw [atFeed, hstep, Scan.first]
      cases hparse : parseBuffer ((tbl ⟨devIdx.toNat, hdev⟩).buf ++ [b]) with
      | some resp =>
          have hidle := hsome fun hf => by
            rw [hf] at hparse
            cases hparse
          have hrest : (atFeed devIdx (Function.update tbl ⟨devIdx.toNat, hdev⟩ s) bytes).filterMap
              id = [] := atFeed_idle hdev bytes (by
            rw [Function.update_self, hidle]
            exact fun hf => by cases hf)
          exact congrArg (List.cons resp) hrest
      | none =>
          obtain ⟨hwait, hlen, hbuf⟩ := hnone hparse
          have hself : Function.update tbl ⟨devIdx.toNat, hdev⟩ s ⟨devIdx.toNat, hdev⟩ = s :=
            Function.update_self ..
          have hrest := @ih (Function.update tbl ⟨devIdx.toNat, hdev⟩ s)
            (by rw [hself, hwait]) (by rw [hself, hlen]; omega)
          rw [hself, hbuf] at hrest
          rw [List.filterMap_cons_none rfl]
          exact hrest

end Feed

theorem AtWord.response_eq_iff (w : AtWord) (f : AtFinal) :
    w.response = f.response ↔ w.StandsFor f := by
  cases w <;> cases f <;>
    first
      | exact ⟨fun _ => trivial, fun _ => rfl⟩
      | exact ⟨fun h => (by cases h), fun h => h.elim⟩
      | skip
  rename_i n
  change AtResponse.connect 0#32 = .connect n.word ↔ digitsValue n.digits = 0
  rw [AtResponse.connect.injEq, AtNumber.word]
  constructor
  · intro h
    have hval := congrArg BitVec.toNat h
    rw [BitVec.toNat_ofNat, BitVec.toNat_ofNat, Nat.mod_eq_of_lt n.lt] at hval
    exact hval.symm
  · intro h
    rw [h]

/-- A response is recognised when it arrives a byte at a time, exactly if the first word that is
complete in it stands for its result. -/
theorem at_incremental_iff (tbl : AtSessionTable) (devIdx : BitVec 8) (body : List AtLine)
    (f : AtFinal) (hdev : devIdx.toNat < atMaxSessions)
    (hstate : (tbl ⟨devIdx.toNat, hdev⟩).state = .waitingResponse)
    (hempty : (tbl ⟨devIdx.toNat, hdev⟩).rxLen = 0)
    (hfits : (responseText body f).length ≤ atMaxRespLen) :
    (atFeed devIdx tbl (responseText body f)).filterMap id = [f.response] ↔
      ∃ w, FirstWord (responseText body f) w ∧ w.StandsFor f := by
  have hbuf : (tbl ⟨devIdx.toNat, hdev⟩).buf = [] := by
    rw [AtSession.buf, hempty]
    rfl
  rw [atFeed_waiting hdev _ hstate (by rw [hempty]; omega), hbuf]
  have htoList : ∀ o : Option AtResponse, o.toList = [f.response] ↔ o = some f.response := by
    intro o
    cases o with
    | none => exact ⟨fun h => (by cases h), fun h => (by cases h)⟩
    | some r => exact ⟨fun h => congrArg some (List.cons.inj h).1, fun h => by rw [h]; rfl⟩
  rw [htoList, first_parseBuffer]
  exact exists_congr fun w => and_congr_right fun _ => w.response_eq_iff f

/-- Sessions that wait for a response. -/
def waitingTable : AtSessionTable := fun i =>
  { AtSession.new (BitVec.ofNat 8 i.val) with state := .waitingResponse }

/-- A plain `OK` is recognised. -/
theorem at_incremental_ok :
    (atFeed 0#8 waitingTable (responseText [] .ok)).filterMap id = [AtResponse.ok] ↔
      ∃ w, FirstWord (responseText [] .ok) w ∧ w.StandsFor .ok :=
  at_incremental_iff waitingTable 0#8 [] .ok (by decide) rfl rfl (by decide +kernel)

/-- The number 10. -/
def ten : AtNumber := ⟨[1, 0], by decide, by decide⟩

/-- Of `+CME ERROR: 10` only `ERROR` is recognised. -/
theorem at_incremental_cme :
    (atFeed 0#8 waitingTable (responseText [] (.cmeError ten))).filterMap id ≠
      [(AtFinal.cmeError ten).response] := by
  decide +kernel

end StarOS
