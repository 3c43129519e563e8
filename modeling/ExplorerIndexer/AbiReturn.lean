import ExplorerIndexer.IndexLoop
import ExplorerIndexer.Library.Abi
import ExplorerIndexer.NodeReads
import Mathlib.Data.List.TakeWhile

/-!
# Token metadata from contract returns

`fetchTokenMetadata` calls `name()`, `symbol()` and `decimals()` of a contract and decodes what
comes back. Nothing says that the contract is a token, so the bytes are arbitrary: the string
decoder falls back to a raw 32-byte word, and `decodeDecimalsReturn` narrows what the ABI crate
reads from a word of 32 bytes.

The ABI crate is not part of this repository. `AbiDecode` is what the two functions call of it, and
`AbiDecode.ReadsU16` and `AbiDecode.ReadsString` are what its documentation says of them.

## Main definitions

* `decodeStringReturn`, `decodeDecimalsReturn`, `fetchTokenMetadata` — the functions of the source
* `DecimalsExact`, `DecimalsHonest` — decimals are the integer the contract returned
* `LongestNulFree` — the longest prefix of a word without a zero byte

## Main results

* `decodeDecimalsReturn_eq` — what the two narrowings leave of a return
* `decimals_exact_iff` — the words whose decimals are right
* `decodeStringReturn_word` — a 32-byte word decodes to its longest prefix without a zero byte
* `string_return_decoded` — both encodings of a string decode, and never to the empty string
-/

namespace ExplorerIndexer

/-! ### The ABI crate -/

/-- The functions of the ABI crate that decode a return: `String::abi_decode` and
`u16::abi_decode`. -/
structure AbiDecode (ε : Type) where
  string : Bytes → Except ε String
  u16 : Bytes → Except ε ℕ

variable {ε : Type}

/-- The UTF-8 bytes of a string. -/
def utf8 (s : String) : Bytes := s.toUTF8.data.toList

theorem utf8_injective {s t : String} (h : utf8 s = utf8 t) : s = t := by
  rw [← String.toByteArray_inj]
  exact ByteArray.ext (Array.toList_inj.mp h)

@[simp] theorem utf8_eq_nil_iff {s : String} : utf8 s = [] ↔ s = "" :=
  ⟨fun h => utf8_injective (h.trans rfl), by rintro rfl; rfl⟩

/-- Bytes decode to the string whose encoding they are. -/
theorem fromUTF8?_eq_some_iff {bytes : Bytes} {s : String} :
    String.fromUTF8? bytes.toByteArray = some s ↔ utf8 s = bytes := by
  have hdata : bytes.toByteArray.data.toList = bytes := List.toList_data_toByteArray
  unfold String.fromUTF8?
  constructor
  · intro h
    split at h
    · cases h
      exact hdata
    · cases h
  · rintro rfl
    have hbytes : (utf8 s).toByteArray = s.toByteArray := ByteArray.ext (Array.toList_inj.mp hdata)
    rw [hbytes, dif_pos s.isValidUTF8]
    rfl

/-- What the ABI crate says of `u16::abi_decode`: fewer than 32 bytes are an error, and otherwise
the low two bytes of the first word are the number. The other bytes are not checked. -/
structure AbiDecode.ReadsU16 (abi : AbiDecode ε) : Prop where
  short : ∀ bytes, bytes.length < 32 → ∃ e, abi.u16 bytes = .error e
  word : ∀ bytes, 32 ≤ bytes.length → abi.u16 bytes = .ok (fromBeBytes ((bytes.take 32).drop 30))

/-- What the ABI crate says of `String::abi_encode` and `String::abi_decode`: a string is encoded in
the layout of a string return, the layout of a string is decoded to it, and nothing else is decoded
than what has the layout. Lengths are 64-bit. -/
structure AbiDecode.ReadsString (abi : AbiDecode ε) (abiEncode : String → Bytes) : Prop where
  encode : ∀ s : String, s.utf8ByteSize < 2 ^ 64 → Abi.StringAt (abiEncode s) (utf8 s)
  decode : ∀ data s, Abi.StringAt data (utf8 s) → abi.string data = .ok s
  layout : ∀ data s, abi.string data = .ok s → ∃ payload, Abi.StringAt data payload

/-- A crate to evaluate on, with the reader of the layout. Bytes that are not a string become the
replacement character. -/
def plainAbi : AbiDecode Unit where
  string data :=
    match Abi.decodeString data with
    | some payload => .ok ((String.fromUTF8? payload.toByteArray).getD "\ufffd")
    | none => .error ()
  u16 data :=
    if 32 ≤ data.length then .ok (fromBeBytes ((data.take 32).drop 30)) else .error ()

/-- Encode a string in the layout of a string return. -/
def plainAbiEncode (s : String) : Bytes := Abi.encodeString (utf8 s)

theorem readsU16_plainAbi : plainAbi.ReadsU16 where
  short _ h := ⟨(), if_neg (Nat.not_le.mpr h)⟩
  word _ h := if_pos h

theorem readsString_plainAbi : plainAbi.ReadsString plainAbiEncode where
  encode _ h := Abi.stringAt_encodeString h
  decode data s h := by
    simp only [plainAbi, Abi.decodeString_eq_some_iff.mpr h, fromUTF8?_eq_some_iff.mpr rfl,
      Option.getD_some]
  layout data s h := by
    simp only [plainAbi] at h
    split at h
    · next payload hpayload => exact ⟨payload, Abi.decodeString_eq_some_iff.mp hpayload⟩
    · cases h

/-! ### The functions of the source -/

/-- `name()`. -/
def SEL_NAME : Bytes := [0x06, 0xfd, 0xde, 0x03]

/-- `symbol()`. -/
def SEL_SYMBOL : Bytes := [0x95, 0xd8, 0x9b, 0x41]

/-- `decimals()`. -/
def SEL_DECIMALS : Bytes := [0x31, 0x3c, 0xe5, 0x67]

/-- How the message of an internal fault starts when a contract call halted. -/
def HALT_MESSAGE_PREFIX : String := "contract call halted"

/-- Decode an ABI `string` return, or a raw 32-byte word up to its first zero byte. An empty string
counts as not decoded on both paths. -/
def decodeStringReturn (abi : AbiDecode ε) (bytes : Bytes) : Option String :=
  match abi.string bytes with
  | .ok decoded => (some decoded).filter (· ≠ "")
  | .error _ =>
    if bytes.length = 32 then
      let trimmed := bytes.takeWhile (· ≠ 0)
      (String.fromUTF8? trimmed.toByteArray).filter (· ≠ "")
    else none

/-- `u8::try_from`. -/
def toU8? (value : ℕ) : Option ℕ := if value < 2 ^ 8 then some value else none

/-- Decode an ABI `uint8` return: wide as `u16`, then narrowed. -/
def decodeDecimalsReturn (abi : AbiDecode ε) (bytes : Bytes) : Option ℕ := do
  let wide ← (abi.u16 bytes).toOption
  toU8? wide

/-- One metadata selector call: `none` for a revert and for a call that halted, an error for any
other fault. -/
def readMetadataBytes (env : RethEnv) (token : Address) (selector : Bytes) :
    Except Report (Option Bytes) :=
  match env.readContract token selector with
  | .ok bytes => .ok (some bytes)
  | .error .revert => .ok none
  | .error (.internal message) =>
    if message.startsWith HALT_MESSAGE_PREFIX then .ok none
    else .error s!"token metadata read failed: {message}"

/-- Fetch and decode the three metadata fields of a token. -/
def fetchTokenMetadata (abi : AbiDecode ε) (env : RethEnv) (token : Address) :
    Except Report TokenMetadata := do
  let name := (← readMetadataBytes env token SEL_NAME).bind (decodeStringReturn abi)
  let symbol := (← readMetadataBytes env token SEL_SYMBOL).bind (decodeStringReturn abi)
  let decimals := (← readMetadataBytes env token SEL_DECIMALS).bind (decodeDecimalsReturn abi)
  return { name, symbol, decimals }

theorem readMetadataBytes_eq_some_iff {env : RethEnv} {token : Address} {selector bytes : Bytes} :
    readMetadataBytes env token selector = .ok (some bytes) ↔
      env.readContract token selector = .ok bytes := by
  rw [readMetadataBytes]
  split
  · next h => simp [h]
  · next h => simp [h]
  · next message h =>
    rw [h]
    split <;> simp

/-- The decimals of a fetch are those of the bytes that `decimals()` returned. -/
theorem decimals_fetchTokenMetadata {abi : AbiDecode ε} {env : RethEnv} {token : Address}
    {metadata : TokenMetadata} (h : fetchTokenMetadata abi env token = .ok metadata) {d : ℕ} :
    metadata.decimals = some d ↔ ∃ bytes, env.readContract token SEL_DECIMALS = .ok bytes ∧
      decodeDecimalsReturn abi bytes = some d := by
  obtain ⟨name, -, h⟩ := Fetch.bind_eq_ok_iff.mp h
  obtain ⟨symbol, -, h⟩ := Fetch.bind_eq_ok_iff.mp h
  obtain ⟨decimals, hread, h⟩ := Fetch.bind_eq_ok_iff.mp h
  cases h
  simp only [Option.bind_eq_some_iff, ← readMetadataBytes_eq_some_iff, hread, Except.ok.injEq]

/-! ### Decimals -/

/-- The first word of a return, as the contract wrote it. -/
def firstWord (bytes : Bytes) : ℕ := fromBeBytes (bytes.take 32)

/-- The decoded decimals are the integer that was returned, or nothing. -/
structure DecimalsExact (abi : AbiDecode ε) (bytes : Bytes) : Prop where
  short : bytes.length < 32 → decodeDecimalsReturn abi bytes = none
  fits : 32 ≤ bytes.length → firstWord bytes ≤ 255 →
    decodeDecimalsReturn abi bytes = some (firstWord bytes)
  large : 32 ≤ bytes.length → 255 < firstWord bytes → decodeDecimalsReturn abi bytes = none

/-- The returns whose decimals decode right: no word, a word that fits a byte, or one whose low
sixteen bits do not. -/
def NarrowsRight (bytes : Bytes) : Prop :=
  bytes.length < 32 ∨ firstWord bytes ≤ 255 ∨ 255 < firstWord bytes % 2 ^ 16

instance (bytes : Bytes) : Decidable (NarrowsRight bytes) :=
  inferInstanceAs (Decidable (_ ∨ _ ∨ _))

/-- The contract returned a word with value `d` for `decimals()`. -/
def ReturnsDecimals (env : RethEnv) (token : Address) (d : ℕ) : Prop :=
  ∃ bytes, env.readContract token SEL_DECIMALS = .ok bytes ∧ 32 ≤ bytes.length ∧
    firstWord bytes = d

/-- The row of a fetch invents no decimals: those it stores are the integer the contract returned,
and where they are the only field, it is not ok without them. -/
structure DecimalsHonest (env : RethEnv) (row : TokenRow) : Prop where
  stored : ∀ d, row.decimals = some d → ReturnsDecimals env row.address d
  counted : row.status = 0 → row.name = none → row.symbol = none →
    ∃ d, row.decimals = some d ∧ ReturnsDecimals env row.address d

/-- **What the two narrowings leave of a return**: the low sixteen bits of its first word, if they
fit a byte. -/
theorem decodeDecimalsReturn_eq {abi : AbiDecode ε} (habi : abi.ReadsU16) (bytes : Bytes) :
    decodeDecimalsReturn abi bytes =
      if 32 ≤ bytes.length then toU8? (firstWord bytes % 2 ^ 16) else none := by
  rw [decodeDecimalsReturn]
  split
  · next hlen =>
    have hlow : fromBeBytes ((bytes.take 32).drop 30) = firstWord bytes % 2 ^ 16 := by
      have hdrop := Abi.ofBytes_drop (bytes.take 32) 30
      rwa [List.length_take_of_le hlen] at hdrop
    rw [habi.word bytes hlen, hlow]
    rfl
  · next hlen =>
    obtain ⟨e, he⟩ := habi.short bytes (by omega)
    rw [he]
    rfl

theorem decimalsExact_iff {abi : AbiDecode ε} (habi : abi.ReadsU16) {bytes : Bytes} :
    DecimalsExact abi bytes ↔ NarrowsRight bytes := by
  have heq := decodeDecimalsReturn_eq habi bytes
  unfold toU8? at heq
  rw [NarrowsRight]
  constructor
  · intro h
    by_contra hwrong
    have hlarge := h.large (by omega) (by omega)
    rw [heq, if_pos (by omega), if_pos (by omega)] at hlarge
    cases hlarge
  · intro h
    refine ⟨fun hlen => ?_, fun hlen hfits => ?_, fun hlen hlarge => ?_⟩
    · rw [heq, if_neg (by omega)]
    · rw [heq, if_pos hlen, if_pos (by omega), Nat.mod_eq_of_lt (by omega)]
    · rw [heq, if_pos hlen, if_neg (by omega)]

/-- A return narrows right exactly when the decimals it decodes to, if any, are its value. -/
theorem narrowsRight_iff {abi : AbiDecode ε} (habi : abi.ReadsU16) {bytes : Bytes} :
    NarrowsRight bytes ↔ ∀ d, decodeDecimalsReturn abi bytes = some d →
      32 ≤ bytes.length ∧ firstWord bytes = d := by
  constructor
  · intro h d hd
    have hexact := (decimalsExact_iff habi).mpr h
    rcases Nat.lt_or_ge bytes.length 32 with hlen | hlen
    · rw [hexact.short hlen] at hd
      cases hd
    · rcases Nat.lt_or_ge 255 (firstWord bytes) with hlarge | hfits
      · rw [hexact.large hlen hlarge] at hd
        cases hd
      · exact ⟨hlen, Option.some.inj ((hexact.fits hlen hfits).symm.trans hd)⟩
  · intro h
    by_contra hwrong
    rw [NarrowsRight] at hwrong
    obtain ⟨-, hword⟩ := h (firstWord bytes % 2 ^ 16) (by
      rw [decodeDecimalsReturn_eq habi, if_pos (by omega), toU8?, if_pos (by omega)])
    omega

/-- **A fetch invents no decimals exactly when what `decimals()` returned narrows right.** -/
theorem decimalsHonest_iff {abi : AbiDecode ε} (habi : abi.ReadsU16) {env : RethEnv}
    {token : Address} {metadata : TokenMetadata}
    (h : fetchTokenMetadata abi env token = .ok metadata) (now : ℕ) :
    DecimalsHonest env (.ofFetch token metadata now) ↔
      ∀ bytes, env.readContract token SEL_DECIMALS = .ok bytes → NarrowsRight bytes := by
  constructor
  · intro hhonest bytes hbytes
    refine (narrowsRight_iff habi).mpr fun d hd => ?_
    obtain ⟨bytes', hbytes', hword⟩ := hhonest.stored d
      ((decimals_fetchTokenMetadata h).mpr ⟨bytes, hbytes, hd⟩)
    cases hbytes.symm.trans hbytes'
    exact hword
  · intro hright
    have hstored : ∀ d, metadata.decimals = some d → ReturnsDecimals env token d := fun d hd => by
      obtain ⟨bytes, hbytes, hdecode⟩ := (decimals_fetchTokenMetadata h).mp hd
      exact ⟨bytes, hbytes, (narrowsRight_iff habi).mp (hright bytes hbytes) d hdecode⟩
    refine ⟨hstored, fun hstatus hname hsymbol => ?_⟩
    obtain ⟨d, hd⟩ : ∃ d, metadata.decimals = some d := by
      rw [← Option.isSome_iff_exists]
      change metadata.name = none at hname
      change metadata.symbol = none at hsymbol
      simpa [TokenRow.ofFetch, TokenMetadata.anyDecoded, hname, hsymbol,
        Option.isSome_iff_ne_none] using hstatus
    exact ⟨d, hd, hstored d hd⟩

/-- **Which decimals are right.** A return decodes to its integer or to nothing, and a fetch stores
and counts no other, exactly when the return is shorter than a word, its integer fits a byte, or the
low sixteen bits of the integer do not: the wide decode drops the bits above them. -/
theorem decimals_exact_iff {abi : AbiDecode ε} (habi : abi.ReadsU16) :
    (∀ bytes, DecimalsExact abi bytes ↔ NarrowsRight bytes) ∧
      ∀ env token metadata now, fetchTokenMetadata abi env token = .ok metadata →
        (DecimalsHonest env (.ofFetch token metadata now) ↔
          ∀ bytes, env.readContract token SEL_DECIMALS = .ok bytes → NarrowsRight bytes) :=
  ⟨fun _ => decimalsExact_iff habi, fun _ _ _ now h => decimalsHonest_iff habi h now⟩

/-- A word above the bytes that is refused, and one that loses its high bits. -/
theorem decimals_exact_iff_words : DecimalsExact plainAbi (Abi.toBytes 32 300) ∧
    ¬ DecimalsExact plainAbi (Abi.toBytes 32 65554) := by
  have h := (decimals_exact_iff readsU16_plainAbi).1
  exact ⟨(h _).mpr (by decide), fun hexact => absurd ((h _).mp hexact) (by decide)⟩

/-- A node with one contract, which returns 65554 for `decimals()` and reverts otherwise. -/
def wideEnv : RethEnv where
  __ := steadyChain.env 0
  readContract _ selector :=
    if selector = SEL_DECIMALS then .ok (Abi.toBytes 32 65554) else .error .revert

/-- **Decimals are invented**: 65554 is stored as 18, and the fetch counts as a success. -/
theorem decimals_invented :
    fetchTokenMetadata plainAbi wideEnv 7 = .ok ⟨none, none, some 18⟩ ∧
      ReturnsDecimals wideEnv 7 65554 ∧ (TokenRow.ofFetch 7 ⟨none, none, some 18⟩ 100).status = 0 ∧
      ¬ DecimalsExact plainAbi (Abi.toBytes 32 65554) ∧
      ¬ DecimalsHonest wideEnv (.ofFetch 7 ⟨none, none, some 18⟩ 100) := by
  refine ⟨by decide, ⟨Abi.toBytes 32 65554, by decide, by decide, by decide⟩, by decide,
    fun h => ?_, fun h => ?_⟩
  · exact absurd (h.large (by decide) (by decide)) (by decide)
  · obtain ⟨bytes, hbytes, -, hword⟩ := h.stored 18 rfl
    have hreturn : wideEnv.readContract 7 SEL_DECIMALS = .ok (Abi.toBytes 32 65554) := by decide
    cases hreturn.symm.trans hbytes
    exact absurd hword (by decide)

/-! ### Strings -/

/-- `p` is the longest prefix of `w` without a zero byte. -/
structure LongestNulFree (p w : Bytes) : Prop where
  initial : p <+: w
  nulFree : 0 ∉ p
  longest : ∀ q, q <+: w → 0 ∉ q → q <+: p

theorem takeWhile_nulFree_append {q : Bytes} (h : 0 ∉ q) (rest : Bytes) :
    (q ++ rest).takeWhile (· ≠ 0) = q ++ rest.takeWhile (· ≠ 0) :=
  List.takeWhile_append_of_pos fun b hb => by
    have hne : b ≠ 0 := fun hzero => h (hzero ▸ hb)
    simpa using hne

theorem takeWhile_zeros {w : Bytes} (h : ∀ b ∈ w, b = 0) : w.takeWhile (· ≠ 0) = [] := by
  cases w with
  | nil => rfl
  | cons b w => exact List.takeWhile_cons_of_neg (by simpa using h b (List.mem_cons_self ..))

theorem longestNulFree_takeWhile (w : Bytes) : LongestNulFree (w.takeWhile (· ≠ 0)) w where
  initial := List.takeWhile_prefix _
  nulFree h := by simpa using List.mem_takeWhile_imp h
  longest q hq hfree := by
    obtain ⟨rest, rfl⟩ := hq
    rw [takeWhile_nulFree_append hfree]
    exact List.prefix_append ..

theorem longestNulFree_iff {p w : Bytes} : LongestNulFree p w ↔ w.takeWhile (· ≠ 0) = p := by
  have hw := longestNulFree_takeWhile w
  constructor
  · intro h
    have hle := h.longest _ hw.initial hw.nulFree
    exact hle.eq_of_length_le (hw.longest p h.initial h.nulFree).length_le
  · rintro rfl
    exact hw

/-- **A 32-byte word decodes to its longest prefix without a zero byte**, if that is a string and
not empty. The ABI decode of a word fails, or returns the empty string of a zero word. -/
theorem decodeStringReturn_word {abi : AbiDecode ε} {abiEncode : String → Bytes}
    (habi : abi.ReadsString abiEncode) {w : Bytes} (hlen : w.length = 32) {p : String} :
    decodeStringReturn abi w = some p ↔ p ≠ "" ∧ LongestNulFree (utf8 p) w := by
  rw [longestNulFree_iff]
  rw [decodeStringReturn]
  split
  · next s hs =>
    obtain ⟨payload, hpayload⟩ := habi.layout w s hs
    obtain ⟨hzero, rfl⟩ := hpayload.of_length_eq hlen
    have hempty : Except.ok s = Except.ok (ε := ε) "" := hs.symm.trans (habi.decode w "" hpayload)
    cases hempty
    rw [takeWhile_zeros hzero]
    constructor
    · intro h
      simp at h
    · rintro ⟨hne, hp⟩
      exact absurd (utf8_eq_nil_iff.mp hp.symm) hne
  · rw [if_pos hlen, Option.filter_eq_some_iff, fromUTF8?_eq_some_iff, decide_eq_true_iff]
    exact and_comm.trans (and_congr_right' eq_comm)

theorem decodeStringReturn_ne_empty (abi : AbiDecode ε) (bytes : Bytes) :
    decodeStringReturn abi bytes ≠ some "" := by
  rw [decodeStringReturn]
  split
  · simp
  · split
    · simp [Option.filter_eq_some_iff]
    · simp

/-- The right-padded `bytes32` form of a string of at most 32 bytes. -/
def bytes32 (s : String) : Bytes := utf8 s ++ List.replicate (32 - (utf8 s).length) 0

theorem longestNulFree_bytes32 {s : String} (hfree : 0 ∉ utf8 s) :
    LongestNulFree (utf8 s) (bytes32 s) := by
  rw [longestNulFree_iff, bytes32, takeWhile_nulFree_append hfree,
    takeWhile_zeros fun b hb => List.eq_of_mem_replicate hb, List.append_nil]

/-- **Both encodings of a string decode, and never to the empty string.** An ABI string reads back;
a 32-byte word is its longest prefix without a zero byte, if that is a string and not empty, and
nothing otherwise. -/
theorem string_return_decoded {abi : AbiDecode ε} {abiEncode : String → Bytes}
    (habi : abi.ReadsString abiEncode) :
    (∀ s : String, s ≠ "" → s.utf8ByteSize < 2 ^ 64 →
      decodeStringReturn abi (abiEncode s) = some s) ∧
    (∀ w : Bytes, w.length = 32 →
      (∀ p, decodeStringReturn abi w = some p ↔ p ≠ "" ∧ LongestNulFree (utf8 p) w) ∧
      ((¬ ∃ p, p ≠ "" ∧ LongestNulFree (utf8 p) w) → decodeStringReturn abi w = none)) ∧
    (∀ s : String, s ≠ "" → 0 ∉ utf8 s → (utf8 s).length ≤ 32 →
      decodeStringReturn abi (bytes32 s) = some s) ∧
    ∀ bytes, decodeStringReturn abi bytes ≠ some "" := by
  refine ⟨fun s hne hsize => ?_, fun w hlen => ⟨fun p => decodeStringReturn_word habi hlen, ?_⟩,
    fun s hne hfree hlen => ?_, decodeStringReturn_ne_empty abi⟩
  · rw [decodeStringReturn, habi.decode _ s (habi.encode s hsize)]
    simp [hne]
  · intro hnone
    rw [Option.eq_none_iff_forall_ne_some]
    exact fun p hp => hnone ⟨p, (decodeStringReturn_word habi hlen).mp hp⟩
  · refine (decodeStringReturn_word habi ?_).mpr ⟨hne, longestNulFree_bytes32 hfree⟩
    rw [bytes32, List.length_append, List.length_replicate]
    omega

/-- A name, and a raw word. -/
theorem string_return_decoded_both :
    decodeStringReturn plainAbi (plainAbiEncode "Telcoin") = some "Telcoin" ∧
      decodeStringReturn plainAbi (bytes32 "MKR") = some "MKR" := by
  obtain ⟨habi, -, hword, -⟩ := string_return_decoded readsString_plainAbi
  exact ⟨habi "Telcoin" (by decide) (by decide), hword "MKR" (by decide) (by decide) (by decide)⟩

end ExplorerIndexer
