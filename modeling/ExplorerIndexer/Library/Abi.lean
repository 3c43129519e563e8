import Mathlib.Algebra.Group.Nat.Defs
import Mathlib.Data.List.Induction

/-!
# Words, and strings laid out in words

A return value of a contract call is a byte string cut into 32-byte words, each a big-endian
number. A string return is an offset word, which points at a length word, which the bytes follow.

Readers are permissive: bytes that no word points at may be anything, so a word that was never meant
as an offset can still be followed. `StringAt.of_length_eq` says how little of that is left when the
data is one word.

## Main definitions

* `ofBytes`, `toBytes` — big-endian numbers
* `offsetAt` — the word at a byte position, as an offset or a length
* `StringAt` — the bytes of a string return
* `decodeString`, `encodeString` — a reader and a writer of the layout

## Main results

* `ofBytes_toBytes`, `toBytes_ofBytes`, `ofBytes_drop` — a number and its bytes read back, and the
  last bytes are a remainder
* `StringAt.of_length_eq` — one word is a string return only if it is zero, and then it is empty
* `decodeString_eq_some_iff`, `stringAt_encodeString` — the reader and the writer keep the layout
-/

namespace Abi

/-! ### Big-endian numbers -/

/-- Read bytes as a big-endian number. -/
def ofBytes (bs : List UInt8) : ℕ := bs.foldl (fun acc b => acc * 256 + b.toNat) 0

/-- The low `w` bytes of `n`, the highest first. -/
def toBytes : ℕ → ℕ → List UInt8
  | 0, _ => []
  | w + 1, n => toBytes w (n / 256) ++ [UInt8.ofNat n]

@[simp] theorem ofBytes_nil : ofBytes [] = 0 := rfl

@[simp] theorem ofBytes_append_singleton (bs : List UInt8) (b : UInt8) :
    ofBytes (bs ++ [b]) = ofBytes bs * 256 + b.toNat := by
  simp [ofBytes]

@[simp] theorem length_toBytes (w n : ℕ) : (toBytes w n).length = w := by
  induction w generalizing n with
  | zero => rfl
  | succ w ih => rw [toBytes, List.length_append, ih, List.length_singleton]

theorem ofBytes_append (bs cs : List UInt8) :
    ofBytes (bs ++ cs) = ofBytes bs * 256 ^ cs.length + ofBytes cs := by
  induction cs using List.reverseRecOn with
  | nil => simp
  | append_singleton cs c ih =>
    rw [← List.append_assoc, ofBytes_append_singleton, ofBytes_append_singleton, ih,
      List.length_append, List.length_singleton, pow_succ, Nat.add_mul, Nat.mul_assoc,
      Nat.add_assoc]

theorem ofBytes_lt (bs : List UInt8) : ofBytes bs < 256 ^ bs.length := by
  induction bs using List.reverseRecOn with
  | nil => simp
  | append_singleton bs b ih =>
    have hb : b.toNat < 256 := b.toNat_lt
    rw [ofBytes_append_singleton, List.length_append, List.length_singleton, pow_succ]
    omega

/-- **A number reads back.** -/
theorem ofBytes_toBytes {w n : ℕ} (h : n < 256 ^ w) : ofBytes (toBytes w n) = n := by
  induction w generalizing n with
  | zero =>
    rw [pow_zero] at h
    rw [toBytes, ofBytes_nil]
    omega
  | succ w ih =>
    rw [pow_succ] at h
    rw [toBytes, ofBytes_append_singleton, ih (by omega), UInt8.toNat_ofNat']
    omega

/-- **The bytes read back.** -/
theorem toBytes_ofBytes (bs : List UInt8) : toBytes bs.length (ofBytes bs) = bs := by
  induction bs using List.reverseRecOn with
  | nil => rfl
  | append_singleton bs b ih =>
    have hb : b.toNat < 256 := b.toNat_lt
    have hhigh : (ofBytes bs * 256 + b.toNat) / 256 = ofBytes bs := by omega
    have hlow : UInt8.ofNat (ofBytes bs * 256 + b.toNat) = b := by
      rw [← UInt8.toNat_inj, UInt8.toNat_ofNat']
      omega
    rw [ofBytes_append_singleton, List.length_append, List.length_singleton, toBytes, hhigh, hlow,
      ih]

/-- The last bytes of a number are its remainder. -/
theorem ofBytes_drop (bs : List UInt8) (k : ℕ) :
    ofBytes (bs.drop k) = ofBytes bs % 256 ^ (bs.length - k) := by
  have h := ofBytes_append (bs.take k) (bs.drop k)
  have hlt := ofBytes_lt (bs.drop k)
  rw [List.take_append_drop] at h
  rw [List.length_drop] at h hlt
  rw [h, Nat.mul_add_mod_of_lt hlt]

theorem ofBytes_eq_zero_iff {bs : List UInt8} : ofBytes bs = 0 ↔ ∀ b ∈ bs, b = 0 := by
  induction bs using List.reverseRecOn with
  | nil => simp
  | append_singleton bs b ih =>
    have hb : b.toNat = 0 ↔ b = 0 := UInt8.toNat_inj (b := 0)
    rw [ofBytes_append_singleton, List.forall_mem_append, List.forall_mem_singleton, ← ih, ← hb]
    omega

/-! ### The layout of a string return -/

/-- The word at byte position `i` as an offset or a length; `none` if the data ends before the word
does, or if the word has a byte above the low eight that is not zero. -/
def offsetAt (data : List UInt8) (i : ℕ) : Option ℕ :=
  let word := ofBytes ((data.drop i).take 32)
  if i + 32 ≤ data.length ∧ word < 2 ^ 64 then some word else none

theorem offsetAt_eq_some_iff {data : List UInt8} {i n : ℕ} :
    offsetAt data i = some n ↔
      i + 32 ≤ data.length ∧ n < 2 ^ 64 ∧ ofBytes ((data.drop i).take 32) = n := by
  simp only [offsetAt]
  constructor
  · intro h
    split at h
    · next hword =>
      cases h
      exact ⟨hword.1, hword.2, rfl⟩
    · cases h
  · rintro ⟨hlen, hbound, rfl⟩
    exact if_pos ⟨hlen, hbound⟩

/-- `data` is the return of the string with bytes `payload`: the first word is an offset, the word
there is the length, and the bytes follow. -/
def StringAt (data payload : List UInt8) : Prop :=
  ∃ offset, offsetAt data 0 = some offset ∧ offsetAt data offset = some payload.length ∧
    payload <+: data.drop (offset + 32)

/-- **One word is a string return only if it is zero**, and then it is the empty string's. -/
theorem StringAt.of_length_eq {data payload : List UInt8} (h : StringAt data payload)
    (hlen : data.length = 32) : (∀ b ∈ data, b = 0) ∧ payload = [] := by
  obtain ⟨offset, hoffset, hlength, -⟩ := h
  rw [offsetAt_eq_some_iff] at hoffset hlength
  -- The length word must fit behind the offset, so the offset is zero and both are this word.
  have hzero : offset = 0 := by omega
  rw [hzero, List.drop_zero, List.take_of_length_le (by omega)] at hoffset hlength
  refine ⟨ofBytes_eq_zero_iff.mp hoffset.2.2, List.eq_nil_of_length_eq_zero ?_⟩
  rw [← hlength.2.2, hoffset.2.2]

/-- Read the bytes of a string return. -/
def decodeString (data : List UInt8) : Option (List UInt8) := do
  let offset ← offsetAt data 0
  let len ← offsetAt data offset
  if len ≤ (data.drop (offset + 32)).length then some ((data.drop (offset + 32)).take len) else none

/-- The return of a string: offset 32, the length, and the bytes up to a whole number of words. -/
def encodeString (payload : List UInt8) : List UInt8 :=
  toBytes 32 32 ++ (toBytes 32 payload.length ++ (payload ++
    List.replicate ((32 - payload.length % 32) % 32) 0))

/-- **The reader accepts exactly the layout.** -/
theorem decodeString_eq_some_iff {data payload : List UInt8} :
    decodeString data = some payload ↔ StringAt data payload := by
  constructor
  · intro h
    obtain ⟨offset, hoffset, h⟩ := Option.bind_eq_some_iff.mp h
    obtain ⟨len, hlen, h⟩ := Option.bind_eq_some_iff.mp h
    split at h
    · next hfits =>
      cases h
      refine ⟨offset, hoffset, ?_, List.take_prefix ..⟩
      rw [List.length_take_of_le hfits]
      exact hlen
    · cases h
  · rintro ⟨offset, hoffset, hlength, hpayload⟩
    refine Option.bind_eq_some_iff.mpr ⟨offset, hoffset, ?_⟩
    refine Option.bind_eq_some_iff.mpr ⟨payload.length, hlength, ?_⟩
    rw [if_pos hpayload.length_le, ← List.prefix_iff_eq_take.mp hpayload]

/-- **The writer keeps the layout.** -/
theorem stringAt_encodeString {payload : List UInt8} (h : payload.length < 2 ^ 64) :
    StringAt (encodeString payload) payload := by
  have hlen : 64 ≤ (encodeString payload).length := by
    simp only [encodeString, List.length_append, length_toBytes]
    omega
  refine ⟨32, ?_, ?_, ?_⟩
  · rw [offsetAt_eq_some_iff, List.drop_zero, encodeString,
      List.take_left' (length_toBytes 32 32)]
    exact ⟨by rw [← encodeString]; omega, by decide, ofBytes_toBytes (by decide)⟩
  · rw [offsetAt_eq_some_iff, encodeString, List.drop_left' (length_toBytes 32 32),
      List.take_left' (length_toBytes 32 _)]
    exact ⟨by rw [← encodeString]; omega, h, ofBytes_toBytes (Nat.lt_trans h (by decide))⟩
  · rw [encodeString, ← List.append_assoc,
      List.drop_left' (by rw [List.length_append, length_toBytes, length_toBytes])]
    exact List.prefix_append ..

end Abi
