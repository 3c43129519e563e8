import ExplorerIndexer.Extract
import ExplorerIndexer.Library.Abi

/-!
# The packing of consensus provenance in a header

The network packs the consensus output of a block into the block's header: the epoch and the round
into the nonce, the position of the batch and the worker into the difficulty, and digests into the
fields that proof of work once used. The packing is written in another repository;
`decode_consensus_fields` reads it. Here the reader is shown to be the inverse of the packing, in
both directions.

## Main definitions

* `packNonce`, `packDifficulty`, `packHeader` — the packing, as the source describes it

## Main results

* `or_shiftLeft_unpack`, `shiftRight_pack` — two numbers in one, and back
* `decodeConsensusFields_packHeader`, `pack_decodeConsensusFields` — the two directions
* `decodeConsensusFields_eq_none_iff` — which headers carry nothing
* `decodeConsensusFields_inverse` — the three together
-/

namespace ExplorerIndexer

/-! ### Two numbers in one -/

/-- The two numbers are read back. -/
theorem or_shiftLeft_unpack {k low : ℕ} (high : ℕ) (h : low < 2 ^ k) :
    (high <<< k ||| low) >>> k = high ∧ (high <<< k ||| low) % 2 ^ k = low := by
  rw [← Nat.shiftLeft_add_eq_or_of_lt h, Nat.shiftRight_eq_div_pow, Nat.shiftLeft_eq,
    Nat.mul_comm, Nat.mul_add_div (Nat.two_pow_pos k), Nat.div_eq_of_lt h, Nat.mul_add_mod,
    Nat.mod_eq_of_lt h]
  exact ⟨rfl, rfl⟩

/-- A number is put together again. -/
theorem shiftRight_pack (x k : ℕ) : (x >>> k) <<< k ||| x % 2 ^ k = x := by
  rw [← Nat.shiftLeft_add_eq_or_of_lt (Nat.mod_lt _ (Nat.two_pow_pos k)),
    Nat.shiftRight_eq_div_pow, Nat.shiftLeft_eq, Nat.mul_comm, Nat.div_add_mod]

theorem or_shiftLeft_lt {k m high low : ℕ} (hhigh : high < 2 ^ m) (hlow : low < 2 ^ k) :
    high <<< k ||| low < 2 ^ (k + m) := by
  have hle : (high + 1) * 2 ^ k ≤ 2 ^ m * 2 ^ k := Nat.mul_le_mul_right _ hhigh
  rw [← Nat.shiftLeft_add_eq_or_of_lt hlow, Nat.shiftLeft_eq, Nat.pow_add, Nat.mul_comm (2 ^ k)]
  rw [Nat.add_mul] at hle
  omega

/-- Masking sixteen bits is a remainder. -/
theorem and_0xffff (x : ℕ) : x &&& 0xffff = x % 2 ^ 16 := Nat.and_two_pow_sub_one_eq_mod x 16

/-! ### The packing -/

/-- The bytes of `(epoch << 32) | round`, big-endian. -/
def packNonce (epoch round : ℕ) : Vector UInt8 8 :=
  ⟨(Abi.toBytes 8 (epoch <<< 32 ||| round)).toArray, by
    rw [List.size_toArray, Abi.length_toBytes]⟩

/-- `(batch_index << 16) | worker_id`. -/
def packDifficulty (batchIndex workerId : ℕ) : U256 :=
  BitVec.ofNat 256 (batchIndex <<< 16 ||| workerId)

/-- The header of a block that a batch of a consensus output was executed as. -/
def packHeader (header : ExecHeader) (digest : B256) (epoch round batchIndex workerId : ℕ)
    (batchDigest mixHash : B256) (extraData : Bytes) : ExecHeader :=
  { header with
    parentBeaconBlockRoot := some digest
    nonce := packNonce epoch round
    difficulty := packDifficulty batchIndex workerId
    ommersHash := batchDigest
    mixHash
    extraData }

theorem toList_packNonce (epoch round : ℕ) :
    (packNonce epoch round).toList = Abi.toBytes 8 (epoch <<< 32 ||| round) := rfl

theorem fromBeBytes_packNonce {epoch round : ℕ} (hepoch : epoch < 2 ^ 32)
    (hround : round < 2 ^ 32) :
    fromBeBytes (packNonce epoch round).toList = epoch <<< 32 ||| round := by
  have hlt : epoch <<< 32 ||| round < 256 ^ 8 := or_shiftLeft_lt hepoch hround
  rw [toList_packNonce]
  exact Abi.ofBytes_toBytes hlt

theorem toU64?_packDifficulty {batchIndex workerId : ℕ} (hindex : batchIndex < 2 ^ 48)
    (hworker : workerId < 2 ^ 16) :
    toU64? (packDifficulty batchIndex workerId) = some (batchIndex <<< 16 ||| workerId) := by
  have hlt : batchIndex <<< 16 ||| workerId < 2 ^ 64 := or_shiftLeft_lt hindex hworker
  have hwide : 2 ^ 64 ≤ 2 ^ 256 := Nat.pow_le_pow_right Nat.two_pos (by decide)
  have htoNat : (packDifficulty batchIndex workerId).toNat = batchIndex <<< 16 ||| workerId :=
    (BitVec.toNat_ofNat _ _).trans (Nat.mod_eq_of_lt (Nat.lt_of_lt_of_le hlt hwide))
  rw [toU64?, htoNat, if_pos hlt]

/-- A nonce is the packing of its two halves. -/
theorem packNonce_fromBeBytes (nonce : Vector UInt8 8) :
    packNonce (fromBeBytes nonce.toList >>> 32) (fromBeBytes nonce.toList % 2 ^ 32) = nonce := by
  have hbytes := Abi.toBytes_ofBytes nonce.toList
  rw [Vector.length_toList] at hbytes
  refine Vector.toList_inj.mp ?_
  rw [toList_packNonce, shiftRight_pack (fromBeBytes nonce.toList) 32]
  exact hbytes

/-- A difficulty of 64 bits is the packing of its two parts. -/
theorem packDifficulty_toNat (difficulty : U256) :
    packDifficulty (difficulty.toNat >>> 16) (difficulty.toNat &&& 0xffff) = difficulty := by
  rw [packDifficulty, and_0xffff, shiftRight_pack, BitVec.ofNat_toNat, BitVec.setWidth_eq]

/-! ### The reader is the inverse -/

section Inverse

variable {up : Upstream}

/-- The fields of a header that carries them. -/
theorem decodeConsensusFields_of_some {header : ExecHeader} {digest : B256} {difficulty : ℕ}
    (hnumber : header.number ≠ 0) (hroot : header.parentBeaconBlockRoot = some digest)
    (hdifficulty : toU64? header.difficulty = some difficulty) :
    decodeConsensusFields up header = some
      { digest
        epoch := (up.deconstructNonce (fromBeBytes header.nonce.toList)).1
        round := (up.deconstructNonce (fromBeBytes header.nonce.toList)).2
        batchIndex := difficulty >>> 16
        workerId := difficulty &&& 0xffff
        batchDigest := header.ommersHash
        prevRandao := some header.mixHash
        closesEpoch := !header.extraData.isEmpty } := by
  rw [decodeConsensusFields, if_neg hnumber, hroot, hdifficulty]
  rfl

/-- **Which headers carry nothing.** -/
theorem decodeConsensusFields_eq_none_iff {header : ExecHeader} :
    decodeConsensusFields up header = none ↔ header.number = 0 ∨
      header.parentBeaconBlockRoot = none ∨ 2 ^ 64 ≤ header.difficulty.toNat := by
  by_cases hnumber : header.number = 0
  · rw [decodeConsensusFields, if_pos hnumber]
    exact iff_of_true rfl (Or.inl hnumber)
  cases hroot : header.parentBeaconBlockRoot with
  | none =>
    rw [decodeConsensusFields, if_neg hnumber, hroot]
    exact iff_of_true rfl (Or.inr (Or.inl rfl))
  | some digest =>
    by_cases hdifficulty : header.difficulty.toNat < 2 ^ 64
    · rw [decodeConsensusFields_of_some hnumber hroot (by rw [toU64?, if_pos hdifficulty])]
      refine iff_of_false (Option.some_ne_none _) ?_
      rintro (h | h | h)
      · exact hnumber h
      · exact Option.some_ne_none _ h
      · exact Nat.not_le.mpr hdifficulty h
    · rw [decodeConsensusFields, if_neg hnumber, hroot, toU64?, if_neg hdifficulty]
      exact iff_of_true rfl (Or.inr (Or.inr (Nat.not_lt.mp hdifficulty)))

variable (hup : ∀ x < 2 ^ 64, up.deconstructNonce x = (x >>> 32, x % 2 ^ 32))

include hup

/-- **The reader undoes the packing.** -/
theorem decodeConsensusFields_packHeader {header : ExecHeader} (hnumber : 1 ≤ header.number)
    (digest : B256) {epoch round batchIndex workerId : ℕ} (hepoch : epoch < 2 ^ 32)
    (hround : round < 2 ^ 32) (hindex : batchIndex < 2 ^ 48) (hworker : workerId < 2 ^ 16)
    (batchDigest mixHash : B256) (extraData : Bytes) :
    decodeConsensusFields up (packHeader header digest epoch round batchIndex workerId batchDigest
        mixHash extraData) = some
      { digest, epoch, round, batchIndex, workerId, batchDigest
        prevRandao := some mixHash
        closesEpoch := !extraData.isEmpty } := by
  have hnonce : up.deconstructNonce (fromBeBytes (packNonce epoch round).toList) =
      (epoch, round) := by
    have hlt : epoch <<< 32 ||| round < 2 ^ 64 := or_shiftLeft_lt hepoch hround
    have hbits := or_shiftLeft_unpack epoch hround
    rw [fromBeBytes_packNonce hepoch hround, hup _ hlt, hbits.1, hbits.2]
  have hbits := or_shiftLeft_unpack batchIndex hworker
  have hne : (packHeader header digest epoch round batchIndex workerId batchDigest mixHash
      extraData).number ≠ 0 := Nat.ne_of_gt hnumber
  have hroot : (packHeader header digest epoch round batchIndex workerId batchDigest mixHash
      extraData).parentBeaconBlockRoot = some digest := rfl
  rw [decodeConsensusFields_of_some hne hroot (toU64?_packDifficulty hindex hworker)]
  simp only [packHeader, hnonce, and_0xffff, hbits]

/-- **The packing undoes the reader.** -/
theorem pack_decodeConsensusFields {header : ExecHeader} {fields : HeaderConsensusFields}
    (hfields : decodeConsensusFields up header = some fields) :
    packNonce fields.epoch fields.round = header.nonce ∧
    packDifficulty fields.batchIndex fields.workerId = header.difficulty ∧
    header.parentBeaconBlockRoot = some fields.digest ∧
    header.ommersHash = fields.batchDigest ∧ fields.prevRandao = some header.mixHash ∧
    (fields.closesEpoch = true ↔ header.extraData ≠ []) := by
  have hsome : ¬ decodeConsensusFields up header = none := by
    rw [hfields]
    exact Option.some_ne_none _
  rw [decodeConsensusFields_eq_none_iff] at hsome
  obtain ⟨hnumber, hroot, hdifficulty⟩ :
      header.number ≠ 0 ∧ header.parentBeaconBlockRoot ≠ none ∧
        header.difficulty.toNat < 2 ^ 64 := by
    refine ⟨fun h => hsome (Or.inl h), fun h => hsome (Or.inr (Or.inl h)), ?_⟩
    exact Nat.not_le.mp fun h => hsome (Or.inr (Or.inr h))
  obtain ⟨digest, hdigest⟩ := Option.ne_none_iff_exists'.mp hroot
  rw [decodeConsensusFields_of_some hnumber hdigest (by rw [toU64?, if_pos hdifficulty]),
    Option.some.injEq] at hfields
  have hlt : fromBeBytes header.nonce.toList < 2 ^ 64 := by
    have hbound := Abi.ofBytes_lt header.nonce.toList
    rwa [Vector.length_toList] at hbound
  subst hfields
  refine ⟨?_, packDifficulty_toNat header.difficulty, hdigest, rfl, rfl, by simp⟩
  rw [hup _ hlt]
  exact packNonce_fromBeBytes header.nonce

/-- **Decoding is the inverse of the packing.** Every header that packs fields of the ranges of the
protocol decodes to these fields; a header that decodes is the packing of what it decodes to; and a
header decodes to nothing exactly at genesis, without a root, or with a difficulty above 64 bits. -/
theorem decodeConsensusFields_inverse :
    (∀ (header : ExecHeader) (digest : B256) (epoch round batchIndex workerId : ℕ)
        (batchDigest mixHash : B256) (extraData : Bytes),
      1 ≤ header.number → epoch < 2 ^ 32 → round < 2 ^ 32 → batchIndex < 2 ^ 48 →
      workerId < 2 ^ 16 →
      decodeConsensusFields up (packHeader header digest epoch round batchIndex workerId
          batchDigest mixHash extraData) = some
        { digest, epoch, round, batchIndex, workerId, batchDigest
          prevRandao := some mixHash
          closesEpoch := !extraData.isEmpty }) ∧
    (∀ (header : ExecHeader) (fields : HeaderConsensusFields),
      decodeConsensusFields up header = some fields →
      packNonce fields.epoch fields.round = header.nonce ∧
      packDifficulty fields.batchIndex fields.workerId = header.difficulty ∧
      header.parentBeaconBlockRoot = some fields.digest ∧
      header.ommersHash = fields.batchDigest ∧ fields.prevRandao = some header.mixHash ∧
      (fields.closesEpoch = true ↔ header.extraData ≠ [])) ∧
    ∀ header : ExecHeader, decodeConsensusFields up header = none ↔
      header.number = 0 ∨ header.parentBeaconBlockRoot = none ∨
        2 ^ 64 ≤ header.difficulty.toNat := by
  refine ⟨?_, fun _ _ h => pack_decodeConsensusFields hup h, fun _ =>
    decodeConsensusFields_eq_none_iff⟩
  intro header digest epoch round batchIndex workerId batchDigest mixHash extraData hnumber hepoch
    hround hindex hworker
  exact decodeConsensusFields_packHeader hup hnumber digest hepoch hround hindex hworker
    batchDigest mixHash extraData

end Inverse

/-- The header of the third batch of an output of epoch 7, packed and read back. -/
theorem decodeConsensusFields_inverse_batch :
    decodeConsensusFields plainUpstream
        (packHeader (steadyChain.block 42).header 1 7 9 3 1 2 3 []) =
      some ⟨1, 7, 9, 3, 1, 2, some 3, false⟩ :=
  (@decodeConsensusFields_inverse plainUpstream fun _ _ => rfl).1
    (steadyChain.block 42).header 1 7 9 3 1 2 3 [] (by decide) (by decide) (by decide) (by decide)
    (by decide)

example : (packNonce 7 9).toList = [0, 0, 0, 7, 0, 0, 0, 9] := by decide

end ExplorerIndexer
