import ExplorerIndexer.Library.Abi
import Mathlib.Algebra.GroupWithZero.Nat
import Mathlib.Data.List.Basic

/-!
# Executed blocks

What the node hands the indexer: blocks whose transactions carry recovered senders, and one list
of receipts per block. Only the fields the indexer reads are here. Unsigned integers are natural
numbers; a lemma that depends on a width says so.

`Upstream` collects the functions the indexer calls that live in other crates. They are arguments
of everything that uses them, so each theorem holds whatever they compute.

## Main definitions

* `RecoveredBlock`, `Receipt`, `Log` — the data of one executed block
* `Chain` — the executed blocks by number
* `NodeChain` — a chain whose receipts match its transactions
-/

namespace ExplorerIndexer

/-- A 20-byte account address. -/
abbrev Address := BitVec 160

/-- A 32-byte word. -/
abbrev B256 := BitVec 256

/-- A 256-bit unsigned integer. -/
abbrev U256 := BitVec 256

/-- A byte string. -/
abbrev Bytes := List UInt8

/-- Read bytes as a big-endian natural number. -/
def fromBeBytes (bs : Bytes) : ℕ := Abi.ofBytes bs

/-- One receipt log. -/
structure Log where
  /-- The emitting contract. -/
  address : Address
  topics : List B256
  data : Bytes
  deriving DecidableEq, Repr

/-- One transaction receipt. -/
structure Receipt where
  success : Bool
  /-- Gas used in the block up to and including this transaction. -/
  cumulativeGasUsed : ℕ
  logs : List Log
  deriving DecidableEq, Repr

/-- A signed transaction, identified by its hash. -/
structure TransactionSigned where
  hash : B256
  /-- The EIP-2718 type byte. -/
  ty : ℕ
  /-- The recipient; `none` for a contract creation. -/
  toAddr : Option Address
  nonce : ℕ
  deriving DecidableEq, Repr

/-- An execution header. -/
structure ExecHeader where
  number : ℕ
  parentBeaconBlockRoot : Option B256
  /-- Eight bytes. -/
  nonce : Vector UInt8 8
  difficulty : U256
  ommersHash : B256
  mixHash : B256
  extraData : Bytes
  baseFeePerGas : Option ℕ
  timestamp : ℕ
  deriving DecidableEq, Repr

/-- An executed block with the sender of each of its transactions. -/
structure RecoveredBlock where
  header : ExecHeader
  transactionsWithSender : List (Address × TransactionSigned)
  deriving DecidableEq, Repr

/-- The block's height. -/
def RecoveredBlock.number (block : RecoveredBlock) : ℕ := block.header.number

/-- Functions of other crates that the indexer calls. -/
structure Upstream where
  /-- `Address::create`: the address of the contract a sender creates at a nonce. -/
  create : Address → ℕ → Address
  /-- `deconstruct_nonce`: the epoch and the round packed into a header nonce. -/
  deconstructNonce : ℕ → ℕ × ℕ

/-- The executed blocks of a network, by height. Telcoin Network has no reorgs, so a height names
one block for ever. -/
structure Chain where
  block : ℕ → RecoveredBlock
  receipts : ℕ → List Receipt
  /-- The block at a height carries that height. -/
  number_block : ∀ n, (block n).number = n

/-- A chain as the node stores it: one receipt per transaction, and the receipts' cumulative gas
is the running sum of what each transaction used. -/
structure NodeChain extends Chain where
  /-- The gas each transaction of a block used. -/
  gasUsed : ℕ → List ℕ
  length_receipts : ∀ n, (receipts n).length = (block n).transactionsWithSender.length
  length_gasUsed : ∀ n, (gasUsed n).length = (receipts n).length
  cumulative : ∀ n i r, (receipts n)[i]? = some r →
    r.cumulativeGasUsed = ((gasUsed n).take (i + 1)).foldl (· + ·) 0

/-! ### A chain to evaluate on -/

/-- Upstream functions that are easy to evaluate. -/
def plainUpstream : Upstream where
  create sender nonce := sender + BitVec.ofNat 160 nonce
  deconstructNonce nonce := (nonce >>> 32, nonce % 2 ^ 32)

/-- Every block holds one transaction, of the type of the block's number modulo five, and one
receipt without logs. -/
def steadyChain : NodeChain where
  block n :=
    { header :=
        { number := n
          parentBeaconBlockRoot := some (BitVec.ofNat 256 (n / 2))
          nonce := Vector.replicate 8 0
          difficulty := 0
          ommersHash := 0
          mixHash := 0
          extraData := []
          baseFeePerGas := some 7
          timestamp := 1000 + n }
      transactionsWithSender := [(1, ⟨BitVec.ofNat 256 n, n % 5, some 2, n⟩)] }
  receipts _ := [⟨true, 21000, []⟩]
  number_block _ := rfl
  gasUsed _ := [21000]
  length_receipts _ := rfl
  length_gasUsed _ := rfl
  cumulative n i r h := by
    cases i with
    | zero => cases h; rfl
    | succ i => cases h

end ExplorerIndexer
