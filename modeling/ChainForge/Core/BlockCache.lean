import ChainForge.Core.Block
import ChainForge.Lib.Machine

/-!
# The cached hash of a block

A block object as a state machine: its two value constructors (`BlockInit`), its ten mutators and
`calculate_hash`, which fills the cache (`BlockOp`, `exec`).  `Fresh H b` says that a call of
`calculate_hash` on `b` returns the hash of the present header.

Seven of the mutators empty the cache.  `set_gas_limit`, `set_gas_price` and `set_chain_id` keep it
although their fields are hashed, so they are the only calls that can leave a stale hash behind:

* `exec_fresh_iff`   what one call does to a fresh block;
* `hash_fresh_iff`   **a block stays fresh exactly when none of its calls is stale**.
-/

set_option linter.unusedSectionVars false

namespace ChainForge
open Machine

inductive BlockInit where
  | make (height : UInt64) (parentHash : Hash) (timestamp : UInt64)
  | ofHeader (header : BlockHeader) (transactions : List Transaction)

inductive BlockOp where
  | setHeight (height : UInt64)
  | setParentHash (parentHash : Hash)
  | setTimestamp (timestamp : UInt64)
  | setNonce (nonce : UInt64)
  | setGasLimit (gasLimit : UInt64)
  | setGasPrice (gasPrice : UInt64)
  | setChainId (chainId : UInt32)
  | addTransaction (tx : Transaction)
  | removeTransaction (index : Nat)
  | clearTransactions
  | calculateHash

section
variable (H : List UInt8 → Hash)

def BlockInit.build : BlockInit → Block
  | make height parentHash timestamp => Block.make height parentHash timestamp
  | ofHeader header transactions => Block.ofHeader H header transactions

namespace Block

def exec (b : Block) : BlockOp → Block
  | .setHeight height => b.setHeight height
  | .setParentHash parentHash => b.setParentHash parentHash
  | .setTimestamp timestamp => b.setTimestamp timestamp
  | .setNonce nonce => b.setNonce nonce
  | .setGasLimit gasLimit => b.setGasLimit gasLimit
  | .setGasPrice gasPrice => b.setGasPrice gasPrice
  | .setChainId chainId => b.setChainId chainId
  | .addTransaction tx => b.addTransaction H tx
  | .removeTransaction index => b.removeTransaction H index
  | .clearTransactions => b.clearTransactions
  | .calculateHash => b.hashed H

/-- `calculate_hash` returns the hash of the header as it is -/
def Fresh (b : Block) : Prop := b.calculateHash H = H (preimage b.header)

/-- the hash of `b` is cached and is not that of the header `h` -/
def outdates (b : Block) (h : BlockHeader) : Bool :=
  b.cachedHash.isSome && H (preimage h) != H (preimage b.header)

end Block

/-- a setter that keeps the cache meets a cached hash, and the header it leaves hashes otherwise -/
def BlockOp.stale (b : Block) : BlockOp → Bool
  | setGasLimit gasLimit => b.outdates H { b.header with gasLimit }
  | setGasPrice gasPrice => b.outdates H { b.header with gasPrice }
  | setChainId chainId => b.outdates H { b.header with chainId }
  | _ => false

end

namespace Block
variable {H : List UInt8 → Hash} {b b' : Block}

theorem fresh_of_none (h : b.cachedHash = none) : b.Fresh H := by
  unfold Fresh calculateHash
  rw [h]

theorem Fresh.hashed (h : b.Fresh H) : (b.hashed H).Fresh H := h

/-- a change of the header under the same cache -/
theorem Fresh.kept_iff (h : b.Fresh H) (hc : b'.cachedHash = b.cachedHash) :
    b'.Fresh H ↔ b.outdates H b'.header = false := by
  unfold outdates
  cases hb : b.cachedHash with
  | none =>
    rw [hb] at hc
    exact ⟨fun _ => rfl, fun _ => fresh_of_none hc⟩
  | some v =>
    have hv : v = H (preimage b.header) := by
      unfold Fresh calculateHash at h
      rwa [hb] at h
    unfold Fresh calculateHash
    rw [hc, hb, Option.isSome_some, Bool.true_and, bne_eq_false_iff_eq, hv]
    exact eq_comm

theorem exec_fresh_iff (op : BlockOp) (h : b.Fresh H) :
    (b.exec H op).Fresh H ↔ op.stale H b = false := by
  cases op with
  | setGasLimit gasLimit => exact h.kept_iff rfl
  | setGasPrice gasPrice => exact h.kept_iff rfl
  | setChainId chainId => exact h.kept_iff rfl
  | calculateHash => exact ⟨fun _ => rfl, fun _ => h.hashed⟩
  | removeTransaction index =>
    refine ⟨fun _ => rfl, fun _ => ?_⟩
    show (b.removeTransaction H index).Fresh H
    unfold removeTransaction
    split
    · exact fresh_of_none rfl
    · exact h
  | setHeight | setParentHash | setTimestamp | setNonce | addTransaction | clearTransactions =>
    exact ⟨fun _ => rfl, fun _ => fresh_of_none rfl⟩

theorem build_fresh (i : BlockInit) : (i.build H).Fresh H := by
  cases i with
  | make height parentHash timestamp => exact fresh_of_none rfl
  | ofHeader header transactions => exact fresh_of_none rfl

end Block

/-- **When a block's hash stays true**: along any sequence of calls on a constructed block,
`calculate_hash` returns the hash of the present header at every moment exactly when no gas or
chain-id setter meets a cached hash and changes what it should be. -/
theorem hash_fresh_iff (H : List UInt8 → Hash) (i : BlockInit) (ops : List BlockOp) :
    EveryState (Block.exec H) (Block.Fresh H) (i.build H) ops ↔
      EveryStep (Block.exec H) (fun b op => op.stale H b = false) (i.build H) ops :=
  everyState_iff (fun _ => True) (fun _ _ _ => trivial)
    (fun _ op _ h => Block.exec_fresh_iff op h) ops trivial (Block.build_fresh i)

/-- a hash of the fields from the gas limit on sees that a new gas limit is not hashed again -/
theorem gas_limit_stale :
    let H : List UInt8 → Hash := fun l => hashSha256 (l.drop 88)
    let b := run (Block.exec H) ((BlockInit.make 1 Hash.zero 0).build H)
      [.calculateHash, .setGasLimit 9000000]
    b.calculateHash H ≠ H (Block.preimage b.header) := by
  decide +kernel

end ChainForge
