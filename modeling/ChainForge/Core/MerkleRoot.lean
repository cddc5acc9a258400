import ChainForge.Core.BlockCache

/-!
# The Merkle root of a block

The root stands in the header.  The constructors and the three transaction mutators write it, the
setters leave it and the transactions alone, and `is_valid` does not look at it.  `header()` and
`transactions()` give write access to both, past the mutators (`BlockAccess`).

* `exec_rooted`       one call keeps the root right;
* `root_maintained`   **the root is right after every sequence of calls**, whatever hashes the
                      transactions have cached;
* `rooted_iff`        with the accessors, the last use that writes root or transactions decides;
* `valid_root_iff`    **when a valid block has the right root**: if this use is no assignment, or one
                      that fits the rest of the block.
-/

set_option linter.unusedSectionVars false

namespace ChainForge
open Machine

namespace Block

section
variable (H : List UInt8 → Hash)

/-- the root in the header is that of the transactions -/
def Rooted (b : Block) : Prop := b.header.merkleRoot = b.calculateMerkleRoot H

variable {H} {b : Block}

/-! ## the mutators -/

theorem calculateHash_hashed (tx : Transaction) :
    (tx.hashed H).calculateHash H = tx.calculateHash H := rfl

theorem updateMerkleRoot_rooted (b : Block) : (b.updateMerkleRoot H).Rooted H := by
  have hashes : (b.transactions.map (·.hashed H)).map (·.calculateHash H)
      = b.transactions.map (·.calculateHash H) := by
    rw [List.map_map]
    exact List.map_congr_left fun tx _ => calculateHash_hashed tx
  show merkleRoot combineHashes _ = merkleRoot combineHashes ((b.transactions.map _).map _)
  rw [hashes]

/-- no transactions, and the zero root -/
theorem rooted_of_empty (htx : b.transactions = []) (hroot : b.header.merkleRoot = Hash.zero) :
    b.Rooted H := by
  unfold Rooted calculateMerkleRoot
  rw [htx, hroot]
  rfl

/-- what touches neither root nor transactions -/
theorem Rooted.frame {b' : Block} (h : b.Rooted H)
    (hroot : b'.header.merkleRoot = b.header.merkleRoot)
    (htx : b'.transactions = b.transactions) : b'.Rooted H := by
  unfold Rooted calculateMerkleRoot
  rw [hroot, htx]
  exact h

theorem build_rooted (i : BlockInit) : (i.build H).Rooted H := by
  cases i with
  | make height parentHash timestamp => exact rooted_of_empty rfl rfl
  | ofHeader header transactions => exact updateMerkleRoot_rooted _

end

end Block

/-! ## uses -/

/-- a use of a block: a call, or an assignment through one of the mutable accessors -/
inductive BlockAccess where
  | call (op : BlockOp)
  | header (header : BlockHeader)
  | transactions (transactions : List Transaction)

/-- the accessors do not empty the cache -/
def Block.access (H : List UInt8 → Hash) (b : Block) : BlockAccess → Block
  | .call op => b.exec H op
  | .header header => { b with header }
  | .transactions transactions => { b with transactions }

/-- the use writes the root or the transactions -/
def BlockAccess.writes (b : Block) : BlockAccess → Bool
  | .call (.addTransaction _) => true
  | .call (.removeTransaction index) => index < b.transactions.length
  | .call .clearTransactions => true
  | .call _ => false
  | .header _ => true
  | .transactions _ => true

/-- what is assigned fits the rest of the block: a header has the root of the transactions, and
transactions have the root that is in the header -/
def BlockAccess.Fits (H : List UInt8 → Hash) (b : Block) : BlockAccess → Prop
  | .call _ => True
  | .header h => h.merkleRoot = b.calculateMerkleRoot H
  | .transactions l => b.header.merkleRoot = merkleRoot combineHashes (l.map (·.calculateHash H))

section
variable {H : List UInt8 → Hash}

/-- **One use that writes.** -/
theorem access_rooted_iff (b : Block) (use : BlockAccess) (hw : use.writes b = true) :
    (b.access H use).Rooted H ↔ use.Fits H b := by
  cases use with
  | header header => exact Iff.rfl
  | transactions transactions => exact Iff.rfl
  | call op =>
    refine iff_of_true ?_ trivial
    cases op with
    | addTransaction tx =>
      exact (Block.updateMerkleRoot_rooted
        { b with transactions := b.transactions ++ [tx] }).frame rfl rfl
    | removeTransaction index =>
      show (b.removeTransaction H index).Rooted H
      unfold Block.removeTransaction
      rw [if_pos (of_decide_eq_true hw)]
      exact (Block.updateMerkleRoot_rooted
        { b with transactions := b.transactions.eraseIdx index }).frame rfl rfl
    | clearTransactions => exact Block.rooted_of_empty rfl rfl
    | setHeight | setParentHash | setTimestamp | setNonce | setGasLimit | setGasPrice | setChainId
    | calculateHash => cases hw

/-- and one that does not -/
theorem access_keeps_iff (b : Block) (use : BlockAccess) (hw : use.writes b = false) :
    (b.access H use).Rooted H ↔ b.Rooted H := by
  cases use with
  | header header => cases hw
  | transactions transactions => cases hw
  | call op =>
    cases op with
    | addTransaction tx => cases hw
    | clearTransactions => cases hw
    | removeTransaction index =>
      show (b.removeTransaction H index).Rooted H ↔ b.Rooted H
      unfold Block.removeTransaction
      rw [if_neg (of_decide_eq_false hw)]
    | setHeight | setParentHash | setTimestamp | setNonce | setGasLimit | setGasPrice | setChainId
    | calculateHash => exact Iff.rfl

/-- **One call.** -/
theorem exec_rooted {b : Block} (op : BlockOp) (h : b.Rooted H) : (b.exec H op).Rooted H := by
  cases hw : (BlockAccess.call op).writes b with
  | true => exact (access_rooted_iff b (.call op) hw).mpr trivial
  | false => exact (access_keeps_iff b (.call op) hw).mpr h

theorem rooted_iff (i : BlockInit) (uses : List BlockAccess) :
    (run (Block.access H) (i.build H) uses).Rooted H ↔
      ∀ b use, lastWrite (Block.access H) (fun b use => use.writes b) (i.build H) uses = some (b, use) →
        use.Fits H b := by
  rw [run_lastWrite_iff access_rooted_iff access_keeps_iff]
  exact and_iff_right fun _ => Block.build_rooted i

end

/-- **The Merkle root is maintained** by the constructors, the setters and the mutators, in every
state of every sequence of calls. -/
theorem root_maintained (H : List UInt8 → Hash) (i : BlockInit) (ops : List BlockOp) :
    EveryState (Block.exec H) (Block.Rooted H) (i.build H) ops :=
  everyState_of_inv (Block.Rooted H) (fun _ op h => exec_rooted op h) ops
    (Block.build_rooted i)

/-- **When a valid block has the right root**, after any uses: exactly if the last use that writes the
root or the transactions is a call, or there is none, or it is an assignment that fits the block it
finds: a header with the root of the transactions, or transactions with the root in the header. -/
theorem valid_root_iff (H : List UInt8 → Hash) (i : BlockInit) (uses : List BlockAccess) :
    let b := run (Block.access H) (i.build H) uses
    b.isValid = true →
      (b.Rooted H ↔
        ∀ b' use,
          lastWrite (Block.access H) (fun b use => use.writes b) (i.build H) uses = some (b', use) →
            use.Fits H b') := by
  -- the checks of validity do not read the root, so they do not help
  intro b _
  exact rooted_iff i uses

/-- a header assigned with the root of no transactions, and another gas limit -/
theorem valid_root_iff_fitting :
    let b := run (Block.access hashSha256) ((BlockInit.make 1 Hash.zero 0).build hashSha256)
      [.header { (Block.make 1 Hash.zero 0).header with gasLimit := 1 }]
    b.isValid = true ∧ b.Rooted hashSha256 := by
  have hvalid : (run (Block.access hashSha256) ((BlockInit.make 1 Hash.zero 0).build hashSha256)
      [.header { (Block.make 1 Hash.zero 0).header with gasLimit := 1 }]).isValid = true := by
    decide +kernel
  refine ⟨hvalid, (valid_root_iff _ _ _ hvalid).mpr fun b' use hlast => ?_⟩
  cases Option.some.inj hlast
  show _ = _
  decide +kernel

/-- a new block with a root of ones -/
theorem wrong_root_valid :
    let b := run (Block.access hashSha256) ((BlockInit.make 1 Hash.zero 0).build hashSha256)
      [.header { (Block.make 1 Hash.zero 0).header with merkleRoot := Bytes.fill 32 1 }]
    b.isValid = true ∧ b.header.merkleRoot ≠ b.calculateMerkleRoot hashSha256 := by
  decide +kernel

end ChainForge
