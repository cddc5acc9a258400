import ChainForge.Core.MerkleTree
import ChainForge.Core.Preimage
import ChainForge.Lib.HashChain

/-!
# Chains of blocks

Each block names the hash of the one before it, as the loops of the integration tests check
(`EXPECT_EQ(blockchain[i].header().parent_hash, blockchain[i-1].calculate_hash())`).  The list is the
vector of the tests, the genesis block first.

For any hash function and any combining function the last hash should bind every header and every
transaction of the chain (`chain_bound`); with the functions of the source it does not:

* `chain_bound`           **chains of one length with one last hash** carry the same headers and
                          transactions, or a pair of blocks at one place breaks one of the functions;
* `calculateHash_bytes`   the placeholder hash of a block is its height and 24 bytes of its parent's;
* `tip_iff_heights`       **the last hash is the last four heights**, and nothing else;
* `replace_linked_iff`    **which blocks can be exchanged** in the middle of a chain.
-/

set_option linter.unusedSectionVars false

namespace ChainForge
open HashChain

section
variable (H : List UInt8 → Hash) (c : Hash → Hash → Hash)

/-- the linkage check over a whole vector of blocks -/
def Linked (l : List Block) : Prop := l.IsChain (Names (·.calculateHash H) (·.header.parentHash))

instance decidableLinked (l : List Block) : Decidable (Linked H l) :=
  inferInstanceAs (Decidable (l.IsChain _))

namespace Block

/-- what the block is about: the fields of its header and of its transactions, not the caches -/
def content (b : Block) : BlockHeader × List TransactionData :=
  (b.header, b.transactions.map (·.data))

/-- no hash in the block is out of date, and the root is that of the transactions -/
structure Sound (b : Block) : Prop where
  fresh : b.Fresh H
  rooted : b.header.merkleRoot = b.merkleRootBy H c
  coherent : ∀ t ∈ b.transactions, t.Coherent H

/-- how two blocks with one hash can still differ -/
inductive Breach (b b' : Block) : Prop where
  | header (hne : b.header ≠ b'.header) (heq : H (preimage b.header) = H (preimage b'.header))
  | count (heq : b.merkleRootBy H c = b'.merkleRootBy H c)
      (hne : b.transactions.length ≠ b'.transactions.length)
  | pair (h : Merkle.Collides c (b.merklePairs H c ++ b'.merklePairs H c))
  | transaction (t t' : Transaction) (ht : t ∈ b.transactions) (ht' : t' ∈ b'.transactions)
      (hne : t.data ≠ t'.data)
      (heq : H (Transaction.preimage t.data) = H (Transaction.preimage t'.data))

end Block

end

/-- a chain of blocks without transactions, one for each time, built as the tests build theirs -/
def chainAt (H : List UInt8 → Hash) (times : List UInt64) : List Block :=
  times.foldl (fun l time =>
    let parentHash := (l.getLast?.map (·.calculateHash H)).getD Hash.zero
    l ++ [Block.make (UInt64.ofNat l.length) parentHash time]) []

/-! ## any hash function -/

namespace Block

section
variable {H : List UInt8 → Hash} {c : Hash → Hash → Hash} {b b' : Block}

theorem leaves_eq (hb : b.Sound H c) :
    b.leaves H = (b.transactions.map (·.data)).map fun d => H (Transaction.preimage d) := by
  unfold leaves
  rw [List.map_map]
  exact List.map_congr_left fun t ht => (hb.coherent t ht).calculateHash_eq

/-- one root over as many transactions is over the same hashes -/
theorem leaves_of_root (hroot : b.merkleRootBy H c = b'.merkleRootBy H c)
    (hlen : b.transactions.length = b'.transactions.length)
    (hc : ¬ Merkle.Collides c (b.merklePairs H c ++ b'.merklePairs H c)) :
    b.leaves H = b'.leaves H := by
  have hlen1 : (b.leaves H).length = (b'.leaves H).length := by
    rw [leaves_length, leaves_length, hlen]
  by_cases hne : b.leaves H = []
  · rw [hne] at hlen1 ⊢
    exact (List.eq_nil_of_length_eq_zero hlen1.symm).symm
  · have hne' : b'.leaves H ≠ [] := by
      intro h
      rw [h] at hlen1
      exact hne (List.eq_nil_of_length_eq_zero hlen1)
    refine Merkle.loop_inj (c := c) (n := (b.leaves H).length) hlen1 ?_ ?_
    · unfold merklePairs at hc
      rwa [← hlen1] at hc
    · rw [loop_merkleRoot hne (Nat.le_refl _), loop_merkleRoot hne' (Nat.le_of_eq hlen1.symm)]
      exact congrArg (fun r => [r]) hroot

/-- blocks with one header carry one list of transactions, or break one of the functions -/
theorem content_of_header (hb : b.Sound H c) (hb' : b'.Sound H c) (h : b.header = b'.header) :
    b.content = b'.content ∨ Breach H c b b' := by
  have hroot : b.merkleRootBy H c = b'.merkleRootBy H c := by rw [← hb.rooted, ← hb'.rooted, h]
  by_cases hbreach : Breach H c b b'
  · exact .inr hbreach
  · left
    have hlen : b.transactions.length = b'.transactions.length := by
      by_contra hne
      exact hbreach (.count hroot hne)
    have hleaves := leaves_of_root hroot hlen fun hc => hbreach (.pair hc)
    rw [leaves_eq hb, leaves_eq hb'] at hleaves
    refine Prod.ext h (Merkle.eq_of_map_eq ?_ hleaves)
    intro d hd d' hd' heq
    obtain ⟨t, ht, rfl⟩ := List.mem_map.mp hd
    obtain ⟨t', ht', rfl⟩ := List.mem_map.mp hd'
    by_contra hne
    exact hbreach (.transaction t t' ht ht' hne heq)

end

end Block

section
variable {H : List UInt8 → Hash} {c : Hash → Hash → Hash}

/-- the contents agree one by one, or two blocks at one place break something -/
theorem contents_of_headers {l l' : List Block} (hl : ∀ b ∈ l, b.Sound H c)
    (hl' : ∀ b ∈ l', b.Sound H c) (h : l.map (·.header) = l'.map (·.header)) :
    l.map (·.content) = l'.map (·.content) ∨
      ∃ p ∈ l.zip l', Block.Breach H c p.1 p.2 := by
  induction l generalizing l' with
  | nil =>
    rw [List.map_eq_nil_iff.mp h.symm]
    exact .inl rfl
  | cons b l ih =>
    cases l' with
    | nil => cases h
    | cons b' l' =>
      rw [List.map_cons, List.map_cons, List.cons.injEq] at h
      rcases Block.content_of_header (hl b List.mem_cons_self) (hl' b' List.mem_cons_self) h.1 with
        hcontent | hbreach
      · rcases ih (fun b hb => hl b (List.mem_cons_of_mem _ hb))
          (fun b hb => hl' b (List.mem_cons_of_mem _ hb)) h.2 with hrest | ⟨p, hp, hbreach⟩
        · left
          rw [List.map_cons, List.map_cons, hcontent, hrest]
        · exact .inr ⟨p, List.mem_cons_of_mem _ hp, hbreach⟩
      · exact .inr ⟨(b, b'), List.mem_cons_self, hbreach⟩

/-- **The last hash binds the chain**: two chains of one length that end in the same hash agree in
every header and every transaction, or two blocks at the same place are a collision. -/
theorem chain_bound (H : List UInt8 → Hash) (c : Hash → Hash → Hash) (l l' : List Block)
    (hl : Linked H l) (hl' : Linked H l') (hs : ∀ b ∈ l, b.Sound H c) (hs' : ∀ b ∈ l', b.Sound H c)
    (hlen : l.length = l'.length)
    (htip : l.getLast?.map (·.calculateHash H) = l'.getLast?.map (·.calculateHash H)) :
    l.map (·.content) = l'.map (·.content) ∨ ∃ p ∈ l.zip l', Block.Breach H c p.1 p.2 := by
  have hkey : ∀ b b' : Block, b.header = b'.header → b.header.parentHash = b'.header.parentHash :=
    fun _ _ h => congrArg _ h
  rcases agree_or_differ hkey hl hl' hlen htip with
    h | ⟨p, b, r, p', b', r', rfl, rfl, hp, -, hne, heq⟩
  · exact contents_of_headers hs hs' h
  · right
    refine ⟨(b, b'), ?_, .header hne ?_⟩
    · rw [List.zip_append hp, List.zip_cons_cons]
      exact List.mem_append_right _ List.mem_cons_self
    · rw [← (hs b (by simp)).fresh, ← (hs' b' (by simp)).fresh]
      exact heq

/-- the two blocks of the first chain have other times than those of the second -/
theorem chain_bound_two :
    let l := chainAt hashSha256 [3, 4]
    let l' := chainAt hashSha256 [5, 6]
    l.map (·.content) = l'.map (·.content) ∨
      ∃ p ∈ l.zip l', Block.Breach hashSha256 combineHashes p.1 p.2 := by
  have hs : ∀ s t : UInt64, ∀ b ∈ chainAt hashSha256 [s, t], b.Sound hashSha256 combineHashes := by
    intro s t b hb
    have hb : b = Block.make 0 Hash.zero s ∨
        b = Block.make 1 ((Block.make 0 Hash.zero s).calculateHash hashSha256) t := by
      simpa [chainAt] using hb
    rcases hb with rfl | rfl <;> exact ⟨rfl, rfl, by simp [Block.make]⟩
  exact chain_bound hashSha256 combineHashes _ _ (by decide +kernel) (by decide +kernel)
    (hs 3 4) (hs 5 6) rfl (by decide +kernel)

end

/-! ## the placeholder hash -/

namespace Block

/-- **What the placeholder keeps**: the height and the first 24 bytes of the parent's hash. -/
theorem calculateHash_bytes {b : Block} (hb : b.Fresh hashSha256) :
    (b.calculateHash hashSha256).1
      = bigEndian 8 b.height.toNat ++ b.header.parentHash.1.take 24 := by
  have hlen : (bigEndian 8 b.header.height.toNat ++ b.header.parentHash.1.take 24).length = 32 := by
    rw [List.length_append, bigEndian_length, List.length_take, b.header.parentHash.2]
    rfl
  rw [hb, preimage, ← List.take_append_drop 24 b.header.parentHash.1, List.append_assoc,
    ← List.append_assoc, hashSha256_of_length (by simpa using hlen)]
  simp [height]

/-- two blocks share a hash when they share their height and those 24 bytes -/
theorem calculateHash_inj_iff {b b' : Block} (hb : b.Fresh hashSha256) (hb' : b'.Fresh hashSha256) :
    b.calculateHash hashSha256 = b'.calculateHash hashSha256 ↔
      b.height = b'.height ∧
        b.header.parentHash.1.take 24 = b'.header.parentHash.1.take 24 := by
  rw [Subtype.ext_iff, calculateHash_bytes hb, calculateHash_bytes hb']
  constructor
  · exact bigEndian_append_inj
  · rintro ⟨hheight, hparent⟩
    rw [hheight, hparent]

end Block

section
variable {l : List Block}

/-- a list of four heights, newest first, as 32 bytes -/
def heightBytes (hs : List UInt64) : List UInt8 := hs.flatMap fun h => bigEndian 8 h.toNat

/-- the last block of a chain carries as much of the heights below it as fits -/
theorem take_hash (hl : Linked hashSha256 l) (hf : ∀ b ∈ l, b.Fresh hashSha256) {b : Block}
    (hb : l.getLast? = some b) {n : Nat} (hn : n ≤ 4) (hlen : n ≤ l.length) :
    (b.calculateHash hashSha256).1.take (8 * n)
      = heightBytes ((l.reverse.take n).map (·.height)) := by
  induction n generalizing l b with
  | zero => simp [heightBytes]
  | succ n ih =>
    obtain ⟨p, rfl⟩ := List.getLast?_eq_some_iff.mp hb
    have htake : (p ++ [b]).reverse.take (n + 1) = b :: p.reverse.take n := by simp
    rw [htake, Block.calculateHash_bytes (hf b (by simp)), List.take_append, bigEndian_length,
      List.take_of_length_le (by rw [bigEndian_length]; omega), List.take_take,
      Nat.min_eq_left (by omega), List.map_cons, heightBytes, List.flatMap_cons]
    congr 1
    -- below the tip: nothing is left to read, or the parent's hash is that of the block below
    rcases List.eq_nil_or_concat' p with rfl | ⟨q, a, rfl⟩
    · have hn0 : n = 0 := by simpa using hlen
      simp [hn0]
    · have hl1 := isChain_concat_concat.mp hl
      rw [hl1.2, show 8 * (n + 1) - 8 = 8 * n from by omega]
      exact ih hl1.1 (fun b hb => hf b (List.mem_append_left _ hb)) List.getLast?_concat
        (by omega) (by simpa using hlen)

theorem heightBytes_inj {hs hs' : List UInt64} (hlen : hs.length = hs'.length)
    (h : heightBytes hs = heightBytes hs') : hs = hs' := by
  induction hs generalizing hs' with
  | nil => exact (List.eq_nil_of_length_eq_zero hlen.symm).symm
  | cons a hs ih =>
    cases hs' with
    | nil => cases hlen
    | cons b hs' =>
      obtain ⟨hab, hrest⟩ := bigEndian_append_inj h
      rw [hab, ih (Nat.succ_injective hlen) hrest]

/-- **All that the last hash says**: the heights of the last four blocks. -/
theorem tip_iff_heights (l l' : List Block) (hl : Linked hashSha256 l) (hl' : Linked hashSha256 l')
    (hf : ∀ b ∈ l, b.Fresh hashSha256) (hf' : ∀ b ∈ l', b.Fresh hashSha256)
    (hlen : 4 ≤ l.length) (hlen' : 4 ≤ l'.length) :
    l.getLast?.map (·.calculateHash hashSha256) = l'.getLast?.map (·.calculateHash hashSha256) ↔
      (l.reverse.take 4).map (·.height) = (l'.reverse.take 4).map (·.height) := by
  obtain ⟨b, hb⟩ := Option.isSome_iff_exists.mp
    (List.getLast?_isSome.mpr (List.length_pos_iff.mp (by omega : 0 < l.length)))
  obtain ⟨b', hb'⟩ := Option.isSome_iff_exists.mp
    (List.getLast?_isSome.mpr (List.length_pos_iff.mp (by omega : 0 < l'.length)))
  have h := take_hash hl hf hb (Nat.le_refl 4) hlen
  have h' := take_hash hl' hf' hb' (Nat.le_refl 4) hlen'
  rw [List.take_of_length_le (Nat.le_of_eq (b.calculateHash hashSha256).2)] at h
  rw [List.take_of_length_le (Nat.le_of_eq (b'.calculateHash hashSha256).2)] at h'
  rw [hb, hb', Option.map_some, Option.map_some, Option.some_inj, Subtype.ext_iff, h, h']
  constructor
  · exact heightBytes_inj (by simp [hlen, hlen'])
  · intro heq
    rw [heq]

/-- four blocks with other times -/
theorem tip_of_other_times :
    (chainAt hashSha256 [1, 2, 3, 4]).getLast?.map (·.calculateHash hashSha256)
      = (chainAt hashSha256 [5, 6, 7, 8]).getLast?.map (·.calculateHash hashSha256) := by
  refine (tip_iff_heights _ _ (by decide +kernel) (by decide +kernel) ?_ ?_ (by decide)
    (by decide)).mpr (by decide +kernel)
  · unfold Block.Fresh
    decide +kernel
  · unfold Block.Fresh
    decide +kernel

/-- **Which blocks can be exchanged**: one that keeps the parent's hash and, below another block, the
height.  Transactions, root, time, nonce, gas and chain id are free. -/
theorem replace_linked_iff (l r : List Block) (b b' : Block)
    (h : Linked hashSha256 (l ++ b :: r)) (hb : b.Fresh hashSha256) (hb' : b'.Fresh hashSha256) :
    Linked hashSha256 (l ++ b' :: r) ↔
      (l ≠ [] → b'.header.parentHash = b.header.parentHash) ∧
        (r ≠ [] → b'.height = b.height ∧
          b'.header.parentHash.1.take 24 = b.header.parentHash.1.take 24) := by
  rw [← Block.calculateHash_inj_iff hb' hb]
  exact isChain_replace_iff h

/-- another time and nonce for the middle block of three -/
theorem replaced_middle :
    let b := Block.make 1 ((Block.make 0 Hash.zero 3).calculateHash hashSha256) 4
    let last := Block.make 2 (b.calculateHash hashSha256) 5
    Linked hashSha256 ([Block.make 0 Hash.zero 3] ++ (b.setTimestamp 9).setNonce 7 :: [last]) := by
  intro b last
  have hb : b.Fresh hashSha256 := rfl
  have hb' : ((b.setTimestamp 9).setNonce 7).Fresh hashSha256 := rfl
  exact (replace_linked_iff _ [last] b _ (by decide +kernel) hb hb').mpr
    ⟨fun _ => rfl, fun _ => ⟨rfl, rfl⟩⟩

end

end ChainForge
