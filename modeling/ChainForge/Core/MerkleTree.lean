import ChainForge.Core.MerkleRoot
import ChainForge.Lib.Merkle

/-!
# What the Merkle root commits to

`calculate_merkle_root` is the loop of `Lib.Merkle`, for the combining function of the source or any
other in its place (`merkleRootBy`).

* `merkleRoot_tree`          the root is that of the tree of the least depth;
* `addTransaction_root_iff`  **the number of transactions**: an odd level is filled with a copy of its
                             last hash, and a block in which these copies are transactions of their
                             own has the same root;
* `merkleRoot_halves`        with `combine_hashes` the root is half of the first hash and half of one
                             other;
* `replace_root_iff`         **the transactions themselves**: the root sees two of them.
-/

set_option linter.unusedSectionVars false

namespace ChainForge

/-! ## the loop -/

section
variable {c : Hash → Hash → Hash}

theorem merkleLevel_eq : ∀ l : List Hash, merkleLevel c l = Merkle.level c l
  | [] => by simp [merkleLevel, Merkle.level, Merkle.pairs]
  | [_] => by simp [merkleLevel, Merkle.level, Merkle.pairs]
  | a :: b :: l => by
    have ih := merkleLevel_eq l
    simp only [Merkle.level] at ih
    simp only [merkleLevel, Merkle.level, Merkle.pairs, List.map_cons, ih]

theorem merkleLoop_eq (n : Nat) (l : List Hash) : merkleLoop c n l = Merkle.loop c n l := by
  induction n generalizing l with
  | zero => rfl
  | succ n ih => rw [merkleLoop, Merkle.loop, merkleLevel_eq, ih]

theorem loop_merkleRoot {n : Nat} {l : List Hash} (hl : l ≠ []) (hn : l.length ≤ n) :
    Merkle.loop c n l = [merkleRoot c l] := by
  obtain ⟨r, hr, -⟩ := Merkle.loop_eq_tree (c := c) hl (Nat.le_refl l.length)
  rw [Merkle.loop_rounds hn (Nat.le_refl l.length)]
  match l with
  | [_] => rfl
  | a :: b :: l =>
    show _ = [(merkleLoop c _ _).headD _]
    rw [merkleLoop_eq, hr]
    rfl

/-- **The root is that of the tree.** -/
theorem merkleRoot_tree {l : List Hash} (hl : l ≠ []) :
    Merkle.tree c (Nat.clog 2 l.length) l = some (merkleRoot c l) := by
  obtain ⟨r, hr, htree⟩ := Merkle.loop_eq_tree (c := c) hl (Nat.le_refl l.length)
  rw [loop_merkleRoot hl (Nat.le_refl l.length), List.singleton_inj] at hr
  rw [hr, htree]

end

/-! ## one transaction more -/

namespace Block

section
variable (H : List UInt8 → Hash) (c : Hash → Hash → Hash)

/-- the hashes of the transactions -/
def leaves (b : Block) : List Hash := b.transactions.map (·.calculateHash H)

/-- `calculate_merkle_root` with `c` in place of `combine_hashes` -/
def merkleRootBy (b : Block) : Hash := merkleRoot c (b.leaves H)

/-- the pairs that it combines -/
def merklePairs (b : Block) : List (Hash × Hash) :=
  Merkle.combined c (b.leaves H).length (b.leaves H)

variable {H c}

theorem calculateMerkleRoot_eq (b : Block) :
    b.calculateMerkleRoot H = b.merkleRootBy H combineHashes := rfl

theorem leaves_length (b : Block) : (b.leaves H).length = b.transactions.length :=
  List.length_map _

theorem leaves_addTransaction (b : Block) (t : Transaction) :
    (b.addTransaction H t).leaves H = b.leaves H ++ [t.calculateHash H] := by
  show ((b.transactions ++ [t]).map (·.hashed H)).map (·.calculateHash H) = _
  rw [List.map_map, List.map_append]
  rfl

end

/-- **When the root commits to the number of transactions**: one transaction more changes the root or
makes two pairs collide, except if copies of it end the list already where an odd level is filled
with them, or if the root of a full tree is a fixed point. -/
theorem addTransaction_root_iff (H : List UInt8 → Hash) (c : Hash → Hash → Hash) (b : Block)
    (t : Transaction) (hb : 2 ≤ b.transactions.length) :
    let ps := b.merklePairs H c ++ (b.addTransaction H t).merklePairs H c
    (b.merkleRootBy H c = (b.addTransaction H t).merkleRootBy H c → Merkle.Collides c ps) ↔
      (Merkle.Collides c ps ∨
        ¬ (Merkle.Padded (b.leaves H) (t.calculateHash H) ∨
            Merkle.Fixed c (b.leaves H) (t.calculateHash H))) := by
  have hlen : 2 ≤ (b.leaves H).length := by rwa [leaves_length]
  have hlen' : (b.leaves H ++ [t.calculateHash H]).length = (b.leaves H).length + 1 := by
    rw [List.length_append, List.length_singleton]
  -- as many rounds for both lists
  have hiff := Merkle.loop_append_iff (c := c) (t := t.calculateHash H) hlen
    (Nat.lt_succ_self (b.leaves H).length)
  rw [loop_merkleRoot (List.length_pos_iff.mp (by omega)) (by omega),
    loop_merkleRoot (List.length_pos_iff.mp (by omega)) (by omega), List.singleton_inj,
    Merkle.combined_rounds (Nat.le_succ _) (Nat.le_refl (b.leaves H).length)] at hiff
  unfold merkleRootBy merklePairs
  rw [leaves_addTransaction, hlen']
  exact hiff

end Block

/-- a transaction from the address `a..a` -/
def transferFrom (a : UInt8) : Transaction :=
  Transaction.make (Bytes.fill 20 a) (Bytes.fill 20 9) 1

/-- a block of three transactions with different senders -/
def threeTransfers : Block :=
  Block.ofHeader hashSha256 (Block.make 1 Hash.zero 0).header
    [transferFrom 1, transferFrom 2, transferFrom 3]

/-- the third one again -/
theorem duplicate_keeps_root :
    let b := threeTransfers
    let b' := b.addTransaction hashSha256 (transferFrom 3)
    b.calculateMerkleRoot hashSha256 = b'.calculateMerkleRoot hashSha256 ∧
      ¬ Merkle.Collides combineHashes
        (b.merklePairs hashSha256 combineHashes ++ b'.merklePairs hashSha256 combineHashes) := by
  decide +kernel

/-- a fourth sender: the root stays, but two pairs collide -/
theorem addTransaction_root_fourth :
    let b := threeTransfers
    let b' := b.addTransaction hashSha256 (transferFrom 4)
    2 ≤ b.transactions.length ∧
      (b.calculateMerkleRoot hashSha256 = b'.calculateMerkleRoot hashSha256 →
        Merkle.Collides combineHashes
          (b.merklePairs hashSha256 combineHashes ++ b'.merklePairs hashSha256 combineHashes)) :=
  ⟨by decide, (Block.addTransaction_root_iff hashSha256 combineHashes threeTransfers (transferFrom 4)
    (by decide)).mpr (Or.inl (by decide +kernel))⟩

/-! ## one transaction replaced -/

/-- what `combine_hashes` takes of a hash -/
def Hash.half (h : Hash) : List UInt8 := h.1.take 16

theorem half_combineHashes (left right : Hash) :
    (combineHashes left right).half = left.half := by
  refine List.take_left' ?_
  rw [List.length_take, left.2]
  rfl

/-- **The root is two halves**, of the first hash and of the first one in the right half of the
tree. -/
theorem merkleRoot_halves {l : List Hash} (hl : 2 ≤ l.length) :
    (l[0]?.map Hash.half = some (merkleRoot combineHashes l).half) ∧
      l[2 ^ (Nat.clog 2 l.length - 1)]?.map Hash.half
        = some ((merkleRoot combineHashes l).1.drop 16) := by
  have htree := merkleRoot_tree (c := combineHashes) (l := l) (List.length_pos_iff.mp (by omega))
  have hhead := Merkle.tree_head half_combineHashes htree
  refine ⟨by rw [← List.head?_eq_getElem?]; exact hhead, ?_⟩
  obtain ⟨d, hd⟩ : ∃ d, Nat.clog 2 l.length = d + 1 := ⟨_, Nat.clog_of_two_le Nat.one_lt_two hl⟩
  have hlt : 2 ^ d < l.length := (Nat.lt_clog_iff_pow_lt Nat.one_lt_two).mp (by omega)
  rw [hd, Merkle.tree_of_lt hlt, Option.bind_eq_some_iff] at htree
  obtain ⟨a, -, htree⟩ := htree
  obtain ⟨b, hb, hroot⟩ := Option.bind_eq_some_iff.mp htree
  have hright := Merkle.tree_head half_combineHashes hb
  rw [List.head?_drop] at hright
  rw [hd, Nat.add_sub_cancel, hright, ← Option.some.inj hroot]
  refine congrArg some (List.drop_left' ?_).symm
  rw [List.length_take, a.2]
  rfl

theorem merkleRoot_eq_iff {l l' : List Hash} (hl : 2 ≤ l.length) (hlen : l.length = l'.length) :
    merkleRoot combineHashes l = merkleRoot combineHashes l' ↔
      l[0]?.map Hash.half = l'[0]?.map Hash.half ∧
        l[2 ^ (Nat.clog 2 l.length - 1)]?.map Hash.half
          = l'[2 ^ (Nat.clog 2 l.length - 1)]?.map Hash.half := by
  obtain ⟨h0, h1⟩ := merkleRoot_halves hl
  obtain ⟨h0', h1'⟩ := merkleRoot_halves (hlen ▸ hl)
  rw [← hlen] at h1'
  rw [h0, h0', h1, h1', Option.some.injEq, Option.some.injEq, Subtype.ext_iff]
  constructor
  · intro h
    exact ⟨congrArg (List.take 16) h, congrArg (List.drop 16) h⟩
  · rintro ⟨htake, hdrop⟩
    rw [← List.take_append_drop 16 (merkleRoot combineHashes l).1,
      ← List.take_append_drop 16 (merkleRoot combineHashes l').1]
    exact congrArg₂ (· ++ ·) htake hdrop

/-- what a replacement changes in the half at `j` -/
theorem half_set_iff {l : List Hash} {i : Nat} (hi : i < l.length) (x : Hash) (j : Nat) :
    (l.set i x)[j]?.map Hash.half = l[j]?.map Hash.half ↔ (i = j → x.half = l[i].half) := by
  by_cases hij : i = j
  · subst hij
    rw [List.getElem?_set_self hi, List.getElem?_eq_getElem hi, Option.map_some, Option.map_some,
      Option.some.injEq]
    exact ⟨fun h _ => h, fun h => h rfl⟩
  · rw [List.getElem?_set_ne hij]
    exact ⟨fun _ h => absurd h hij, fun _ => rfl⟩

namespace Block

/-- **When the root sees the `i`-th transaction**: it is the first one, or the first one in the right
half of the tree, and the first halves of the two hashes differ. -/
theorem replace_root_iff (H : List UInt8 → Hash) (b : Block) (i : Nat) (t : Transaction)
    (hb : 2 ≤ b.transactions.length) (hi : i < b.transactions.length) :
    let b' := b.access H (.transactions (b.transactions.set i t))
    b'.calculateMerkleRoot H ≠ b.calculateMerkleRoot H ↔
      (i = 0 ∨ i = 2 ^ (Nat.clog 2 b.transactions.length - 1)) ∧
        (t.calculateHash H).1.take 16 ≠ ((b.transactions[i]).calculateHash H).1.take 16 := by
  intro b'
  have hleaves : b'.leaves H = (b.leaves H).set i (t.calculateHash H) := List.map_set
  have hlen : (b'.leaves H).length = b.transactions.length := by
    rw [hleaves, List.length_set, leaves_length]
  have hi' : i < (b.leaves H).length := by rwa [leaves_length]
  have hget : (b.leaves H)[i] = (b.transactions[i]).calculateHash H := List.getElem_map _
  have hroot : merkleRoot combineHashes (b'.leaves H) = merkleRoot combineHashes (b.leaves H) ↔ _ :=
    merkleRoot_eq_iff (by rwa [hlen]) (by rw [hlen, leaves_length])
  rw [hlen, hleaves, half_set_iff hi', half_set_iff hi', hget, ← hleaves] at hroot
  rw [ne_eq, calculateMerkleRoot_eq, calculateMerkleRoot_eq]
  unfold merkleRootBy
  rw [hroot]
  constructor
  · intro h
    by_cases heq : (t.calculateHash H).half = ((b.transactions[i]).calculateHash H).half
    · exact absurd ⟨fun _ => heq, fun _ => heq⟩ h
    · refine ⟨?_, heq⟩
      by_contra hne
      exact h ⟨fun h0 => absurd (Or.inl h0) hne, fun hm => absurd (Or.inr hm) hne⟩
  · rintro ⟨h0 | hm, hne⟩ ⟨heq0, heqm⟩
    · exact hne (heq0 h0)
    · exact hne (heqm hm)

/-- the first of the three -/
theorem replace_root_first :
    2 ≤ threeTransfers.transactions.length ∧ 0 < threeTransfers.transactions.length ∧
      (threeTransfers.access hashSha256
          (.transactions (threeTransfers.transactions.set 0 (transferFrom 4)))).calculateMerkleRoot
          hashSha256
        ≠ threeTransfers.calculateMerkleRoot hashSha256 :=
  ⟨by decide, by decide,
    (replace_root_iff hashSha256 threeTransfers 0 (transferFrom 4) (by decide) (by decide)).mpr
      ⟨Or.inl rfl, by decide +kernel⟩⟩

end Block

/-- the second of the three is replaced by one of another sender -/
theorem second_not_committed :
    (transferFrom 4).calculateHash hashSha256 ≠ (transferFrom 2).calculateHash hashSha256 ∧
      threeTransfers.transactions[1]? = some ((transferFrom 2).hashed hashSha256) ∧
        (threeTransfers.access hashSha256
            (.transactions (threeTransfers.transactions.set 1 (transferFrom 4)))).calculateMerkleRoot
            hashSha256
          = threeTransfers.calculateMerkleRoot hashSha256 := by
  decide +kernel

end ChainForge
