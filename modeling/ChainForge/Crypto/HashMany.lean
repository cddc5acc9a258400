import ChainForge.Core.MerkleTree
import ChainForge.Crypto.Keccak

/-!
# The Merkle root of a list of digests

`modules/crypto`: `Hash::hash_pair` and `Hash::hash_many`, over an arbitrary SHA-256.  The first inner
hash that fails ends the computation with its error.

* `hashLoop_eq`          the loop is that of `Lib.Merkle`, up to the first pair whose hash fails;
* `merkle_loops_tree`    **both Merkle loops compute one tree**, and both end for every list;
* `hashMany_binding`     **lists of one length are bound** by their root: two that share it contain a
                         collision of SHA-256.
-/

set_option linter.unusedSectionVars false

namespace ChainForge
namespace Crypto

section
variable (sha256 : List UInt8 → CryptoResult Hash)

def hashPair (left right : Hash) : CryptoResult Hash := sha256 (left.1 ++ right.1)

/-- one round of the outer loop of `hash_many`: the next level, or the error of the first hash that
fails -/
def nextLevel : List Hash → Except CryptoError (List Hash)
  | a :: b :: l =>
    let hashResult := hashPair sha256 a b
    if !hashResult.success then .error hashResult.error
    else do
      let rest ← nextLevel l
      return hashResult.value :: rest
  | [a] =>
    -- an odd last hash is paired with itself
    let hashResult := hashPair sha256 a a
    if !hashResult.success then .error hashResult.error
    else .ok [hashResult.value]
  | [] => .ok []

/-- the loop `while (current_level.size() > 1)`, for at most this many rounds -/
def hashLoop : Nat → List Hash → Except CryptoError (List Hash)
  | 0, l => .ok l
  | n + 1, l =>
    if l.length > 1 then do
      let next ← nextLevel sha256 l
      hashLoop n next
    else .ok l

def hashMany (hashes : List Hash) : CryptoResult Hash :=
  match hashes with
  | [] => ⟨Hash.zero, .success⟩
  | [h] => ⟨h, .success⟩
  | hashes =>
    match hashLoop sha256 hashes.length hashes with
    | .ok l => ⟨l.headD Hash.zero, .success⟩
    | .error error => ⟨Hash.zero, error⟩

/-! ## the pairs -/

/-- `hash_pair` as a combining function -/
def pairValue (left right : Hash) : Hash := (hashPair sha256 left right).value

/-- the hash of this pair fails -/
def fails (p : Hash × Hash) : Bool := !(hashPair sha256 p.1 p.2).success

/-- the pairs that `hash_many` comes to if no hash fails -/
def hashedPairs (l : List Hash) : List (Hash × Hash) :=
  Merkle.combined (pairValue sha256) l.length l

/-- the strings that are hashed for them -/
def hashInputs (l : List Hash) : List (List UInt8) :=
  (hashedPairs sha256 l).map fun p => p.1.1 ++ p.2.1

/-- every inner hash succeeds -/
def Succeeds (l : List Hash) : Prop := ∀ p ∈ hashedPairs sha256 l, fails sha256 p = false

/-- a value, unless one of these pairs fails -/
def unlessFails {α : Type} (ps : List (Hash × Hash)) (a : α) : Except CryptoError α :=
  match ps.find? (fails sha256) with
  | some p => .error (hashPair sha256 p.1 p.2).error
  | none => .ok a

variable {sha256}

theorem unlessFails_nil {α : Type} (a : α) : unlessFails sha256 [] a = .ok a := rfl

theorem unlessFails_cons {α : Type} (p : Hash × Hash) (ps : List (Hash × Hash)) (a : α) :
    unlessFails sha256 (p :: ps) a =
      if fails sha256 p then .error (hashPair sha256 p.1 p.2).error else unlessFails sha256 ps a := by
  unfold unlessFails
  rw [List.find?_cons]
  cases fails sha256 p <;> rfl

theorem unlessFails_append {α β : Type} (ps qs : List (Hash × Hash)) (a : α) (b : β) :
    ((unlessFails sha256 ps a).bind fun _ => unlessFails sha256 qs b)
      = unlessFails sha256 (ps ++ qs) b := by
  unfold unlessFails
  rw [List.find?_append]
  cases ps.find? (fails sha256) <;> rfl

theorem unlessFails_bind {α β : Type} (ps : List (Hash × Hash)) (a : α)
    (f : α → Except CryptoError β) :
    (unlessFails sha256 ps a).bind f = (unlessFails sha256 ps a).bind fun _ => f a := by
  unfold unlessFails
  cases ps.find? (fails sha256) <;> rfl

theorem unlessFails_map {α β : Type} (ps : List (Hash × Hash)) (a : α) (f : α → β) :
    ((unlessFails sha256 ps a).bind fun a => .ok (f a)) = unlessFails sha256 ps (f a) := by
  unfold unlessFails
  cases ps.find? (fails sha256) <;> rfl

theorem eq_of_unlessFails {α : Type} {ps : List (Hash × Hash)} {a b : α}
    (h : unlessFails sha256 ps a = .ok b) : a = b := by
  unfold unlessFails at h
  split at h
  · cases h
  · exact Except.ok.inj h

theorem unlessFails_of_succeeds {α : Type} {ps : List (Hash × Hash)}
    (h : ∀ p ∈ ps, fails sha256 p = false) (a : α) : unlessFails sha256 ps a = .ok a := by
  have hnone : ps.find? (fails sha256) = none :=
    List.find?_eq_none.mpr fun p hp => by rw [h p hp]; exact Bool.false_ne_true
  unfold unlessFails
  rw [hnone]

/-- **One level.** -/
theorem nextLevel_eq : ∀ l : List Hash,
    nextLevel sha256 l = unlessFails sha256 (Merkle.pairs l) (Merkle.level (pairValue sha256) l)
  | [] => by
    simp only [nextLevel, Merkle.level, Merkle.pairs, List.map_nil, unlessFails_nil]
  | [a] => by
    simp only [nextLevel, Merkle.level, Merkle.pairs, List.map_cons, List.map_nil, unlessFails_cons,
      unlessFails_nil]
    rfl
  | a :: b :: l => by
    have ih := nextLevel_eq l
    have hrest : (unlessFails sha256 (Merkle.pairs l) (Merkle.level (pairValue sha256) l)).bind _ = _ :=
      unlessFails_map _ _ (pairValue sha256 a b :: ·)
    rw [nextLevel, Merkle.level, Merkle.pairs, List.map_cons, unlessFails_cons, ih]
    exact congrArg (ite _ _) hrest

/-- **The loop**, up to the first pair that fails. -/
theorem hashLoop_eq (n : Nat) (l : List Hash) :
    hashLoop sha256 n l =
      unlessFails sha256 (Merkle.combined (pairValue sha256) n l)
        (Merkle.loop (pairValue sha256) n l) := by
  induction n generalizing l with
  | zero => rfl
  | succ n ih =>
    rw [hashLoop, Merkle.combined, Merkle.loop]
    by_cases h1 : l.length > 1
    · rw [if_pos h1, if_pos h1, if_pos h1, nextLevel_eq]
      show (unlessFails sha256 _ _).bind (hashLoop sha256 n) = _
      rw [unlessFails_bind, ih, unlessFails_append]
    · rw [if_neg h1, if_neg h1, if_neg h1, unlessFails_nil]

/-- the root, if every inner hash succeeds -/
theorem loop_hashMany {l : List Hash} (hl : l ≠ []) (hs : Succeeds sha256 l) :
    ∃ r, hashMany sha256 l = ⟨r, .success⟩ ∧ Merkle.loop (pairValue sha256) l.length l = [r] := by
  obtain ⟨r, hr, -⟩ := Merkle.loop_eq_tree (c := pairValue sha256) hl (Nat.le_refl l.length)
  refine ⟨r, ?_, hr⟩
  match l, hr, hs with
  | [h], hr, _ =>
    rw [← List.singleton_inj.mp (show [h] = [r] from hr)]
    rfl
  | a :: b :: l, hr, hs =>
    show (match hashLoop sha256 _ _ with
      | .ok l => (⟨l.headD Hash.zero, .success⟩ : CryptoResult Hash)
      | .error error => ⟨Hash.zero, error⟩) = _
    rw [hashLoop_eq, hr, unlessFails_of_succeeds (show ∀ p ∈ Merkle.combined _ _ _, _ from hs)]
    rfl

end

/-! ## the tree -/

/-- **Both Merkle loops compute one tree.**  The loops end for every list, after at most as many
rounds as there are leaves, and for a list of `n > 0` leaves they return the tree of depth `d`, the
least with `n ≤ 2 ^ d`. -/
theorem merkle_loops_tree (c : Hash → Hash → Hash) (sha256 : List UInt8 → CryptoResult Hash)
    (l : List Hash) :
    (∀ n, l.length ≤ n → (merkleLoop c n l).length ≤ 1 ∧
      ∀ l', hashLoop sha256 n l = .ok l' → l'.length ≤ 1) ∧
    (l ≠ [] → ∃ d, (∀ e, l.length ≤ 2 ^ e ↔ d ≤ e) ∧
      Merkle.tree c d l = some (merkleRoot c l) ∧
      (Succeeds sha256 l → ∃ r, hashMany sha256 l = ⟨r, .success⟩ ∧
        Merkle.tree (pairValue sha256) d l = some r)) := by
  have hlen : ∀ (c : Hash → Hash → Hash) n, l.length ≤ n → (Merkle.loop c n l).length ≤ 1 := by
    intro c n hn
    by_cases hl : l = []
    · subst hl
      cases n <;> exact Nat.zero_le 1
    · obtain ⟨r, hr, -⟩ := Merkle.loop_eq_tree (c := c) hl hn
      rw [hr, List.length_singleton]
  refine ⟨fun n hn => ⟨?_, fun l' h => ?_⟩, fun hl => ⟨Nat.clog 2 l.length, fun e => ?_,
    merkleRoot_tree hl, fun hs => ?_⟩⟩
  · rw [merkleLoop_eq]
    exact hlen c n hn
  · rw [hashLoop_eq] at h
    rw [← eq_of_unlessFails h]
    exact hlen _ n hn
  · exact (Nat.clog_le_iff_le_pow Nat.one_lt_two).symm
  · obtain ⟨r, hmany, hloop⟩ := loop_hashMany hl hs
    obtain ⟨r', hr', htree⟩ := Merkle.loop_eq_tree (c := pairValue sha256) hl (Nat.le_refl l.length)
    rw [hloop, List.singleton_inj] at hr'
    exact ⟨r, hmany, by rw [htree, hr']⟩

/-- two leaves and any hash that succeeds on them -/
theorem merkle_loops_tree_pair :
    let sha256 : List UInt8 → CryptoResult Hash := fun data => ⟨hashSha256 data, .success⟩
    let l := [Hash.zero, Bytes.fill 32 1]
    Succeeds sha256 l ∧ l ≠ [] ∧
      (merkleLoop combineHashes 2 l).length ≤ 1 ∧
      ∃ d, Merkle.tree combineHashes d l = some (merkleRoot combineHashes l) ∧
        ∃ r, hashMany sha256 l = ⟨r, .success⟩ ∧ Merkle.tree (pairValue sha256) d l = some r := by
  intro sha256 l
  have hs : Succeeds sha256 l := fun _ _ => rfl
  have hl : l ≠ [] := List.cons_ne_nil _ _
  obtain ⟨hend, htree⟩ := merkle_loops_tree combineHashes sha256 l
  obtain ⟨d, -, hroot, hmany⟩ := htree hl
  exact ⟨hs, hl, (hend 2 (Nat.le_refl 2)).1, d, hroot, hmany hs⟩

/-! ## binding -/

theorem hashPair_input_inj {p q : Hash × Hash} (h : p.1.1 ++ p.2.1 = q.1.1 ++ q.2.1) : p = q := by
  obtain ⟨hleft, hright⟩ := List.append_inj h (by rw [p.1.2, q.1.2])
  exact Prod.ext (Subtype.ext hleft) (Subtype.ext hright)

/-- **Binding.**  Two different lists of one length with the same root: among the strings that were
hashed for them are two different ones of 64 bytes with the same SHA-256. -/
theorem hashMany_binding (sha256 : List UInt8 → CryptoResult Hash) (l l' : List Hash) (hne : l ≠ l')
    (hlen : l.length = l'.length) (hs : Succeeds sha256 l) (hs' : Succeeds sha256 l')
    (hroot : (hashMany sha256 l).value = (hashMany sha256 l').value) :
    let inputs := hashInputs sha256 l ++ hashInputs sha256 l'
    ∃ x ∈ inputs, ∃ y ∈ inputs, x.length = 64 ∧ y.length = 64 ∧ x ≠ y ∧
      (sha256 x).value = (sha256 y).value := by
  intro inputs
  have hl : l ≠ [] := by
    rintro rfl
    exact hne (List.length_eq_zero_iff.mp hlen.symm).symm
  have hl' : l' ≠ [] := by
    rintro rfl
    exact hl (List.length_eq_zero_iff.mp hlen)
  obtain ⟨r, hmany, hloop⟩ := loop_hashMany hl hs
  obtain ⟨r', hmany', hloop'⟩ := loop_hashMany hl' hs'
  rw [hmany, hmany'] at hroot
  have hcol : Merkle.Collides (pairValue sha256) (hashedPairs sha256 l ++ hashedPairs sha256 l') := by
    by_contra hc
    unfold hashedPairs at hc
    rw [← hlen] at hc hloop'
    refine hne (Merkle.loop_inj hlen hc ?_)
    rw [hloop, hloop', show r = r' from hroot]
  obtain ⟨p, hp, q, hq, hpq, heq⟩ := hcol
  have hinputs : ∀ p ∈ hashedPairs sha256 l ++ hashedPairs sha256 l', p.1.1 ++ p.2.1 ∈ inputs := by
    intro p hp
    show _ ∈ (hashedPairs sha256 l).map _ ++ (hashedPairs sha256 l').map _
    rw [← List.map_append]
    exact List.mem_map_of_mem hp
  have hsize : ∀ p : Hash × Hash, (p.1.1 ++ p.2.1).length = 64 := fun p => by
    rw [List.length_append, p.1.2, p.2.2]
  exact ⟨_, hinputs p hp, _, hinputs q hq, hsize p, hsize q,
    fun h => hpq (hashPair_input_inj h), heq⟩

/-- two lists and a hash that is constant -/
theorem hashMany_binding_constant :
    let sha256 : List UInt8 → CryptoResult Hash := fun _ => ⟨Hash.zero, .success⟩
    let l := [Hash.zero, Bytes.fill 32 1]
    let l' := [Hash.zero, Bytes.fill 32 2]
    l ≠ l' ∧ l.length = l'.length ∧ Succeeds sha256 l ∧ Succeeds sha256 l' ∧
      (hashMany sha256 l).value = (hashMany sha256 l').value ∧
      ∃ x ∈ hashInputs sha256 l ++ hashInputs sha256 l',
        ∃ y ∈ hashInputs sha256 l ++ hashInputs sha256 l', x.length = 64 ∧ y.length = 64 ∧ x ≠ y ∧
          (sha256 x).value = (sha256 y).value := by
  intro sha256 l l'
  have hne : l ≠ l' := by decide
  have hs : ∀ l, Succeeds sha256 l := fun _ _ _ => rfl
  exact ⟨hne, rfl, hs l, hs l', rfl, hashMany_binding sha256 l l' hne rfl (hs l) (hs l') rfl⟩

end Crypto
end ChainForge
