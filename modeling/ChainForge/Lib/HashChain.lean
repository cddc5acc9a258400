import Mathlib.Data.List.Chain
import Mathlib.Data.List.Induction

/-!
# Chains linked by hashes

A list of blocks, the oldest first, in which each block carries the hash of the one before it.  The
blocks are of any type; `key` is what the hash is computed from, the parent's hash included.

* `isChain_replace_iff`   a block in the middle can be exchanged when its neighbours do not see it;
* `agree_or_differ`       **the last hash binds the whole chain**, up to a pair of blocks with
                          different keys and one hash.
-/

set_option linter.unusedSectionVars false

namespace HashChain

section
variable {β η κ : Type*} (hash parent : β → η)

/-- the newer block names the older one -/
def Names (b c : β) : Prop := parent c = hash b

instance decidableNames [DecidableEq η] (b c : β) : Decidable (Names hash parent b c) :=
  inferInstanceAs (Decidable (parent c = hash b))

variable {hash parent}

theorem isChain_concat_concat {l : List β} {b c : β} :
    (l ++ [b] ++ [c]).IsChain (Names hash parent) ↔
      (l ++ [b]).IsChain (Names hash parent) ∧ parent c = hash b := by
  rw [List.isChain_append]
  simp [Names]

/-- **Exchanging one block**: the older neighbour has to be named as before, the newer one to name
the same hash. -/
theorem isChain_replace_iff {l r : List β} {b c : β}
    (h : (l ++ b :: r).IsChain (Names hash parent)) :
    (l ++ c :: r).IsChain (Names hash parent) ↔
      (l ≠ [] → parent c = parent b) ∧ (r ≠ [] → hash c = hash b) := by
  rw [List.isChain_split, List.isChain_cons] at h ⊢
  obtain ⟨hl, hnext, hr⟩ := h
  constructor
  · rintro ⟨hl', hnext', -⟩
    constructor
    · intro hne
      obtain ⟨l, a, rfl⟩ := List.eq_nil_or_concat' l |>.resolve_left hne
      rw [isChain_concat_concat] at hl hl'
      rw [hl.2, hl'.2]
    · intro hne
      obtain ⟨d, r, rfl⟩ := List.exists_cons_of_ne_nil hne
      exact (hnext' d rfl).symm.trans (hnext d rfl)
  · rintro ⟨hparent, hhash⟩
    refine ⟨?_, ?_, hr⟩
    · rcases List.eq_nil_or_concat' l with rfl | ⟨l, a, rfl⟩
      · exact List.isChain_singleton c
      · rw [isChain_concat_concat] at hl ⊢
        exact ⟨hl.1, (hparent (by simp)).trans hl.2⟩
    · intro d hd
      have hne : r ≠ [] := by
        rintro rfl
        cases hd
      exact (hnext d hd).trans (hhash hne).symm

/-- **Binding**: two chains of one length whose last hashes agree have equal keys throughout, or at
the last place where the keys differ two blocks share a hash. -/
theorem agree_or_differ {key : β → κ} (hkey : ∀ b c, key b = key c → parent b = parent c)
    {l l' : List β} (hl : l.IsChain (Names hash parent)) (hl' : l'.IsChain (Names hash parent))
    (hlen : l.length = l'.length) (htip : l.getLast?.map hash = l'.getLast?.map hash) :
    l.map key = l'.map key ∨
      ∃ p b r p' b' r', l = p ++ b :: r ∧ l' = p' ++ b' :: r' ∧ p.length = p'.length ∧
        r.map key = r'.map key ∧ key b ≠ key b' ∧ hash b = hash b' := by
  induction l using List.reverseRecOn generalizing l' with
  | nil =>
    rw [List.eq_nil_of_length_eq_zero hlen.symm]
    exact .inl rfl
  | append_singleton l b ih =>
    -- the newest blocks share a hash; if they have one key, the ones before them share a hash too
    obtain rfl | ⟨l', b', rfl⟩ := List.eq_nil_or_concat' l'
    · simp at hlen
    · have hlen1 : l.length = l'.length := by simpa using hlen
      have hhash : hash b = hash b' := by simpa using htip
      by_cases hk : key b = key b'
      · have htip1 : l.getLast?.map hash = l'.getLast?.map hash := by
          obtain rfl | ⟨m, a, rfl⟩ := List.eq_nil_or_concat' l
          · rw [List.eq_nil_of_length_eq_zero hlen1.symm]
          · obtain rfl | ⟨m', a', rfl⟩ := List.eq_nil_or_concat' l'
            · simp at hlen1
            · rw [isChain_concat_concat] at hl hl'
              simp [← hl.2, ← hl'.2, hkey b b' hk]
        rcases ih (hl.left_of_append) (hl'.left_of_append) hlen1 htip1 with
          heq | ⟨p, d, r, p', d', r', rfl, rfl, hp, hr, hne, hd⟩
        · left
          rw [List.map_append, List.map_append, heq, List.map_singleton, List.map_singleton, hk]
        · right
          refine ⟨p, d, r ++ [b], p', d', r' ++ [b'], by simp, by simp, hp, ?_, hne, hd⟩
          rw [List.map_append, List.map_append, hr, List.map_singleton, List.map_singleton, hk]
      · exact .inr ⟨l, b, [], l', b', [], rfl, rfl, hlen1, rfl, hk, hhash⟩

end

end HashChain
