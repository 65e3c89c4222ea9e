import GasAnalyzer.Core.EncodeTree

/-!
# The signed Merkle tree

`merkleRoot` answers on every nonempty list with the hash of a binary tree over it, so the library's
tree results give completeness of `merkleProof` and soundness of a proof fold.
-/

namespace GasAnalyzer

open Merkle (CollisionFree Fresh foldPairs)

theorem hashPair_comm (H : Hashes) (a b : B256) : hashPair H a b = hashPair H b a := by
  unfold hashPair
  rcases lt_trichotomy a b with lt | same | gt
  · simp [lt, not_lt_of_gt lt]
  · rw [same]
  · simp [gt, not_lt_of_gt gt]

variable {α : Type} (pair : α → α → α)

/-- The pairs `merkleRoot` hashes on `leaves`. -/
def hashedPairs (leaves : List α) : List (α × α) := Merkle.climbPairs pair leaves.length leaves

theorem merkleRoot_tree {leaves : List α} (ne : leaves ≠ []) :
    ∃ t : Merkle.Tree α, merkleRoot pair leaves = .ok (t.hash pair) ∧ t.leaves = leaves ∧
      ∀ p ∈ t.pairs pair, p ∈ hashedPairs pair leaves := by
  obtain ⟨t, climbed, same, pairs⟩ := Merkle.exists_tree pair ne
  refine ⟨t, ?_, same, pairs⟩
  have nonempty : leaves.isEmpty = false := by simpa using ne
  simp [merkleRoot, nonempty, climbed, index, okOr]

theorem merkleProof_folds {leaves proof : List α} {root x : α} {i : Nat}
    (comm : ∀ a b, pair a b = pair b a) (computed : merkleRoot pair leaves = .ok root)
    (leaf : leaves[i]? = some x) (proved : merkleProof pair leaves i = .ok proof) :
    proof.foldl pair x = root := by
  have climbed := Merkle.foldl_siblings pair comm (le_refl leaves.length) leaf
  unfold merkleProof at proved
  split at proved
  · cases proved
  · unfold merkleRoot at computed
    split at computed
    · cases computed
    · rw [climbed] at computed
      simp only [index, List.getElem?_cons_zero, Outcome.okOr_ok, Option.some.injEq] at computed
      rw [← Except.ok.inj proved, computed]

/-- On a nonempty list `merkleRoot` answers. As long as the pairs hashed on both sides do not collide
and no leaf is one of their hashes, a value that folds to the root is a leaf, and a list with the
same root is a permutation of the leaves. -/
theorem merkleRoot_binds_leaves (leaves : List α) (ne : leaves ≠ []) :
    ∃ root, merkleRoot pair leaves = .ok root ∧
      (∀ (x : α) (proof : List α),
        CollisionFree pair (hashedPairs pair leaves ++ foldPairs pair x proof) →
        (∀ l ∈ x :: leaves, Fresh pair (hashedPairs pair leaves ++ foldPairs pair x proof) l) →
        proof.foldl pair x = root → x ∈ leaves) ∧
      (∀ others : List α, others ≠ [] →
        CollisionFree pair (hashedPairs pair leaves ++ hashedPairs pair others) →
        (∀ l ∈ leaves ++ others, Fresh pair (hashedPairs pair leaves ++ hashedPairs pair others) l) →
        merkleRoot pair others = .ok root → leaves.Perm others) := by
  obtain ⟨t, computed, same, pairs⟩ := merkleRoot_tree pair ne
  refine ⟨_, computed, ?_, ?_⟩
  · intro x proof free fresh reach
    rw [← same]
    refine Merkle.Tree.mem_leaves_of_fold pair free ?_ ?_ ?_ (fresh x List.mem_cons_self) reach
    · exact fun p member => List.mem_append_left _ (pairs p member)
    · exact fun p member => List.mem_append_right _ member
    · rw [same]
      exact fun l member => fresh l (List.mem_cons_of_mem _ member)
  · intro others ne' free fresh computed'
    obtain ⟨u, root', same', pairs'⟩ := merkleRoot_tree pair ne'
    have roots : t.hash pair = u.hash pair := (Except.ok.inj (root'.symm.trans computed')).symm
    have perm : t.leaves.Perm u.leaves := by
      refine Merkle.Tree.perm_of_hash_eq pair free ?_ ?_ ?_ ?_ roots
      · exact fun p member => List.mem_append_left _ (pairs p member)
      · exact fun p member => List.mem_append_right _ (pairs' p member)
      · rw [same]
        exact fun l member => fresh l (List.mem_append_left _ member)
      · rw [same']
        exact fun l member => fresh l (List.mem_append_right _ member)
    rwa [same, same'] at perm

/-- Three leaves under a pairing that numbers every pair apart from the leaves. -/
theorem merkleRoot_binds_three_leaves :
    ∃ root, merkleRoot (fun a b : Nat => 100 * (a + b) + a * b) [1, 2, 3] = .ok root ∧
      [2, 3].foldl (fun a b : Nat => 100 * (a + b) + a * b) 1 = root ∧ 1 ∈ [1, 2, 3] ∧
      [1, 2, 3].Perm [2, 1, 3] := by
  obtain ⟨root, computed, sound, perm⟩ :=
    merkleRoot_binds_leaves (fun a b : Nat => 100 * (a + b) + a * b) [1, 2, 3] (by decide)
  have value : root = 31406 := (Except.ok.inj computed).symm
  subst value
  refine ⟨_, computed, by decide, sound 1 [2, 3] ?_ ?_ (by decide),
    perm [2, 1, 3] (by decide) ?_ ?_ (by rfl)⟩
  all_goals first | (unfold CollisionFree; decide) | (unfold Fresh; decide)

/-- Every leaf of a nonempty list has a proof, which folds to the root and has at most one word a level. -/
theorem merkleProof_complete (H : Hashes) (leaves : List B256) (i : Nat) (inside : i < leaves.length) :
    ∃ root proof, merkleRoot (hashPair H) leaves = .ok root ∧ merkleProof (hashPair H) leaves i = .ok proof ∧
      proof.foldl (hashPair H) leaves[i] = root ∧ proof.length ≤ Nat.clog 2 leaves.length := by
  have nonempty : leaves ≠ [] := List.ne_nil_of_length_pos (Nat.zero_lt_of_lt inside)
  obtain ⟨t, computed, -, -⟩ := merkleRoot_tree (hashPair H) nonempty
  have proved : merkleProof (hashPair H) leaves i = .ok (Merkle.siblings (hashPair H) leaves.length leaves i) := by
    rw [merkleProof, if_neg (Nat.not_le_of_lt inside)]
  refine ⟨_, _, computed, proved, ?_, Merkle.length_siblings_le (hashPair H) leaves.length leaves i⟩
  exact merkleProof_folds (hashPair H) (hashPair_comm H) computed (List.getElem?_eq_getElem inside) proved

/-- The last of three leaves is promoted once: its proof is one word. -/
theorem merkleProof_complete_three : ∃ root proof,
    merkleRoot (hashPair ⟨fun _ => 0, fun _ => 0⟩) [1, 2, 3] = .ok root ∧
      merkleProof (hashPair ⟨fun _ => 0, fun _ => 0⟩) [1, 2, 3] 2 = .ok proof ∧
      proof.foldl (hashPair ⟨fun _ => 0, fun _ => 0⟩) 3 = root ∧ proof.length ≤ Nat.clog 2 3 :=
  merkleProof_complete ⟨fun _ => 0, fun _ => 0⟩ [1, 2, 3] 2 (by decide)

end GasAnalyzer
