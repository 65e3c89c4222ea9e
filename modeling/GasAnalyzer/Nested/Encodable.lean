import GasAnalyzer.Nested.EncodedTree

/-!
# When a tree encodes

`encodeFrameTree` answers as soon as every frame has one `NESTED` op per child, names only later
frames, and has a transition index.
-/

namespace GasAnalyzer

/-- A frame the encoder accepts at position `i` of `n` frames. -/
structure FrameProgram.Encodable (n i : Nat) (f : FrameProgram) : Prop where
  count : (f.updates.filter StateUpdate.isNested).length = f.children.length
  children : ∀ c ∈ f.children, i < c ∧ c < n
  index : f.transitionIndex.isSome = true

theorem fillChildLeaves_answers {i : Nat} {leaves : List B256} {updates : List StateUpdate}
    {children : List Nat} (count : (updates.filter StateUpdate.isNested).length = children.length)
    (bounds : ∀ c ∈ children, i < c ∧ c < leaves.length) :
    ∃ filled, fillChildLeaves i leaves updates children = .ok filled := by
  fun_induction fillChildLeaves i leaves updates children with
  | case1 => exact ⟨[], rfl⟩
  | case2 => simp at count
  | case3 => simp at count
  | case4 n rest child children outside =>
    have := bounds child List.mem_cons_self
    omega
  | case5 n rest child children inOrder ih =>
    obtain ⟨filled, ok⟩ := ih (by simpa [List.filter_cons, StateUpdate.isNested] using count)
      (fun c member => bounds c (List.mem_cons_of_mem _ member))
    exact ⟨_, by rw [ok]; rfl⟩
  | case6 update rest children noneLeft someLeft ih =>
    have plain : update.isNested = false := by
      cases update with
      | nested n =>
        cases children with
        | nil => exact (noneLeft n rfl rfl).elim
        | cons c cs => exact (someLeft n c cs rfl rfl).elim
      | _ => rfl
    obtain ⟨filled, ok⟩ := ih (by simpa [plain] using count) bounds
    exact ⟨_, by rw [ok]; rfl⟩

theorem encodeFrame_answers (H : Hashes) (t : TreeParams) {i : Nat} {frame : FrameProgram} {s : Leaves}
    (fine : frame.Encodable s.frameLeaves.length i) :
    ∃ s', encodeFrame H t i frame s = .ok s' ∧ s'.frameLeaves.length = s.frameLeaves.length := by
  obtain ⟨filled, fill⟩ := fillChildLeaves_answers fine.count fine.children
  obtain ⟨index, indexed⟩ := Option.isSome_iff_exists.mp fine.index
  unfold encodeFrame
  simp only [fill, indexed, okOr, Outcome.ok_bind]
  exact ⟨_, rfl, by simp⟩

theorem encodeFrames_answers (H : Hashes) (t : TreeParams) {frames : List FrameProgram} {k : Nat}
    {s : Leaves} (inside : k ≤ frames.length) (leaves : s.frameLeaves.length = frames.length)
    (fine : ∀ (i : Nat) (f : FrameProgram), frames[i]? = some f → f.Encodable frames.length i) :
    ∃ s', encodeFrames H t frames k s = .ok s' := by
  induction k generalizing s with
  | zero => exact ⟨s, rfl⟩
  | succ k ih =>
    have here : frames[k]? = some frames[k] := List.getElem?_eq_getElem inside
    obtain ⟨s', encoded, length⟩ := encodeFrame_answers H t (leaves ▸ fine k frames[k] here)
    obtain ⟨s'', rest⟩ := ih (Nat.le_of_succ_le inside) (length.trans leaves)
    refine ⟨s'', ?_⟩
    unfold encodeFrames
    simp only [index, here, okOr, Outcome.ok_bind, encoded, rest]

theorem encodeWitnesses_answers (H : Hashes) {frames : List FrameProgram} {leaves : List B256}
    (programs : List Bytes) (k : Nat) (witnesses : List Bytes) (inside : k < frames.length)
    (size : leaves.length = frames.length + 1) :
    ∃ witnesses', encodeWitnesses H frames leaves programs k witnesses = .ok witnesses' := by
  induction k generalizing witnesses with
  | zero => exact ⟨witnesses, rfl⟩
  | succ k ih =>
    have here : frames[k + 1]? = some frames[k + 1] := List.getElem?_eq_getElem inside
    have proved : ∃ proof, merkleProof (hashPair H) leaves (k + 1 + 1) = .ok proof := by
      unfold merkleProof
      rw [if_neg (by omega)]
      exact ⟨_, rfl⟩
    obtain ⟨proof, proved⟩ := proved
    unfold encodeWitnesses witnessOf
    simp only [index, here, okOr, Outcome.ok_bind, proved]
    exact ih _ (by omega)

theorem encodeFrameTree_answers (H : Hashes) (t : TreeParams) {frames : List FrameProgram}
    (nonempty : frames ≠ [])
    (fine : ∀ (i : Nat) (f : FrameProgram), frames[i]? = some f → f.Encodable frames.length i) :
    ∃ tree, encodeFrameTree H frames t = .ok tree := by
  cases frames with
  | nil => exact absurd rfl nonempty
  | cons rootFrame rest =>
    obtain ⟨s, encoded⟩ := encodeFrames_answers H t (k := rest.length + 1)
      (s := ⟨List.replicate (rest.length + 1) 0, List.replicate (rest.length + 1) []⟩)
      (le_refl _) (by simp) fine
    have length := (encodeFrames_ok encoded (by simp) (by simp)).1
    simp only [List.length_replicate] at length
    have size : (expiryLeaf H t.chainId rootFrame.target t.expiryBlock :: s.frameLeaves).length =
        (rootFrame :: rest).length + 1 := by
      rw [List.length_cons, length, List.length_cons]
    obtain ⟨root, computed, -⟩ := merkleRoot_tree (hashPair H)
      (List.cons_ne_nil (expiryLeaf H t.chainId rootFrame.target t.expiryBlock) s.frameLeaves)
    obtain ⟨witnesses, carried⟩ := encodeWitnesses_answers H s.programs rest.length
      (List.replicate (rest.length + 1) []) (by simp) size
    have proves : ∀ i, i < 2 → ∃ proof, merkleProof (hashPair H)
        (expiryLeaf H t.chainId rootFrame.target t.expiryBlock :: s.frameLeaves) i = .ok proof := by
      intro i small
      unfold merkleProof
      rw [if_neg (by simp only [List.length_cons, length]; omega)]
      exact ⟨_, rfl⟩
    obtain ⟨rootProof, proved⟩ := proves 1 (by omega)
    obtain ⟨expiryProof, expires⟩ := proves 0 (by omega)
    unfold encodeFrameTree
    simp only [encoded, Outcome.ok_bind, computed, Nat.add_sub_cancel, carried, proved, expires]
    exact ⟨_, rfl⟩

end GasAnalyzer
