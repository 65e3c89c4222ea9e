import GasAnalyzer.Core.EncodeTree

/-!
# Leaf preimages

What the three kinds of leaves hash. The root's preimage carries no tag: its offset word tells its two forms
apart, its left-aligned selector stands where a nested leaf has its target, and it is longer than an expiry
leaf's four words.
-/

namespace GasAnalyzer

open Abi (Piece layout encodeBytes word)
open StateUpdate (wordPiece bytesPiece)

/-- A root leaf's preimage in words, `extra` being the value when it is not zero. -/
theorem rootLeafPreimage_eq (transitionIndex : U256) (target : Address) (selector : Selector) (program : Bytes)
    (value : U256) : rootLeafPreimage transitionIndex target selector program value =
      word transitionIndex.val ++ (word target.val ++ (word (selector.val * 2 ^ 224) ++
        (if value = 0 then word 128 ++ encodeBytes program
        else word 160 ++ (word value.val ++ encodeBytes program)))) := by
  unfold rootLeafPreimage
  split
  · simp [layout, Abi.heads, Abi.tails, Abi.headSize, Piece.headSize, Piece.tail, wordPiece, bytesPiece,
      selectorPiece]
  · simp [layout, Abi.heads, Abi.tails, Abi.headSize, Piece.headSize, Piece.tail, wordPiece, bytesPiece,
      selectorPiece]

theorem nestedLeafPreimage_eq (chainId : UInt64) (target : Address) (transitionIndex : U256) (caller : Address)
    (value : U256) (calldataHash : B256) (program : Bytes) :
    nestedLeafPreimage chainId target transitionIndex caller value calldataHash program =
      word nestedLeafTag.val ++ (word chainId.toNat ++ (word target.val ++ (word transitionIndex.val ++
        (word caller.val ++ (word value.val ++ (word calldataHash.val ++ (word frameMode ++
          (word 288 ++ encodeBytes program)))))))) := by
  simp [nestedLeafPreimage, layout, Abi.heads, Abi.tails, Abi.headSize, Piece.headSize, Piece.tail, wordPiece,
    bytesPiece, natPiece]

theorem expiryLeafPreimage_eq (chainId : UInt64) (rootContract : Address) (expiryBlock : UInt64) :
    expiryLeafPreimage chainId rootContract expiryBlock =
      word expiryLeafTag.val ++ (word chainId.toNat ++ (word rootContract.val ++ word expiryBlock.toNat)) := by
  simp [expiryLeafPreimage, layout, Abi.heads, Abi.tails, Piece.tail, wordPiece, natPiece]

theorem address_small (a : Address) : a.val < 2 ^ 256 := Nat.lt_of_lt_of_le a.isLt (by decide)

theorem uint64_small (n : UInt64) : n.toNat < 2 ^ 256 := Nat.lt_of_lt_of_le n.toNat_lt (by decide)

theorem selector_small (s : Selector) : s.val * 2 ^ 224 < 2 ^ 256 := by
  have := s.isLt
  omega

theorem rootLeafPreimage_inj {index index' : U256} {target target' : Address} {selector selector' : Selector}
    {program program' : Bytes} {value value' : U256}
    (same : rootLeafPreimage index target selector program value =
      rootLeafPreimage index' target' selector' program' value') :
    index = index' ∧ target = target' ∧ selector = selector' ∧ program = program' ∧ value = value' := by
  rw [rootLeafPreimage_eq, rootLeafPreimage_eq] at same
  obtain ⟨sameIndex, same⟩ := Abi.word_append_inj index.isLt index'.isLt same
  obtain ⟨sameTarget, same⟩ := Abi.word_append_inj (address_small target) (address_small target') same
  obtain ⟨sameSelector, same⟩ := Abi.word_append_inj (selector_small selector) (selector_small selector') same
  refine ⟨Fin.ext sameIndex, Fin.ext sameTarget, Fin.ext (by omega), ?_⟩
  by_cases zero : value = 0
  · by_cases zero' : value' = 0
    · rw [if_pos zero, if_pos zero'] at same
      exact ⟨Abi.encodeBytes_inj (Abi.word_append_inj (by decide) (by decide) same).2, zero.trans zero'.symm⟩
    · rw [if_pos zero, if_neg zero'] at same
      exact absurd (Abi.word_append_inj (by decide) (by decide) same).1 (by decide)
  · by_cases zero' : value' = 0
    · rw [if_neg zero, if_pos zero'] at same
      exact absurd (Abi.word_append_inj (by decide) (by decide) same).1 (by decide)
    · rw [if_neg zero, if_neg zero'] at same
      obtain ⟨-, same⟩ := Abi.word_append_inj (by decide) (by decide) same
      obtain ⟨sameValue, same⟩ := Abi.word_append_inj value.isLt value'.isLt same
      exact ⟨Abi.encodeBytes_inj same, Fin.ext sameValue⟩

theorem nestedLeafPreimage_inj {chainId chainId' : UInt64} {target target' : Address} {index index' : U256}
    {caller caller' : Address} {value value' : U256} {calldataHash calldataHash' : B256}
    {program program' : Bytes}
    (same : nestedLeafPreimage chainId target index caller value calldataHash program =
      nestedLeafPreimage chainId' target' index' caller' value' calldataHash' program') :
    chainId = chainId' ∧ target = target' ∧ index = index' ∧ caller = caller' ∧ value = value' ∧
      calldataHash = calldataHash' ∧ program = program' := by
  rw [nestedLeafPreimage_eq, nestedLeafPreimage_eq] at same
  obtain ⟨-, same⟩ := Abi.word_append_inj nestedLeafTag.isLt nestedLeafTag.isLt same
  obtain ⟨sameChain, same⟩ := Abi.word_append_inj (uint64_small chainId) (uint64_small chainId') same
  obtain ⟨sameTarget, same⟩ := Abi.word_append_inj (address_small target) (address_small target') same
  obtain ⟨sameIndex, same⟩ := Abi.word_append_inj index.isLt index'.isLt same
  obtain ⟨sameCaller, same⟩ := Abi.word_append_inj (address_small caller) (address_small caller') same
  obtain ⟨sameValue, same⟩ := Abi.word_append_inj value.isLt value'.isLt same
  obtain ⟨sameHash, same⟩ := Abi.word_append_inj calldataHash.isLt calldataHash'.isLt same
  obtain ⟨-, same⟩ := Abi.word_append_inj (by decide) (by decide) same
  obtain ⟨-, same⟩ := Abi.word_append_inj (by decide) (by decide) same
  exact ⟨UInt64.toNat_inj.mp sameChain, Fin.ext sameTarget, Fin.ext sameIndex, Fin.ext sameCaller,
    Fin.ext sameValue, Fin.ext sameHash, Abi.encodeBytes_inj same⟩

theorem expiryLeafPreimage_inj {chainId chainId' : UInt64} {rootContract rootContract' : Address}
    {expiryBlock expiryBlock' : UInt64}
    (same : expiryLeafPreimage chainId rootContract expiryBlock =
      expiryLeafPreimage chainId' rootContract' expiryBlock') :
    chainId = chainId' ∧ rootContract = rootContract' ∧ expiryBlock = expiryBlock' := by
  rw [expiryLeafPreimage_eq, expiryLeafPreimage_eq] at same
  obtain ⟨-, same⟩ := Abi.word_append_inj expiryLeafTag.isLt expiryLeafTag.isLt same
  obtain ⟨sameChain, same⟩ := Abi.word_append_inj (uint64_small chainId) (uint64_small chainId') same
  obtain ⟨sameRoot, same⟩ := Abi.word_append_inj (address_small rootContract) (address_small rootContract') same
  have sameBlock := Abi.word_inj (uint64_small expiryBlock) (uint64_small expiryBlock') same
  exact ⟨UInt64.toNat_inj.mp sameChain, Fin.ext sameRoot, UInt64.toNat_inj.mp sameBlock⟩

/-- The third word: an address is at most `2 ^ 160`, a left-aligned selector a multiple of `2 ^ 224`. -/
theorem rootLeafPreimage_ne_nested {index index' : U256} {target target' : Address} {selector : Selector}
    {program program' : Bytes} {value value' : U256} {chainId : UInt64} {caller : Address} {calldataHash : B256}
    (nonzero : target' ≠ 0) :
    rootLeafPreimage index target selector program value ≠
      nestedLeafPreimage chainId target' index' caller value' calldataHash program' := by
  intro same
  rw [rootLeafPreimage_eq, nestedLeafPreimage_eq] at same
  obtain ⟨-, same⟩ := Abi.word_append_inj index.isLt nestedLeafTag.isLt same
  obtain ⟨-, same⟩ := Abi.word_append_inj (address_small target) (uint64_small chainId) same
  obtain ⟨third, -⟩ := Abi.word_append_inj (selector_small selector) (address_small target') same
  have small := target'.isLt
  have positive : target'.val ≠ 0 := fun zero => nonzero (Fin.ext zero)
  omega

theorem length_expiryLeafPreimage (chainId : UInt64) (rootContract : Address) (expiryBlock : UInt64) :
    (expiryLeafPreimage chainId rootContract expiryBlock).length = 128 := by
  simp [expiryLeafPreimage_eq]

theorem length_rootLeafPreimage (index : U256) (target : Address) (selector : Selector) (program : Bytes)
    (value : U256) : 160 ≤ (rootLeafPreimage index target selector program value).length := by
  rw [rootLeafPreimage_eq]
  split <;> simp [Abi.length_encodeBytes] <;> omega

theorem length_nestedLeafPreimage (chainId : UInt64) (target : Address) (index : U256) (caller : Address)
    (value : U256) (calldataHash : B256) (program : Bytes) :
    320 ≤ (nestedLeafPreimage chainId target index caller value calldataHash program).length := by
  rw [nestedLeafPreimage_eq]
  simp [Abi.length_encodeBytes]
  omega

/-- The preimages of the three kinds of leaves are injective and apart. -/
theorem leafPreimages_separated :
    (∀ index target selector program value index' target' selector' program' value',
      rootLeafPreimage index target selector program value =
        rootLeafPreimage index' target' selector' program' value' →
      index = index' ∧ target = target' ∧ selector = selector' ∧ program = program' ∧ value = value') ∧
    (∀ chainId target index caller value calldataHash program chainId' target' index' caller' value'
        calldataHash' program',
      nestedLeafPreimage chainId target index caller value calldataHash program =
        nestedLeafPreimage chainId' target' index' caller' value' calldataHash' program' →
      chainId = chainId' ∧ target = target' ∧ index = index' ∧ caller = caller' ∧ value = value' ∧
        calldataHash = calldataHash' ∧ program = program') ∧
    (∀ chainId rootContract expiryBlock chainId' rootContract' expiryBlock',
      expiryLeafPreimage chainId rootContract expiryBlock =
        expiryLeafPreimage chainId' rootContract' expiryBlock' →
      chainId = chainId' ∧ rootContract = rootContract' ∧ expiryBlock = expiryBlock') ∧
    (∀ index target selector program value chainId target' index' caller value' calldataHash program',
      target' ≠ 0 → rootLeafPreimage index target selector program value ≠
        nestedLeafPreimage chainId target' index' caller value' calldataHash program') ∧
    (∀ index target selector program value chainId rootContract expiryBlock,
      rootLeafPreimage index target selector program value ≠
        expiryLeafPreimage chainId rootContract expiryBlock) ∧
    (∀ chainId target index caller value calldataHash program chainId' rootContract expiryBlock,
      nestedLeafPreimage chainId target index caller value calldataHash program ≠
        expiryLeafPreimage chainId' rootContract expiryBlock) := by
  refine ⟨fun _ _ _ _ _ _ _ _ _ _ => rootLeafPreimage_inj, fun _ _ _ _ _ _ _ _ _ _ _ _ _ _ =>
    nestedLeafPreimage_inj, fun _ _ _ _ _ _ => expiryLeafPreimage_inj,
    fun _ _ _ _ _ _ _ _ _ _ _ _ => rootLeafPreimage_ne_nested, ?_, ?_⟩
  · intro index target selector program value chainId rootContract expiryBlock same
    have longer := length_rootLeafPreimage index target selector program value
    rw [same, length_expiryLeafPreimage] at longer
    omega
  · intro chainId target index caller value calldataHash program chainId' rootContract expiryBlock same
    have longer := length_nestedLeafPreimage chainId target index caller value calldataHash program
    rw [same, length_expiryLeafPreimage] at longer
    omega

end GasAnalyzer
