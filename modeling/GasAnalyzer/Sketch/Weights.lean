import GasAnalyzer.Sketch.Landing

/-!
# What a frame's bytes weigh

A word of the encoding has no more nonzero bytes than its value has digits, and one at least unless it is zero. With
that, a frame's program is compared with the encoding of its plain ops, and its witness with its program.
-/

namespace GasAnalyzer

open Abi (Piece layout tails)

/-! ### Nonzero bytes of words -/

theorem nonzeroBytes_singleton (b : UInt8) : nonzeroBytes [b] = if b = 0 then 0 else 1 := by
  unfold nonzeroBytes zeroBytes
  by_cases zero : b = 0
  · rw [if_pos zero, zero]
    rfl
  · rw [if_neg zero, List.filter_cons_of_neg (by simpa using zero)]
    rfl

theorem nonzeroBytes_beBytes_le {width b n : Nat} (small : n < 256 ^ b) : nonzeroBytes (Abi.beBytes width n) ≤ b := by
  induction width generalizing b n with
  | zero => exact Nat.zero_le _
  | succ width ih =>
    rw [Abi.beBytes, nonzeroBytes_append, nonzeroBytes_singleton]
    cases b with
    | zero =>
      have none : n = 0 := by simpa using small
      subst none
      have high := ih (b := 0) (n := 0 / 256) (by decide)
      rw [if_pos (show UInt8.ofNat 0 = 0 from rfl)]
      exact high
    | succ b =>
      have high := ih (b := b) (n := n / 256) (by rw [Nat.div_lt_iff_lt_mul (by decide), ← Nat.pow_succ]; exact small)
      split <;> omega

theorem nonzeroBytes_beBytes_pos {width n : Nat} (some : 0 < n) (small : n < 256 ^ width) :
    0 < nonzeroBytes (Abi.beBytes width n) := by
  induction width generalizing n with
  | zero =>
    have none : n = 0 := by simpa using small
    omega
  | succ width ih =>
    rw [Abi.beBytes, nonzeroBytes_append, nonzeroBytes_singleton]
    by_cases high : 0 < n / 256
    · have above := ih high (by rw [Nat.div_lt_iff_lt_mul (by decide), ← Nat.pow_succ]; exact small)
      omega
    · have nonzero : UInt8.ofNat n ≠ 0 := by
        intro zero
        have low := congrArg UInt8.toNat zero
        rw [UInt8.toNat_ofNat'] at low
        simp only [UInt8.toNat_zero] at low
        omega
      rw [if_neg nonzero]
      omega

theorem nonzeroIn_eq (value : Nat) : nonzeroIn value = nonzeroBytes (Abi.beBytes 16 value) := by
  have none : nonzeroBytes (List.replicate 16 0) = 0 := by decide +kernel
  rw [nonzeroIn, writeU256Word, List.nil_append, nonzeroBytes_append, none, Nat.zero_add]

theorem nonzeroIn_le {value b : Nat} (small : value < 256 ^ b) : nonzeroIn value ≤ b := by
  rw [nonzeroIn_eq]
  exact nonzeroBytes_beBytes_le small

theorem nonzeroIn_pos {value : Nat} (some : 0 < value) (small : value < 2 ^ 128) : 0 < nonzeroIn value := by
  rw [nonzeroIn_eq]
  exact nonzeroBytes_beBytes_pos some small

theorem offsets_nonzero {sizes : List Nat} {offset : Nat} (some : 0 < offset) (small : offset + sizes.sum < 2 ^ 128) :
    sizes.length ≤ ((offsetsFrom sizes offset).map nonzeroIn).sum := by
  induction sizes generalizing offset with
  | nil => exact Nat.zero_le _
  | cons size rest ih =>
    rw [List.sum_cons] at small
    have first := nonzeroIn_pos some (by omega)
    have others : rest.length ≤ ((offsetsFrom rest (offset + size)).map nonzeroIn).sum := ih (by omega) (by omega)
    rw [offsetsFrom, List.map_cons, List.sum_cons, List.length_cons]
    omega

theorem length_offsetsFrom (sizes : List Nat) (offset : Nat) : (offsetsFrom sizes offset).length = sizes.length := by
  induction sizes generalizing offset with
  | nil => rfl
  | cons size rest ih => rw [offsetsFrom, List.length_cons, ih, List.length_cons]

theorem offsetsFrom_le {sizes : List Nat} {offset word : Nat} (member : word ∈ offsetsFrom sizes offset) :
    word ≤ offset + sizes.sum := by
  induction sizes generalizing offset with
  | nil => cases member
  | cons size rest ih =>
    rw [List.sum_cons]
    rcases List.mem_cons.mp member with rfl | later
    · omega
    · have above := ih later
      omega

/-! ### The bytes that stay and the words that move -/

/-- The nonzero bytes of the types and of the ops, wherever they stand. -/
def fixedBytes (updates : List StateUpdate) : Nat :=
  ((updates.map StateUpdate.type).map fun t => nonzeroIn t.code).sum + ((elements updates).map nonzeroBytes).sum

theorem nonzeroBytes_encode_fixed (updates : List StateUpdate) : nonzeroBytes (encodeStateUpdatesToAbi updates) =
    nonzeroIn 0x40 + ((movedWords updates 0).map nonzeroIn).sum + fixedBytes updates := by
  rw [nonzeroBytes_encode, fixedBytes, Nat.add_assoc]

theorem length_elements (updates : List StateUpdate) : (elements updates).length = updates.length := by
  simp [elements, payloads, encodeStateUpdatesToSol]

/-- Every offset has a nonzero byte. -/
theorem moved_nonzero {updates : List StateUpdate} (short : (encodeStateUpdatesToAbi updates).length < 2 ^ 128) :
    updates.length ≤ ((movedWords updates 0).map nonzeroIn).sum := by
  rw [length_encode, List.length_flatten] at short
  cases updates with
  | nil => exact Nat.zero_le _
  | cons u rest =>
    have each : ((elements (u :: rest)).map List.length).length ≤ ((offsetsFrom ((elements (u :: rest)).map List.length)
        (32 * ((u :: rest).length + 0))).map nonzeroIn).sum :=
      offsets_nonzero (by rw [List.length_cons]; omega) (by omega)
    rw [List.length_map, length_elements] at each
    rw [movedWords, List.map_cons, List.map_cons, List.map_cons, List.sum_cons, List.sum_cons, List.sum_cons]
    omega

/-- No word that moves exceeds the length of the encoding. -/
theorem moved_le {updates : List StateUpdate} {b : Nat} (small : (encodeStateUpdatesToAbi updates).length < 256 ^ b) :
    ((movedWords updates 0).map nonzeroIn).sum ≤ b * updates.length + 3 * b := by
  rw [length_encode, List.length_flatten] at small
  have each : ∀ n ∈ (movedWords updates 0).map nonzeroIn, n ≤ b := by
    intro n member
    obtain ⟨word, moved, rfl⟩ := List.mem_map.mp member
    refine nonzeroIn_le (Nat.lt_of_le_of_lt ?_ small)
    rcases List.mem_cons.mp moved with rfl | counts
    · omega
    · rcases List.mem_cons.mp counts with rfl | counts
      · omega
      · rcases List.mem_cons.mp counts with rfl | offset
        · omega
        · have below := offsetsFrom_le offset
          omega
  have total := List.sum_le_card_nsmul _ _ each
  have size : ((movedWords updates 0).map nonzeroIn).length = updates.length + 3 := by
    rw [List.length_map, movedWords, List.length_cons, List.length_cons, List.length_cons, length_offsetsFrom,
      List.length_map, length_elements]
  rw [size, smul_eq_mul, Nat.add_mul, Nat.mul_comm updates.length] at total
  exact total

/-! ### A frame's program against its plain ops -/

theorem elements_cons (u : StateUpdate) (rest : List StateUpdate) :
    elements (u :: rest) = encodeBytesElement u.abiEncodeSequence :: elements rest := rfl

theorem withoutNestedOps_plain {update : StateUpdate} (plain : update.isNested = false) (rest : List StateUpdate) :
    withoutNestedOps (update :: rest) = update :: withoutNestedOps rest := by
  unfold withoutNestedOps
  rw [List.filter_cons_of_pos (by rw [plain]; rfl)]

theorem withoutNestedOps_nested {update : StateUpdate} (nested : update.isNested = true) (rest : List StateUpdate) :
    withoutNestedOps (update :: rest) = withoutNestedOps rest := by
  unfold withoutNestedOps
  rw [List.filter_cons_of_neg (by rw [nested]; decide)]

theorem length_nested (n : Nested) : (encodeBytesElement (StateUpdate.nested n).abiEncodeSequence).length = 128 := by
  have size : (StateUpdate.nested n).abiEncodeSequence.length = 96 := by
    show (layout (StateUpdate.nested n).pieces).length = 96
    rw [Abi.length_layout]
    simp [StateUpdate.pieces, StateUpdate.wordPiece, Abi.headSize, Piece.headSize, tails, Piece.tail]
  rw [length_encodeBytesElement, size]
  rfl

theorem nameChildren_nested {update : StateUpdate} (nested : update.isNested = true) (rest : List StateUpdate)
    (leaves : List B256) : ∃ (n : Nested) (leaves' : List B256),
      nameChildren (update :: rest) leaves = .nested n :: nameChildren rest leaves' := by
  cases update with
  | nested n =>
    cases leaves with
    | nil => exact ⟨n, [], rfl⟩
    | cons leaf leaves => exact ⟨{ n with childLeaf := leaf }, leaves, rfl⟩
  | _ => cases nested

/-- A `NESTED` op takes a type, an offset and an element of four words. -/
theorem length_program (updates : List StateUpdate) (leaves : List B256) :
    (encodeStateUpdatesToAbi (nameChildren updates leaves)).length =
      (encodeStateUpdatesToAbi (withoutNestedOps updates)).length +
        192 * (updates.filter StateUpdate.isNested).length := by
  suffices sizes : 64 * (nameChildren updates leaves).length + (elements (nameChildren updates leaves)).flatten.length =
      64 * (withoutNestedOps updates).length + (elements (withoutNestedOps updates)).flatten.length +
        192 * (updates.filter StateUpdate.isNested).length by
    rw [length_encode, length_encode]
    omega
  induction updates generalizing leaves with
  | nil => rfl
  | cons update rest ih =>
    cases nested : update.isNested with
    | false =>
      have others := ih leaves
      rw [nameChildren_plain nested, withoutNestedOps_plain nested, List.filter_cons_of_neg (by rw [nested]; decide),
        elements_cons, elements_cons, List.flatten_cons, List.flatten_cons, List.length_append, List.length_append,
        List.length_cons, List.length_cons]
      omega
    | true =>
      obtain ⟨n, leaves', named⟩ := nameChildren_nested nested rest leaves
      have others := ih leaves'
      rw [named, withoutNestedOps_nested nested, List.filter_cons_of_pos nested, elements_cons, List.flatten_cons,
        List.length_append, length_nested, List.length_cons, List.length_cons]
      omega

theorem fixedBytes_cons (u : StateUpdate) (rest : List StateUpdate) :
    fixedBytes (u :: rest) = nonzeroIn u.type.code + nonzeroBytes (encodeBytesElement u.abiEncodeSequence) +
      fixedBytes rest := by
  unfold fixedBytes
  rw [elements_cons, List.map_cons, List.map_cons, List.map_cons, List.sum_cons, List.sum_cons]
  omega

theorem fixedBytes_append (us vs : List StateUpdate) : fixedBytes (us ++ vs) = fixedBytes us + fixedBytes vs := by
  induction us with
  | nil => rw [List.nil_append, show fixedBytes [] = 0 from rfl, Nat.zero_add]
  | cons u rest ih =>
    rw [List.cons_append, fixedBytes_cons, fixedBytes_cons, ih]
    omega

theorem plain_le (updates : List StateUpdate) (leaves : List B256) :
    (withoutNestedOps updates).length ≤ (nameChildren updates leaves).length ∧
      fixedBytes (withoutNestedOps updates) ≤ fixedBytes (nameChildren updates leaves) := by
  induction updates generalizing leaves with
  | nil => exact ⟨Nat.le_refl _, Nat.le_refl _⟩
  | cons update rest ih =>
    cases nested : update.isNested with
    | false =>
      obtain ⟨fewer, fixed⟩ := ih leaves
      rw [nameChildren_plain nested, withoutNestedOps_plain nested, fixedBytes_cons, fixedBytes_cons, List.length_cons,
        List.length_cons]
      omega
    | true =>
      obtain ⟨n, leaves', named⟩ := nameChildren_nested nested rest leaves
      obtain ⟨fewer, fixed⟩ := ih leaves'
      rw [named, withoutNestedOps_nested nested, fixedBytes_cons, List.length_cons]
      omega

/-- A program has at least the fixed nonzero bytes of its plain ops, and one for each of their offsets. -/
theorem nonzero_program {updates : List StateUpdate} {leaves : List B256}
    (short : (encodeStateUpdatesToAbi (nameChildren updates leaves)).length < 2 ^ 128) :
    1 + fixedBytes (withoutNestedOps updates) + (withoutNestedOps updates).length ≤
      nonzeroBytes (encodeStateUpdatesToAbi (nameChildren updates leaves)) := by
  have first : nonzeroIn 0x40 = 1 := by decide +kernel
  have offsets := moved_nonzero short
  obtain ⟨fewer, fixed⟩ := plain_le updates leaves
  rw [nonzeroBytes_encode_fixed, first]
  omega

/-! ### A witness against its frame's program -/

theorem nonzeroBytes_tails (pieces : List Piece) : nonzeroBytes (tails pieces) ≤ nonzeroBytes (layout pieces) := by
  unfold layout
  rw [nonzeroBytes_append]
  exact Nat.le_add_left _ _

theorem nonzeroBytes_encodeBytes (bytes : Bytes) : nonzeroBytes bytes ≤ nonzeroBytes (Abi.encodeBytes bytes) := by
  unfold Abi.encodeBytes
  rw [nonzeroBytes_append, nonzeroBytes_append]
  omega

theorem le_length_encodeBytes (bytes : Bytes) : 32 + bytes.length ≤ (Abi.encodeBytes bytes).length := by
  rw [Abi.length_encodeBytes, Abi.padLength]
  omega

/-- An array of byte strings holds them all. -/
theorem encodeBytesArray_holds (values : List Bytes) :
    32 + (values.map List.length).sum ≤ (Abi.encodeBytesArray values).length ∧
      (values.map nonzeroBytes).sum ≤ nonzeroBytes (Abi.encodeBytesArray values) := by
  have held : (values.map List.length).sum ≤ (tails (values.map fun v => .dynamic (Abi.encodeBytes v))).length ∧
      (values.map nonzeroBytes).sum ≤ nonzeroBytes (tails (values.map fun v => .dynamic (Abi.encodeBytes v))) := by
    induction values with
    | nil => exact ⟨Nat.le_refl _, Nat.le_refl _⟩
    | cons v rest ih =>
      obtain ⟨lengths, nonzeros⟩ := ih
      have length := le_length_encodeBytes v
      have nonzero := nonzeroBytes_encodeBytes v
      rw [show tails ((v :: rest).map fun v => Piece.dynamic (Abi.encodeBytes v)) =
        Abi.encodeBytes v ++ tails (rest.map fun v => .dynamic (Abi.encodeBytes v)) from rfl, List.length_append,
        nonzeroBytes_append, List.map_cons, List.map_cons, List.sum_cons, List.sum_cons]
      omega
  obtain ⟨lengths, nonzeros⟩ := held
  unfold Abi.encodeBytesArray
  refine ⟨?_, ?_⟩
  · rw [List.length_append, Abi.length_word, Abi.length_layout]
    omega
  · rw [nonzeroBytes_append]
    exact nonzeros.trans ((nonzeroBytes_tails _).trans (Nat.le_add_left _ _))

/-- A witness is its program, its children's witnesses and eight words at least. -/
theorem witness_holds (w : Witness) :
    256 + w.storageUpdates.length + (w.children.map List.length).sum ≤ w.abiEncode.length ∧
      nonzeroBytes w.storageUpdates + (w.children.map nonzeroBytes).sum ≤ nonzeroBytes w.abiEncode := by
  have parts : tails w.pieces = Abi.encodeBytes w.storageUpdates ++
      (Abi.encodeWordArray (w.proof.map Fin.val) ++ Abi.encodeBytesArray w.children) := by
    simp [Witness.pieces, tails, Piece.tail, StateUpdate.wordPiece, StateUpdate.bytesPiece]
  have heads : Abi.headSize w.pieces = 128 := by
    simp [Witness.pieces, Abi.headSize, Piece.headSize, StateUpdate.wordPiece, StateUpdate.bytesPiece]
  have program := le_length_encodeBytes w.storageUpdates
  have programBytes := nonzeroBytes_encodeBytes w.storageUpdates
  obtain ⟨children, childrenBytes⟩ := encodeBytesArray_holds w.children
  have proof : 32 ≤ (Abi.encodeWordArray (w.proof.map Fin.val)).length := by
    unfold Abi.encodeWordArray
    rw [List.length_append, Abi.length_word]
    exact Nat.le_add_right _ _
  have struct : tails [.dynamic (layout w.pieces)] = layout w.pieces := by simp [tails, Piece.tail]
  unfold Witness.abiEncode
  refine ⟨?_, ?_⟩
  · rw [Abi.length_layout, show Abi.headSize [.dynamic (layout w.pieces)] = 32 from rfl, struct, Abi.length_layout,
      heads, parts, List.length_append, List.length_append]
    omega
  · have inner := nonzeroBytes_tails w.pieces
    have outer := nonzeroBytes_tails [.dynamic (layout w.pieces)]
    rw [parts, nonzeroBytes_append, nonzeroBytes_append] at inner
    rw [struct] at outer
    omega

end GasAnalyzer
