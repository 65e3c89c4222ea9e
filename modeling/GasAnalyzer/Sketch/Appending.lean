import GasAnalyzer.Sketch.Reporting

/-!
# The bound when ops are appended

The bound grows with the call gas and the floor. Appending an op moves the offsets of the encoding, and a moved offset
may lose nonzero bytes, which the bound prices above zero bytes. It then falls by no more than those bytes are worth
beyond the bytes the op adds.
-/

namespace GasAnalyzer

open Outcome

/-! ### The figures given -/

theorem satAdd_mono_left {a b : UInt64} (le : a ≤ b) (c : UInt64) : satAdd a c ≤ satAdd b c := by
  rw [UInt64.le_iff_toNat_le] at le ⊢
  rw [toNat_satAdd, toNat_satAdd]
  omega

theorem satAdd_mono_right (a : UInt64) {b c : UInt64} (le : b ≤ c) : satAdd a b ≤ satAdd a c := by
  rw [UInt64.le_iff_toNat_le] at le ⊢
  rw [toNat_satAdd, toNat_satAdd]
  omega

theorem foldl_applyGas_mono (updates : List StateUpdate) {gas gas' : UInt64} (le : gas ≤ gas') :
    updates.foldl (fun gas update => satAdd gas (applyGas update)) gas ≤
      updates.foldl (fun gas update => satAdd gas (applyGas update)) gas' := by
  induction updates generalizing gas gas' with
  | nil => exact le
  | cons update rest ih => exact ih (satAdd_mono_left le _)

/-- The bound grows with what is charged before the payload is looked at. -/
theorem estimate_mono {updates : List StateUpdate} {g g' f f' : UInt64}
    (le : executionGas updates g f ≤ executionGas updates g' f') :
    estimateAppliedPayloadGas updates g f ≤ estimateAppliedPayloadGas updates g' f' := by
  rw [estimateAppliedPayloadGas_eq, estimateAppliedPayloadGas_eq]
  unfold payloadGas
  dsimp only
  rw [UInt64.le_iff_toNat_le, toNat_max, toNat_max]
  have grows := UInt64.le_iff_toNat_le.mp (satAdd_mono_left (satAdd_mono_left le
    (satMul (UInt64.ofNat (encodeStateUpdatesToAbi updates).length) unboundedApplyGasPerPayloadByte))
    (satAdd (satMul (UInt64.ofNat ((encodeStateUpdatesToAbi updates).filter (· == 0)).length) calldataZeroByte)
      (satMul (UInt64.ofNat (encodeStateUpdatesToAbi updates).length -
        UInt64.ofNat ((encodeStateUpdatesToAbi updates).filter (· == 0)).length) calldataNonzeroByte)))
  omega

/-! ### The words that move -/

/-- The nonzero bytes of a word of the encoding. -/
def nonzeroIn (value : Nat) : Nat := nonzeroBytes (writeU256Word [] value)

/-- The offsets of elements of the given sizes, the first at `offset`. -/
def offsetsFrom : List Nat → Nat → List Nat
  | [], _ => []
  | size :: rest, offset => offset :: offsetsFrom rest (offset + size)

def elements (updates : List StateUpdate) : List Bytes := (payloads updates).map encodeBytesElement

/-- The words of a program's encoding whose values depend on what follows it, when `more` ops do. -/
def movedWords (updates : List StateUpdate) (more : Nat) : List Nat :=
  (0x40 + 32 * (updates.length + more + 1)) :: (updates.length + more) :: (updates.length + more) ::
    offsetsFrom ((elements updates).map List.length) (32 * (updates.length + more))

/-- The nonzero bytes those words lose when an op is appended. -/
def lostBytes (updates : List StateUpdate) : Nat :=
  ((movedWords updates 0).map nonzeroIn).sum - ((movedWords updates 1).map nonzeroIn).sum

theorem nonzeroBytes_writeU256Word (out : Bytes) (value : Nat) :
    nonzeroBytes (writeU256Word out value) = nonzeroBytes out + nonzeroIn value := by
  rw [nonzeroIn, writeU256Word, nonzeroBytes_append, writeU256Word, List.nil_append]

theorem nonzeroBytes_writeOffsets (encs : List Bytes) (out : Bytes) (offset : Nat) :
    nonzeroBytes (writeOffsets encs out offset) =
      nonzeroBytes out + ((offsetsFrom (encs.map List.length) offset).map nonzeroIn).sum := by
  induction encs generalizing out offset with
  | nil => rfl
  | cons enc rest ih =>
    rw [writeOffsets, ih, nonzeroBytes_writeU256Word, List.map_cons, offsetsFrom, List.map_cons, List.sum_cons]
    omega

theorem nonzeroBytes_flatten (encs : List Bytes) : nonzeroBytes encs.flatten = (encs.map nonzeroBytes).sum := by
  induction encs with
  | nil => rfl
  | cons enc rest ih => rw [List.flatten_cons, nonzeroBytes_append, ih, List.map_cons, List.sum_cons]

theorem nonzeroBytes_types (types : List StateUpdateType) (out : Bytes) :
    nonzeroBytes (types.foldl (fun out t => writeU256Word out t.code) out) =
      nonzeroBytes out + (types.map fun t => nonzeroIn t.code).sum := by
  induction types generalizing out with
  | nil => rfl
  | cons t rest ih =>
    rw [List.foldl_cons, ih, nonzeroBytes_writeU256Word, List.map_cons, List.sum_cons]
    omega

theorem length_types (types : List StateUpdateType) (out : Bytes) :
    (types.foldl (fun out t => writeU256Word out t.code) out).length = out.length + 32 * types.length := by
  induction types generalizing out with
  | nil => rfl
  | cons t rest ih =>
    rw [List.foldl_cons, ih, length_writeU256Word, List.length_cons]
    omega

theorem length_encode (updates : List StateUpdate) :
    (encodeStateUpdatesToAbi updates).length = 128 + 64 * updates.length + (elements updates).flatten.length := by
  show (writeU256Word (writeU256Word [] 0x40) (0x40 + _) ++ _ ++ encodeBytesArray (payloads updates)).length = _
  rw [List.length_append, List.length_append, length_encodeBytesArray, length_types, length_writeU256Word,
    length_writeU256Word, length_writeU256Word, List.length_nil, List.length_map,
    show (payloads updates).length = updates.length from List.length_map _]
  show _ = 128 + 64 * updates.length + ((payloads updates).map encodeBytesElement).flatten.length
  omega

/-- The nonzero bytes of the encoding: the words that move, and what does not. -/
theorem nonzeroBytes_encode (updates : List StateUpdate) : nonzeroBytes (encodeStateUpdatesToAbi updates) =
    nonzeroIn 0x40 + ((movedWords updates 0).map nonzeroIn).sum +
      ((updates.map StateUpdate.type).map fun t => nonzeroIn t.code).sum + ((elements updates).map nonzeroBytes).sum := by
  have none : nonzeroBytes [] = 0 := rfl
  have size : ((updates.map StateUpdate.type).foldl (fun out t => writeU256Word out t.code)
      (writeU256Word [] (updates.map StateUpdate.type).length)).length = 32 * (updates.length + 1) := by
    rw [length_types, length_writeU256Word, List.length_map, List.length_nil]
    omega
  have datas : nonzeroBytes (encodeBytesArray (payloads updates)) = nonzeroIn updates.length +
      ((offsetsFrom ((elements updates).map List.length) (32 * updates.length)).map nonzeroIn).sum +
        ((elements updates).map nonzeroBytes).sum := by
    unfold encodeBytesArray
    dsimp only
    rw [foldl_append_eq, nonzeroBytes_append, nonzeroBytes_writeOffsets, nonzeroBytes_writeU256Word,
      nonzeroBytes_flatten, none, Nat.zero_add, show (payloads updates).length = updates.length from List.length_map _]
    rfl
  show nonzeroBytes (writeU256Word (writeU256Word [] 0x40) (0x40 + _) ++ _ ++ encodeBytesArray (payloads updates)) = _
  rw [nonzeroBytes_append, nonzeroBytes_append, datas, nonzeroBytes_writeU256Word, nonzeroBytes_writeU256Word,
    nonzeroBytes_types, nonzeroBytes_writeU256Word, size, none, movedWords, List.map_cons, List.map_cons, List.map_cons,
    List.sum_cons, List.sum_cons, List.sum_cons, List.length_map]
  simp only [Nat.add_zero]
  omega

/-! ### Appending -/

theorem elements_append (updates : List StateUpdate) (u : StateUpdate) :
    elements (updates ++ [u]) = elements updates ++ [encodeBytesElement u.abiEncodeSequence] := by
  simp [elements, payloads, encodeStateUpdatesToSol]

theorem offsetsFrom_append (xs ys : List Nat) (offset : Nat) :
    offsetsFrom (xs ++ ys) offset = offsetsFrom xs offset ++ offsetsFrom ys (offset + xs.sum) := by
  induction xs generalizing offset with
  | nil => rfl
  | cons x rest ih => rw [List.cons_append, offsetsFrom, ih, offsetsFrom, List.sum_cons, Nat.add_assoc]; rfl

theorem movedWords_append (updates : List StateUpdate) (u : StateUpdate) :
    movedWords (updates ++ [u]) 0 = movedWords updates 1 ++
      [32 * (updates.length + 1) + ((elements updates).map List.length).sum] := by
  unfold movedWords
  rw [elements_append, List.map_append, offsetsFrom_append, List.length_append, List.length_singleton]
  rfl

/-- Appending an op loses the moved words' nonzero bytes only, and the op's bytes are added. -/
theorem appended_bytes (updates : List StateUpdate) (u : StateUpdate) :
    (encodeStateUpdatesToAbi (updates ++ [u])).length =
        (encodeStateUpdatesToAbi updates).length + 64 + (encodeBytesElement u.abiEncodeSequence).length ∧
      nonzeroBytes (encodeStateUpdatesToAbi updates) ≤
        nonzeroBytes (encodeStateUpdatesToAbi (updates ++ [u])) + lostBytes updates := by
  constructor
  · rw [length_encode, length_encode, elements_append, List.flatten_append, List.length_append, List.length_append,
      List.length_singleton, List.flatten_singleton]
    omega
  · rw [nonzeroBytes_encode, nonzeroBytes_encode, movedWords_append, elements_append]
    simp only [List.map_append, List.sum_append]
    unfold lostBytes
    omega

/-- With more execution and more bytes, a price falls by no more than its lost nonzero bytes are worth. -/
theorem price_appended {execution execution' lost added : Nat} {payload payload' : Bytes}
    (costs : execution ≤ execution') (longer : payload'.length = payload.length + added)
    (keeps : nonzeroBytes payload ≤ nonzeroBytes payload' + lost) :
    price execution payload ≤ price execution' payload' + (30 * lost - 10 * added) := by
  have few := zeroBytes_le payload
  have few' := zeroBytes_le payload'
  unfold price
  unfold nonzeroBytes at keeps ⊢
  omega

theorem executionGas_append (updates : List StateUpdate) (u : StateUpdate) (g f : UInt64) :
    executionGas updates g f ≤ executionGas (updates ++ [u]) g f := by
  unfold executionGas
  rw [List.foldl_append]
  exact le_satAdd_left _ _

theorem countUpdates_error {createsReplayable : Bool} {updates : List StateUpdate} {index : Nat} {cost : UnboundedCost}
    {violation : UnboundedCostViolation} (refused : countUpdates createsReplayable updates index cost = .error violation) :
    ∃ refused, violation = .createNotAllowed refused := by
  induction updates generalizing index cost with
  | nil => cases refused
  | cons update rest ih =>
    rcases bind_error refused with first | ⟨next, -, later⟩
    · cases update with
      | create value code | create2 salt value code =>
        simp only [UnboundedCost.count] at first
        split at first
        · cases first
        · exact ⟨index, (Except.error.inj first).symm⟩
      | store s =>
        simp only [UnboundedCost.count] at first
        split at first <;> cases first
      | _ => cases first
    · exact ih later

theorem validate_tooExpensive {updates : List StateUpdate} {replayedGas signatureFloor budget budget' estimated : UInt64}
    {createsReplayable : Bool} {stores : Nat}
    (refused : validate updates replayedGas createsReplayable signatureFloor budget =
      .error (.payloadTooExpensive estimated budget' stores)) :
    budget < estimateAppliedPayloadGas updates replayedGas signatureFloor := by
  unfold validate at refused
  rcases bind_error refused with counted | ⟨counts, -, priced⟩
  · obtain ⟨index, same⟩ := countUpdates_error counted
    cases same
  · dsimp only at priced
    split at priced
    · assumption
    · cases priced

/-- The bound grows with the call gas and the floor. An op appended takes from it at most what the nonzero bytes of the
moved words are worth beyond the bytes added; up to a third as many lost bytes as added ones, a program priced out
stays so. -/
theorem bound_appended (updates : List StateUpdate) (u : StateUpdate) (g f : UInt64) :
    (∀ g', g ≤ g' → estimateAppliedPayloadGas updates g f ≤ estimateAppliedPayloadGas updates g' f) ∧
    (∀ f', f ≤ f' → estimateAppliedPayloadGas updates g f ≤ estimateAppliedPayloadGas updates g f') ∧
    ((encodeStateUpdatesToAbi (updates ++ [u])).length < 2 ^ 63 →
      (estimateAppliedPayloadGas updates g f).toNat ≤ (estimateAppliedPayloadGas (updates ++ [u]) g f).toNat +
          (30 * lostBytes updates - 10 * (64 + (encodeBytesElement u.abiEncodeSequence).length)) ∧
        (3 * lostBytes updates ≤ 64 + (encodeBytesElement u.abiEncodeSequence).length →
          estimateAppliedPayloadGas updates g f ≤ estimateAppliedPayloadGas (updates ++ [u]) g f ∧
          ∀ createsReplayable budget budget' estimated stores,
            validate updates g createsReplayable f budget = .error (.payloadTooExpensive estimated budget' stores) →
            ∃ violation, validate (updates ++ [u]) g createsReplayable f budget = .error violation)) := by
  refine ⟨?_, ?_, ?_⟩
  · intro g' le
    exact estimate_mono (foldl_applyGas_mono updates (satAdd_mono_left (satAdd_mono_right _ le) _))
  · intro f' le
    exact estimate_mono (foldl_applyGas_mono updates (satAdd_mono_left (satAdd_mono_left (satAdd_mono_right _ le) _) _))
  · intro short
    obtain ⟨longer, keeps⟩ := appended_bytes updates u
    have falls := price_appended (UInt64.le_iff_toNat_le.mp (executionGas_append updates u g f))
      (show _ = _ + (64 + (encodeBytesElement u.abiEncodeSequence).length) by omega) keeps
    have bound : (estimateAppliedPayloadGas updates g f).toNat ≤
        (estimateAppliedPayloadGas (updates ++ [u]) g f).toNat +
          (30 * lostBytes updates - 10 * (64 + (encodeBytesElement u.abiEncodeSequence).length)) := by
      rw [estimateAppliedPayloadGas_eq, estimateAppliedPayloadGas_eq, payloadGas_toNat (by omega),
        payloadGas_toNat short]
      omega
    refine ⟨bound, ?_⟩
    intro few
    have grows : estimateAppliedPayloadGas updates g f ≤ estimateAppliedPayloadGas (updates ++ [u]) g f := by
      rw [UInt64.le_iff_toNat_le]
      omega
    refine ⟨grows, ?_⟩
    intro createsReplayable budget budget' estimated stores refused
    cases answer : validate (updates ++ [u]) g createsReplayable f budget with
    | error violation => exact ⟨violation, rfl⟩
    | ok cost =>
      have dear := UInt64.lt_of_lt_of_le (validate_tooExpensive refused) grows
      exact absurd (validate_ok answer).1 (UInt64.not_le.mpr dear)

/-- A program of one store, and a log after it. -/
theorem bound_appended_log :
    estimateAppliedPayloadGas [.store ⟨1, 2⟩] 0 0 ≤ estimateAppliedPayloadGas [.store ⟨1, 2⟩] 5 0 ∧
      estimateAppliedPayloadGas [.store ⟨1, 2⟩] 0 0 ≤ estimateAppliedPayloadGas [.store ⟨1, 2⟩] 0 5 ∧
      estimateAppliedPayloadGas [.store ⟨1, 2⟩] 0 0 ≤ estimateAppliedPayloadGas ([.store ⟨1, 2⟩] ++ [.log0 [7]]) 0 0 ∧
      ∃ violation, validate ([.store ⟨1, 2⟩] ++ [.log0 [7]]) 0 false 0 30000 = .error violation := by
  have dear : validate [.store ⟨1, 2⟩] 0 false 0 30000 = .error (.payloadTooExpensive 50380 30000 1) := by decide +kernel
  obtain ⟨calls, floors, appended⟩ := bound_appended [.store ⟨1, 2⟩] (.log0 [7]) 0 0
  obtain ⟨-, keeps⟩ := appended (by decide +kernel)
  obtain ⟨grows, rejected⟩ := keeps (by decide +kernel)
  exact ⟨calls 5 (by decide), floors 5 (by decide), grows, rejected false 30000 30000 50380 1 dear⟩

/-- A call with 352 nonzero bytes of calldata. -/
def denseCall : StateUpdate := .call ⟨7, 0, List.replicate 352 0xff⟩

theorem denseCall_element : (encodeBytesElement denseCall.abiEncodeSequence).length = 512 ∧
    nonzeroBytes (encodeBytesElement denseCall.abiEncodeSequence) = 358 := by decide +kernel

theorem elements_dense (n : Nat) :
    elements (List.replicate n denseCall) = List.replicate n (encodeBytesElement denseCall.abiEncodeSequence) := by
  simp [elements, payloads, encodeStateUpdatesToSol]

theorem movedWords_dense (n more : Nat) : movedWords (List.replicate n denseCall) more =
    (0x40 + 32 * (n + more + 1)) :: (n + more) :: (n + more) ::
      offsetsFrom (List.replicate n 512) (32 * (n + more)) := by
  rw [movedWords, elements_dense, List.map_replicate, denseCall_element.1, List.length_replicate]

theorem dense_bytes : (encodeStateUpdatesToAbi (List.replicate 63 denseCall)).length = 36416 ∧
    nonzeroBytes (encodeStateUpdatesToAbi (List.replicate 63 denseCall)) = 22748 := by
  constructor
  · rw [length_encode, elements_dense, List.length_flatten, List.map_replicate, denseCall_element.1,
      List.sum_replicate_nat, List.length_replicate]
  · have types : (((List.replicate 63 denseCall).map StateUpdate.type).map fun t => nonzeroIn t.code).sum = 63 := by
      decide +kernel
    have moved : ((movedWords (List.replicate 63 denseCall) 0).map nonzeroIn).sum = 130 := by
      rw [movedWords_dense]
      decide +kernel
    have first : nonzeroIn 0x40 = 1 := by decide +kernel
    rw [nonzeroBytes_encode, types, moved, first, elements_dense, List.map_replicate, denseCall_element.2,
      List.sum_replicate_nat]

/-- Every call's offset ends in `0xe0` and moves to a multiple of 256. -/
theorem dense_bytes_stored : (encodeStateUpdatesToAbi (List.replicate 63 denseCall ++ [.store ⟨0, 0⟩])).length = 36576 ∧
    nonzeroBytes (encodeStateUpdatesToAbi (List.replicate 63 denseCall ++ [.store ⟨0, 0⟩])) = 22687 := by
  have element : (encodeBytesElement (StateUpdate.store ⟨0, 0⟩).abiEncodeSequence).length = 96 ∧
      nonzeroBytes (encodeBytesElement (StateUpdate.store ⟨0, 0⟩).abiEncodeSequence) = 1 := by decide +kernel
  constructor
  · rw [(appended_bytes _ _).1, dense_bytes.1, element.1]
  · have types : (((List.replicate 63 denseCall ++ [StateUpdate.store ⟨0, 0⟩]).map StateUpdate.type).map
        fun t => nonzeroIn t.code).sum = 63 := by
      decide +kernel
    have moved : ((movedWords (List.replicate 63 denseCall ++ [.store ⟨0, 0⟩]) 0).map nonzeroIn).sum = 68 := by
      rw [movedWords_append, movedWords_dense, elements_dense, List.map_replicate, denseCall_element.1,
        List.sum_replicate_nat, List.length_replicate]
      decide +kernel
    have first : nonzeroIn 0x40 = 1 := by decide +kernel
    rw [nonzeroBytes_encode, types, moved, first, elements_append, List.map_append, List.sum_append, elements_dense,
      List.map_replicate, denseCall_element.2, List.sum_replicate_nat, List.map_singleton, List.sum_singleton, element.2]

theorem estimate_toNat {updates : List StateUpdate} {g f : UInt64} {execution length nonzero : Nat}
    (costs : (executionGas updates g f).toNat = execution) (short : length < 2 ^ 63)
    (bytes : (encodeStateUpdatesToAbi updates).length = length ∧
      nonzeroBytes (encodeStateUpdatesToAbi updates) = nonzero) :
    (estimateAppliedPayloadGas updates g f).toNat =
      min (2 ^ 64 - 1) (max (execution + 18 * length + 12 * nonzero) (21000 + 10 * length + 30 * nonzero)) := by
  obtain ⟨rfl, rfl⟩ := bytes
  have few := zeroBytes_le (encodeStateUpdatesToAbi updates)
  rw [estimateAppliedPayloadGas_eq, payloadGas_toNat short, price, costs]
  unfold nonzeroBytes
  omega

/-- The store costs less than the offsets it moves save, and the program is let through with it. -/
theorem bound_appended_falls :
    estimateAppliedPayloadGas (List.replicate 63 denseCall ++ [.store ⟨0, 0⟩]) 0 0 <
        estimateAppliedPayloadGas (List.replicate 63 denseCall) 0 0 ∧
      (∃ violation, validate (List.replicate 63 denseCall) 0 false 0 1067500 = .error violation) ∧
      ∃ cost, validate (List.replicate 63 denseCall ++ [.store ⟨0, 0⟩]) 0 false 0 1067500 = .ok cost := by
  have before : (estimateAppliedPayloadGas (List.replicate 63 denseCall) 0 0).toNat = 1067600 :=
    (estimate_toNat (show _ = 23000 by decide +kernel) (by decide) dense_bytes).trans (by decide)
  have after : (estimateAppliedPayloadGas (List.replicate 63 denseCall ++ [.store ⟨0, 0⟩]) 0 0).toNat = 1067370 :=
    (estimate_toNat (show _ = 45100 by decide +kernel) (by decide) dense_bytes_stored).trans (by decide)
  have budget : (1067500 : UInt64).toNat = 1067500 := rfl
  refine ⟨by rw [UInt64.lt_iff_toNat_lt]; omega, ?_, ?_⟩
  · cases answer : validate (List.replicate 63 denseCall) 0 false 0 1067500 with
    | error violation => exact ⟨violation, rfl⟩
    | ok cost =>
      have fits := UInt64.le_iff_toNat_le.mp (validate_ok answer).1
      omega
  · have counted : (countUpdates false (List.replicate 63 denseCall ++ [.store ⟨0, 0⟩]) 0 {}).toOption.isSome = true := by
      decide +kernel
    obtain ⟨cost, counts⟩ := isSome_ok counted
    unfold validate
    rw [counts, ok_bind, if_neg (by rw [UInt64.lt_iff_toNat_lt]; dsimp only; omega)]
    exact ⟨_, rfl⟩

end GasAnalyzer
