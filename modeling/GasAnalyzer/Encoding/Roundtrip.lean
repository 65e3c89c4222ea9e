import GasAnalyzer.Core.Encoding

/-!
# The program encoder

The hand-written encoder agrees with the standard ABI layout, and decoding its output gives the
program back. A Rust `Vec` holds at most `isize::MAX` bytes, so the results are about programs whose
encoding is shorter than `2 ^ 63` bytes: no length or offset then wraps.
-/

namespace GasAnalyzer

open Abi (Piece layout readWord readDynamic headSize)

/-! ### Decoding -/

/-- A word that must fit in `width` bits. -/
def readFin (width : Nat) (buffer : Bytes) (position : Nat) : Option (Fin (2 ^ width)) := do
  let n ← readWord buffer position
  if fits : n < 2 ^ width then some ⟨n, fits⟩ else none

def readBytes (buffer : Bytes) (position : Nat) : Option Bytes :=
  readDynamic Abi.decodeBytes buffer position

/-- Decodes a payload by its type code, as the handler contract does. -/
def decodeUpdate (code : Nat) (payload : Bytes) : Option StateUpdate :=
  match code with
  | 0 => do some (.store ⟨← readFin 256 payload 0, ← readFin 256 payload 32⟩)
  | 1 => do
    some (.call ⟨← readFin 160 payload 0, ← readFin 256 payload 32, ← readBytes payload 64⟩)
  | 2 => do some (.log0 (← readBytes payload 0))
  | 3 => do some (.log1 (← readBytes payload 0) (← readFin 256 payload 32))
  | 4 => do
    some (.log2 (← readBytes payload 0) (← readFin 256 payload 32) (← readFin 256 payload 64))
  | 5 => do
    some (.log3 (← readBytes payload 0) (← readFin 256 payload 32) (← readFin 256 payload 64)
      (← readFin 256 payload 96))
  | 6 => do
    some (.log4 (← readBytes payload 0) (← readFin 256 payload 32) (← readFin 256 payload 64)
      (← readFin 256 payload 96) (← readFin 256 payload 128))
  | 7 => do some (.create (← readFin 256 payload 0) (← readBytes payload 32))
  | 8 => do
    some (.create2 (← readFin 256 payload 0) (← readFin 256 payload 32) (← readBytes payload 64))
  | 9 => do
    some (.nested ⟨← readFin 160 payload 0, ← readFin 256 payload 32, ← readFin 256 payload 64⟩)
  | _ => none

/-- Decodes the tuple `(uint8[], bytes[])`. -/
def decodeParams (buffer : Bytes) : Option (List Nat × List Bytes) := do
  let types ← readDynamic Abi.decodeWordArray buffer 0
  let datas ← readDynamic Abi.decodeBytesArray buffer 32
  some (types, datas)

def decodeUpdates : List Nat → List Bytes → Option (List StateUpdate)
  | [], [] => some []
  | code :: codes, payload :: payloads => do
    let update ← decodeUpdate code payload
    let rest ← decodeUpdates codes payloads
    some (update :: rest)
  | _, _ => none

/-! ### Payloads -/

namespace StateUpdate

/-- Every field of an update's struct takes one head word. -/
theorem headSize_pieces (u : StateUpdate) : ∀ p ∈ u.pieces, p.headSize = 32 := by
  cases u <;> simp [pieces, wordPiece, bytesPiece, Piece.headSize]

theorem headSize_take (u : StateUpdate) {i : Nat} (inside : i < u.pieces.length) :
    headSize (u.pieces.take i) = 32 * i := by
  rw [Abi.headSize_words (fun p member => headSize_pieces u p (List.mem_of_mem_take member)),
    List.length_take_of_le (le_of_lt inside)]

theorem readFin_field {width : Nat} (narrow : width ≤ 256) {u : StateUpdate} {v : Fin (2 ^ width)}
    {i position : Nat} (there : u.pieces[i]? = some (wordPiece v)) (field : position = 32 * i) :
    readFin width u.abiEncodeSequence position = some v := by
  have small : v.val < 2 ^ 256 := lt_of_lt_of_le v.isLt (Nat.pow_le_pow_right (by decide) narrow)
  have inside := (List.getElem?_eq_some_iff.mp there).1
  have read := Abi.readWord_at [] there (headSize_take u inside) small
  rw [List.append_nil, ← field] at read
  simp [readFin, abiEncodeSequence, read]

theorem readBytes_field {u : StateUpdate} {bytes : Bytes} {i position : Nat}
    (small : u.abiEncodeSequence.length < 2 ^ 256)
    (there : u.pieces[i]? = some (bytesPiece bytes)) (field : position = 32 * i) :
    readBytes u.abiEncodeSequence position = some bytes := by
  have fits := lt_of_le_of_lt (Abi.dynamic_length_at there) small
  rw [Abi.length_encodeBytes, Abi.padLength] at fits
  have inside := (List.getElem?_eq_some_iff.mp there).1
  have decodes : ∀ more, Abi.decodeBytes (Abi.encodeBytes bytes ++ more) = some bytes :=
    fun more => Abi.decodeBytes_encodeBytes (by omega)
  have read := Abi.readDynamic_at [] there (headSize_take u inside) small decodes
  rwa [List.append_nil, ← field] at read

/-- Decoding an update's payload by its type code gives the update back. -/
theorem decodeUpdate_payload {u : StateUpdate} (small : u.abiEncodeSequence.length < 2 ^ 256) :
    decodeUpdate u.type.code u.abiEncodeSequence = some u := by
  have word : ∀ {v : B256} {position : Nat} (i : Nat), u.pieces[i]? = some (wordPiece v) →
      position = 32 * i → readFin 256 u.abiEncodeSequence position = some v :=
    fun _ there field => readFin_field (by decide) there field
  have address : ∀ {v : Address} {position : Nat} (i : Nat), u.pieces[i]? = some (wordPiece v) →
      position = 32 * i → readFin 160 u.abiEncodeSequence position = some v :=
    fun _ there field => readFin_field (by decide) there field
  have bytes : ∀ {b : Bytes} {position : Nat} (i : Nat), u.pieces[i]? = some (bytesPiece b) →
      position = 32 * i → readBytes u.abiEncodeSequence position = some b :=
    fun _ there field => readBytes_field small there field
  cases u with
  | store s =>
    rw [decodeUpdate.eq_def]
    simp [type, StateUpdateType.code, word 0 rfl rfl, word 1 rfl rfl]
  | call c =>
    rw [decodeUpdate.eq_def]
    simp [type, StateUpdateType.code, address 0 rfl rfl, word 1 rfl rfl, bytes 2 rfl rfl]
  | log0 data =>
    rw [decodeUpdate.eq_def]
    simp [type, StateUpdateType.code, bytes 0 rfl rfl]
  | log1 data t1 =>
    rw [decodeUpdate.eq_def]
    simp [type, StateUpdateType.code, bytes 0 rfl rfl, word 1 rfl rfl]
  | log2 data t1 t2 =>
    rw [decodeUpdate.eq_def]
    simp [type, StateUpdateType.code, bytes 0 rfl rfl, word 1 rfl rfl, word 2 rfl rfl]
  | log3 data t1 t2 t3 =>
    rw [decodeUpdate.eq_def]
    simp [type, StateUpdateType.code, bytes 0 rfl rfl, word 1 rfl rfl, word 2 rfl rfl, word 3 rfl rfl]
  | log4 data t1 t2 t3 t4 =>
    rw [decodeUpdate.eq_def]
    simp [type, StateUpdateType.code, bytes 0 rfl rfl, word 1 rfl rfl, word 2 rfl rfl, word 3 rfl rfl,
      word 4 rfl rfl]
  | create value initcode =>
    rw [decodeUpdate.eq_def]
    simp [type, StateUpdateType.code, word 0 rfl rfl, bytes 1 rfl rfl]
  | create2 salt value initcode =>
    rw [decodeUpdate.eq_def]
    simp [type, StateUpdateType.code, word 0 rfl rfl, word 1 rfl rfl, bytes 2 rfl rfl]
  | nested n =>
    rw [decodeUpdate.eq_def]
    simp [type, StateUpdateType.code, address 0 rfl rfl, word 1 rfl rfl, word 2 rfl rfl]

end StateUpdate

/-! ### The hand-written tuple -/

theorem length_writeU256Word (buffer : Bytes) (value : Nat) :
    (writeU256Word buffer value).length = buffer.length + 32 := by
  simp [writeU256Word]

theorem writeU256Word_eq {value : Nat} (small : value < 2 ^ 128) (buffer : Bytes) :
    writeU256Word buffer value = buffer ++ Abi.word value := by
  have wide := Abi.beBytes_add 16 16 (show value < 256 ^ 16 from small)
  rw [writeU256Word, Abi.word, wide]

theorem encodeBytesElement_eq {value : Bytes} (small : value.length < 2 ^ 128) :
    encodeBytesElement value = Abi.encodeBytes value := by
  unfold encodeBytesElement
  simp only [writeU256Word_eq small, List.nil_append]
  split
  · rfl
  · rename_i whole
    have none : pad32Len value.length - value.length = 0 := by omega
    have padding : Abi.padding value.length = [] := by
      rw [Abi.padding, show Abi.padLength value.length = pad32Len value.length from rfl, none]
      rfl
    rw [Abi.encodeBytes, padding, List.append_nil]

theorem length_encodeBytesElement (value : Bytes) :
    (encodeBytesElement value).length = 32 + pad32Len value.length := by
  unfold encodeBytesElement
  dsimp only
  split <;> simp only [List.length_append, length_writeU256Word, List.length_replicate,
    List.length_nil, pad32Len] at * <;> omega

theorem writeOffsets_eq {encs : List Bytes} {out : Bytes} {offset : Nat}
    (small : offset + encs.flatten.length < 2 ^ 128) :
    writeOffsets encs out offset = out ++ Abi.heads offset (encs.map Piece.dynamic) := by
  induction encs generalizing out offset with
  | nil => simp [writeOffsets, Abi.heads]
  | cons enc rest ih =>
    simp only [List.flatten_cons, List.length_append] at small
    rw [writeOffsets, ih (by omega), writeU256Word_eq (by omega)]
    simp [Abi.heads]

theorem length_writeOffsets (encs : List Bytes) (out : Bytes) (offset : Nat) :
    (writeOffsets encs out offset).length = out.length + 32 * encs.length := by
  induction encs generalizing out offset with
  | nil => rfl
  | cons enc rest ih =>
    rw [writeOffsets, ih, length_writeU256Word, List.length_cons]
    omega

theorem foldl_append_eq (encs : List Bytes) (out : Bytes) :
    encs.foldl (· ++ ·) out = out ++ encs.flatten := by
  induction encs generalizing out with
  | nil => simp
  | cons enc rest ih => simp [ih]

theorem length_encodeBytesArray (values : List Bytes) :
    (encodeBytesArray values).length =
      32 + 32 * values.length + (values.map encodeBytesElement).flatten.length := by
  unfold encodeBytesArray
  simp only [foldl_append_eq, List.length_append, length_writeOffsets, length_writeU256Word,
    List.length_map, List.length_nil, Nat.zero_add]

theorem length_le_flatten {value : Bytes} {values : List Bytes} (member : value ∈ values) :
    value.length ≤ (values.map encodeBytesElement).flatten.length := by
  induction values with
  | nil => cases member
  | cons head rest ih =>
    simp only [List.map_cons, List.flatten_cons, List.length_append]
    rcases List.mem_cons.mp member with rfl | member
    · rw [length_encodeBytesElement, pad32Len]
      omega
    · have := ih member
      omega

theorem tails_dynamic (encs : List Bytes) : Abi.tails (encs.map Piece.dynamic) = encs.flatten := by
  induction encs with
  | nil => rfl
  | cons enc rest ih => simpa [Abi.tails, Piece.tail] using ih

theorem encodeBytesArray_eq {values : List Bytes} (small : (encodeBytesArray values).length < 2 ^ 63) :
    encodeBytesArray values = Abi.encodeBytesArray values := by
  rw [length_encodeBytesArray] at small
  have elements : values.map encodeBytesElement = values.map Abi.encodeBytes := by
    apply List.map_congr_left
    intro value member
    have := length_le_flatten member
    exact encodeBytesElement_eq (by omega)
  unfold encodeBytesArray
  simp only [foldl_append_eq]
  rw [writeOffsets_eq (by omega), writeU256Word_eq (by omega), Abi.encodeBytesArray, layout,
    Abi.headSize_words (by simp [Piece.headSize]), List.length_map, elements, ← tails_dynamic,
    List.map_map, List.nil_append, List.append_assoc]
  rfl

theorem encodeTypes_eq {codes : List Nat} (small : ∀ code ∈ codes, code < 2 ^ 128) (out : Bytes) :
    codes.foldl writeU256Word out = out ++ layout (codes.map (fun n => .static (Abi.word n))) := by
  have heads : ∀ (codes : List Nat) (offset : Nat),
      Abi.heads offset (codes.map (fun n => .static (Abi.word n))) = codes.flatMap Abi.word := by
    intro codes offset
    induction codes with
    | nil => rfl
    | cons code rest ih => simp [Abi.heads, ih]
  have tails : Abi.tails (codes.map (fun n => .static (Abi.word n))) = [] := by
    simp [Abi.tails, List.flatMap_map, Piece.tail]
  rw [layout, tails, List.append_nil, heads]
  induction codes generalizing out with
  | nil => simp
  | cons code rest ih =>
    rw [List.foldl_cons, ih (fun c member => small c (List.mem_cons_of_mem _ member)),
      writeU256Word_eq (small code List.mem_cons_self)]
    · simp
    · simp [Abi.tails, List.flatMap_map, Piece.tail]

theorem StateUpdateType.code_lt (t : StateUpdateType) : t.code < 10 := by
  cases t <;> decide

def typeCodes (updates : List StateUpdate) : List Nat :=
  (encodeStateUpdatesToSol updates).1.map StateUpdateType.code

def payloads (updates : List StateUpdate) : List Bytes := (encodeStateUpdatesToSol updates).2

theorem typesPayload_eq (updates : List StateUpdate) (out : Bytes) :
    (updates.map StateUpdate.type).foldl (fun out t => writeU256Word out t.code) out =
      out ++ layout ((typeCodes updates).map (fun n => .static (Abi.word n))) := by
  have small : ∀ code ∈ typeCodes updates, code < 2 ^ 128 := by
    intro code member
    obtain ⟨t, _, rfl⟩ := List.mem_map.mp member
    exact lt_trans t.code_lt (by decide)
  rw [← encodeTypes_eq small]
  simp [typeCodes, encodeStateUpdatesToSol, List.foldl_map]

theorem encodeStateUpdatesToAbi_eq {updates : List StateUpdate}
    (small : (encodeStateUpdatesToAbi updates).length < 2 ^ 63) :
    encodeStateUpdatesToAbi updates = abiEncodeParams (typeCodes updates) (payloads updates) := by
  unfold encodeStateUpdatesToAbi encodeStateUpdatesToSol at small ⊢
  dsimp only at small ⊢
  rw [typesPayload_eq] at small ⊢
  simp only [List.length_append, length_writeU256Word, List.length_nil, List.length_map] at small
  have counts : (typeCodes updates).length = updates.length := by simp [typeCodes, encodeStateUpdatesToSol]
  have codes : updates.length ≤ (layout ((typeCodes updates).map (fun n => .static (Abi.word n)))).length := by
    rw [Abi.length_layout, Abi.headSize_words (by simp [Piece.headSize]), List.length_map, counts]
    omega
  have types : writeU256Word [] (updates.map StateUpdate.type).length ++
      layout ((typeCodes updates).map (fun n => .static (Abi.word n))) =
      Abi.encodeWordArray (typeCodes updates) := by
    rw [writeU256Word_eq (by rw [List.length_map]; omega), Abi.encodeWordArray, counts,
      List.length_map, List.nil_append]
  rw [types, encodeBytesArray_eq (by omega)]
  have size := congrArg List.length types
  simp only [List.length_append, length_writeU256Word, List.length_nil] at size
  have offset : 0x40 + (Abi.encodeWordArray (typeCodes updates)).length < 2 ^ 128 := by omega
  rw [writeU256Word_eq offset, writeU256Word_eq (show 0x40 < 2 ^ 128 by decide)]
  simp [abiEncodeParams, layout, Abi.heads, Abi.tails, headSize, Piece.headSize, Piece.tail, payloads,
    encodeStateUpdatesToSol]

theorem decodeParams_abiEncodeParams {types : List Nat} {datas : List Bytes}
    (codes : ∀ n ∈ types, n < 2 ^ 256) (small : (abiEncodeParams types datas).length < 2 ^ 256) :
    decodeParams (abiEncodeParams types datas) = some (types, datas) := by
  have first : ([.dynamic (Abi.encodeWordArray types), .dynamic (Abi.encodeBytesArray datas)] :
      List Piece)[0]? = some (.dynamic (Abi.encodeWordArray types)) := rfl
  have second : ([.dynamic (Abi.encodeWordArray types), .dynamic (Abi.encodeBytesArray datas)] :
      List Piece)[1]? = some (.dynamic (Abi.encodeBytesArray datas)) := rfl
  have wordsFit := lt_of_le_of_lt (Abi.dynamic_length_at first) small
  have bytesFit := lt_of_le_of_lt (Abi.dynamic_length_at second) small
  have count : types.length < 2 ^ 256 := by
    rw [Abi.encodeWordArray, List.length_append, Abi.length_layout,
      Abi.headSize_words (by simp [Piece.headSize]), List.length_map] at wordsFit
    omega
  have readTypes := Abi.readDynamic_at [] first rfl small
    (fun more => Abi.decodeWordArray_encodeWordArray more count codes)
  have readDatas := Abi.readDynamic_at [] second rfl small
    (fun more => Abi.decodeBytesArray_encodeBytesArray more bytesFit)
  rw [List.append_nil] at readTypes readDatas
  have position : headSize (([.dynamic (Abi.encodeWordArray types),
      .dynamic (Abi.encodeBytesArray datas)] : List Piece).take 1) = 32 := rfl
  rw [position] at readDatas
  have start : headSize (([.dynamic (Abi.encodeWordArray types),
      .dynamic (Abi.encodeBytesArray datas)] : List Piece).take 0) = 0 := rfl
  rw [start] at readTypes
  simp [decodeParams, abiEncodeParams, readTypes, readDatas]

theorem decodeUpdates_payloads {updates : List StateUpdate}
    (small : ∀ u ∈ updates, u.abiEncodeSequence.length < 2 ^ 256) :
    decodeUpdates (typeCodes updates) (payloads updates) = some updates := by
  induction updates with
  | nil => rfl
  | cons u rest ih =>
    have head := StateUpdate.decodeUpdate_payload (small u List.mem_cons_self)
    have tail := ih (fun v member => small v (List.mem_cons_of_mem _ member))
    simp only [typeCodes, payloads, encodeStateUpdatesToSol, List.map_cons, decodeUpdates] at tail ⊢
    rw [head, tail]
    rfl

theorem payload_length_le {updates : List StateUpdate} {u : StateUpdate} (member : u ∈ updates)
    (small : (encodeStateUpdatesToAbi updates).length < 2 ^ 63) :
    u.abiEncodeSequence.length < 2 ^ 63 := by
  have inside : u.abiEncodeSequence ∈ payloads updates := List.mem_map_of_mem member
  have bound := length_le_flatten inside
  unfold encodeStateUpdatesToAbi at small
  dsimp only at small
  simp only [List.length_append, length_encodeBytesArray] at small
  exact lt_of_le_of_lt bound (by unfold payloads; omega)

/-- The whole program back from its encoding. -/
def decodeProgram (encoded : Bytes) : Option (List StateUpdate) := do
  let (types, datas) ← decodeParams encoded
  decodeUpdates types datas

theorem decodeParams_encodeStateUpdatesToAbi {updates : List StateUpdate}
    (small : (encodeStateUpdatesToAbi updates).length < 2 ^ 63) :
    decodeParams (encodeStateUpdatesToAbi updates) = some (typeCodes updates, payloads updates) := by
  have fits := small
  rw [encodeStateUpdatesToAbi_eq small] at fits ⊢
  refine decodeParams_abiEncodeParams ?_ (lt_trans fits (by decide))
  intro code member
  obtain ⟨t, _, rfl⟩ := List.mem_map.mp member
  exact lt_trans t.code_lt (by decide)

theorem decodeProgram_encodeStateUpdatesToAbi {updates : List StateUpdate}
    (small : (encodeStateUpdatesToAbi updates).length < 2 ^ 63) :
    decodeProgram (encodeStateUpdatesToAbi updates) = some updates := by
  have payload : ∀ u ∈ updates, u.abiEncodeSequence.length < 2 ^ 256 :=
    fun u member => lt_trans (payload_length_le member small) (by decide)
  simp [decodeProgram, decodeParams_encodeStateUpdatesToAbi small, decodeUpdates_payloads payload]

/-- `encodeStateUpdatesToAbi` writes the standard encoding of `(uint8[], bytes[])`: it decodes to the
type codes and payloads, each payload decodes to its update, two programs never share an encoding,
it is made of whole words, and it is the gas estimator's calldata without its selector. -/
theorem encodeStateUpdatesToAbi_standard (updates : List StateUpdate)
    (small : (encodeStateUpdatesToAbi updates).length < 2 ^ 63) :
    encodeStateUpdatesToAbi updates =
        abiEncodeParams ((encodeStateUpdatesToSol updates).1.map StateUpdateType.code)
          (encodeStateUpdatesToSol updates).2 ∧
      decodeParams (encodeStateUpdatesToAbi updates) =
        some ((encodeStateUpdatesToSol updates).1.map StateUpdateType.code,
          (encodeStateUpdatesToSol updates).2) ∧
      (∀ u ∈ updates, decodeUpdate u.type.code u.abiEncodeSequence = some u) ∧
      (∀ others : List StateUpdate, (encodeStateUpdatesToAbi others).length < 2 ^ 63 →
        encodeStateUpdatesToAbi others = encodeStateUpdatesToAbi updates → others = updates) ∧
      32 ∣ (encodeStateUpdatesToAbi updates).length ∧
      (buildGasEstimationCalldata updates).drop 4 = encodeStateUpdatesToAbi updates := by
  refine ⟨encodeStateUpdatesToAbi_eq small, decodeParams_encodeStateUpdatesToAbi small, ?_, ?_, ?_, ?_⟩
  · intro u member
    exact StateUpdate.decodeUpdate_payload (lt_trans (payload_length_le member small) (by decide))
  · intro others small' same
    have back := decodeProgram_encodeStateUpdatesToAbi small'
    rw [same, decodeProgram_encodeStateUpdatesToAbi small] at back
    exact (Option.some.inj back).symm
  · rw [encodeStateUpdatesToAbi_eq small]
    refine Abi.layout_words ?_ ?_
    · simp [Piece.headSize]
    · simp [Piece.tail, Abi.encodeWordArray_words, Abi.encodeBytesArray_words]
  · rw [encodeStateUpdatesToAbi_eq small]
    exact List.drop_left' rfl

/-- A store followed by a log. -/
theorem encodeStateUpdatesToAbi_store_log :
    decodeParams (encodeStateUpdatesToAbi [.store ⟨1, 2⟩, .log0 [7]]) =
        some ([0, 2], [(StateUpdate.store ⟨1, 2⟩).abiEncodeSequence,
          (StateUpdate.log0 [7]).abiEncodeSequence]) ∧
      (buildGasEstimationCalldata [.store ⟨1, 2⟩, .log0 [7]]).drop 4 =
        encodeStateUpdatesToAbi [.store ⟨1, 2⟩, .log0 [7]] := by
  have standard := encodeStateUpdatesToAbi_standard [.store ⟨1, 2⟩, .log0 [7]] (by decide +kernel)
  exact ⟨standard.2.1, standard.2.2.2.2.2⟩

end GasAnalyzer
