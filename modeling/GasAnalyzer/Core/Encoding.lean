import GasAnalyzer.Core.Types

/-!
# Encoding programs

A program travels as the ABI tuple `(uint8[], bytes[])`: a type code and an encoded struct for each
operation. `encodeStateUpdatesToAbi` writes the tuple by hand; the structs go through the library's
standard layout.
-/

namespace GasAnalyzer

open Abi (Piece layout encodeBytes)

inductive StateUpdateType where
  | store | call | log0 | log1 | log2 | log3 | log4 | create | create2 | nested
  deriving DecidableEq

/-- The enum's value as a `uint8`. -/
def StateUpdateType.code : StateUpdateType → Nat
  | store => 0
  | call => 1
  | log0 => 2
  | log1 => 3
  | log2 => 4
  | log3 => 5
  | log4 => 6
  | create => 7
  | create2 => 8
  | nested => 9

namespace StateUpdate

def type : StateUpdate → StateUpdateType
  | store _ => .store
  | call _ => .call
  | log0 _ => .log0
  | log1 _ _ => .log1
  | log2 _ _ _ => .log2
  | log3 _ _ _ _ => .log3
  | log4 _ _ _ _ _ => .log4
  | create _ _ => .create
  | create2 _ _ _ => .create2
  | nested _ => .nested

def wordPiece {n : Nat} (w : Fin n) : Piece := .static (Abi.word w.val)

def bytesPiece (bytes : Bytes) : Piece := .dynamic (encodeBytes bytes)

/-- The fields of the update's Solidity struct, in order. -/
def pieces : StateUpdate → List Piece
  | store s => [wordPiece s.slot, wordPiece s.value]
  | call c => [wordPiece c.target, wordPiece c.value, bytesPiece c.callargs]
  | log0 data => [bytesPiece data]
  | log1 data t1 => [bytesPiece data, wordPiece t1]
  | log2 data t1 t2 => [bytesPiece data, wordPiece t1, wordPiece t2]
  | log3 data t1 t2 t3 => [bytesPiece data, wordPiece t1, wordPiece t2, wordPiece t3]
  | log4 data t1 t2 t3 t4 =>
    [bytesPiece data, wordPiece t1, wordPiece t2, wordPiece t3, wordPiece t4]
  | create value initcode => [wordPiece value, bytesPiece initcode]
  | create2 salt value initcode => [wordPiece salt, wordPiece value, bytesPiece initcode]
  | nested n => [wordPiece n.target, wordPiece n.value, wordPiece n.childLeaf]

def abiEncodeSequence (u : StateUpdate) : Bytes := layout u.pieces

end StateUpdate

def encodeStateUpdatesToSol (updates : List StateUpdate) : List StateUpdateType × List Bytes :=
  (updates.map StateUpdate.type, updates.map StateUpdate.abiEncodeSequence)

/-- `value as u128` in the low half of a 32-byte word. -/
def writeU256Word (buffer : Bytes) (value : Nat) : Bytes :=
  buffer ++ (List.replicate 16 0 ++ Abi.beBytes 16 value)

/-- `len.div_ceil(32) * 32` -/
def pad32Len (len : Nat) : Nat := (len + 31) / 32 * 32

def encodeBytesElement (value : Bytes) : Bytes :=
  let out := writeU256Word [] value.length ++ value
  let padding := pad32Len value.length - value.length
  if padding > 0 then out ++ List.replicate padding 0 else out

/-- The offset words of `encode_bytes_array`, with their running offset. -/
def writeOffsets : List Bytes → Bytes → Nat → Bytes
  | [], out, _ => out
  | enc :: rest, out, runningOffset =>
    writeOffsets rest (writeU256Word out runningOffset) (runningOffset + enc.length)

def encodeBytesArray (values : List Bytes) : Bytes :=
  let n := values.length
  let encodedElements := values.map encodeBytesElement
  let headSize := 32 * n
  let out := writeU256Word [] n
  let out := writeOffsets encodedElements out headSize
  encodedElements.foldl (· ++ ·) out

/-- Encode state updates to ABI format for transport. -/
def encodeStateUpdatesToAbi (updates : List StateUpdate) : Bytes :=
  let (types, datas) := encodeStateUpdatesToSol updates
  let typesPayload := types.foldl (fun out t => writeU256Word out t.code)
    (writeU256Word [] types.length)
  let datasPayload := encodeBytesArray datas
  let offsetTypes := 0x40
  let offsetDatas := offsetTypes + typesPayload.length
  let encoded := writeU256Word [] offsetTypes
  let encoded := writeU256Word encoded offsetDatas
  encoded ++ typesPayload ++ datasPayload

/-- `runStateUpdatesCall(uint8[],bytes[])` -/
def runStateUpdatesCallSelector : Bytes := [0x7a, 0x88, 0x8d, 0xbc]

/-- Standard ABI encoding of the parameters `(uint8[], bytes[])`, as `DynSolValue` produces it. -/
def abiEncodeParams (types : List Nat) (datas : List Bytes) : Bytes :=
  layout [.dynamic (Abi.encodeWordArray types), .dynamic (Abi.encodeBytesArray datas)]

/-- The gas estimator's calldata for a program. -/
def buildGasEstimationCalldata (updates : List StateUpdate) : Bytes :=
  let (types, args) := encodeStateUpdatesToSol updates
  runStateUpdatesCallSelector ++ abiEncodeParams (types.map StateUpdateType.code) args

end GasAnalyzer
