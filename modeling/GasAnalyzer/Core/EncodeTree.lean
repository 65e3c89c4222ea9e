import GasAnalyzer.Library.Merkle
import GasAnalyzer.Core.FrameTree

/-!
# Leaves, trees and witnesses

Every frame is hashed into a leaf bottom-up, since a `NESTED` op names its child's leaf and a leaf
hashes its frame's encoded program. The tree over the expiry leaf and the frame leaves is what the
quorum signs; witnesses carry the rest down the call stack.
-/

namespace GasAnalyzer

open Abi (Piece layout encodeBytes)
open StateUpdate (wordPiece bytesPiece)

/-! ### Leaves -/

/-- `keccak256("gaskiller.nested.leaf.v1")` -/
def nestedLeafTag : B256 := 0x292ca629b989c44a85e556e7c24acc26f9ab093b2b23c689f951e91718228c18

/-- `keccak256("gaskiller.nested.expiry.v1")` -/
def expiryLeafTag : B256 := 0xc5763e3656f5ee85e7416218ca476fe6364ba9f67d13b29c7331d1d1131dd88a

def frameMode : Nat := 0

abbrev Selector := Fin (2 ^ 32)

instance selectorModulus : NeZero (2 ^ 32) := ⟨by decide⟩

/-- A `bytes4` in its word: left-aligned. -/
def selectorPiece (s : Selector) : Piece := .static (Abi.word (s.val * 2 ^ 224))

def natPiece (n : Nat) : Piece := .static (Abi.word n)

def rootLeafPreimage (transitionIndex : U256) (target : Address) (selector : Selector)
    (program : Bytes) (value : U256) : Bytes :=
  if value = 0 then
    layout [wordPiece transitionIndex, wordPiece target, selectorPiece selector, bytesPiece program]
  else
    layout [wordPiece transitionIndex, wordPiece target, selectorPiece selector, bytesPiece program,
      wordPiece value]

/-- The root frame's leaf; a zero value keeps the four-field encoding. -/
def rootLeaf (H : Hashes) (transitionIndex : U256) (target : Address) (selector : Selector)
    (program : Bytes) (value : U256) : B256 :=
  H.sha256 (rootLeafPreimage transitionIndex target selector program value)

def nestedLeafPreimage (chainId : UInt64) (target : Address) (transitionIndex : U256)
    (caller : Address) (value : U256) (calldataHash : B256) (program : Bytes) : Bytes :=
  layout [wordPiece nestedLeafTag, natPiece chainId.toNat, wordPiece target,
    wordPiece transitionIndex, wordPiece caller, wordPiece value, wordPiece calldataHash,
    natPiece frameMode, bytesPiece program]

/-- A callee frame's leaf. -/
def nestedLeaf (H : Hashes) (chainId : UInt64) (target : Address) (transitionIndex : U256)
    (caller : Address) (value : U256) (calldataHash : B256) (program : Bytes) : B256 :=
  H.sha256 (nestedLeafPreimage chainId target transitionIndex caller value calldataHash program)

def expiryLeafPreimage (chainId : UInt64) (rootContract : Address) (expiryBlock : UInt64) : Bytes :=
  layout [wordPiece expiryLeafTag, natPiece chainId.toNat, wordPiece rootContract,
    natPiece expiryBlock.toNat]

/-- The leaf that bounds when a tree may settle. -/
def expiryLeaf (H : Hashes) (chainId : UInt64) (rootContract : Address) (expiryBlock : UInt64) :
    B256 :=
  H.sha256 (expiryLeafPreimage chainId rootContract expiryBlock)

/-! ### The tree

`merkleRoot` and `merkleProof` only pass nodes to the pair hash, so they take it and the type of
nodes as parameters. -/

/-- OpenZeppelin `MerkleProof`'s commutative pair hash. -/
def hashPair (H : Hashes) (a b : B256) : B256 :=
  let (lo, hi) := if a < b then (a, b) else (b, a)
  H.keccak256 (Abi.word lo.val ++ Abi.word hi.val)

def merkleRoot {α : Type} (pair : α → α → α) (leaves : List α) : Result α :=
  if leaves.isEmpty then .error .noLeaves
  else index (Merkle.climb pair leaves.length leaves) 0

def merkleProof {α : Type} (pair : α → α → α) (leaves : List α) (i : Nat) : Result (List α) :=
  if leaves.length ≤ i then
    .error (.leafOutside i leaves.length)
  else .ok (Merkle.siblings pair leaves.length leaves i)

/-! ### Witnesses -/

/-- The unsigned data a parent passes to a child alongside the child's leaf hash. -/
structure Witness where
  calldataHash : B256
  storageUpdates : Bytes
  proof : List B256
  children : List Bytes
  deriving DecidableEq

def Witness.pieces (w : Witness) : List Piece :=
  [wordPiece w.calldataHash, bytesPiece w.storageUpdates,
    .dynamic (Abi.encodeWordArray (w.proof.map Fin.val)),
    .dynamic (Abi.encodeBytesArray w.children)]

/-- A dynamic struct on its own is encoded as a one-element sequence. -/
def Witness.abiEncode (w : Witness) : Bytes := layout [.dynamic (layout w.pieces)]

/-! ### Encoding -/

structure EncodedTree where
  root : B256
  leaves : List B256
  frameLeaves : List B256
  programs : List Bytes
  witnesses : List Bytes
  rootChildren : List Bytes
  rootProof : List B256
  expiryProof : List B256
  deriving DecidableEq

/-- Names each child's leaf in frame `i`'s `NESTED` ops, in order. -/
def fillChildLeaves (i : Nat) (frameLeaves : List B256) :
    List StateUpdate → List Nat → Result (List StateUpdate)
  | [], [] => .ok []
  | [], _ :: _ => .error (.moreChildren i)
  | .nested _ :: _, [] => .error (.moreNestedOps i)
  | .nested n :: rest, child :: children =>
    if child ≤ i ∨ frameLeaves.length ≤ child then
      .error (.childOutside i child)
    else do
      let filled ← fillChildLeaves i frameLeaves rest children
      .ok (.nested { n with childLeaf := frameLeaves.getD child 0 } :: filled)
  | update :: rest, children => do
    let filled ← fillChildLeaves i frameLeaves rest children
    .ok (update :: filled)

structure TreeParams where
  rootSelector : Selector
  rootValue : U256
  chainId : UInt64
  expiryBlock : UInt64

def frameLeaf (H : Hashes) (t : TreeParams) (i : Nat) (frame : FrameProgram) (index : U256)
    (program : Bytes) : B256 :=
  if i = 0 then rootLeaf H index frame.target t.rootSelector program t.rootValue
  else nestedLeaf H t.chainId frame.target index frame.caller frame.value frame.calldataHash program

/-- The leaves and programs computed so far; both lists have one entry per frame. -/
structure Leaves where
  frameLeaves : List B256
  programs : List Bytes

def encodeFrame (H : Hashes) (t : TreeParams) (i : Nat) (frame : FrameProgram) (s : Leaves) :
    Result Leaves := do
  let updates ← fillChildLeaves i s.frameLeaves frame.updates frame.children
  let program := encodeStateUpdatesToAbi updates
  let index ← okOr (.noTransitionIndex i) frame.transitionIndex
  .ok {
    frameLeaves := s.frameLeaves.set i (frameLeaf H t i frame index program)
    programs := s.programs.set i program }

/-- Frames `0 .. k`, last first. -/
def encodeFrames (H : Hashes) (t : TreeParams) (frames : List FrameProgram) : Nat → Leaves → Result Leaves
  | 0, s => .ok s
  | k + 1, s => do
    let frame ← index frames k
    let s ← encodeFrame H t k frame s
    encodeFrames H t frames k s

def witnessOf (H : Hashes) (frame : FrameProgram) (i : Nat) (leaves : List B256)
    (programs witnesses : List Bytes) : Result Witness := do
  let proof ← merkleProof (hashPair H) leaves (i + 1)
  .ok {
    calldataHash := frame.calldataHash
    storageUpdates := programs.getD i []
    proof
    children := frame.children.map (fun c => witnesses.getD c []) }

/-- Witnesses of frames `1 .. k`, last first. -/
def encodeWitnesses (H : Hashes) (frames : List FrameProgram) (leaves : List B256)
    (programs : List Bytes) : Nat → List Bytes → Result (List Bytes)
  | 0, witnesses => .ok witnesses
  | k + 1, witnesses => do
    let frame ← index frames (k + 1)
    let witness ← witnessOf H frame (k + 1) leaves programs witnesses
    encodeWitnesses H frames leaves programs k (witnesses.set (k + 1) witness.abiEncode)

/-- Hash every frame bottom-up, build the tree, then build the witnesses bottom-up. -/
def encodeFrameTree (H : Hashes) (frames : List FrameProgram) (t : TreeParams) :
    Result EncodedTree :=
  match frames with
  | [] => .error .noFrames
  | rootFrame :: rest => do
    let n := rest.length + 1
    let s ← encodeFrames H t (rootFrame :: rest) n ⟨List.replicate n 0, List.replicate n []⟩
    let leaves := expiryLeaf H t.chainId rootFrame.target t.expiryBlock :: s.frameLeaves
    let root ← merkleRoot (hashPair H) leaves
    let witnesses ← encodeWitnesses H (rootFrame :: rest) leaves s.programs (n - 1)
      (List.replicate n [])
    let rootProof ← merkleProof (hashPair H) leaves 1
    let expiryProof ← merkleProof (hashPair H) leaves 0
    .ok {
      root, leaves, witnesses, rootProof, expiryProof
      frameLeaves := s.frameLeaves
      programs := s.programs
      rootChildren := rootFrame.children.map (fun c => witnesses.getD c []) }

end GasAnalyzer
