import GasAnalyzer.Encoding.Roundtrip
import GasAnalyzer.Nested.MerkleTree

/-!
# What an encoded tree authenticates

`encodeFrames` runs from the last frame to the first, so a frame's children have their final leaves
when it is hashed; `encodeWitnesses` runs the same way over witnesses. Both are inductions on the
number of frames left, with the entries already written as the invariant.
-/

namespace GasAnalyzer

open Abi (Piece layout readDynamic headSize)

/-! ### Decoding a witness -/

def decodeB256Array (buffer : Bytes) : Option (List B256) :=
  (Abi.decodeWordArray buffer).map (List.map (Fin.ofNat _))

def decodeWitnessTuple (buffer : Bytes) : Option Witness := do
  let calldataHash ← readFin 256 buffer 0
  let storageUpdates ← readBytes buffer 32
  let proof ← readDynamic decodeB256Array buffer 64
  let children ← readDynamic Abi.decodeBytesArray buffer 96
  some { calldataHash, storageUpdates, proof, children }

/-- `abi.decode(data, (Witness))` -/
def decodeWitness (buffer : Bytes) : Option Witness := readDynamic decodeWitnessTuple buffer 0

theorem map_ofNat_val (proof : List B256) : (proof.map Fin.val).map (Fin.ofNat (2 ^ 256)) = proof := by
  rw [List.map_map]
  conv_rhs => rw [← List.map_id proof]
  exact List.map_congr_left (fun v _ => Fin.ofNat_val_eq_self v)

theorem headSize_take_witness (w : Witness) {i : Nat} (inside : i < w.pieces.length) :
    headSize (w.pieces.take i) = 32 * i := by
  have each : ∀ p ∈ w.pieces, p.headSize = 32 := by
    simp [Witness.pieces, StateUpdate.wordPiece, StateUpdate.bytesPiece, Piece.headSize]
  rw [Abi.headSize_words (fun p member => each p (List.mem_of_mem_take member)),
    List.length_take_of_le (le_of_lt inside)]

theorem decodeWitnessTuple_layout {w : Witness} (small : (layout w.pieces).length < 2 ^ 256)
    (more : Bytes) : decodeWitnessTuple (layout w.pieces ++ more) = some w := by
  have at0 : w.pieces[0]? = some (.static (Abi.word w.calldataHash.val)) := rfl
  have at1 : w.pieces[1]? = some (.dynamic (Abi.encodeBytes w.storageUpdates)) := rfl
  have at2 : w.pieces[2]? = some (.dynamic (Abi.encodeWordArray (w.proof.map Fin.val))) := rfl
  have at3 : w.pieces[3]? = some (.dynamic (Abi.encodeBytesArray w.children)) := rfl
  have hash : readFin 256 (layout w.pieces ++ more) 0 = some w.calldataHash := by
    have read := Abi.readWord_at more at0 (headSize_take_witness w (by simp [Witness.pieces])) w.calldataHash.isLt
    simp [readFin, read]
  have updates : readBytes (layout w.pieces ++ more) 32 = some w.storageUpdates := by
    have fits := lt_of_le_of_lt (Abi.dynamic_length_at at1) small
    rw [Abi.length_encodeBytes, Abi.padLength] at fits
    exact Abi.readDynamic_at more at1 (headSize_take_witness w (by simp [Witness.pieces])) small
      (fun rest => Abi.decodeBytes_encodeBytes (by omega))
  have proof : readDynamic decodeB256Array (layout w.pieces ++ more) 64 = some w.proof := by
    have fits := lt_of_le_of_lt (Abi.dynamic_length_at at2) small
    rw [Abi.encodeWordArray, List.length_append, Abi.length_layout,
      Abi.headSize_words (by simp [Piece.headSize])] at fits
    simp only [List.length_map] at fits
    refine Abi.readDynamic_at more at2 (headSize_take_witness w (by simp [Witness.pieces])) small (fun rest => ?_)
    rw [decodeB256Array, Abi.decodeWordArray_encodeWordArray rest (by rw [List.length_map]; omega) ?_,
      Option.map_some, map_ofNat_val]
    intro n member
    obtain ⟨v, _, rfl⟩ := List.mem_map.mp member
    exact v.isLt
  have children : readDynamic Abi.decodeBytesArray (layout w.pieces ++ more) 96 = some w.children := by
    have fits := lt_of_le_of_lt (Abi.dynamic_length_at at3) small
    exact Abi.readDynamic_at more at3 (headSize_take_witness w (by simp [Witness.pieces])) small
      (fun rest => Abi.decodeBytesArray_encodeBytesArray rest fits)
  simp [decodeWitnessTuple, hash, updates, proof, children]

theorem decodeWitness_abiEncode {w : Witness} (small : w.abiEncode.length < 2 ^ 256) :
    decodeWitness w.abiEncode = some w := by
  have there : ([.dynamic (layout w.pieces)] : List Piece)[0]? = some (.dynamic (layout w.pieces)) := rfl
  have fits := lt_of_le_of_lt (Abi.dynamic_length_at there) small
  have read := Abi.readDynamic_at [] there rfl small (fun more => decodeWitnessTuple_layout fits more)
  rwa [List.append_nil] at read

/-! ### Programs and leaves -/

/-- A program with its `NESTED` ops naming the given leaves in order. -/
def nameChildren : List StateUpdate → List B256 → List StateUpdate
  | [], _ => []
  | .nested n :: rest, leaf :: leaves => .nested { n with childLeaf := leaf } :: nameChildren rest leaves
  | update :: rest, leaves => update :: nameChildren rest leaves

theorem nameChildren_plain {update : StateUpdate} (plain : update.isNested = false)
    (rest : List StateUpdate) (leaves : List B256) :
    nameChildren (update :: rest) leaves = update :: nameChildren rest leaves := by
  cases update <;> first | rfl | cases plain

def childLeaves (frameLeaves : List B256) (frame : FrameProgram) : List B256 :=
  frame.children.map (fun c => frameLeaves.getD c 0)

theorem fillChildLeaves_ok {i : Nat} {leaves : List B256} {updates filled : List StateUpdate}
    {children : List Nat} (h : fillChildLeaves i leaves updates children = .ok filled) :
    filled = nameChildren updates (children.map (fun c => leaves.getD c 0)) ∧
      (updates.filter StateUpdate.isNested).length = children.length ∧
      ∀ c ∈ children, i < c ∧ c < leaves.length := by
  fun_induction fillChildLeaves i leaves updates children generalizing filled with
  | case1 =>
    have empty := Except.ok.inj h
    subst empty
    simp [nameChildren]
  | case2 => cases h
  | case3 => cases h
  | case4 => cases h
  | case5 n rest child children inOrder ih =>
    obtain ⟨tail, recursive, h⟩ := Outcome.bind_ok h
    obtain ⟨same, count, bounds⟩ := ih recursive
    have result := Except.ok.inj h
    subst result same
    refine ⟨by simp [nameChildren], by simp [List.filter_cons, count], ?_⟩
    intro c member
    rcases List.mem_cons.mp member with rfl | member
    · omega
    · exact bounds c member
  | case6 update rest children noneLeft someLeft ih =>
    obtain ⟨tail, recursive, h⟩ := Outcome.bind_ok h
    obtain ⟨same, count, bounds⟩ := ih recursive
    have result := Except.ok.inj h
    subst result same
    have plain : update.isNested = false := by
      cases update with
      | nested n =>
        cases children with
        | nil => exact (noneLeft n rfl rfl).elim
        | cons c cs => exact (someLeft n c cs rfl rfl).elim
      | _ => rfl
    exact ⟨(nameChildren_plain plain _ _).symm, by simp [plain, count], bounds⟩

/-- Frame `i` is authenticated by `s`: its children come later, its program is its updates with its
children's leaves named, and its leaf hashes that program with the frame's own fields. -/
structure FrameEncoded (H : Hashes) (t : TreeParams) (s : Leaves) (i : Nat) (frame : FrameProgram) :
    Prop where
  nestedCount : (frame.updates.filter StateUpdate.isNested).length = frame.children.length
  children : ∀ c ∈ frame.children, i < c ∧ c < s.frameLeaves.length
  program : s.programs[i]? =
    some (encodeStateUpdatesToAbi (nameChildren frame.updates (childLeaves s.frameLeaves frame)))
  leaf : ∃ index program, frame.transitionIndex = some index ∧ s.programs[i]? = some program ∧
    s.frameLeaves[i]? = some (frameLeaf H t i frame index program)

theorem encodeFrame_ok {H : Hashes} {t : TreeParams} {i : Nat} {frame : FrameProgram} {s s' : Leaves}
    (h : encodeFrame H t i frame s = .ok s') :
    ∃ index, frame.transitionIndex = some index ∧
      (frame.updates.filter StateUpdate.isNested).length = frame.children.length ∧
      (∀ c ∈ frame.children, i < c ∧ c < s.frameLeaves.length) ∧
      s' = {
        frameLeaves := s.frameLeaves.set i (frameLeaf H t i frame index
          (encodeStateUpdatesToAbi (nameChildren frame.updates (childLeaves s.frameLeaves frame))))
        programs := s.programs.set i
          (encodeStateUpdatesToAbi (nameChildren frame.updates (childLeaves s.frameLeaves frame))) } := by
  unfold encodeFrame at h
  obtain ⟨filled, fill, h⟩ := Outcome.bind_ok h
  obtain ⟨index, indexed, h⟩ := Outcome.bind_ok h
  obtain ⟨rfl, count, bounds⟩ := fillChildLeaves_ok fill
  exact ⟨index, Outcome.okOr_ok.mp indexed, count, bounds, (Except.ok.inj h).symm⟩

/-- Later entries keep a frame's children's leaves. -/
theorem childLeaves_congr {frame : FrameProgram} {i : Nat} {leaves leaves' : List B256}
    (later : ∀ c ∈ frame.children, i < c) (same : ∀ j, i < j → leaves'[j]? = leaves[j]?) :
    childLeaves leaves' frame = childLeaves leaves frame := by
  apply List.map_congr_left
  intro c member
  simp only [List.getD_eq_getElem?_getD, same c (later c member)]

theorem encodeFrames_ok {H : Hashes} {t : TreeParams} {frames : List FrameProgram} {k : Nat}
    {s s' : Leaves} (h : encodeFrames H t frames k s = .ok s') (leaves : k ≤ s.frameLeaves.length)
    (programs : s.programs.length = s.frameLeaves.length) :
    s'.frameLeaves.length = s.frameLeaves.length ∧ s'.programs.length = s.programs.length ∧
      (∀ j, k ≤ j → s'.frameLeaves[j]? = s.frameLeaves[j]? ∧ s'.programs[j]? = s.programs[j]?) ∧
      ∀ i < k, ∃ frame, frames[i]? = some frame ∧ FrameEncoded H t s' i frame := by
  induction k generalizing s with
  | zero =>
    have same := Except.ok.inj h
    subst same
    exact ⟨rfl, rfl, fun _ _ => ⟨rfl, rfl⟩, fun i small => absurd small (Nat.not_lt_zero i)⟩
  | succ k ih =>
    obtain ⟨frame, found, h⟩ := Outcome.bind_ok h
    obtain ⟨mid, encoded, h⟩ := Outcome.bind_ok h
    obtain ⟨index, indexed, count, bounds, rfl⟩ := encodeFrame_ok encoded
    obtain ⟨leafLength, programLength, kept, earlier⟩ := ih h (by simp; omega) (by simp [programs])
    simp only [List.length_set] at leafLength programLength
    -- entry `k` is written now and never again
    have leafAt := (kept k (le_refl k)).1
    have programAt := (kept k (le_refl k)).2
    rw [List.getElem?_set_self (by omega)] at leafAt programAt
    have after : ∀ j, k < j → s'.frameLeaves[j]? = s.frameLeaves[j]? ∧ s'.programs[j]? = s.programs[j]? := by
      intro j above
      obtain ⟨keptLeaf, keptProgram⟩ := kept j (by omega)
      rw [List.getElem?_set_ne (by omega)] at keptLeaf keptProgram
      exact ⟨keptLeaf, keptProgram⟩
    refine ⟨leafLength, programLength, fun j above => after j (by omega), ?_⟩
    intro i small
    rcases Nat.lt_succ_iff_lt_or_eq.mp small with below | rfl
    · exact earlier i below
    · have names := childLeaves_congr (fun c member => (bounds c member).1) (fun j above => (after j above).1)
      refine ⟨frame, Outcome.okOr_ok.mp found, count, ?_, ?_, index, _, indexed, programAt, leafAt⟩
      · rw [leafLength]
        exact bounds
      · rw [programAt, names]

/-! ### Witnesses -/

/-- Frame `i`'s witness carries its calldata hash, its program, its proof and its children's
witnesses. -/
def WitnessEncoded (H : Hashes) (leaves : List B256) (programs witnesses : List Bytes) (i : Nat)
    (frame : FrameProgram) : Prop :=
  ∃ proof, merkleProof (hashPair H) leaves (i + 1) = .ok proof ∧
    witnesses[i]? = some (Witness.abiEncode {
      calldataHash := frame.calldataHash
      storageUpdates := programs.getD i []
      proof
      children := frame.children.map (fun c => witnesses.getD c []) })

theorem encodeWitnesses_ok {H : Hashes} {frames : List FrameProgram} {leaves : List B256}
    {programs ws ws' : List Bytes} {k : Nat}
    (h : encodeWitnesses H frames leaves programs k ws = .ok ws') (room : k < ws.length)
    (later : ∀ (i : Nat) (frame : FrameProgram), frames[i]? = some frame → ∀ c ∈ frame.children, i < c) :
    ws'.length = ws.length ∧ (∀ j, k < j → ws'[j]? = ws[j]?) ∧
      ∀ i, 0 < i → i ≤ k → ∃ frame, frames[i]? = some frame ∧
        WitnessEncoded H leaves programs ws' i frame := by
  induction k generalizing ws with
  | zero =>
    have same := Except.ok.inj h
    subst same
    exact ⟨rfl, fun _ _ => rfl, fun i positive small => by omega⟩
  | succ k ih =>
    obtain ⟨frame, found, h⟩ := Outcome.bind_ok h
    obtain ⟨witness, built, h⟩ := Outcome.bind_ok h
    obtain ⟨proof, proved, built⟩ := Outcome.bind_ok built
    have built := Except.ok.inj built
    subst built
    obtain ⟨length, kept, earlier⟩ := ih h (by simp; omega)
    rw [List.length_set] at length
    have here := kept (k + 1) (by omega)
    rw [List.getElem?_set_self room] at here
    have after : ∀ j, k + 1 < j → ws'[j]? = ws[j]? := by
      intro j above
      rw [kept j (by omega), List.getElem?_set_ne (by omega)]
    refine ⟨length, after, ?_⟩
    intro i positive small
    rcases Nat.le_succ_iff.mp small with below | rfl
    · exact earlier i positive below
    · have found := Outcome.okOr_ok.mp found
      refine ⟨frame, found, proof, proved, ?_⟩
      rw [here]
      congr 3
      apply List.map_congr_left
      intro c member
      simp only [List.getD_eq_getElem?_getD, after c (later _ frame found c member)]

/-! ### The encoded tree -/

theorem encodeFrameTree_ok {H : Hashes} {frames : List FrameProgram} {t : TreeParams} {tree : EncodedTree}
    (h : encodeFrameTree H frames t = .ok tree) :
    ∃ rootFrame rest, frames = rootFrame :: rest ∧
      encodeFrames H t frames frames.length
        ⟨List.replicate frames.length 0, List.replicate frames.length []⟩ =
          .ok ⟨tree.frameLeaves, tree.programs⟩ ∧
      tree.leaves = expiryLeaf H t.chainId rootFrame.target t.expiryBlock :: tree.frameLeaves ∧
      merkleRoot (hashPair H) tree.leaves = .ok tree.root ∧
      encodeWitnesses H frames tree.leaves tree.programs (frames.length - 1)
        (List.replicate frames.length []) = .ok tree.witnesses ∧
      merkleProof (hashPair H) tree.leaves 1 = .ok tree.rootProof ∧
      merkleProof (hashPair H) tree.leaves 0 = .ok tree.expiryProof ∧
      tree.rootChildren = rootFrame.children.map (fun c => tree.witnesses.getD c []) := by
  unfold encodeFrameTree at h
  split at h
  · cases h
  · rename_i rootFrame rest
    obtain ⟨s, framed, h⟩ := Outcome.bind_ok h
    obtain ⟨root, rooted, h⟩ := Outcome.bind_ok h
    obtain ⟨witnesses, witnessed, h⟩ := Outcome.bind_ok h
    obtain ⟨rootProof, rootProved, h⟩ := Outcome.bind_ok h
    obtain ⟨expiryProof, expiryProved, h⟩ := Outcome.bind_ok h
    have result := Except.ok.inj h
    subst result
    exact ⟨rootFrame, rest, rfl, framed, rfl, rooted, witnessed, rootProved, expiryProved, rfl⟩

theorem encodeFrameTree_frames {H : Hashes} {frames : List FrameProgram} {t : TreeParams}
    {tree : EncodedTree} (h : encodeFrameTree H frames t = .ok tree) :
    tree.frameLeaves.length = frames.length ∧ tree.programs.length = frames.length ∧
      ∀ i frame, frames[i]? = some frame →
        FrameEncoded H t ⟨tree.frameLeaves, tree.programs⟩ i frame := by
  obtain ⟨rootFrame, rest, _, framed, -⟩ := encodeFrameTree_ok h
  obtain ⟨leafLength, programLength, -, each⟩ := encodeFrames_ok framed (by simp) (by simp)
  refine ⟨by simpa using leafLength, by simpa using programLength, ?_⟩
  intro i frame found
  obtain ⟨frame', found', encoded⟩ := each i (List.getElem?_eq_some_iff.mp found).1
  rw [found] at found'
  rwa [Option.some.inj found']

theorem encodeFrameTree_witnesses {H : Hashes} {frames : List FrameProgram} {t : TreeParams}
    {tree : EncodedTree} (h : encodeFrameTree H frames t = .ok tree) :
    tree.witnesses.length = frames.length ∧
      ∀ i frame, 0 < i → frames[i]? = some frame →
        WitnessEncoded H tree.leaves tree.programs tree.witnesses i frame := by
  obtain ⟨-, -, encoded⟩ := encodeFrameTree_frames h
  obtain ⟨rootFrame, rest, shape, -, -, -, witnessed, -⟩ := encodeFrameTree_ok h
  have positive : 0 < frames.length := by rw [shape]; simp
  obtain ⟨length, -, each⟩ := encodeWitnesses_ok witnessed (by simp; omega)
    (fun i frame found c member => ((encoded i frame found).children c member).1)
  refine ⟨by simpa using length, ?_⟩
  intro i frame above found
  have inside := (List.getElem?_eq_some_iff.mp found).1
  obtain ⟨frame', found', witness⟩ := each i above (by omega)
  rw [found] at found'
  rwa [Option.some.inj found']

/-- Runs that differ only in the root's value hash the same programs and nested leaves: the value
enters frame 0's leaf alone, and no program names that leaf. -/
theorem encodeFrames_rootValue {H : Hashes} {t : TreeParams} {value : U256} {frames : List FrameProgram}
    {k : Nat} {s s' r r' : Leaves} (same : s.programs = r.programs)
    (sameLeaves : ∀ j, 0 < j → s.frameLeaves[j]? = r.frameLeaves[j]?)
    (h : encodeFrames H t frames k s = .ok s')
    (h' : encodeFrames H { t with rootValue := value } frames k r = .ok r') :
    s'.programs = r'.programs ∧ ∀ j, 0 < j → s'.frameLeaves[j]? = r'.frameLeaves[j]? := by
  induction k generalizing s r with
  | zero =>
    have first := Except.ok.inj h
    have second := Except.ok.inj h'
    subst first second
    exact ⟨same, sameLeaves⟩
  | succ k ih =>
    obtain ⟨frame, found, h⟩ := Outcome.bind_ok h
    obtain ⟨frame', found', h'⟩ := Outcome.bind_ok h'
    have frames : frame = frame' :=
      Option.some.inj ((Outcome.okOr_ok.mp found).symm.trans (Outcome.okOr_ok.mp found'))
    subst frames
    obtain ⟨mid, encoded, h⟩ := Outcome.bind_ok h
    obtain ⟨mid', encoded', h'⟩ := Outcome.bind_ok h'
    obtain ⟨index, indexed, -, bounds, rfl⟩ := encodeFrame_ok encoded
    obtain ⟨index', indexed', -, -, rfl⟩ := encodeFrame_ok encoded'
    have indices : index = index' := Option.some.inj (indexed.symm.trans indexed')
    subst indices
    have names : childLeaves s.frameLeaves frame = childLeaves r.frameLeaves frame :=
      childLeaves_congr (fun c member => (bounds c member).1)
        (fun j above => sameLeaves j (Nat.zero_lt_of_lt above))
    refine ih (by simp only [names, same]) ?_ h h'
    intro j positive
    rcases eq_or_ne k j with rfl | other
    · simp only [List.getElem?_set, names, frameLeaf, Nat.ne_of_gt positive, if_false]
      have lengths : k < s.frameLeaves.length ↔ k < r.frameLeaves.length := by
        have at' := sameLeaves k positive
        constructor
        · intro inside
          rw [List.getElem?_eq_getElem inside] at at'
          exact (List.getElem?_eq_some_iff.mp at'.symm).1
        · intro inside
          rw [List.getElem?_eq_getElem inside] at at'
          exact (List.getElem?_eq_some_iff.mp at').1
      simp [lengths]
    · simp only [List.getElem?_set_ne other]
      exact sameLeaves j positive

/-- What `encodeFrameTree` binds when it answers. -/
theorem encodeFrameTree_authenticates (H : Hashes) (frames : List FrameProgram) (t : TreeParams)
    (tree : EncodedTree) (encoded : encodeFrameTree H frames t = .ok tree)
    (sizes : ∀ w ∈ tree.witnesses, w.length < 2 ^ 63) :
    -- the leaves: the expiry leaf, then one per frame in frame order
    (∃ rootFrame, frames[0]? = some rootFrame ∧
      tree.leaves = expiryLeaf H t.chainId rootFrame.target t.expiryBlock :: tree.frameLeaves ∧
      tree.rootChildren = rootFrame.children.map (fun c => tree.witnesses.getD c [])) ∧
    tree.frameLeaves.length = frames.length ∧
    -- every frame's program names its children's leaves, and its leaf hashes that program
    (∀ i frame, frames[i]? = some frame → ∃ index program leaf,
      frame.transitionIndex = some index ∧
      (frame.updates.filter StateUpdate.isNested).length = frame.children.length ∧
      (∀ c ∈ frame.children, i < c ∧ c < frames.length) ∧
      tree.programs[i]? = some program ∧
      program = encodeStateUpdatesToAbi (nameChildren frame.updates
        (frame.children.map (fun c => tree.frameLeaves.getD c 0))) ∧
      tree.frameLeaves[i]? = some leaf ∧
      leaf = (if i = 0 then rootLeaf H index frame.target t.rootSelector program t.rootValue
        else nestedLeaf H t.chainId frame.target index frame.caller frame.value frame.calldataHash
          program) ∧
      -- the witness of a nested frame decodes to what its leaf binds
      (0 < i → ∃ witness proof, tree.witnesses[i]? = some witness ∧
        decodeWitness witness = some {
          calldataHash := frame.calldataHash
          storageUpdates := program
          proof
          children := frame.children.map (fun c => tree.witnesses.getD c []) } ∧
        proof.foldl (hashPair H) leaf = tree.root)) ∧
    -- the root's and the expiry leaf's proofs
    (∃ leaf expiry, tree.frameLeaves[0]? = some leaf ∧ tree.leaves[0]? = some expiry ∧
      tree.rootProof.foldl (hashPair H) leaf = tree.root ∧
      tree.expiryProof.foldl (hashPair H) expiry = tree.root) ∧
    -- the root's value reaches nothing but the root's leaf
    ∀ value other, encodeFrameTree H frames { t with rootValue := value } = .ok other →
      other.programs = tree.programs ∧ other.leaves[0]? = tree.leaves[0]? ∧
      ∀ i, 0 < i → other.frameLeaves[i]? = tree.frameLeaves[i]? := by
  obtain ⟨rootFrame, rest, shape, framed, leaves, rooted, -, rootProved, expiryProved, children⟩ :=
    encodeFrameTree_ok encoded
  obtain ⟨leafLength, programLength, frameEncoded⟩ := encodeFrameTree_frames encoded
  obtain ⟨witnessLength, witnessEncoded⟩ := encodeFrameTree_witnesses encoded
  have comm := hashPair_comm H
  have leafAt : ∀ i, tree.leaves[i + 1]? = tree.frameLeaves[i]? := by
    intro i
    rw [leaves, List.getElem?_cons_succ]
  refine ⟨⟨rootFrame, by rw [shape]; rfl, leaves, children⟩, leafLength, ?_, ?_, ?_⟩
  · intro i frame found
    obtain ⟨count, later, named, index, program, indexed, programAt, leaf⟩ := frameEncoded i frame found
    refine ⟨index, program, _, indexed, count, ?_, programAt, ?_, leaf, rfl, ?_⟩
    · rw [← leafLength]
      exact later
    · exact Option.some.inj (programAt.symm.trans named)
    · intro positive
      obtain ⟨proof, proved, witnessAt⟩ := witnessEncoded i frame positive found
      have small := sizes _ (List.mem_of_getElem? witnessAt)
      refine ⟨_, proof, witnessAt, ?_, ?_⟩
      · rw [decodeWitness_abiEncode (lt_trans small (by decide))]
        simp [List.getD_eq_getElem?_getD, programAt]
      · exact merkleProof_folds _ comm rooted ((leafAt i).trans leaf) proved
  · have found : frames[0]? = some rootFrame := by rw [shape]; rfl
    obtain ⟨-, -, -, index, program, -, -, leaf⟩ := frameEncoded 0 rootFrame found
    have expiryAt : tree.leaves[0]? = some (expiryLeaf H t.chainId rootFrame.target t.expiryBlock) := by
      rw [leaves]
      rfl
    exact ⟨_, _, leaf, expiryAt,
      merkleProof_folds _ comm rooted ((leafAt 0).trans leaf) rootProved,
      merkleProof_folds _ comm rooted expiryAt expiryProved⟩
  · intro value other encoded'
    obtain ⟨rootFrame', rest', shape', framed', leaves', -⟩ := encodeFrameTree_ok encoded'
    obtain ⟨programs, nested⟩ := encodeFrames_rootValue rfl (fun _ _ => rfl) framed framed'
    have sameRoot : rootFrame' = rootFrame := by
      rw [shape] at shape'
      exact (List.cons.inj shape').1.symm
    refine ⟨programs.symm, ?_, fun i positive => (nested i positive).symm⟩
    rw [leaves, leaves', sameRoot]
    rfl

/-- A root that stores a slot and hands a callee its own frame. -/
def twoFrames : List FrameProgram :=
  [{ target := 0xa, caller := 0, value := 0, calldataHash := 0, transitionIndex := some 4,
     updates := [.store ⟨1, 2⟩, .nested ⟨0xb, 7, 0⟩], children := [1] },
   { target := 0xb, caller := 0xa, value := 7, calldataHash := 9, transitionIndex := some 0,
     updates := [.store ⟨3, 5⟩], children := [] }]

/-- Stand-ins that tell byte strings apart by their length and value. -/
def toyHashes : Hashes where
  keccak256 bytes := Fin.ofNat _ (bytes.length * 2 ^ 200 + Abi.ofBe bytes)
  sha256 bytes := Fin.ofNat _ (bytes.length * 2 ^ 210 + Abi.ofBe bytes)

theorem encodeFrameTree_authenticates_twoFrames :
    ∃ tree, encodeFrameTree toyHashes twoFrames ⟨0x12345678, 0, 1, 99⟩ = .ok tree ∧
      tree.frameLeaves.length = 2 ∧ ∃ leaf expiry, tree.frameLeaves[0]? = some leaf ∧
        tree.leaves[0]? = some expiry ∧ tree.rootProof.foldl (hashPair toyHashes) leaf = tree.root ∧
        tree.expiryProof.foldl (hashPair toyHashes) expiry = tree.root := by
  have answered : (encodeFrameTree toyHashes twoFrames ⟨0x12345678, 0, 1, 99⟩).toOption.any
      (fun tree => tree.witnesses.all (fun w => w.length < 2 ^ 63)) = true := by decide +kernel
  obtain ⟨tree, run, answered⟩ := Outcome.any_ok answered
  have sizes : ∀ w ∈ tree.witnesses, w.length < 2 ^ 63 := by
    intro w member
    have short := List.all_eq_true.mp answered w member
    simpa using short
  obtain ⟨-, length, -, proofs, -⟩ := encodeFrameTree_authenticates toyHashes twoFrames _ tree run sizes
  exact ⟨tree, run, length, proofs⟩

end GasAnalyzer
