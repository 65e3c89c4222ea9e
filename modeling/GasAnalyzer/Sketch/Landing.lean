import GasAnalyzer.Nested.Encodable
import GasAnalyzer.Sketch.Appending

/-!
# The bytes a frame tree lands

Hashes enter the bytes of a settlement as words only: the leaves that `NESTED` ops name and the proofs. Everything else
is laid out from the frames' ops and children, so with one word written for every hash the bytes are a function of the
frames, and among all hash functions the words of zeros give the fewest nonzero bytes and the largest word the most.
-/

namespace GasAnalyzer

open Abi (Piece layout heads headSize tails)

/-! ### Bytes with fewer nonzero ones -/

/-- As many bytes, and no more of them nonzero. -/
structure Lighter (xs ys : Bytes) : Prop where
  length : ys.length = xs.length
  nonzero : nonzeroBytes xs ≤ nonzeroBytes ys

variable {xs ys xs' ys' : Bytes}

theorem Lighter.refl (xs : Bytes) : Lighter xs xs := ⟨rfl, Nat.le_refl _⟩

theorem Lighter.append (first : Lighter xs ys) (second : Lighter xs' ys') : Lighter (xs ++ xs') (ys ++ ys') := by
  refine ⟨?_, ?_⟩
  · rw [List.length_append, List.length_append, first.length, second.length]
  · rw [nonzeroBytes_append, nonzeroBytes_append]
    exact Nat.add_le_add first.nonzero second.nonzero

theorem Lighter.flatten {xss yss : List Bytes} (each : List.Forall₂ Lighter xss yss) :
    Lighter xss.flatten yss.flatten := by
  induction each with
  | nil => exact .refl _
  | cons first _ ih => exact first.append ih

theorem lengths_lighter {xss yss : List Bytes} (each : List.Forall₂ Lighter xss yss) :
    yss.map List.length = xss.map List.length := by
  induction each with
  | nil => rfl
  | cons first _ ih => rw [List.map_cons, List.map_cons, first.length, ih]

theorem Lighter.price_le (lighter : Lighter xs ys) (execution : Nat) : price execution xs ≤ price execution ys := by
  obtain ⟨length, nonzero⟩ := lighter
  have few := zeroBytes_le xs
  have few' := zeroBytes_le ys
  unfold price
  unfold nonzeroBytes at nonzero ⊢
  omega

theorem Lighter.encodeBytes (lighter : Lighter xs ys) : Lighter (Abi.encodeBytes xs) (Abi.encodeBytes ys) := by
  unfold Abi.encodeBytes
  rw [lighter.length]
  exact ((Lighter.refl _).append lighter).append (.refl _)

/-- Values in place or in the tail that differ in their nonzero bytes only. -/
inductive PieceLighter : Piece → Piece → Prop where
  | static {a b : Bytes} (lighter : Lighter a b) : PieceLighter (.static a) (.static b)
  | dynamic {a b : Bytes} (lighter : Lighter a b) : PieceLighter (.dynamic a) (.dynamic b)

theorem PieceLighter.refl (p : Piece) : PieceLighter p p := by
  cases p with
  | static bytes => exact .static (.refl bytes)
  | dynamic bytes => exact .dynamic (.refl bytes)

theorem Lighter.heads {ps qs : List Piece} (each : List.Forall₂ PieceLighter ps qs) (offset : Nat) :
    Lighter (Abi.heads offset ps) (Abi.heads offset qs) := by
  induction each generalizing offset with
  | nil => exact .refl _
  | cons first _ ih =>
    cases first with
    | static lighter => exact lighter.append (ih offset)
    | dynamic lighter =>
      unfold Abi.heads
      rw [lighter.length]
      exact (Lighter.refl _).append (ih _)

theorem Lighter.layout {ps qs : List Piece} (each : List.Forall₂ PieceLighter ps qs) :
    Lighter (Abi.layout ps) (Abi.layout qs) := by
  have sizes : Abi.headSize qs = Abi.headSize ps := by
    have lengths := (Lighter.heads each 0).length
    rwa [Abi.length_heads, Abi.length_heads] at lengths
  unfold Abi.layout
  rw [sizes]
  refine (Lighter.heads each _).append ?_
  unfold Abi.tails
  rw [List.flatMap_def, List.flatMap_def]
  refine Lighter.flatten (List.forall₂_map_left_iff.mpr (List.forall₂_map_right_iff.mpr (each.imp ?_)))
  intro p q lighter
  cases lighter with
  | static => exact .refl _
  | dynamic lighter => exact lighter

/-! ### Programs and witnesses -/

abbrev WordLighter (a b : B256) : Prop := Lighter (Abi.word a.val) (Abi.word b.val)

/-- Ops of one type whose fields differ in their nonzero bytes only. -/
structure OpLighter (u v : StateUpdate) : Prop where
  type : v.type = u.type
  fields : Lighter u.abiEncodeSequence v.abiEncodeSequence

theorem nameChildren_lighter (updates : List StateUpdate) {leaves leaves' : List B256}
    (each : List.Forall₂ WordLighter leaves leaves') :
    List.Forall₂ OpLighter (nameChildren updates leaves) (nameChildren updates leaves') := by
  induction updates generalizing leaves leaves' with
  | nil => exact .nil
  | cons update rest ih =>
    cases nested : update.isNested with
    | false =>
      rw [nameChildren_plain nested, nameChildren_plain nested]
      exact .cons ⟨rfl, .refl _⟩ (ih each)
    | true =>
      cases update with
      | nested n =>
        cases each with
        | nil => exact .cons ⟨rfl, .refl _⟩ (ih .nil)
        | cons first others =>
          refine .cons ⟨rfl, Lighter.layout ?_⟩ (ih others)
          exact .cons (.refl _) (.cons (.refl _) (.cons (.static first) .nil))
      | _ => cases nested

theorem encodeBytesElement_lighter (lighter : Lighter xs ys) :
    Lighter (encodeBytesElement xs) (encodeBytesElement ys) := by
  unfold encodeBytesElement
  rw [lighter.length]
  dsimp only
  split
  · exact ((Lighter.refl _).append lighter).append (.refl _)
  · exact (Lighter.refl _).append lighter

theorem encode_lighter {us vs : List StateUpdate} (each : List.Forall₂ OpLighter us vs) :
    Lighter (encodeStateUpdatesToAbi us) (encodeStateUpdatesToAbi vs) := by
  have count : vs.length = us.length := each.length_eq.symm
  have types : vs.map StateUpdate.type = us.map StateUpdate.type := by
    induction each with
    | nil => rfl
    | cons first _ ih => rw [List.map_cons, List.map_cons, first.type, ih (by simpa using count)]
  have lighter : List.Forall₂ Lighter (elements us) (elements vs) := by
    unfold elements payloads encodeStateUpdatesToSol
    simp only [List.map_map, List.forall₂_map_left_iff, List.forall₂_map_right_iff]
    exact each.imp fun _ _ both => encodeBytesElement_lighter both.fields
  have lengths := lengths_lighter lighter
  have weights : ((elements us).map nonzeroBytes).sum ≤ ((elements vs).map nonzeroBytes).sum := by
    rw [← nonzeroBytes_flatten, ← nonzeroBytes_flatten]
    exact (Lighter.flatten lighter).nonzero
  refine ⟨?_, ?_⟩
  · rw [length_encode, length_encode, count, (Lighter.flatten lighter).length]
  · rw [nonzeroBytes_encode, nonzeroBytes_encode, types, movedWords, movedWords, count, lengths]
    omega

theorem witness_lighter {calldataHash : B256} {program program' : Bytes} {proof proof' : List B256}
    {children children' : List Bytes} (programs : Lighter program program')
    (proofs : List.Forall₂ WordLighter proof proof') (below : List.Forall₂ Lighter children children') :
    Lighter (Witness.abiEncode ⟨calldataHash, program, proof, children⟩)
      (Witness.abiEncode ⟨calldataHash, program', proof', children'⟩) := by
  have words : Lighter (Abi.encodeWordArray (proof.map Fin.val)) (Abi.encodeWordArray (proof'.map Fin.val)) := by
    unfold Abi.encodeWordArray
    rw [List.length_map, List.length_map, proofs.length_eq]
    refine (Lighter.refl _).append (Lighter.layout ?_)
    simp only [List.map_map, List.forall₂_map_left_iff, List.forall₂_map_right_iff]
    exact proofs.imp fun _ _ lighter => .static lighter
  have arrays : Lighter (Abi.encodeBytesArray children) (Abi.encodeBytesArray children') := by
    unfold Abi.encodeBytesArray
    rw [below.length_eq]
    refine (Lighter.refl _).append (Lighter.layout ?_)
    simp only [List.forall₂_map_left_iff, List.forall₂_map_right_iff]
    exact below.imp fun _ _ lighter => .dynamic lighter.encodeBytes
  refine Lighter.layout (.cons (.dynamic (Lighter.layout ?_)) .nil)
  exact .cons (.refl _) (.cons (.dynamic programs.encodeBytes) (.cons (.dynamic words) (.cons (.dynamic arrays) .nil)))

/-! ### What lands, whatever the hashes -/

section

variable (frames : List FrameProgram) (leaf : Nat → B256) (proof : Nat → List B256)

/-- A frame's program, its `NESTED` ops naming the given leaves. -/
def landingProgram (f : FrameProgram) : Bytes :=
  encodeStateUpdatesToAbi (nameChildren f.updates (f.children.map leaf))

/-- Frame `i`'s witness with the given leaves and proofs; children come after their parent, which bounds the fuel. -/
def landingWitness : Nat → Nat → Bytes
  | 0, _ => []
  | fuel + 1, i => ((frames[i]?).map fun f => Witness.abiEncode {
      calldataHash := f.calldataHash
      storageUpdates := landingProgram leaf f
      proof := proof (i + 1)
      children := f.children.map (landingWitness fuel) }).getD []

/-- The root's program, its children's witnesses and the two proofs. -/
def landing : Bytes :=
  match frames with
  | [] => []
  | root :: _ => landingProgram leaf root ++
      (root.children.map (landingWitness frames leaf proof frames.length)).flatten ++
      (proof 1 ++ proof 0).flatMap (fun w => Abi.word w.val)

end

/-- The words of the proof of leaf `i` of `n`. -/
def proofLength (n i : Nat) : Nat := (Merkle.siblings (fun _ _ => ()) n (List.replicate n ()) i).length

/-- What lands of `frames`, with `word` written for every hash: the leaves that `NESTED` ops name and the proofs. -/
def landed (word : B256) (frames : List FrameProgram) : Bytes :=
  landing frames (fun _ => word) (fun i => List.replicate (proofLength (frames.length + 1) i) word)

section

variable {frames : List FrameProgram} {leaf leaf' : Nat → B256} {proof proof' : Nat → List B256}

theorem landingProgram_lighter (leaves : ∀ i, WordLighter (leaf i) (leaf' i)) (f : FrameProgram) :
    Lighter (landingProgram leaf f) (landingProgram leaf' f) := by
  apply encode_lighter
  apply nameChildren_lighter
  simp only [List.forall₂_map_left_iff, List.forall₂_map_right_iff]
  exact List.forall₂_same.mpr fun i _ => leaves i

theorem landingWitness_lighter (leaves : ∀ i, WordLighter (leaf i) (leaf' i))
    (proofs : ∀ i, i ≤ frames.length → List.Forall₂ WordLighter (proof i) (proof' i)) (fuel i : Nat) :
    Lighter (landingWitness frames leaf proof fuel i) (landingWitness frames leaf' proof' fuel i) := by
  induction fuel generalizing i with
  | zero => exact .refl _
  | succ fuel ih =>
    rw [landingWitness, landingWitness]
    cases found : frames[i]? with
    | none => exact Lighter.refl []
    | some f =>
      have inside := (List.getElem?_eq_some_iff.mp found).1
      rw [Option.map_some, Option.map_some, Option.getD_some, Option.getD_some]
      refine witness_lighter (landingProgram_lighter leaves f) (proofs (i + 1) inside) ?_
      simp only [List.forall₂_map_left_iff, List.forall₂_map_right_iff]
      exact List.forall₂_same.mpr fun c _ => ih c

theorem landing_lighter (leaves : ∀ i, WordLighter (leaf i) (leaf' i))
    (proofs : ∀ i, i ≤ frames.length → List.Forall₂ WordLighter (proof i) (proof' i)) :
    Lighter (landing frames leaf proof) (landing frames leaf' proof') := by
  cases frames with
  | nil => exact .refl _
  | cons root rest =>
    refine ((landingProgram_lighter leaves root).append (Lighter.flatten ?_)).append ?_
    · simp only [List.forall₂_map_left_iff, List.forall₂_map_right_iff]
      exact List.forall₂_same.mpr fun c _ => landingWitness_lighter leaves proofs _ c
    · rw [List.flatMap_def, List.flatMap_def]
      refine Lighter.flatten ?_
      simp only [List.forall₂_map_left_iff, List.forall₂_map_right_iff]
      exact List.rel_append (proofs 1 (by simp)) (proofs 0 (by simp))

end

/-! ### What a tree submits -/

section

variable {H : Hashes} {frames : List FrameProgram} {t : TreeParams} {tree : EncodedTree}

theorem childLeaves_default {children : List Nat} {leaves : List B256} (inside : ∀ c ∈ children, c < leaves.length)
    (d d' : B256) : children.map (fun c => leaves.getD c d) = children.map (fun c => leaves.getD c d') := by
  refine List.map_congr_left fun c member => ?_
  have found := inside c member
  simp only [List.getD_eq_getElem?_getD, List.getElem?_eq_getElem found, Option.getD_some]

theorem encoded_program (encoded : encodeFrameTree H frames t = .ok tree) (d : B256) {i : Nat} {f : FrameProgram}
    (found : frames[i]? = some f) :
    tree.programs[i]? = some (landingProgram (fun c => tree.frameLeaves.getD c d) f) := by
  obtain ⟨-, -, each⟩ := encodeFrameTree_frames encoded
  have program := (each i f found).program
  have names : f.children.map (fun c => tree.frameLeaves.getD c d) = childLeaves tree.frameLeaves f :=
    childLeaves_default (fun c member => ((each i f found).children c member).2) d 0
  rw [landingProgram, names]
  exact program

theorem merkleProof_siblings {leaves : List B256} {i : Nat} {found : List B256}
    (proved : merkleProof (hashPair H) leaves i = .ok found) :
    i < leaves.length ∧ found = Merkle.siblings (hashPair H) leaves.length leaves i := by
  unfold merkleProof at proved
  split at proved
  · cases proved
  · rename_i inside
    exact ⟨Nat.lt_of_not_le inside, (Except.ok.inj proved).symm⟩

theorem landingWitness_encoded (encoded : encodeFrameTree H frames t = .ok tree) (d : B256) {fuel i : Nat}
    (later : 0 < i) (enough : frames.length ≤ i + fuel) :
    landingWitness frames (fun c => tree.frameLeaves.getD c d)
      (fun i => Merkle.siblings (hashPair H) tree.leaves.length tree.leaves i) fuel i = tree.witnesses.getD i [] := by
  obtain ⟨length, each⟩ := encodeFrameTree_witnesses encoded
  obtain ⟨leaves, -, framed⟩ := encodeFrameTree_frames encoded
  induction fuel generalizing i with
  | zero =>
    rw [landingWitness, List.getD_eq_getElem?_getD, List.getElem?_eq_none (by omega)]
    rfl
  | succ fuel ih =>
    rw [landingWitness]
    cases found : frames[i]? with
    | none =>
      rw [List.getElem?_eq_none_iff] at found
      rw [List.getD_eq_getElem?_getD, List.getElem?_eq_none (by omega)]
      rfl
    | some f =>
      obtain ⟨proof, proved, witness⟩ := each i f later found
      obtain ⟨-, rfl⟩ := merkleProof_siblings proved
      have below : f.children.map (landingWitness frames (fun c => tree.frameLeaves.getD c d)
          (fun i => Merkle.siblings (hashPair H) tree.leaves.length tree.leaves i) fuel) =
            f.children.map (fun c => tree.witnesses.getD c []) := by
        refine List.map_congr_left fun c member => ?_
        have after := ((framed i f found).children c member).1
        exact ih (by omega) (by omega)
      rw [List.getD_eq_getElem?_getD, witness, Option.map_some, Option.getD_some, Option.getD_some, below,
        List.getD_eq_getElem?_getD, encoded_program encoded d found, Option.getD_some]

/-- What a tree submits is laid out from its frames, its leaves and its proofs. -/
theorem submitted_eq (encoded : encodeFrameTree H frames t = .ok tree) (d : B256) :
    tree.submitted = landing frames (fun c => tree.frameLeaves.getD c d)
      (fun i => Merkle.siblings (hashPair H) tree.leaves.length tree.leaves i) := by
  obtain ⟨rootFrame, rest, shape, -, -, -, -, proved, expires, children⟩ := encodeFrameTree_ok encoded
  obtain ⟨-, -, framed⟩ := encodeFrameTree_frames encoded
  have first : frames[0]? = some rootFrame := by rw [shape]; rfl
  have program := encoded_program encoded d first
  have below : rootFrame.children.map (landingWitness frames (fun c => tree.frameLeaves.getD c d)
      (fun i => Merkle.siblings (hashPair H) tree.leaves.length tree.leaves i) frames.length) = tree.rootChildren := by
    rw [children]
    refine List.map_congr_left fun c member => ?_
    exact landingWitness_encoded encoded d ((framed 0 rootFrame first).children c member).1 (Nat.le_add_left _ _)
  unfold EncodedTree.submitted
  rw [(merkleProof_siblings proved).2, (merkleProof_siblings expires).2, ← below, List.headD_eq_head?_getD,
    List.head?_eq_getElem?, program, Option.getD_some, shape]
  rfl

theorem length_leaves (encoded : encodeFrameTree H frames t = .ok tree) :
    tree.leaves.length = frames.length + 1 := by
  obtain ⟨leaves, -⟩ := encodeFrameTree_frames encoded
  obtain ⟨rootFrame, rest, -, -, same, -⟩ := encodeFrameTree_ok encoded
  rw [same, List.length_cons, leaves]

theorem length_proof (encoded : encodeFrameTree H frames t = .ok tree) (i : Nat) :
    (Merkle.siblings (hashPair H) tree.leaves.length tree.leaves i).length = proofLength (frames.length + 1) i := by
  rw [length_leaves encoded]
  exact Merkle.length_siblings _ _ _ (by rw [length_leaves encoded, List.length_replicate]) i

end

/-! ### The cheapest and the dearest hashes -/

def zeroWord : B256 := 0

/-- The word whose bytes are all `0xff`. -/
def fullWord : B256 := 2 ^ 256 - 1

theorem word_zero_lighter (w : B256) : WordLighter zeroWord w := by
  have none : nonzeroBytes (Abi.word zeroWord.val) = 0 := by decide +kernel
  refine ⟨?_, ?_⟩
  · rw [Abi.length_word, Abi.length_word]
  · rw [none]
    exact Nat.zero_le _

theorem word_full_lighter (w : B256) : WordLighter w fullWord := by
  have all : nonzeroBytes (Abi.word fullWord.val) = 32 := by decide +kernel
  refine ⟨?_, ?_⟩
  · rw [Abi.length_word, Abi.length_word]
  · have size := Abi.length_word w.val
    rw [all]
    unfold nonzeroBytes
    omega

theorem proof_lighter {xs ys : List B256} (same : xs.length = ys.length) (each : ∀ x ∈ xs, ∀ y ∈ ys, WordLighter x y) :
    List.Forall₂ WordLighter xs ys := by
  rw [List.forall₂_iff_get]
  exact ⟨same, fun i inside inside' => each _ (List.get_mem _ _) _ (List.get_mem _ _)⟩

section

variable {H : Hashes} {frames : List FrameProgram} {t : TreeParams} {tree : EncodedTree}

/-- Whatever the hashes, the bytes submitted are no lighter than those with zeros for every hash, -/
theorem landed_zero_lighter (encoded : encodeFrameTree H frames t = .ok tree) :
    Lighter (landed zeroWord frames) tree.submitted := by
  rw [submitted_eq encoded 0]
  refine landing_lighter (fun i => word_zero_lighter _) fun i _ => ?_
  refine proof_lighter (by rw [List.length_replicate, length_proof encoded]) ?_
  intro x member y _
  rw [List.eq_of_mem_replicate member]
  exact word_zero_lighter y

/-- and no heavier than those with the full word for every hash. -/
theorem landed_full_lighter (encoded : encodeFrameTree H frames t = .ok tree) :
    Lighter tree.submitted (landed fullWord frames) := by
  rw [submitted_eq encoded 0]
  refine landing_lighter (fun i => word_full_lighter _) fun i _ => ?_
  refine proof_lighter (by rw [List.length_replicate, length_proof encoded]) ?_
  intro x _ y member
  rw [List.eq_of_mem_replicate member]
  exact word_full_lighter x

end

/-- Hash functions that give `word` on every input. -/
def constantHashes (word : B256) : Hashes := ⟨fun _ => word, fun _ => word⟩

theorem landed_constant {word : B256} {frames : List FrameProgram} {t : TreeParams} {tree : EncodedTree}
    (encoded : encodeFrameTree (constantHashes word) frames t = .ok tree) : tree.submitted = landed word frames := by
  obtain ⟨length, -, framed⟩ := encodeFrameTree_frames encoded
  obtain ⟨rootFrame, rest, -, -, same, -⟩ := encodeFrameTree_ok encoded
  have leaves : ∀ leaf ∈ tree.frameLeaves, leaf = word := by
    intro leaf member
    obtain ⟨i, inside, rfl⟩ := List.getElem_of_mem member
    have here : frames[i]? = some frames[i] := List.getElem?_eq_getElem (length ▸ inside)
    obtain ⟨index, program, -, -, hashed⟩ := (framed i _ here).leaf
    rw [List.getElem?_eq_getElem inside, Option.some_inj] at hashed
    rw [hashed, frameLeaf]
    split <;> rfl
  have all : ∀ leaf ∈ tree.leaves, leaf = word := by
    intro leaf member
    rw [same] at member
    rcases List.mem_cons.mp member with rfl | frame
    · rfl
    · exact leaves leaf frame
  have named : (fun c => tree.frameLeaves.getD c word) = fun _ => word := by
    funext c
    rw [List.getD_eq_getElem?_getD]
    cases found : tree.frameLeaves[c]? with
    | none => rfl
    | some leaf => exact leaves leaf (List.mem_of_getElem? found)
  have proofs : (fun i => Merkle.siblings (hashPair (constantHashes word)) tree.leaves.length tree.leaves i) =
      fun i => List.replicate (proofLength (frames.length + 1) i) word := by
    funext i
    rw [← length_proof encoded i]
    have closed : ∀ a b, hashPair (constantHashes word) a b = word := fun _ _ => rfl
    exact List.eq_replicate_of_mem (Merkle.siblings_all (p := fun leaf => leaf = word) _ closed _ all i)
  rw [submitted_eq encoded word, named, proofs]
  rfl

end GasAnalyzer
