import GasAnalyzer.Library.Sums
import GasAnalyzer.Sketch.Weights

/-!
# Which trees the gate covers

The gate covers a tree whatever the hashes exactly when its bound is full or the landed bytes weigh no more than the
flat ones with the dearest word for every hash. Where every frame is some frame's child, each but the root lands with a
program header, a `NESTED` op and a witness of its own, 576 bytes more than its share of the flat encoding, and the
flat encoding can only be dearer by the nonzero bytes of its offsets. So few ops a frame leave a full bound only.
-/

namespace GasAnalyzer

/-! ### Trees whose frames are all called -/

/-- Every frame but the root is some frame's child. -/
def Named (frames : List FrameProgram) : Prop := ∀ i < frames.length, 0 < i → ∃ f ∈ frames, i ∈ f.children

/-- What the frames add up to on their own. -/
theorem gated_sums (frames : List FrameProgram) :
    (frames.map fun f => (encodeStateUpdatesToAbi (withoutNestedOps f.updates)).length).sum + 128 =
        (encodeStateUpdatesToAbi (gatedUpdates frames)).length + 128 * frames.length ∧
      (frames.map fun f => 1 + fixedBytes (withoutNestedOps f.updates) + (withoutNestedOps f.updates).length).sum =
        frames.length + fixedBytes (gatedUpdates frames) + (gatedUpdates frames).length := by
  suffices parts : (frames.map fun f => (encodeStateUpdatesToAbi (withoutNestedOps f.updates)).length).sum =
        128 * frames.length + 64 * (gatedUpdates frames).length + (elements (gatedUpdates frames)).flatten.length ∧
      (frames.map fun f => 1 + fixedBytes (withoutNestedOps f.updates) + (withoutNestedOps f.updates).length).sum =
        frames.length + fixedBytes (gatedUpdates frames) + (gatedUpdates frames).length by
    rw [length_encode]
    omega
  induction frames with
  | nil => exact ⟨rfl, rfl⟩
  | cons f rest ih =>
    obtain ⟨lengths, nonzeros⟩ := ih
    have split : gatedUpdates (f :: rest) = withoutNestedOps f.updates ++ gatedUpdates rest := List.flatMap_cons
    have parts : elements (withoutNestedOps f.updates ++ gatedUpdates rest) =
        elements (withoutNestedOps f.updates) ++ elements (gatedUpdates rest) := by
      simp [elements, payloads, encodeStateUpdatesToSol]
    rw [List.map_cons, List.map_cons, List.sum_cons, List.sum_cons, lengths, nonzeros, length_encode, split, parts,
      fixedBytes_append, List.flatten_append, List.length_append, List.length_append, List.length_cons]
    omega

section

variable {H : Hashes} {frames : List FrameProgram} {t : TreeParams} {tree : EncodedTree}

def childrenAt (frames : List FrameProgram) (i : Nat) : List Nat := ((frames[i]?).map FrameProgram.children).getD []

theorem named_children (named : Named frames) {i : Nat} (later : 0 < i) (inside : i < frames.length) :
    ∃ q < frames.length, i ∈ childrenAt frames q := by
  obtain ⟨f, member, child⟩ := named i inside later
  obtain ⟨q, inRange, rfl⟩ := List.getElem_of_mem member
  refine ⟨q, inRange, ?_⟩
  rw [childrenAt, List.getElem?_eq_getElem inRange]
  exact child

theorem length_wordBytes (words : List B256) : (words.flatMap fun w => Abi.word w.val).length = 32 * words.length := by
  induction words with
  | nil => rfl
  | cons w rest ih =>
    rw [List.flatMap_cons, List.length_append, Abi.length_word, ih, List.length_cons]
    omega

/-- The expiry leaf and the root's are each other's sibling. -/
theorem length_proofs (encoded : encodeFrameTree H frames t = .ok tree) :
    64 ≤ ((tree.rootProof ++ tree.expiryProof).flatMap fun w => Abi.word w.val).length := by
  obtain ⟨rootFrame, rest, shape, -, -, -, -, proved, expires, -⟩ := encodeFrameTree_ok encoded
  have two : 1 < tree.leaves.length := by
    rw [length_leaves encoded, shape, List.length_cons]
    omega
  have each : ∀ i < 2, 1 ≤ (Merkle.siblings (hashPair H) tree.leaves.length tree.leaves i).length := by
    intro i small
    obtain ⟨n, positive⟩ : ∃ n, tree.leaves.length = n + 1 := ⟨tree.leaves.length - 1, by omega⟩
    have sibling : i ^^^ 1 < tree.leaves.length := by
      interval_cases i
      · exact two
      · exact Nat.zero_lt_of_lt two
    rw [positive, Merkle.siblings, if_pos two, List.getElem?_eq_getElem sibling, List.length_append]
    exact Nat.le_add_right _ _
  have first := each 0 (by decide)
  have second := each 1 (by decide)
  rw [length_wordBytes, List.length_append, (merkleProof_siblings proved).2, (merkleProof_siblings expires).2]
  omega

open Finset in
/-- With each frame's program in its witness and each witness in its parent's, what is submitted holds every program,
eight words for each frame but the root, and the two proofs. -/
theorem submitted_holds (encoded : encodeFrameTree H frames t = .ok tree) (named : Named frames) :
    ∑ i ∈ range frames.length, (tree.programs.getD i []).length + 256 * (frames.length - 1) + 64 ≤
        tree.submitted.length ∧
      ∑ i ∈ range frames.length, nonzeroBytes (tree.programs.getD i []) ≤ nonzeroBytes tree.submitted := by
  obtain ⟨rootFrame, rest, shape, -, -, -, -, proved, expires, children⟩ := encodeFrameTree_ok encoded
  obtain ⟨-, witnessed⟩ := encodeFrameTree_witnesses encoded
  have nonempty : 0 < frames.length := by
    rw [shape]
    exact Nat.succ_pos _
  have carried : tree.rootChildren = (childrenAt frames 0).map (fun c => tree.witnesses.getD c []) := by
    rw [children, childrenAt, shape]
    rfl
  have holds : ∀ i, 0 < i → i < frames.length →
      256 + (tree.programs.getD i []).length +
          ((childrenAt frames i).map fun c => (tree.witnesses.getD c []).length).sum ≤
            (tree.witnesses.getD i []).length ∧
        nonzeroBytes (tree.programs.getD i []) +
          ((childrenAt frames i).map fun c => nonzeroBytes (tree.witnesses.getD c [])).sum ≤
            nonzeroBytes (tree.witnesses.getD i []) := by
    intro i later inside
    have found : frames[i]? = some frames[i] := List.getElem?_eq_getElem inside
    obtain ⟨proof, -, witness⟩ := witnessed i _ later found
    have carries := witness_holds ⟨frames[i].calldataHash, tree.programs.getD i [], proof,
      frames[i].children.map (fun c => tree.witnesses.getD c [])⟩
    dsimp only at carries
    rw [List.map_map, List.map_map] at carries
    rw [List.getD_eq_getElem?_getD (l := tree.witnesses), witness, childrenAt, found]
    exact carries
  have lengths : ∑ i ∈ Ico 1 frames.length, (256 + (tree.programs.getD i []).length) ≤
      ((childrenAt frames 0).map fun c => (tree.witnesses.getD c []).length).sum := Sums.sum_own_le
    (fun i later inside => (holds i later inside).1) (fun i later inside => named_children named later inside) nonempty
  have nonzeros : ∑ i ∈ Ico 1 frames.length, nonzeroBytes (tree.programs.getD i []) ≤
      ((childrenAt frames 0).map fun c => nonzeroBytes (tree.witnesses.getD c [])).sum := Sums.sum_own_le
    (fun i later inside => (holds i later inside).2) (fun i later inside => named_children named later inside) nonempty
  have below : tree.rootChildren.flatten.length =
      ((childrenAt frames 0).map fun c => (tree.witnesses.getD c []).length).sum := by
    rw [carried, List.length_flatten, List.map_map]
    rfl
  have belowNonzero : nonzeroBytes tree.rootChildren.flatten =
      ((childrenAt frames 0).map fun c => nonzeroBytes (tree.witnesses.getD c [])).sum := by
    rw [carried, nonzeroBytes_flatten, List.map_map]
    rfl
  have first : tree.programs.headD [] = tree.programs.getD 0 [] := by
    rw [List.headD_eq_head?_getD, List.head?_eq_getElem?, List.getD_eq_getElem?_getD]
  have proofs := length_proofs encoded
  rw [sum_add_distrib, sum_const, Nat.card_Ico, smul_eq_mul] at lengths
  rw [range_eq_Ico, sum_eq_sum_Ico_succ_bot nonempty, sum_eq_sum_Ico_succ_bot nonempty, Nat.zero_add]
  unfold EncodedTree.submitted
  rw [List.length_append, List.length_append, nonzeroBytes_append, nonzeroBytes_append, first, below, belowNonzero]
  refine ⟨?_, ?_⟩ <;> omega

open Finset in
/-- What is submitted is longer than the flat encoding by 576 bytes for each frame but the root and the two proofs, and
of the flat encoding's nonzero bytes it can lack those of the words that move. -/
theorem submitted_weighs (encoded : encodeFrameTree H frames t = .ok tree) (named : Named frames)
    (short : tree.submitted.length < 2 ^ 63) :
    (encodeStateUpdatesToAbi (gatedUpdates frames)).length + 576 * (frames.length - 1) + 64 ≤ tree.submitted.length ∧
      nonzeroBytes (encodeStateUpdatesToAbi (gatedUpdates frames)) + (gatedUpdates frames).length ≤
        nonzeroBytes tree.submitted + ((movedWords (gatedUpdates frames) 0).map nonzeroIn).sum := by
  obtain ⟨holdsLength, holdsNonzero⟩ := submitted_holds encoded named
  obtain ⟨-, -, framed⟩ := encodeFrameTree_frames encoded
  obtain ⟨rootFrame, rest, shape, -⟩ := encodeFrameTree_ok encoded
  have nonempty : 0 < frames.length := by
    rw [shape]
    exact Nat.succ_pos _
  obtain ⟨plainLength, plainNonzero⟩ := gated_sums frames
  -- a frame's program against its plain ops
  have program : ∀ i < frames.length,
      (tree.programs.getD i []).length =
          ((frames[i]?).map fun f => (encodeStateUpdatesToAbi (withoutNestedOps f.updates)).length).getD 0 +
            192 * (childrenAt frames i).length ∧
        ((frames[i]?).map fun f =>
            1 + fixedBytes (withoutNestedOps f.updates) + (withoutNestedOps f.updates).length).getD 0 ≤
          nonzeroBytes (tree.programs.getD i []) := by
    intro i inside
    have found : frames[i]? = some frames[i] := List.getElem?_eq_getElem inside
    have one := framed i _ found
    have written : tree.programs.getD i [] =
        encodeStateUpdatesToAbi (nameChildren frames[i].updates (childLeaves tree.frameLeaves frames[i])) := by
      rw [List.getD_eq_getElem?_getD, one.program, Option.getD_some]
    have part := single_le_sum (f := fun i => (tree.programs.getD i []).length) (fun _ _ => Nat.zero_le _)
      (mem_range.mpr inside)
    rw [written] at part
    rw [written, childrenAt, found]
    refine ⟨?_, nonzero_program (by omega)⟩
    rw [length_program, one.nestedCount]
    rfl
  have lengths : ∑ i ∈ range frames.length, (tree.programs.getD i []).length =
      (frames.map fun f => (encodeStateUpdatesToAbi (withoutNestedOps f.updates)).length).sum +
        192 * ∑ i ∈ range frames.length, (childrenAt frames i).length := by
    rw [sum_congr rfl fun i inside => (program i (mem_range.mp inside)).1, sum_add_distrib, ← mul_sum,
      Sums.sum_map_eq_range]
  have nonzeros : (frames.map fun f =>
        1 + fixedBytes (withoutNestedOps f.updates) + (withoutNestedOps f.updates).length).sum ≤
      ∑ i ∈ range frames.length, nonzeroBytes (tree.programs.getD i []) := by
    rw [Sums.sum_map_eq_range]
    exact sum_le_sum fun i inside => (program i (mem_range.mp inside)).2
  -- every frame but the root takes a `NESTED` op
  have nested : frames.length - 1 ≤ ∑ i ∈ range frames.length, (childrenAt frames i).length := by
    have listed := Sums.sum_le_listed (fun _ => 1) (childrenAt frames)
      (fun i later inside => named_children named later inside)
    rw [sum_const, Nat.card_Ico, smul_eq_mul, Nat.mul_one] at listed
    refine listed.trans (le_of_eq (sum_congr rfl fun q _ => ?_))
    rw [List.map_const', List.sum_replicate_nat, Nat.mul_one]
  have first : nonzeroIn 0x40 = 1 := by decide +kernel
  rw [nonzeroBytes_encode_fixed, first]
  refine ⟨?_, ?_⟩ <;> omega

end

/-! ### The gate -/

/-- The price of the flat encoding, before it saturates. -/
def flatPrice (frames : List FrameProgram) (externalCallGas signatureFloor : UInt64) : Nat :=
  price (executionGas (gatedUpdates frames) externalCallGas signatureFloor).toNat
    (encodeStateUpdatesToAbi (gatedUpdates frames))

/-- The price of what lands of `frames` with `word` for every hash, before it saturates. -/
def landedPrice (word : B256) (frames : List FrameProgram) (externalCallGas signatureFloor : UInt64) : Nat :=
  price (executionGas (gatedUpdates frames) externalCallGas signatureFloor).toNat (landed word frames)

/-- The nonzero bytes of the flat encoding's offsets and counts. -/
def movedBytes (frames : List FrameProgram) : Nat := ((movedWords (gatedUpdates frames) 0).map nonzeroIn).sum

instance (frames : List FrameProgram) (tree : EncodedTree) (externalCallGas signatureFloor : UInt64) :
    Decidable (Covers frames tree externalCallGas signatureFloor) :=
  inferInstanceAs (Decidable (_ ≤ _))

instance decidableNamed (frames : List FrameProgram) : Decidable (Named frames) :=
  inferInstanceAs (Decidable (∀ i < frames.length, 0 < i → ∃ f ∈ frames, i ∈ f.children))

/-- A few ops for each frame but the root are too few for the flat encoding's offsets to make up for its length. -/
theorem movedBytes_few {frames : List FrameProgram} {b : Nat}
    (small : (encodeStateUpdatesToAbi (gatedUpdates frames)).length < 256 ^ b)
    (few : (b - 1) * (gatedUpdates frames).length + 3 * b ≤ 192 * (frames.length - 1)) :
    movedBytes frames ≤ (gatedUpdates frames).length + 192 * (frames.length - 1) := by
  have moved := moved_le small
  cases b with
  | zero =>
    rw [length_encode] at small
    omega
  | succ b =>
    rw [Nat.add_sub_cancel] at few
    rw [Nat.add_mul, Nat.one_mul] at moved
    unfold movedBytes
    omega

theorem price_heavier {execution nested ops moved : Nat} {flat landed : Bytes}
    (longer : flat.length + 576 * nested + 64 ≤ landed.length)
    (keeps : nonzeroBytes flat + ops ≤ nonzeroBytes landed + moved) (few : moved ≤ ops + 192 * nested) :
    price execution flat < price execution landed := by
  have counted := zeroBytes_le flat
  have counted' := zeroBytes_le landed
  unfold price
  unfold nonzeroBytes at keeps ⊢
  omega

theorem encodable_of_encoded {H : Hashes} {frames : List FrameProgram} {t : TreeParams} {tree : EncodedTree}
    (encoded : encodeFrameTree H frames t = .ok tree) (i : Nat) (f : FrameProgram) (found : frames[i]? = some f) :
    f.Encodable frames.length i := by
  obtain ⟨length, -, framed⟩ := encodeFrameTree_frames encoded
  obtain ⟨count, children, -, index, program, indexed, -⟩ := framed i f found
  refine ⟨count, ?_, ?_⟩
  · rw [← length]
    exact children
  · rw [indexed]
    rfl

/-- The gate covers a tree whatever its hashes exactly when its bound is full or the landed bytes weigh no more than
the flat ones with the dearest word for every hash, and covers no tree that weighs more with the cheapest. Of trees of
one frame, and of trees whose frames all have a parent while the flat encoding's offsets and counts have few nonzero
bytes, it covers those with a full bound only. No byte vector is `2 ^ 63` long. -/
theorem treeBudget_covers_iff (H : Hashes) (frames : List FrameProgram) (t : TreeParams) (tree : EncodedTree)
    (externalCallGas signatureFloor : UInt64) (encoded : encodeFrameTree H frames t = .ok tree)
    (flat : (encodeStateUpdatesToAbi (gatedUpdates frames)).length < 2 ^ 63)
    (short : tree.submitted.length < 2 ^ 63) :
    ((∀ (H' : Hashes) (t' : TreeParams) (tree' : EncodedTree), encodeFrameTree H' frames t' = .ok tree' →
        Covers frames tree' externalCallGas signatureFloor) ↔
      2 ^ 64 - 1 ≤ flatPrice frames externalCallGas signatureFloor ∨
        landedPrice fullWord frames externalCallGas signatureFloor ≤ flatPrice frames externalCallGas signatureFloor) ∧
    (Covers frames tree externalCallGas signatureFloor →
      2 ^ 64 - 1 ≤ flatPrice frames externalCallGas signatureFloor ∨
        landedPrice zeroWord frames externalCallGas signatureFloor ≤ flatPrice frames externalCallGas signatureFloor) ∧
    (frames.length = 1 → (Covers frames tree externalCallGas signatureFloor ↔
      2 ^ 64 - 1 ≤ flatPrice frames externalCallGas signatureFloor)) ∧
    (Named frames → movedBytes frames ≤ (gatedUpdates frames).length + 192 * (frames.length - 1) →
      (Covers frames tree externalCallGas signatureFloor ↔
        2 ^ 64 - 1 ≤ flatPrice frames externalCallGas signatureFloor)) := by
  have covers := covers_iff externalCallGas signatureFloor flat short
  have dearest := landed_full_lighter encoded
  refine ⟨⟨?_, ?_⟩, ?_, ?_, ?_⟩
  · intro all
    have nonempty : frames ≠ [] := by
      rintro rfl
      cases encoded
    -- hash functions that give the full word everywhere land the dearest bytes
    obtain ⟨tree', answered⟩ := encodeFrameTree_answers (constantHashes fullWord) t nonempty
      (encodable_of_encoded encoded)
    have lands := landed_constant answered
    have fits : tree'.submitted.length < 2 ^ 63 := by
      rw [lands, dearest.length]
      exact short
    have covered := (covers_iff externalCallGas signatureFloor flat fits).mp (all _ t tree' answered)
    rwa [lands] at covered
  · intro either H' t' tree' encoded'
    have lighter := landed_full_lighter encoded'
    have fits : tree'.submitted.length < 2 ^ 63 := by
      rw [← lighter.length, dearest.length]
      exact short
    refine (covers_iff externalCallGas signatureFloor flat fits).mpr (either.imp_right fun cheaper => ?_)
    exact (lighter.price_le _).trans cheaper
  · intro covered
    exact (covers.mp covered).imp_right ((landed_zero_lighter encoded).price_le _).trans
  · intro single
    obtain ⟨frame, rfl⟩ := List.length_eq_one_iff.mp single
    obtain ⟨proofs, some, lands⟩ := submitted_single encoded
    rw [covers]
    refine ⟨fun either => either.resolve_right ?_, Or.inl⟩
    rw [lands]
    exact Nat.not_le.mpr (price_append _ _ some)
  · intro named few
    obtain ⟨longer, keeps⟩ := submitted_weighs encoded named short
    rw [covers]
    refine ⟨fun either => either.resolve_right ?_, Or.inl⟩
    exact Nat.not_le.mpr (price_heavier longer keeps few)

/-- A root without ops and a frame no one calls. -/
def orphanFrame : List FrameProgram :=
  [{ target := 0xa, caller := 0, value := 0, calldataHash := 0, transitionIndex := some 4,
     updates := [], children := [] },
   { target := 0xb, caller := 0xa, value := 0, calldataHash := 9, transitionIndex := some 0,
     updates := [.store ⟨1, fullWord⟩, .store ⟨2, fullWord⟩], children := [] }]

/-- A root that calls a frame that calls a third. -/
def threeFrames : List FrameProgram :=
  [{ target := 0xa, caller := 0, value := 0, calldataHash := 0, transitionIndex := some 4,
     updates := [.store ⟨1, 2⟩, .nested ⟨0xb, 7, 0⟩], children := [1] },
   { target := 0xb, caller := 0xa, value := 7, calldataHash := 9, transitionIndex := some 0,
     updates := [.nested ⟨0xc, 0, 0⟩, .store ⟨3, 5⟩], children := [2] },
   { target := 0xc, caller := 0xb, value := 0, calldataHash := 8, transitionIndex := some 2,
     updates := [.log0 [1, 2, 3]], children := [] }]

theorem orphanFrame_encodable (i : Nat) (f : FrameProgram) (found : orphanFrame[i]? = some f) :
    f.Encodable orphanFrame.length i := by
  rcases i with _ | _ | i
  · obtain rfl := Option.some.inj found
    exact ⟨rfl, by decide, rfl⟩
  · obtain rfl := Option.some.inj found
    exact ⟨rfl, by decide, rfl⟩
  · cases found

theorem threeFrames_encodable (i : Nat) (f : FrameProgram) (found : threeFrames[i]? = some f) :
    f.Encodable threeFrames.length i := by
  rcases i with _ | _ | _ | i
  · obtain rfl := Option.some.inj found
    exact ⟨rfl, by decide, rfl⟩
  · obtain rfl := Option.some.inj found
    exact ⟨rfl, by decide, rfl⟩
  · obtain rfl := Option.some.inj found
    exact ⟨rfl, by decide, rfl⟩
  · cases found

/-- What the uncalled frame adds to the flat encoding covers the proofs; a chain of three frames is not covered. -/
theorem treeBudget_covers_orphanFrame :
    (∃ tree, encodeFrameTree toyHashes orphanFrame ⟨0x12345678, 0, 1, 99⟩ = .ok tree ∧
      Covers orphanFrame tree 0 turetzkyUpperGasLimitBls) ∧
    ∃ tree, encodeFrameTree toyHashes threeFrames ⟨0x12345678, 0, 1, 99⟩ = .ok tree ∧
      ¬Covers threeFrames tree 0 turetzkyUpperGasLimitBls := by
  obtain ⟨orphaned, run⟩ := encodeFrameTree_answers toyHashes ⟨0x12345678, 0, 1, 99⟩ (by decide) orphanFrame_encodable
  obtain ⟨called, run'⟩ := encodeFrameTree_answers toyHashes ⟨0x12345678, 0, 1, 99⟩ (by decide) threeFrames_encodable
  have fits : orphaned.submitted.length < 2 ^ 63 := by
    rw [(landed_zero_lighter run).length]
    decide +kernel
  have fits' : called.submitted.length < 2 ^ 63 := by
    rw [(landed_zero_lighter run').length]
    decide +kernel
  obtain ⟨uniform, -⟩ := treeBudget_covers_iff toyHashes orphanFrame _ orphaned 0 turetzkyUpperGasLimitBls run
    (by decide +kernel) fits
  obtain ⟨-, -, -, chain⟩ := treeBudget_covers_iff toyHashes threeFrames _ called 0 turetzkyUpperGasLimitBls run'
    (by decide +kernel) fits'
  refine ⟨⟨orphaned, run, ?_⟩, called, run', ?_⟩
  · exact uniform.mpr (Or.inr (by decide +kernel)) _ _ _ run
  · have few : movedBytes threeFrames ≤ (gatedUpdates threeFrames).length + 192 * (threeFrames.length - 1) :=
      movedBytes_few (b := 2) (by decide +kernel) (by decide +kernel)
    rw [chain (by decide) few]
    decide +kernel

/-- A root with one nested child: what lands is dearer than what the gate priced. -/
theorem treeBudget_twoFrames : ∃ tree, encodeFrameTree toyHashes twoFrames ⟨0x12345678, 0, 1, 99⟩ = .ok tree ∧
    ¬Covers twoFrames tree 0 turetzkyUpperGasLimitBls := by
  have answered : (encodeFrameTree toyHashes twoFrames ⟨0x12345678, 0, 1, 99⟩).toOption.any
      (fun tree => !decide (Covers twoFrames tree 0 turetzkyUpperGasLimitBls)) = true := by decide +kernel
  obtain ⟨tree, run, answered⟩ := Outcome.any_ok answered
  refine ⟨tree, run, ?_⟩
  simpa only [Bool.not_eq_true', decide_eq_false_iff_not] using answered

end GasAnalyzer
