import GasAnalyzer.Nested.EncodedTree
import GasAnalyzer.Sketch.Budget

/-!
# The budget of a frame tree and the bytes that settle it

The gate prices one flat encoding of every frame's ops. The settlement carries the root's program with its `NESTED`
ops, the witnesses of its children and two proofs. The gate covers it exactly when those bytes weigh no more than the
flat ones, or when its bound is already the largest there is.
-/

namespace GasAnalyzer

theorem toNat_max (a b : UInt64) : (max a b).toNat = max a.toNat b.toNat := by
  show (if a ≤ b then b else a).toNat = _
  split
  · rename_i le
    rw [UInt64.le_iff_toNat_le] at le
    omega
  · rename_i gt
    rw [UInt64.le_iff_toNat_le] at gt
    omega

/-! ### Pricing bytes -/

def zeroBytes (bytes : Bytes) : Nat := (bytes.filter (· == 0)).length

def nonzeroBytes (bytes : Bytes) : Nat := bytes.length - zeroBytes bytes

theorem zeroBytes_le (bytes : Bytes) : zeroBytes bytes ≤ bytes.length := List.length_filter_le _ _

theorem zeroBytes_append (xs ys : Bytes) : zeroBytes (xs ++ ys) = zeroBytes xs + zeroBytes ys := by
  unfold zeroBytes
  rw [List.filter_append, List.length_append]

theorem nonzeroBytes_append (xs ys : Bytes) : nonzeroBytes (xs ++ ys) = nonzeroBytes xs + nonzeroBytes ys := by
  have left := zeroBytes_le xs
  have right := zeroBytes_le ys
  unfold nonzeroBytes
  rw [zeroBytes_append, List.length_append]
  omega

/-- What `estimateAppliedPayloadGas` charges before it looks at the payload. -/
def executionGas (updates : List StateUpdate) (externalCallGas signatureFloor : UInt64) : UInt64 :=
  updates.foldl (fun gas update => satAdd gas (applyGas update))
    (satAdd (satAdd (satAdd txBase signatureFloor) externalCallGas) unboundedApplyBaseGas)

/-- The formula of `estimateAppliedPayloadGas` with its payload-byte terms taken over `payload`. -/
def payloadGas (updates : List StateUpdate) (payload : Bytes) (externalCallGas signatureFloor : UInt64) : UInt64 :=
  let gas := executionGas updates externalCallGas signatureFloor
  let gas := satAdd gas (satMul (UInt64.ofNat payload.length) unboundedApplyGasPerPayloadByte)
  let zeroBytes := UInt64.ofNat (payload.filter (· == 0)).length
  let nonzeroBytes := UInt64.ofNat payload.length - zeroBytes
  let transport := satAdd (satMul zeroBytes calldataZeroByte) (satMul nonzeroBytes calldataNonzeroByte)
  let tokens := satAdd zeroBytes (satMul nonzeroBytes calldataFloorNonzeroTokens)
  let floor := satAdd txBase (satMul tokens calldataFloorToken)
  max (satAdd gas transport) floor

theorem estimateAppliedPayloadGas_eq (updates : List StateUpdate) (externalCallGas signatureFloor : UInt64) :
    estimateAppliedPayloadGas updates externalCallGas signatureFloor =
      payloadGas updates (encodeStateUpdatesToAbi updates) externalCallGas signatureFloor := rfl

/-- The price of `bytes` on top of `execution`, before it saturates: dispatch and calldata, or the floor. -/
def price (execution : Nat) (bytes : Bytes) : Nat :=
  max (execution + 18 * zeroBytes bytes + 30 * nonzeroBytes bytes)
    (21000 + 10 * zeroBytes bytes + 40 * nonzeroBytes bytes)

theorem payloadGas_toNat {payload : Bytes} (short : payload.length < 2 ^ 63) (updates : List StateUpdate)
    (externalCallGas signatureFloor : UInt64) :
    (payloadGas updates payload externalCallGas signatureFloor).toNat =
      min (2 ^ 64 - 1) (price (executionGas updates externalCallGas signatureFloor).toNat payload) := by
  have few := zeroBytes_le payload
  have length : (UInt64.ofNat payload.length).toNat = payload.length := by
    rw [UInt64.toNat_ofNat', Nat.mod_eq_of_lt (by omega)]
  have zeros : (UInt64.ofNat (payload.filter (· == 0)).length).toNat = zeroBytes payload := by
    rw [UInt64.toNat_ofNat']
    exact Nat.mod_eq_of_lt (Nat.lt_of_le_of_lt few (by omega))
  have nonzeros : (UInt64.ofNat payload.length - UInt64.ofNat (payload.filter (· == 0)).length).toNat =
      nonzeroBytes payload := by
    rw [UInt64.toNat_sub_of_le _ _ (by rw [UInt64.le_iff_toNat_le, length, zeros]; exact few), length, zeros]
    rfl
  have total : payload.length = zeroBytes payload + nonzeroBytes payload := by
    unfold nonzeroBytes
    omega
  have bound := (executionGas updates externalCallGas signatureFloor).toNat_lt
  unfold payloadGas price
  simp only [toNat_max, toNat_satAdd, toNat_satMul, length, zeros, nonzeros,
    show unboundedApplyGasPerPayloadByte.toNat = 14 from rfl, show calldataZeroByte.toNat = 4 from rfl,
    show calldataNonzeroByte.toNat = 16 from rfl, show calldataFloorNonzeroTokens.toNat = 4 from rfl,
    show calldataFloorToken.toNat = 10 from rfl, show txBase.toNat = 21000 from rfl]
  omega

/-! ### The bytes that land -/

/-- Every frame's ops except `NESTED`, as the gate prices them. -/
def gatedUpdates (frames : List FrameProgram) : List StateUpdate :=
  frames.flatMap (fun f => withoutNestedOps f.updates)

/-- The root's program, its children's witnesses and the two proofs. -/
def EncodedTree.submitted (tree : EncodedTree) : Bytes :=
  tree.programs.headD [] ++ tree.rootChildren.flatten ++
    (tree.rootProof ++ tree.expiryProof).flatMap (fun w => Abi.word w.val)

/-- The gate's bound is at least the price of the bytes that land. -/
def Covers (frames : List FrameProgram) (tree : EncodedTree) (externalCallGas signatureFloor : UInt64) : Prop :=
  payloadGas (gatedUpdates frames) tree.submitted externalCallGas signatureFloor ≤
    estimateAppliedPayloadGas (gatedUpdates frames) externalCallGas signatureFloor

theorem covers_iff {frames : List FrameProgram} {tree : EncodedTree} (externalCallGas signatureFloor : UInt64)
    (flat : (encodeStateUpdatesToAbi (gatedUpdates frames)).length < 2 ^ 63)
    (landed : tree.submitted.length < 2 ^ 63) :
    Covers frames tree externalCallGas signatureFloor ↔
      2 ^ 64 - 1 ≤ price (executionGas (gatedUpdates frames) externalCallGas signatureFloor).toNat
          (encodeStateUpdatesToAbi (gatedUpdates frames)) ∨
        price (executionGas (gatedUpdates frames) externalCallGas signatureFloor).toNat tree.submitted ≤
          price (executionGas (gatedUpdates frames) externalCallGas signatureFloor).toNat
            (encodeStateUpdatesToAbi (gatedUpdates frames)) := by
  unfold Covers
  rw [estimateAppliedPayloadGas_eq, UInt64.le_iff_toNat_le, payloadGas_toNat flat, payloadGas_toNat landed]
  omega

/-! ### One frame -/

/-- More bytes cost more, whatever they are. -/
theorem price_append (execution : Nat) (xs : Bytes) {ys : Bytes} (some : 0 < ys.length) :
    price execution xs < price execution (xs ++ ys) := by
  have few := zeroBytes_le ys
  have total : 0 < zeroBytes ys + nonzeroBytes ys := by
    unfold nonzeroBytes
    omega
  unfold price
  rw [zeroBytes_append, nonzeroBytes_append]
  omega

theorem fillChildLeaves_single {leaf : B256} {updates filled : List StateUpdate} {children : List Nat}
    (filling : fillChildLeaves 0 [leaf] updates children = .ok filled) :
    filled = updates ∧ withoutNestedOps updates = updates ∧ children = [] := by
  induction updates generalizing filled children with
  | nil =>
    cases children with
    | nil => exact ⟨(Except.ok.inj filling).symm, rfl, rfl⟩
    | cons child rest => cases filling
  | cons update rest ih =>
    cases nested : update.isNested with
    | true =>
      cases update with
      | nested n =>
        cases children with
        | nil => cases filling
        | cons child children =>
          unfold fillChildLeaves at filling
          rw [if_pos (by simp; omega)] at filling
          cases filling
      | _ => cases nested
    | false =>
      have peeled : ∃ filled', fillChildLeaves 0 [leaf] rest children = .ok filled' ∧ filled = update :: filled' := by
        cases update with
        | nested n => cases nested
        | _ =>
          unfold fillChildLeaves at filling
          obtain ⟨filled', inner, last⟩ := Outcome.bind_ok filling
          exact ⟨filled', inner, (Except.ok.inj last).symm⟩
      obtain ⟨filled', inner, rfl⟩ := peeled
      obtain ⟨rfl, plain, none⟩ := ih inner
      refine ⟨rfl, ?_, none⟩
      unfold withoutNestedOps at plain ⊢
      rw [List.filter_cons_of_pos (by rw [nested]; rfl), plain]

/-- A tree of one frame lands its flat program and two words of proof. -/
theorem submitted_single {H : Hashes} {frame : FrameProgram} {t : TreeParams} {tree : EncodedTree}
    (encoded : encodeFrameTree H [frame] t = .ok tree) :
    ∃ proofs : Bytes, 0 < proofs.length ∧
      tree.submitted = encodeStateUpdatesToAbi (gatedUpdates [frame]) ++ proofs := by
  obtain ⟨rootFrame, rest, shape, framed, leaves, -, -, proved, -, children⟩ := encodeFrameTree_ok encoded
  obtain ⟨rfl, rfl⟩ := List.cons.inj shape
  obtain ⟨found, first, framed⟩ := Outcome.bind_ok framed
  obtain rfl : frame = found := Except.ok.inj first
  obtain ⟨s, one, last⟩ := Outcome.bind_ok framed
  obtain ⟨updates, filling, one⟩ := Outcome.bind_ok one
  obtain ⟨i, -, one⟩ := Outcome.bind_ok one
  obtain ⟨rfl, plain, childless⟩ := fillChildLeaves_single filling
  have done : _ = Leaves.mk tree.frameLeaves tree.programs := Except.ok.inj ((congrArg _ (Except.ok.inj one)).trans last)
  have frameLeaves : _ = tree.frameLeaves := congrArg Leaves.frameLeaves done
  have programs : [encodeStateUpdatesToAbi frame.updates] = tree.programs := congrArg Leaves.programs done
  rw [leaves, ← frameLeaves] at proved
  have rootProof : [expiryLeaf H t.chainId frame.target t.expiryBlock] = tree.rootProof := Except.ok.inj proved
  refine ⟨(tree.rootProof ++ tree.expiryProof).flatMap (fun w => Abi.word w.val), ?_, ?_⟩
  · rw [← rootProof, List.flatMap_append, List.length_append, List.flatMap_singleton, Abi.length_word]
    omega
  · unfold EncodedTree.submitted gatedUpdates
    rw [← programs, children, childless, List.flatMap_cons, List.flatMap_nil, List.append_nil, plain]
    simp

end GasAnalyzer
