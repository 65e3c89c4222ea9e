import GasAnalyzer.Effects.Positions
import GasAnalyzer.Core.EvmSketch

/-!
# The payload budget of the unbounded profile

A checked program costs at most the budget. Both entry points check what they read off a struct-log
trace; the frame-tree entry point returns the net form of a call before its check.
-/

namespace GasAnalyzer

open Outcome

/-! ### Saturating sums only grow -/

theorem le_satAdd_left (a b : UInt64) : a ≤ satAdd a b := by
  unfold satAdd
  split
  · rename_i fits
    rw [UInt64.le_iff_toNat_le, UInt64.toNat_add, Nat.mod_eq_of_lt fits]
    omega
  · rw [UInt64.le_iff_toNat_le]
    have bound := a.toNat_lt
    simp
    omega

theorem le_satAdd_right (a b : UInt64) : b ≤ satAdd a b := by
  have swap : satAdd a b = satAdd b a := by
    unfold satAdd
    rw [Nat.add_comm, UInt64.add_comm]
  rw [swap]
  exact le_satAdd_left b a

theorem le_foldl_satAdd (updates : List StateUpdate) (gas : UInt64) :
    gas ≤ updates.foldl (fun gas update => satAdd gas (applyGas update)) gas := by
  induction updates generalizing gas with
  | nil => exact UInt64.le_refl gas
  | cons update rest ih => exact UInt64.le_trans (le_satAdd_left _ _) (ih _)

theorem applyGas_le_foldl {updates : List StateUpdate} {update : StateUpdate} (member : update ∈ updates)
    (gas : UInt64) :
    applyGas update ≤ updates.foldl (fun gas update => satAdd gas (applyGas update)) gas := by
  induction updates generalizing gas with
  | nil => cases member
  | cons first rest ih =>
    rcases List.mem_cons.mp member with rfl | later
    · exact UInt64.le_trans (le_satAdd_right _ _) (le_foldl_satAdd rest _)
    · exact ih later _

theorem le_max_uint64 (a b : UInt64) : a ≤ max a b := by
  show a ≤ if a ≤ b then b else a
  split
  · assumption
  · exact UInt64.le_refl a

/-- A program costs at least what any one of its ops costs. -/
theorem applyGas_le_estimate {updates : List StateUpdate} {update : StateUpdate}
    (member : update ∈ updates) (externalCallGas signatureFloor : UInt64) :
    applyGas update ≤ estimateAppliedPayloadGas updates externalCallGas signatureFloor := by
  unfold estimateAppliedPayloadGas
  refine UInt64.le_trans ?_ (le_max_uint64 _ _)
  refine UInt64.le_trans ?_ (le_satAdd_left _ _)
  refine UInt64.le_trans ?_ (le_satAdd_left _ _)
  exact applyGas_le_foldl member _

/-! ### What the check promises -/

theorem countUpdates_creates {updates : List StateUpdate} {index : Nat} {cost cost' : UnboundedCost}
    (counted : countUpdates false updates index cost = .ok cost') :
    ∀ update ∈ updates, update.opcode.isCreate = false := by
  induction updates generalizing index cost with
  | nil => simp
  | cons first rest ih =>
    obtain ⟨next, head, tail⟩ := bind_ok counted
    intro update member
    rcases List.mem_cons.mp member with rfl | later
    · cases update with
      | create data value => cases head
      | create2 salt data value => cases head
      | _ => rfl
    · exact ih tail update later

theorem validate_ok {updates : List StateUpdate} {replayedGas signatureFloor budget : UInt64}
    {createsReplayable : Bool} {cost : UnboundedCost}
    (passed : validate updates replayedGas createsReplayable signatureFloor budget = .ok cost) :
    estimateAppliedPayloadGas updates replayedGas signatureFloor ≤ budget ∧
      (createsReplayable = false → ∀ update ∈ updates, update.opcode.isCreate = false) := by
  obtain ⟨counts, counted, rest⟩ := bind_ok passed
  dsimp only at rest
  split at rest
  · cases rest
  · rename_i fits
    refine ⟨UInt64.not_lt.mp fits, ?_⟩
    rintro rfl
    exact countUpdates_creates counted

/-- The payload can be applied within the budget under the dearer signature scheme. -/
def WithinBudget (updates : List StateUpdate) (replayedGas : UInt64) : Prop :=
  estimateAppliedPayloadGas updates replayedGas SignatureType.bls.turetzkyUpperGasLimit ≤
    unboundedPayloadGasBudget

theorem checkBudget_unbounded {consumer : Address}
    {check : UInt64 → Except UnboundedCostViolation UnboundedCost} {done : Unit}
    (passed : checkBudget .unbounded consumer check = .ok done) :
    ∃ cost, check unboundedPayloadGasBudget = .ok cost := by
  unfold checkBudget SimProfile.payloadGasBudget at passed
  obtain ⟨cost, checked, -⟩ := bind_ok passed
  cases verdict : check unboundedPayloadGasBudget with
  | error violation =>
    rw [verdict] at checked
    cases checked
  | ok cost => exact ⟨cost, rfl⟩

theorem checkBudget_flat {consumer : Address} {updates : List StateUpdate} {callGas : UInt64} {done : Unit}
    (passed : checkBudget .unbounded consumer (fun budget =>
      validateUnboundedCost updates callGas SignatureType.bls.turetzkyUpperGasLimit budget) = .ok done) :
    WithinBudget updates callGas ∧ ∀ update ∈ updates, update.opcode.isCreate = false := by
  obtain ⟨cost, valid⟩ := checkBudget_unbounded passed
  have spec := validate_ok valid
  exact ⟨spec.1, spec.2 rfl⟩

theorem checkBudget_tree {consumer : Address} {updates : List StateUpdate} {callGas createGas : UInt64}
    {done : Unit} (passed : checkBudget .unbounded consumer (fun budget =>
      validateUnboundedTreeCost updates callGas createGas SignatureType.bls.turetzkyUpperGasLimit budget) =
        .ok done) :
    WithinBudget updates (satAdd callGas createGas) := by
  obtain ⟨cost, valid⟩ := checkBudget_unbounded passed
  exact (validate_ok valid).1

/-! ### Net forms -/

theorem tryPrestateNet_some {a : Answers} {consumer : Address} {updates : List StateUpdate}
    (net : tryPrestateNet a consumer = .ok (some updates)) :
    ∃ diff frame, prestateDiffAndCallFrame a = .ok (diff, frame) ∧
      classifyPrestateEligibility frame diff consumer = .eligible ∧
      updates = buildStateUpdatesFromPrestate consumer diff frame := by
  obtain ⟨⟨diff, frame⟩, asked, rest⟩ := bind_ok net
  refine ⟨diff, frame, asked, ?_⟩
  dsimp only at rest
  split at rest
  · cases rest
  · split at rest
    · rename_i eligible
      cases rest
      exact ⟨eligible, rfl⟩
    · cases rest

theorem tryPrestateNet_eligible {a : Answers} {consumer : Address} {diff : DiffMode} {frame : CallFrame}
    (asked : prestateDiffAndCallFrame a = .ok (diff, frame))
    (eligible : classifyPrestateEligibility frame diff consumer = .eligible) :
    tryPrestateNet a consumer = .ok (some (buildStateUpdatesFromPrestate consumer diff frame)) := by
  have fine : frameFailure frame = none := by
    cases failure : frameFailure frame with
    | none => rfl
    | some reason =>
      unfold classifyPrestateEligibility at eligible
      rw [failure] at eligible
      split at eligible <;> simp_all
  unfold tryPrestateNet
  rw [asked]
  simp only [Outcome.ok_bind, fine, eligible]

theorem isNested_of_prestate {consumer : Address} {diff : DiffMode} {frame : CallFrame} :
    ∀ update ∈ buildStateUpdatesFromPrestate consumer diff frame, update.isNested = false := by
  intro update member
  unfold buildStateUpdatesFromPrestate at member
  rcases List.mem_append.mp member with store | log
  · obtain ⟨entry, -, rfl⟩ := List.mem_map.mp store
    rfl
  · obtain ⟨entry, -, rfl⟩ := List.mem_map.mp log
    unfold logToUpdate
    dsimp only
    split <;> rfl

/-! ### The entry points -/

/-- Every frame's ops except `NESTED`, concatenated. -/
def EncodedFrameTree.payload (tree : EncodedFrameTree) : List StateUpdate :=
  tree.frames.flatMap (fun f => withoutNestedOps f.updates)

/-- If the call is signed in net form, that form can be applied within the budget. -/
def NetFormFits (a : Answers) (root : Address) (encoding : StateEncoding) : Prop :=
  encoding = .prestateNet → ∀ diff frame, prestateDiffAndCallFrame a = .ok (diff, frame) →
    classifyPrestateEligibility frame diff root = .eligible →
    WithinBudget (buildStateUpdatesFromPrestate root diff frame) 0

theorem netForm_some {a : Answers} {root : Address} {encoding : StateEncoding} {updates : List StateUpdate}
    (net : netForm a root encoding = .ok (some updates)) :
    encoding = .prestateNet ∧ tryPrestateNet a root = .ok (some updates) := by
  cases encoding with
  | legacy => cases net
  | canonical => cases net
  | prestateNet => exact ⟨rfl, net⟩

theorem netFormFits_of_none {a : Answers} {root : Address} {encoding : StateEncoding}
    (net : netForm a root encoding = .ok none) : NetFormFits a root encoding := by
  rintro rfl diff frame asked eligible
  rw [show netForm a root .prestateNet = tryPrestateNet a root from rfl,
    tryPrestateNet_eligible asked eligible] at net
  cases net

theorem netFormFits_of_some {a : Answers} {root : Address} {encoding : StateEncoding}
    {updates : List StateUpdate} (net : netForm a root encoding = .ok (some updates)) :
    NetFormFits a root encoding ↔ WithinBudget updates 0 := by
  obtain ⟨rfl, built⟩ := netForm_some net
  constructor
  · intro fits
    obtain ⟨diff, frame, asked, eligible, rfl⟩ := tryPrestateNet_some built
    exact fits rfl diff frame asked eligible
  · rintro within - diff frame asked eligible
    rw [tryPrestateNet_eligible asked eligible] at built
    cases built
    exact within

theorem withoutNestedOps_net {a : Answers} {root : Address} {updates : List StateUpdate}
    (net : tryPrestateNet a root = .ok (some updates)) : withoutNestedOps updates = updates := by
  obtain ⟨diff, frame, -, -, rfl⟩ := tryPrestateNet_some net
  unfold withoutNestedOps
  rw [List.filter_eq_self]
  intro update member
  simp [isNested_of_prestate update member]

theorem callToEncodedStateUpdates_checked {H : Hashes} {a : Answers} {toAddr : Option Address}
    {encoding : StateEncoding} {r : EncodedStateUpdates}
    (answer : callToEncodedStateUpdatesWithEvmsketchProfiled H a toAddr encoding .unbounded = .ok r) :
    r.storageUpdates = encodeStateUpdatesToAbi r.program ∧
      (∀ update ∈ r.program, update.opcode.isCreate = false) ∧ WithinBudget r.program r.replayedGas := by
  obtain ⟨contract, -, rest⟩ := bind_ok answer
  obtain ⟨x, -, rest⟩ := bind_ok rest
  obtain ⟨built, -, rest⟩ := bind_ok rest
  obtain ⟨done, checked, rest⟩ := bind_ok rest
  obtain ⟨gasEstimate, -, rest⟩ := bind_ok rest
  have spec := checkBudget_flat checked
  cases rest
  exact ⟨rfl, spec.2, spec.1⟩

theorem callToFrameTree_checked_iff {H : Hashes} {a : Answers} {root : Address} {encoding : StateEncoding}
    {cost : NestingCostModel} {r : EncodedFrameTree}
    (answer : callToFrameTreeWithEvmsketch H a (some root) encoding .unbounded cost = .ok r) :
    WithinBudget r.payload r.replayedGas ↔ NetFormFits a root encoding := by
  unfold callToFrameTreeWithEvmsketch at answer
  by_cases legacy : encoding = .legacy
  · rw [if_pos legacy] at answer
    cases answer
  rw [if_neg legacy] at answer
  obtain ⟨target, same, rest⟩ := bind_ok answer
  cases same
  obtain ⟨net, asked, rest⟩ := bind_ok rest
  cases net with
  | some updates =>
    obtain ⟨built, -, rest⟩ := bind_ok rest
    obtain ⟨gasEstimate, -, rest⟩ := bind_ok rest
    have result := Except.ok.inj rest
    have payload : r.payload = updates := by
      unfold EncodedFrameTree.payload
      rw [← result, List.flatMap_singleton]
      exact withoutNestedOps_net (netForm_some asked).2
    rw [netFormFits_of_some asked, payload, ← result]
  | none =>
    obtain ⟨trace, -, rest⟩ := bind_ok rest
    obtain ⟨nestable, -, rest⟩ := bind_ok rest
    obtain ⟨built, -, rest⟩ := bind_ok rest
    obtain ⟨tree, -, rest⟩ := bind_ok rest
    obtain ⟨done, checked, rest⟩ := bind_ok rest
    obtain ⟨frameGas, -, rest⟩ := bind_ok rest
    have spec := checkBudget_tree checked
    rw [← Except.ok.inj rest]
    exact iff_of_true spec (netFormFits_of_none asked)

/-- Every payload the flat entry point returns was checked; one the frame-tree entry point returns fits
exactly when the net form of the call, if that is what is signed, does. -/
theorem payload_within_budget_iff (H : Hashes) (a : Answers) (toAddr : Option Address)
    (encoding : StateEncoding) (cost : NestingCostModel) :
    (∀ r, callToEncodedStateUpdatesWithEvmsketchProfiled H a toAddr encoding .unbounded = .ok r →
      r.storageUpdates = encodeStateUpdatesToAbi r.program ∧
      (∀ update ∈ r.program, update.opcode.isCreate = false) ∧ WithinBudget r.program r.replayedGas) ∧
    (∀ r, callToFrameTreeWithEvmsketch H a toAddr encoding .unbounded cost = .ok r →
      (WithinBudget r.payload r.replayedGas ↔ ∀ root, toAddr = some root → NetFormFits a root encoding)) := by
  refine ⟨fun r answer => callToEncodedStateUpdates_checked answer, ?_⟩
  intro r answer
  cases toAddr with
  | none =>
    unfold callToFrameTreeWithEvmsketch at answer
    split at answer <;> cases answer
  | some root =>
    rw [callToFrameTree_checked_iff answer]
    exact ⟨fun fits _ same => by cases same; exact fits, fun fits => fits root rfl⟩

/-- A node that answers both cheap tracers for a call that only emits one log. -/
def oneLogAnswers (data : Bytes) : Answers where
  muxPaused := false
  muxed := .ok (.frames {} { logs := [{ data := some data }] })
  prestateDiff := .error (.unanswered "")
  callFrame := .error (.unanswered "")
  trace := .error (.unanswered "")
  nestedRegistry := fun _ => .ok none
  executor := .ok ()
  estimateStateChangesGas := fun _ _ => .ok 0
  estimateFrameTreeGas := fun _ => .ok []

theorem oneLog_net (data : Bytes) :
    tryPrestateNet (oneLogAnswers data) 9 = .ok (some [.log0 data]) := by
  have built : buildStateUpdatesFromPrestate 9 {} { logs := [{ data := some data }] } = [.log0 data] := by
    simp [buildStateUpdatesFromPrestate, changedSlots, storageOf, unionKeys, orderedTargetDepthLogs,
      collectTargetDepthLogs, collectCalls, logToUpdate, OrdMap.keys, OrdMap.extend, OrdMap.empty]
  rw [← built]
  exact tryPrestateNet_eligible rfl rfl

theorem oneLog_frameTree (data : Bytes) :
    ∃ r, callToFrameTreeWithEvmsketch ⟨fun _ => 0, fun _ => 0⟩ (oneLogAnswers data) (some 9) .prestateNet
      .unbounded nestingCostModelV1 = .ok r ∧ r.payload = [.log0 data] ∧ r.replayedGas = 0 := by
  refine ⟨{
    frames := [netFrame 9 [.log0 data]]
    counterMoves := {9}
    gasEstimate := 0
    skippedOpcodes := ∅
    extraction := .prestateNet
    replayedGas := 0 }, ?_, rfl, rfl⟩
  have net : netForm (oneLogAnswers data) 9 .prestateNet = .ok (some [.log0 data]) := oneLog_net data
  unfold callToFrameTreeWithEvmsketch
  rw [if_neg (by decide), show okOr SketchFailure.noToAddress (some (9 : Address)) = .ok 9 from rfl, ok_bind,
    net]
  rfl

/-- A call whose log alone costs more than the budget is returned in net form. -/
theorem oversized_log_returned :
    ∃ r, callToFrameTreeWithEvmsketch ⟨fun _ => 0, fun _ => 0⟩ (oneLogAnswers (List.replicate (2 ^ 21) 0))
      (some 9) .prestateNet .unbounded nestingCostModelV1 = .ok r ∧ ¬ WithinBudget r.payload r.replayedGas := by
  obtain ⟨r, answer, payload, -⟩ := oneLog_frameTree (List.replicate (2 ^ 21) 0)
  refine ⟨r, answer, ?_⟩
  rw [payload]
  intro within
  have costs := UInt64.le_trans (applyGas_le_estimate (List.mem_singleton_self _) _ _) within
  rw [show applyGas (.log0 (List.replicate (2 ^ 21) 0)) =
    logBase + logTopic * 0 + UInt64.ofNat (List.replicate (2 ^ 21) (0 : UInt8)).length * logByte from rfl,
    List.length_replicate] at costs
  exact absurd costs (by decide)

end GasAnalyzer
