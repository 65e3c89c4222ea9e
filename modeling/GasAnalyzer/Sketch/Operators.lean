import GasAnalyzer.Core.Endpoint
import GasAnalyzer.Library.Comparing

/-!
# Operators agree

Every operator computes the program it signs from the answers of its own node. A `World` is what the call does at the
block; an endpoint is faithful to it when what it answers is so, whatever it leaves unanswered, refuses or reports in
another shape. Then the run of an operator settles nothing but what the world settles: two operators never sign two
programs, nor does one sign where another finds that the call fails.
-/

namespace GasAnalyzer

open Outcome

/-! ### What a run settles -/

/-- What a run that does not sign has found. -/
inductive Refusal where
  | extraction (failure : Failure)
  /-- The call has no program to sign. -/
  | evm
  | noToAddress
  | legacyCannotSplit
  | payloadRejected (consumer : Address) (violation : UnboundedCostViolation)

def SketchFailure.refusal : SketchFailure → Option Refusal
  | extraction failure => some (.extraction failure)
  | evm _ => some .evm
  | noToAddress => some .noToAddress
  | legacyCannotSplit => some .legacyCannotSplit
  | payloadRejected consumer violation => some (.payloadRejected consumer violation)
  | unanswered _ => none

/-- What operators sign of a program, and report with it. -/
def EncodedStateUpdates.signed (x : EncodedStateUpdates) : Bytes × Nat × Finset Opcode × Extraction :=
  (x.storageUpdates, x.updateCount, x.skippedOpcodes, x.extraction)

def EncodedFrameTree.signed (x : EncodedFrameTree) : List FrameProgram × Finset Address × Finset Opcode × Extraction :=
  (x.frames, x.counterMoves, x.skippedOpcodes, x.extraction)

/-! ### The world -/

/-- What the call does at the block, and how contracts answer reads there: `none` fails in the EVM. -/
structure World where
  trace : DefaultFrame
  diff : DiffMode
  frame : CallFrame
  read : Address → Bytes → Option Bytes

/-- A run that is told everything. -/
def World.answers (w : World) : Answers where
  muxPaused := true
  muxed := .ok .unsupported
  prestateDiff := .ok w.diff
  callFrame := .ok w.frame
  trace := .ok w.trace
  nestedRegistry contract := nestedRegistry fun data => .ok (w.read contract data)
  executor := .ok ()
  estimateStateChangesGas _ _ := .ok 0
  estimateFrameTreeGas _ := .ok []

/-- What the endpoint answers is so. It may leave anything unanswered, and answer in any other shape. -/
structure Faithful (texts : Texts) (w : World) (e : Endpoint) : Prop where
  trace : ∀ {frame}, e.debugTraceCall .structLog = .ok (.default frame) → frame = w.trace
  diff : ∀ {diff}, e.debugTraceCall .preState = .ok (.preState (some diff)) → diff = w.diff
  frame : ∀ {frame}, e.debugTraceCall .call = .ok (.call frame) → frame = w.frame
  mux : ∀ {diff frame}, e.debugTraceCall .mux = .ok (.mux (some (.preState (some diff))) (some (.call frame))) →
    diff = w.diff ∧ frame = w.frame
  /-- A mux that reports a failure in the EVM ran a call that fails there. -/
  muxFails : ∀ {error reason payload}, e.debugTraceCall .mux = .error error →
    error.answer texts = some (reason, some payload) → isEvmFailure texts payload = true →
      (frameFailure w.frame).isSome = true
  read : ∀ {contract data out}, e.ethCall contract data = .ok out → w.read contract data = some out
  readFails : ∀ {contract data payload shown}, e.ethCall contract data = .error (.errorResp payload shown) →
    isEvmFailure texts payload = true → w.read contract data = none

/-- What `x` settles, `y` does. -/
abbrev Concurs {α : Type} (x y : Sketch α) : Prop := Below SketchFailure.refusal x y

variable {texts : Texts} {w : World} {e : Endpoint} {paused : Bool} {consumer root : Address} {encoding : StateEncoding}

theorem concurs_unanswered {α : Type} {context : String} {text : Chars} {y : Sketch α} :
    Concurs (unanswered context text) y :=
  .lost rfl

namespace Faithful

/-! ### One request -/

theorem getTrace (faithful : Faithful texts w e) : Concurs e.getTrace (.ok w.trace) := by
  unfold Endpoint.getTrace
  split
  · rename_i frame answered
    exact .of_eq (congrArg _ (faithful.trace answered))
  · exact .lost rfl
  · exact concurs_unanswered

theorem getPrestateDiff (faithful : Faithful texts w e) : Concurs (e.getPrestateDiff texts) (.ok w.diff) := by
  unfold Endpoint.getPrestateDiff
  split
  · rename_i diff answered
    exact .of_eq (congrArg _ (faithful.diff answered))
  · exact concurs_unanswered
  · exact concurs_unanswered

theorem getCallFrame (faithful : Faithful texts w e) : Concurs (e.getCallFrame texts) (.ok w.frame) := by
  unfold Endpoint.getCallFrame
  split
  · rename_i frame answered
    exact .of_eq (congrArg _ (faithful.frame answered))
  · exact concurs_unanswered
  · exact concurs_unanswered

theorem staticRead (faithful : Faithful texts w e) (contract : Address) (data : Bytes) :
    Concurs (e.staticRead texts contract data) (.ok (w.read contract data)) := by
  unfold Endpoint.staticRead
  split
  · rename_i out answered
    exact .of_eq (congrArg _ (faithful.read answered).symm)
  · rename_i error answered
    split
    · split
      · rename_i fails
        exact .of_eq (congrArg _ (faithful.readFails answered fails).symm)
      · exact concurs_unanswered
    · exact concurs_unanswered

/-! ### The net form -/

theorem splitPrestateAndCall_ok {trace : GethTrace} {diff : DiffMode} {frame : CallFrame}
    (split : splitPrestateAndCall texts trace = .ok (diff, frame)) :
    trace = .mux (some (.preState (some diff))) (some (.call frame)) := by
  unfold splitPrestateAndCall at split
  split at split
  · split at split
    · split at split
      · obtain ⟨rfl, rfl⟩ := Prod.mk.inj (Except.ok.inj split)
        rfl
      · cases split
    · cases split
  · cases split

theorem separately (faithful : Faithful texts w e) :
    Concurs (do let diff ← e.getPrestateDiff texts; let frame ← e.getCallFrame texts; .ok (diff, frame))
      (.ok (w.diff, w.frame)) := by
  have both := faithful.getPrestateDiff.bind (f := fun diff => do let frame ← e.getCallFrame texts; .ok (diff, frame))
    (g := fun diff => do let frame ← (.ok w.frame : Sketch CallFrame); .ok (diff, frame))
    fun diff _ _ => faithful.getCallFrame.bind fun frame _ _ => .refl _
  exact both

/-- The mux of a faithful endpoint reports the frames of the world, or a call that fails there, or neither. -/
inductive Muxed (w : World) : Sketch MuxedTraces → Prop where
  | frames : Muxed w (.ok (.frames w.diff w.frame))
  | fails (reason : String) (failed : (frameFailure w.frame).isSome = true) : Muxed w (.ok (.rejected reason true))
  | rejected (reason : String) : Muxed w (.ok (.rejected reason false))
  | unsupported : Muxed w (.ok .unsupported)
  | malformed (reason : String) : Muxed w (.ok (.malformed reason))
  | unanswered (reason : String) : Muxed w (.error (.unanswered reason))

theorem muxed (faithful : Faithful texts w e) : Muxed w (e.getPrestateDiffAndCallFrame texts) := by
  unfold Endpoint.getPrestateDiffAndCallFrame
  cases answered : e.debugTraceCall .mux with
  | ok trace =>
    dsimp only
    cases split : splitPrestateAndCall texts trace with
    | ok frames =>
      obtain ⟨diff, frame⟩ := frames
      rw [splitPrestateAndCall_ok split] at answered
      obtain ⟨rfl, rfl⟩ := faithful.mux answered
      exact .frames
    | error reason => exact .malformed reason
  | error error =>
    dsimp only
    unfold classifyMuxError
    split
    · exact .unanswered _
    · rename_i reason payload isAnswer
      split
      · exact .unanswered _
      · split
        · exact .unsupported
        · cases fails : payload.any (isEvmFailure texts) with
          | false => exact .rejected _
          | true =>
            obtain ⟨p, rfl, isFailure⟩ := (Option.any_eq_true _ _).mp fails
            exact .fails _ (faithful.muxFails answered isAnswer isFailure)

/-- The two frames are the world's, or the mux has found that the call fails. -/
theorem prestateDiffAndCallFrame (faithful : Faithful texts w e) (paused : Bool) :
    Concurs (prestateDiffAndCallFrame (e.answers texts paused)) (.ok (w.diff, w.frame)) ∨
      ∃ failure, GasAnalyzer.prestateDiffAndCallFrame (e.answers texts paused) = .error (.evm failure) ∧
        (frameFailure w.frame).isSome = true := by
  have apart := faithful.separately
  unfold GasAnalyzer.prestateDiffAndCallFrame
  cases paused with
  | true => exact Or.inl apart
  | false =>
    have muxed : Muxed w (e.answers texts false).muxed := faithful.muxed
    dsimp only
    rw [if_neg (show ¬(e.answers texts false).muxPaused = true from Bool.false_ne_true)]
    generalize (e.answers texts false).muxed = m at muxed
    cases muxed with
    | frames => exact Or.inl (.refl _)
    | fails reason failed => exact Or.inr ⟨_, rfl, failed⟩
    | rejected | unsupported | malformed => exact Or.inl apart
    | unanswered => exact Or.inl (.lost rfl)

theorem tryPrestateNet (faithful : Faithful texts w e) :
    Concurs (tryPrestateNet (e.answers texts paused) consumer) (tryPrestateNet w.answers consumer) := by
  rcases faithful.prestateDiffAndCallFrame paused with told | ⟨failure, found, failed⟩
  · exact told.bind fun _ _ _ => .refl _
  · obtain ⟨reason, isReason⟩ := Option.isSome_iff_exists.mp failed
    have ideal : GasAnalyzer.tryPrestateNet w.answers consumer = .error (.evm (.frame reason)) := by
      have frames : GasAnalyzer.prestateDiffAndCallFrame w.answers = .ok (w.diff, w.frame) := rfl
      unfold GasAnalyzer.tryPrestateNet
      rw [frames]
      simp only [ok_bind, isReason]
    rw [ideal]
    unfold GasAnalyzer.tryPrestateNet
    rw [found]
    exact .error rfl

theorem netForm (faithful : Faithful texts w e) :
    Concurs (netForm (e.answers texts paused) consumer encoding) (netForm w.answers consumer encoding) := by
  unfold GasAnalyzer.netForm
  split
  · exact faithful.tryPrestateNet
  · exact .refl _

/-! ### The trace -/

theorem getTraceFromCall (faithful : Faithful texts w e) :
    Concurs (getTraceFromCall (e.answers texts paused)) (getTraceFromCall w.answers) :=
  faithful.getTrace.bind fun _ _ _ => .refl _

theorem nestedRegistry (faithful : Faithful texts w e) (contract : Address) :
    Concurs ((e.answers texts paused).nestedRegistry contract) (w.answers.nestedRegistry contract) := by
  refine (faithful.staticRead contract _).bind fun supports _ _ => ?_
  cases supports with
  | none => exact .refl _
  | some supports =>
    dsimp only
    split
    · exact .refl _
    · exact (faithful.staticRead contract _).bind fun _ _ _ => .refl _

theorem nestableCallees (faithful : Faithful texts w e) (trace : DefaultFrame) :
    Concurs (nestableCallees (e.answers texts paused) trace root) (nestableCallees w.answers trace root) := by
  refine (faithful.nestedRegistry root).bind fun registry _ _ => ?_
  cases registry with
  | none => exact .refl _
  | some registry =>
    refine Below.bind (Below.mapM (fun callee => ?_) _) fun _ _ _ => .refl _
    exact (faithful.nestedRegistry callee).bind fun _ _ _ => .refl _

theorem extractStateUpdatesHybrid (faithful : Faithful texts w e) (H : Hashes) :
    Concurs (extractStateUpdatesHybrid H (e.answers texts paused) consumer encoding)
      (extractStateUpdatesHybrid H w.answers consumer encoding) := by
  refine faithful.netForm.bind fun net _ _ => ?_
  cases net with
  | some updates => exact .refl _
  | none => exact faithful.getTraceFromCall.bind fun _ _ _ => .refl _

/-! ### The programs -/

end Faithful

/-! ### Agreement -/

end GasAnalyzer
