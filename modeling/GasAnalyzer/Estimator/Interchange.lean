import GasAnalyzer.Estimator.Schedule
import GasAnalyzer.Library.Comparing

/-!
# States revm cannot tell apart

An estimate only depends on what revm reads of the state. Where revm treats two states alike, the injection of the
estimator, every piece of a frame tree and the whole run measure the same gas on both, and fail alike.
-/

namespace GasAnalyzer.Estimator

open Outcome

variable {Db Spec : Type}

/-- What revm answers on related states is the same, and the states it leaves are related. -/
structure Revm.Respects (revm : Revm Db Spec) (Same : Db → Db → Prop) : Prop where
  basicRef : ∀ {s t}, Same s t → ∀ a, revm.basicRef s a = revm.basicRef t a
  insertAccountInfo : ∀ {s t}, Same s t → ∀ a info, Same (revm.insertAccountInfo s a info) (revm.insertAccountInfo t a info)
  /-- The hash is set of an account that was just inserted. -/
  setCodeHash : ∀ {s t}, Same s t → ∀ a info hash,
    Same (revm.setCodeHash (revm.insertAccountInfo s a info) a hash) (revm.setCodeHash (revm.insertAccountInfo t a info) a hash)
  insertAccountStorage : ∀ {s t}, Same s t → ∀ a slot value,
    Alike Same (revm.insertAccountStorage s a slot value) (revm.insertAccountStorage t a slot value)
  transact : ∀ {s t}, Same s t → ∀ env tx,
    Alike (fun x y => x.1 = y.1 ∧ Same x.2 y.2) (revm.transact s env tx) (revm.transact t env tx)

section

variable (H : Hashes) {revm : Revm Db Spec} (estimatorCode : Bytes) {Same : Db → Db → Prop} {s t : Db}

namespace Revm.Respects

theorem injectEstimator (respects : revm.Respects Same) (same : Same s t) (contract : Address) :
    Alike Same (injectEstimator H revm estimatorCode s contract) (injectEstimator H revm estimatorCode t contract) := by
  unfold Estimator.injectEstimator
  dsimp only
  rw [respects.basicRef same contract]
  refine (respects.insertAccountStorage ?_ _ _ _).mapError _
  split
  · split
    · exact respects.setCodeHash same _ _ _
    · exact respects.setCodeHash (respects.insertAccountInfo same _ _) _ _ _
  · exact respects.setCodeHash same _ _ _

theorem injectTargets (respects : revm.Respects Same) (same : Same s t) (injected : List Address)
    (frames : List FrameProgram) :
    Alike Same (injectTargets H revm estimatorCode injected frames s) (injectTargets H revm estimatorCode injected frames t) := by
  induction frames generalizing s t injected with
  | nil => exact same
  | cons frame frames ih =>
    unfold Estimator.injectTargets
    split
    · exact ih same injected
    · exact (respects.injectEstimator H estimatorCode same frame.target).bind fun _ _ same' => ih same' _

theorem fundCaller (respects : revm.Respects Same) (same : Same s t) (caller : Address) (value : U256) :
    Same (fundCaller H revm s caller value) (fundCaller H revm t caller value) := by
  unfold Estimator.fundCaller
  split
  · exact same
  · rw [respects.basicRef same caller]
    exact respects.insertAccountInfo same _ _

theorem runEstimator (respects : revm.Respects Same) (same : Same s t) (contract caller : Address) (calldata : Bytes)
    (value : U256) (simEnv : SimEnvOpts Spec) (commit : Bool) :
    Alike (fun x y => x.1 = y.1 ∧ Same x.2 y.2) (runEstimator H revm s contract caller calldata value simEnv commit)
      (runEstimator H revm t contract caller calldata value simEnv commit) := by
  have funded := respects.fundCaller H same caller value
  refine ((respects.transact funded simEnv _).mapError _).bind ?_
  rintro ⟨result, written⟩ ⟨-, written'⟩ ⟨rfl, same'⟩
  cases result with
  | success gasUsed =>
    cases commit with
    | true => exact ⟨rfl, same'⟩
    | false => exact ⟨rfl, funded⟩
  | revert gasUsed output => exact rfl
  | halt gasUsed reason => exact rfl

theorem estimateStateChangesGas (respects : revm.Respects Same) (same : Same s t) (contract caller : Address)
    (updates : List StateUpdate) (simEnv : SimEnvOpts Spec) :
    estimateStateChangesGas H revm estimatorCode s contract caller updates simEnv =
      estimateStateChangesGas H revm estimatorCode t contract caller updates simEnv := by
  refine ((respects.injectEstimator H estimatorCode same contract).bind fun _ _ same' => ?_ :
    Alike (Eq : UInt64 → UInt64 → Prop) _ _).eq
  refine (respects.runEstimator H same' _ _ _ _ _ _).bind ?_
  rintro ⟨gas, _⟩ ⟨-, _⟩ ⟨rfl, -⟩
  exact rfl

end Revm.Respects

/-! ### Frame trees -/

/-- The same gas so far, on related states. -/
def TreeState.Related (Same : Db → Db → Prop) (s t : TreeState Db) : Prop := s.frameGas = t.frameGas ∧ Same s.db t.db

variable (tree : FrameTreeRun Spec)

namespace Revm.Respects

theorem piece (respects : revm.Respects Same) (same : Same s t) (index pieceIndex : Nat) (updates : List StateUpdate)
    (value : U256) :
    Alike (fun x y => x.1 = y.1 ∧ Same x.2 y.2) (tree.piece H revm s index pieceIndex updates value)
      (tree.piece H revm t index pieceIndex updates value) := by
  unfold FrameTreeRun.piece
  split
  · exact rfl
  · refine ((respects.runEstimator H same _ _ _ _ _ _).mapError _).bind ?_
    rintro ⟨gas, _⟩ ⟨-, _⟩ ⟨rfl, same'⟩
    exact ⟨rfl, same'⟩

theorem flush (respects : revm.Respects Same) (same : Same s t) (index : Nat) (value : U256) (p : Progress) :
    Alike (fun x y => x.1 = y.1 ∧ Same x.2 y.2) (tree.flush H revm index value p s) (tree.flush H revm index value p t) := by
  unfold FrameTreeRun.flush
  split
  · refine (respects.piece H tree same index p.pieces p.piece value).bind ?_
    rintro ⟨gas, _⟩ ⟨-, _⟩ ⟨rfl, same'⟩
    exact ⟨rfl, same'⟩
  · exact ⟨rfl, same⟩

/-- By the recursion of the schedule: a frame's loop enters the frames of its `NESTED` ops. -/
theorem runUpdates (respects : revm.Respects Same) (index : Nat) (value : U256) (ops : List StateUpdate)
    (children : List Nat) (piece : List StateUpdate) (pieces : Nat) (gas : UInt64) {s t : TreeState Db}
    (same : s.Related Same t) :
    Alike (TreeState.Related Same) (tree.runUpdates H revm index value ops children ⟨piece, pieces, gas⟩ s)
      (tree.runUpdates H revm index value ops children ⟨piece, pieces, gas⟩ t) := by
  obtain ⟨frameGas, db⟩ := same
  fun_induction Schedule.updates tree.frames index value ops children piece pieces generalizing gas s t with
  | case1 index value children piece pieces =>
    rw [FrameTreeRun.runUpdates, FrameTreeRun.runUpdates]
    refine (respects.flush H tree db index value _).bind ?_
    rintro ⟨p, db₁⟩ ⟨-, db₂⟩ ⟨rfl, db'⟩
    dsimp only
    split
    · exact rfl
    · exact ⟨by rw [frameGas], db'⟩
  | case2 index value children piece pieces n rest e refused =>
    rw [runUpdates_nested, runUpdates_nested, refused]
    refine (respects.flush H tree db index value _).bind ?_
    rintro ⟨p, db₁⟩ ⟨-, db₂⟩ ⟨rfl, db'⟩
    exact rfl
  | case3 index value children piece pieces n rest child frame children' named ihChild ihRest =>
    rw [runUpdates_nested, runUpdates_nested, named]
    refine (respects.flush H tree db index value ⟨piece, pieces, gas⟩).bind_of ?_
    rintro ⟨⟨piece', pieces', gas'⟩, db₁⟩ ⟨-, db₂⟩ flushed ⟨rfl, db'⟩
    obtain ⟨empty, number⟩ := flush_progress H revm tree flushed
    dsimp only at empty number
    subst empty number
    simp only [ok_bind]
    refine Alike.bind (ihChild 0 (s := ⟨db₁, s.frameGas⟩) (t := ⟨db₂, t.frameGas⟩) frameGas db') ?_
    rintro s' t' ⟨frameGas', db''⟩
    exact ihRest gas' frameGas' db''
  | case4 index value children piece pieces op rest plain ih =>
    rw [FrameTreeRun.runUpdates, FrameTreeRun.runUpdates]
    · exact ih gas frameGas db
    · exact plain
    · exact plain

/-- A frame tree costs the same on states revm cannot tell apart. -/
theorem estimateFrameTreeGas (respects : revm.Respects Same) (same : Same s t) (frames : List FrameProgram)
    (caller : Address) (rootValue : U256) (simEnv : SimEnvOpts Spec) :
    estimateFrameTreeGas H revm estimatorCode s frames caller rootValue simEnv =
      estimateFrameTreeGas H revm estimatorCode t frames caller rootValue simEnv := by
  unfold Estimator.estimateFrameTreeGas
  split
  · rfl
  · refine ((respects.injectTargets H estimatorCode same [] frames).bind fun db₁ db₂ same' => ?_ :
      Alike (Eq : List UInt64 → List UInt64 → Prop) _ _).eq
    have runs : Alike (TreeState.Related Same)
        (FrameTreeRun.run H revm ⟨frames, caller, simEnv⟩ 0 rootValue ⟨db₁, List.replicate frames.length 0⟩)
        (FrameTreeRun.run H revm ⟨frames, caller, simEnv⟩ 0 rootValue ⟨db₂, List.replicate frames.length 0⟩) := by
      rw [FrameTreeRun.run, FrameTreeRun.run]
      split
      · exact rfl
      · exact respects.runUpdates H _ _ _ _ _ _ _ _ ⟨rfl, same'⟩
    exact runs.bind fun _ _ same'' => same''.1

end Revm.Respects

end

end GasAnalyzer.Estimator
