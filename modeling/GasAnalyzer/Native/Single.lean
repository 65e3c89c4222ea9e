import Mathlib
import GasAnalyzer.Native.Outcomes
import GasAnalyzer.Native.Unnested

/-!
# The split with nothing nested

With no callee eligible the split returns one frame, the root's.
-/

namespace GasAnalyzer

/-! ### The pre-pass -/

namespace Scan

/-- A step the pre-pass can read. -/
structure Scannable (log : StructLog) : Prop where
  depth : 1 ≤ log.depth.toNat
  stores : log.op = .sstore → log.errored = false → 2 ≤ (log.stack.getD []).length

theorem updateCandidate_frames (s : Scan) (index : Nat) (f : Candidate → Candidate) :
    (s.updateCandidate index f).frames = s.frames := by
  unfold updateCandidate
  split <;> rfl

theorem noteStore_frames (scope : Option Scope) (slot value : U256) (s : Scan) :
    (s.noteStore scope slot value).frames = s.frames := by
  unfold noteStore
  split
  · split <;> rfl
  · exact updateCandidate_frames _ _ _
  · rfl

theorem noteUnsupported_frames (scope : Option Scope) (s : Scan) : (s.noteUnsupported scope).frames = s.frames := by
  unfold noteUnsupported
  split
  · exact updateCandidate_frames _ _ _
  · rfl

theorem noteEffect_frames (scope : Option Scope) (s : Scan) : (s.noteEffect scope).frames = s.frames := by
  unfold noteEffect
  split
  · exact updateCandidate_frames _ _ _
  · rfl

theorem exec_answers {index : Nat} {log : StructLog} (scannable : Scannable log) (fine : log.errored = false)
    (scope : Option Scope) (s : Scan) : ∃ s', s.exec index log scope = .ok s' ∧ s'.frames = s.frames := by
  have wrote : ∃ s₁, s.noteWrite index log scope = .ok s₁ ∧ s₁.frames = s.frames := by
    unfold noteWrite
    cases op : log.op with
    | sstore =>
      have long := scannable.stores op fine
      have first : log.top 0 = some _ := List.getElem?_eq_getElem (by rw [List.length_reverse]; omega)
      have second : log.top 1 = some _ := List.getElem?_eq_getElem (by rw [List.length_reverse]; omega)
      simp only [first, second]
      exact ⟨_, rfl, noteStore_frames _ _ _ _⟩
    | tstore | selfdestruct => exact ⟨_, rfl, noteUnsupported_frames _ _⟩
    | _ => exact ⟨s, rfl, rfl⟩
  obtain ⟨s₁, wrote, same⟩ := wrote
  unfold exec
  rw [wrote, Outcome.ok_bind]
  refine ⟨_, rfl, ?_⟩
  have observed : (s₁.noteObservable log scope).frames = s.frames := by
    unfold noteObservable
    split
    · rw [noteEffect_frames, same]
    · exact same
  unfold awaitFrame
  cases log.op <;> exact observed

/-- The root's frame is still open. -/
def HasRoot (s : Scan) : Prop := ∃ f ∈ s.frames, f.depth.toNat ≤ 1

theorem HasRoot.step {index : Nat} {log : StructLog} {s : Scan} (scannable : Scannable log) (root : HasRoot s) :
    ∃ s', s.step index log = .ok s' ∧ HasRoot s' := by
  have nonzero : log.depth ≠ 0 := by
    intro zero
    have depth := scannable.depth
    rw [zero] at depth
    exact absurd depth (by decide)
  have entered : HasRoot (s.enterPending log) := by
    obtain ⟨f, member, low⟩ := root
    unfold Scan.enterPending
    split
    · exact ⟨f, member, low⟩
    · dsimp only
      split
      · exact ⟨f, List.mem_cons_of_mem _ member, low⟩
      · split <;> exact ⟨f, member, low⟩
  have popped : HasRoot ((s.enterPending log).popFrames log) := by
    obtain ⟨f, member, low⟩ := entered
    refine ⟨f, ?_, low⟩
    have split' := List.takeWhile_append_dropWhile (p := fun f => decide (log.depth < f.depth))
      (l := (s.enterPending log).frames)
    rw [← split'] at member
    rcases List.mem_append.mp member with taken | kept
    · have deep := List.mem_takeWhile_imp taken
      have depth := scannable.depth
      rw [decide_eq_true_eq, UInt64.lt_iff_toNat_lt] at deep
      omega
    · exact kept
  unfold Scan.step
  rw [if_neg nonzero]
  dsimp only
  cases frames : ((s.enterPending log).popFrames log).frames with
  | nil =>
    obtain ⟨f, member, -⟩ := popped
    rw [frames] at member
    cases member
  | cons cur rest =>
    dsimp only
    split
    · exact ⟨_, rfl, popped⟩
    · rename_i fine
      obtain ⟨s', executed, same⟩ := @exec_answers index log scannable (by simpa using fine) cur.scope
        ((s.enterPending log).popFrames log)
      refine ⟨s', executed, ?_⟩
      unfold HasRoot
      rw [same]
      exact popped

theorem run_answers (logs : List StructLog) (scannable : ∀ log ∈ logs, Scannable log) :
    ∀ (index : Nat) (s : Scan), HasRoot s → ∃ s', Scan.run logs index s = .ok s' := by
  induction logs with
  | nil =>
    intro index s _
    exact ⟨s, rfl⟩
  | cons log rest ih =>
    intro index s root
    obtain ⟨s₁, stepped, root₁⟩ := @HasRoot.step index log s (scannable log List.mem_cons_self) root
    obtain ⟨s', ran⟩ := ih (fun l member => scannable l (List.mem_cons_of_mem _ member)) (index + 1) s₁ root₁
    exact ⟨s', by rw [Scan.run, stepped, Outcome.ok_bind, ran]⟩

end Scan

theorem scanCandidates_answers {logs : List StructLog} (scannable : ∀ log ∈ logs, Scan.Scannable log) :
    ∃ r, scanCandidates logs = .ok r := by
  obtain ⟨s, ran⟩ := Scan.run_answers logs scannable 0 {} ⟨⟨1, some .root⟩, List.mem_singleton_self _, Nat.le_refl 1⟩
  exact ⟨_, by rw [scanCandidates, ran]; rfl⟩

/-! ### One program -/

/-- The split's answer for a walk that ends with its first frame and one program. -/
structure SplitOf (last : Walk) (p : ProgramState) (step : Nat) (tree : FrameTreeExtract) : Prop where
  frame : ∃ frame, tree.frames = [frame] ∧ frame.updates = (last.sliced step p.target).out.map Op.update ∧
    frame.transitionIndex = p.transitionIndex
  callGas : tree.callGasTotal = last.top.callGas
  calleeGas : tree.calleeGasTotal = last.top.calleeGas
  createGas : tree.createGasTotal = last.top.createGas
  skipped : tree.skippedOpcodes = last.skippedOpcodes
  counterMoves : tree.counterMoves = GasAnalyzer.counterMoves last.top.journal

theorem splitFrameTree_of_walk {H : Hashes} {trace : DefaultFrame} {root : Address} {elig : Eligibility}
    {cost : NestingCostModel} {candidates : OrdMap Nat Candidate} {rootIndex : Option U256} {last : Walk}
    {p : ProgramState} (scanned : scanCandidates trace.structLogs = .ok (candidates, rootIndex))
    (walked : walk H elig candidates trace.structLogs 0 (initialWalk root rootIndex) = .ok last)
    (below : last.below = []) (emits : last.top.program = some 0) (one : last.programs = [p])
    (alive : p.dropped = false) :
    ∃ tree, splitFrameTree H trace root elig cost = .ok tree ∧ SplitOf last p trace.structLogs.length tree := by
  have found : last.programs[0]? = some p := by rw [one]; rfl
  have closed : closeRoot trace.structLogs.length last =
      .ok (modifyProgram 0 (ProgramState.finishRoot (last.sliced trace.structLogs.length p.target))
        { last with top := last.sliced trace.structLogs.length p.target }) := by
    unfold closeRoot
    rw [if_neg (not_not.mpr below), flushSlice_eq emits found]
    rfl
  generalize shut : last.sliced trace.structLogs.length p.target = top at closed
  have settled : settlePrograms cost (modifyProgram 0 (ProgramState.finishRoot top) { last with top := top }) =
      .ok [{ p.finishRoot top with
        children := p.children.filter (fun c => ! [(p.finishRoot top).dropped].getD c false) }] := by
    unfold settlePrograms dropDescendantsOfDropped modifyProgram
    rw [one]
    rfl
  generalize single : ({ p.finishRoot top with
    children := p.children.filter (fun c => ! [(p.finishRoot top).dropped].getD c false) } : ProgramState) = q at settled
  have aliveQ : q.dropped = false := by rw [← single]; exact alive
  have kept : keptPrograms [q] = [q] := by simp [keptPrograms, aliveQ]
  have updates : q.updates = some top.out := by rw [← single]; rfl
  have compacted : compact [q] = .ok [{
      target := q.target, caller := q.caller, value := q.value, calldataHash := q.calldataHash
      transitionIndex := q.transitionIndex, updates := top.out.map Op.update
      children := q.children.map (remapId [q]) }] := by
    unfold compact
    rw [kept]
    simp [compactProgram, updates, okOr]
  have alone : ∀ gas : ProgramState → UInt64 × UInt64, nativeCallGas [q] gas = (gas q).1 := by
    intro gas
    simp [nativeCallGas, aliveQ]
  have callGas : q.directCallGas = last.top.callGas := by rw [← single, ← shut]; rfl
  have calleeGas : q.directCalleeGas = last.top.calleeGas := by rw [← single, ← shut]; rfl
  have createGas : q.directCreateGas = last.top.createGas := by rw [← single, ← shut]; rfl
  have index : q.transitionIndex = p.transitionIndex := by rw [← single]; rfl
  have journal : top.journal = last.top.journal := by rw [← shut]; rfl
  have answered : ∀ {x : Result FrameTreeExtract}, splitFrameTree H trace root elig cost = x → x = .ok {
      frames := [{
        target := q.target, caller := q.caller, value := q.value, calldataHash := q.calldataHash
        transitionIndex := q.transitionIndex, updates := top.out.map Op.update
        children := q.children.map (remapId [q]) }]
      skippedOpcodes := last.skippedOpcodes
      callGasTotal := nativeCallGas [q] (fun p => (p.directCallGas, p.nativeGas))
      calleeGasTotal := nativeCallGas [q] (fun p => (p.directCalleeGas, p.nativeCalleeGas))
      createGasTotal := nativeCallGas [q] (fun p => (p.directCreateGas, 0))
      counterMoves := GasAnalyzer.counterMoves top.journal
      opSteps := (keptPrograms [q]).map (fun p => (p.updates.getD []).map Op.step)
      frameSteps := (keptPrograms [q]).map ProgramState.step } := by
    intro x answer
    unfold splitFrameTree at answer
    simp only [scanned, walked, closed, settled, compacted, Outcome.ok_bind] at answer
    exact answer.symm
  refine ⟨_, answered rfl, ?_⟩
  refine ⟨⟨_, rfl, ?_, index⟩, ?_, ?_, ?_, rfl, ?_⟩
  · rw [shut]
  · exact (alone (fun p => (p.directCallGas, p.nativeGas))).trans callGas
  · exact (alone (fun p => (p.directCalleeGas, p.nativeCalleeGas))).trans calleeGas
  · exact (alone (fun p => (p.directCreateGas, 0))).trans createGas
  · exact congrArg GasAnalyzer.counterMoves journal

/-- The split of a trace it can walk, with nothing nested. -/
structure SingleFrame (y : Yield) (tree : FrameTreeExtract) : Prop where
  frame : ∃ frame ops, tree.frames = [frame] ∧ frame.updates = ops.map Op.update ∧ nonStores ops = y.ops
  callGas : tree.callGasTotal = y.callGas
  calleeGas : tree.calleeGasTotal = y.calleeGas
  createGas : tree.createGasTotal = y.createGas
  skipped : tree.skippedOpcodes = y.skipped

theorem CallTree.Walkable.scannable {emits : Bool} {t : CallTree} {d : Nat} (walkable : t.Walkable emits)
    (wf : t.WellFormed d) (positive : 1 ≤ d) : ∀ log ∈ t.flatten, Scan.Scannable log := by
  induction t generalizing emits d with
  | done => intro log member; cases member
  | step log rest ih =>
    obtain ⟨executable, -, more⟩ := walkable
    intro l member
    rcases List.mem_cons.mp member with rfl | later
    · exact ⟨by rw [wf.1.depth]; exact positive, executable.stores⟩
    · exact ih more wf.2.2 positive l later
  | enter call body rest ihBody ihRest =>
    obtain ⟨executable, -, inside, more⟩ := walkable
    obtain ⟨carries, -, -, -, bodyWf, -, tail⟩ := wf
    intro l member
    rcases List.mem_cons.mp member with rfl | later
    · exact ⟨by rw [carries.depth]; exact positive, executable.stores⟩
    · rcases List.mem_append.mp later with inner | after
      · exact ihBody inside bodyWf (by omega) l inner
      · exact ihRest more tail positive l after

theorem finds_initial {t : CallTree} (wf : t.WellFormed 1) (root : Address) (rootIndex : Option U256) :
    Finds 0 1 t (initialWalk root rootIndex) (initialWalk root rootIndex) := by
  refine ⟨?_, fun _ => rfl, rfl, rfl, ?_⟩
  · intro log head
    unfold arrive
    simp only [enterPending, initialWalk, Outcome.ok_bind]
    apply popFrames_stays
    apply UInt64.le_iff_toNat_le.mpr
    rw [(wf.head head).depth]
    exact Nat.le_refl 1
  · intro id emits
    obtain rfl := Option.some.inj emits
    exact Nat.one_pos

theorem splitFrameTree_single {H : Hashes} {trace : DefaultFrame} {t : CallTree} {elig : Eligibility}
    (unhanded : ∀ candidates, Unhanded elig candidates) (flat : trace.structLogs = t.flatten)
    (wf : t.WellFormed 1) (walkable : t.Walkable true) (root : Address) (cost : NestingCostModel) :
    ∃ tree, splitFrameTree H trace root elig cost = .ok tree ∧ SingleFrame (t.yield 0) tree := by
  have short : 1 + t.size < 2 ^ 64 := by
    have bounded := trace.bounded
    rw [flat, CallTree.length_flatten] at bounded
    omega
  obtain ⟨⟨candidates, rootIndex⟩, scanned⟩ := scanCandidates_answers (walkable.scannable wf (Nat.le_refl 1))
  obtain ⟨last, walked, yields⟩ := walk_unnested (H := H) (unhanded candidates) t 1 0
    (initialWalk root rootIndex) (initialWalk root rootIndex) wf short walkable (finds_initial wf root rootIndex)
  replace yields : Yields (t.yield 0) (initialWalk root rootIndex) last := yields
  have below : last.below = [] := by
    have frames : List.Forall₂ Held [] last.below := yields.below
    generalize last.below = fs at frames
    cases frames
    rfl
  -- Charging is all that happened to the one program.
  obtain ⟨p, one⟩ : ∃ p, last.programs = [p] := by
    have lengths := congrArg List.length yields.programs
    rw [List.length_map, List.length_map] at lengths
    exact List.length_eq_one_iff.mp lengths
  have alive : p.dropped = false := by
    have same := yields.programs
    rw [one] at same
    exact congrArg ProgramState.dropped (List.cons.inj same).1
  rw [← flat] at scanned walked
  obtain ⟨tree, answer, split⟩ := @splitFrameTree_of_walk H trace root elig cost _ _ _ _ scanned walked below
    yields.top.program one alive
  refine ⟨tree, answer, ?_, ?_, ?_, ?_, ?_⟩
  · obtain ⟨frame, frames, updates, -⟩ := split.frame
    refine ⟨frame, _, frames, updates, ?_⟩
    rw [Walk.sliced_out, nonStores_append, nonStores_slice, List.append_nil, yields.ops]
    rfl
  · exact split.callGas.trans (yields.callGas.trans (UInt64.zero_add _))
  · exact split.calleeGas.trans (yields.calleeGas.trans (UInt64.zero_add _))
  · exact split.createGas.trans (yields.createGas.trans (UInt64.zero_add _))
  · exact split.skipped.trans (yields.skipped.trans (Finset.empty_union _))

end GasAnalyzer
