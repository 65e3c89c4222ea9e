import GasAnalyzer.Native.Calls

/-!
# Outcomes of emitted calls

A `NESTED` op stands for a call that succeeded, and so does the `CALL` op of a pruned frame. Every other
`CALL` op is emitted before its outcome is known: a returned program holds only calls that succeeded
exactly if no call of its frame failed.
-/

namespace GasAnalyzer

variable {H : Hashes} {trace : DefaultFrame} {root : Address} {elig : Eligibility} {cost : NestingCostModel}
variable {tree : FrameTreeExtract} {t : CallTree}

/-- The calls given a frame of their own that a program holds succeeded. -/
theorem succeeded_of_nestSteps {handed : Nat → StructLog → Bool} {d n : Nat} {logs tail : List StructLog}
    {t : CallTree} (wf : t.WellFormed d) (here : logs.drop n = t.flatten ++ tail) :
    ∀ i ∈ t.nestSteps handed n, Succeeded logs i := by
  induction t generalizing d n tail with
  | done => intro i member; cases member
  | step log rest ih =>
    exact ih wf.2.2 (CallTree.drop_step here)
  | enter call body rest ihBody ihRest =>
    have own : rest.succeeds = true → Succeeded logs n := by
      intro success
      have resumes : (resumeOf logs n).bind StructLog.flag = rest.outcome := by
        rw [resumeOf_enter here wf]
        rfl
      unfold CallTree.succeeds at success
      cases outcome : rest.outcome with
      | none =>
        rw [outcome] at success
        cases success
      | some flag =>
        rw [outcome] at success resumes
        exact ⟨flag, resumes, by simpa using success⟩
    intro i member
    rcases List.mem_append.mp member with first | second
    · split at first
      · split at first
        · rename_i both
          rw [List.mem_singleton.mp first]
          exact own (Bool.and_eq_true_iff.mp both).2
        · cases first
      · split at first
        · exact ihBody wf.2.2.2.2.1 (CallTree.drop_body here) i first
        · cases first
    · exact ihRest wf.2.2.2.2.2.2 (CallTree.drop_rest here) i second

theorem mem_callsOf_sameOrCall {ops ops' : List Op} (same : List.Forall₂ SameOrCall ops ops') {i : Nat} :
    (i ∈ callsOf ops → i ∈ callsOf ops') ∧ (i ∈ callsOf ops' → i ∈ callsOf ops ∨ i ∈ nestsOf ops) := by
  induction same with
  | nil => exact ⟨id, Or.inl⟩
  | @cons o o' rest rest' first _ ih =>
    have split : ∀ (x : Op) (xs : List Op), callsOf (x :: xs) = callsOf [x] ++ callsOf xs ∧
        nestsOf (x :: xs) = nestsOf [x] ++ nestsOf xs := by
      intro x xs
      exact ⟨callsOf_append [x] xs, nestsOf_append [x] xs⟩
    rw [(split o rest).1, (split o rest).2, (split o' rest').1]
    simp only [List.mem_append]
    cases first with
    | same =>
      refine ⟨Or.imp_right ih.1, ?_⟩
      rintro (here | later)
      · exact Or.inl (Or.inl here)
      · rcases ih.2 later with call | nest
        · exact Or.inl (Or.inr call)
        · exact Or.inr (Or.inr nest)
    | call x c step =>
      simp only [callsOf_nested, nestsOf_nested, callsOf_call, List.not_mem_nil, false_or]
      refine ⟨fun call => Or.inr (ih.1 call), ?_⟩
      rintro (here | later)
      · exact Or.inr (Or.inl here)
      · rcases ih.2 later with call | nest
        · exact Or.inl call
        · exact Or.inr (Or.inr nest)

/-! ### Scopes of frames -/

/-- The steps a returned frame runs, `n` being the first: the whole trace for the root, and for any other
frame the body of the `CALL` it stands for. -/
def FrameScope (t : CallTree) (tree : FrameTreeExtract) (k n : Nat) (body : CallTree) : Prop :=
  if k = 0 then n = 0 ∧ body = t
  else ∃ j call rest, tree.frameSteps[k]? = some j ∧ CallTree.Opens 0 t j call body rest ∧ call.op = .call ∧
    n = j + 1

namespace SplitRun

theorem derivation (run : SplitRun H trace root elig cost tree) (wf : t.WellFormed 1)
    (flat : trace.structLogs = t.flatten) :
    Walked H elig run.candidates 0 t (initialWalk root run.rootIndex) run.last := by
  have walked := run.walked
  rw [flat] at walked
  exact walked_of_trace wf walked

/-- The programs of the closed walk other than the root's ran the body of their call. -/
theorem ran (run : SplitRun H trace root elig cost tree) (wf : t.WellFormed 1)
    (flat : trace.structLogs = t.flatten) {id : Nat} {p : ProgramState} (found : run.closed.programs[id]? = some p)
    (nonroot : id ≠ 0) : Ran H elig run.candidates 0 t id p := by
  have opened := (run.derivation wf flat).opened rfl
  obtain ⟨-, -, -, -, -, -, programs, -⟩ := closeRoot_ok run.closes
  rw [programs, List.getElem?_modify] at found
  have found' : run.last.programs[id]? = some p := by simpa [Ne.symm nonroot] using found
  have text : run.last.texts[id]? = some p.text := by
    rw [getElem?_texts, found']
    rfl
  exact ⟨(opened.new id p.text (by show 1 ≤ id; omega) text).ran⟩

theorem rootOps (run : SplitRun H trace root elig cost tree) (wf : t.WellFormed 1)
    (flat : trace.structLogs = t.flatten) {p : ProgramState} (found : run.closed.programs[0]? = some p) :
    ∃ ops, p.updates = some ops ∧ callsOf ops = t.callSteps (handedTo elig run.candidates) 0 ∧
      nestsOf ops = t.nestSteps (handedTo elig run.candidates) 0 := by
  obtain ⟨ops, out, emits⟩ := (run.derivation wf flat).emission wf rfl
  obtain ⟨below, id, q, -, -, top, programs, -⟩ := closeRoot_ok run.closes
  rw [programs] at found
  obtain ⟨p₀, -, rfl⟩ := found_modify found
  refine ⟨run.closed.top.out, rfl, ?_⟩
  have slice := callFree_slice trace.structLogs.length q.target run.last
  have closedOut : run.closed.top.out = ops ++ run.last.slice trace.structLogs.length q.target := by
    rw [top]
    show run.last.top.out ++ staleStores _ _ _ = _
    rw [out, Walk.slice, below]
    rfl
  rw [closedOut, callsOf_append, nestsOf_append, slice.1, slice.2, List.append_nil, List.append_nil]
  exact ⟨emits.calls (Option.some_ne_none 0), emits.nests (Option.some_ne_none 0)⟩

/-- The calls a returned frame's program was closed with. -/
theorem scopeOps (run : SplitRun H trace root elig cost tree) (wf : t.WellFormed 1)
    (flat : trace.structLogs = t.flatten) {k : Nat} {frame : FrameProgram} (found : tree.frames[k]? = some frame) :
    ∃ n body d tail ops ops', FrameScope t tree k n body ∧ body.WellFormed d ∧
      trace.structLogs.drop n = body.flatten ++ tail ∧ callsOf ops = body.callSteps (handedTo elig run.candidates) n ∧
      nestsOf ops = body.nestSteps (handedTo elig run.candidates) n ∧ List.Forall₂ SameOrCall ops ops' ∧
      frame.updates = ops'.map Op.update ∧ tree.opSteps[k]? = some (ops'.map Op.step) := by
  rw [run.frames] at found
  obtain ⟨id, p, foundP, alive, isRank, rfl⟩ := Settled.of_frame found
  have kept : (keptPrograms run.programs)[k]? = some p := by
    rw [← isRank]
    exact getElem?_rank foundP (Settled.kept_alive alive)
  obtain ⟨p₀, found₀, core, related⟩ := run.program_ops foundP
  obtain ⟨ops', updates'⟩ := Option.isSome_iff_exists.mp (run.final.done id p (Nat.zero_le _) foundP alive)
  have opSteps : tree.opSteps[k]? = some (ops'.map Op.step) := by
    rw [run.opSteps, List.getElem?_map, kept]
    simp [updates']
  have frameUpdates : (p.frame run.programs).updates = ops'.map Op.update := by
    simp [ProgramState.frame, updates']
  by_cases isRoot : id = 0
  · subst isRoot
    obtain ⟨ops, updates, calls, nests⟩ := run.rootOps wf flat found₀
    rw [updates, updates'] at related
    cases related with
    | some same =>
      refine ⟨0, t, 1, [], ops, ops', ?_, wf, ?_, calls, nests, same, frameUpdates, opSteps⟩
      · rw [rank_zero] at isRank
        rw [FrameScope, if_pos isRank.symm]
        exact ⟨rfl, rfl⟩
      · rw [flat]
        simp
  · obtain ⟨call, body, rest, w₀, w₁, opens, kind, callee, handed, fresh, walked, closes⟩ :=
      (run.ran wf flat found₀ isRoot).ran
    obtain ⟨d, callWf⟩ := opens.wellFormed wf
    obtain ⟨tail, suffix⟩ := opens.suffix (CallTree.drop_flatten flat)
    have bodyWf := callWf.2.2.2.2.1
    obtain ⟨ops, out, emits⟩ := walked.emission bodyWf fresh.free
    have step : p.core.step = p₀.core.step := congrArg ProgramState.step core
    rw [updates'] at related
    cases updates : p₀.updates with
    | none =>
      rw [updates] at related
      cases related
    | some ops₀ =>
      rw [updates] at related
      cases related with
      | some same =>
        obtain ⟨-, isOps⟩ := closes ops₀ updates
        have slice := callFree_slice (p₀.step + 1 + body.size) p₀.target w₁
        rw [Walk.sliced_out, out, fresh.out, List.nil_append] at isOps
        have emitting : w₀.top.program ≠ none := by
          rw [fresh.program]
          exact Option.some_ne_none id
        refine ⟨p₀.step + 1, body, _, rest.flatten ++ tail, ops₀, ops', ?_, bodyWf, ?_, ?_, ?_, same, frameUpdates,
          opSteps⟩
        · have nonzero : k ≠ 0 := by
            intro zero
            obtain ⟨r, first, rootAlive, -⟩ := run.final.settled.root
            have later := rank_lt first (Settled.kept_alive rootAlive) (Nat.pos_of_ne_zero isRoot)
            omega
          rw [FrameScope, if_neg nonzero]
          refine ⟨p₀.step, call, rest, ?_, opens, kind, rfl⟩
          rw [run.frameSteps, List.getElem?_map, kept]
          exact congrArg some step
        · exact CallTree.drop_body suffix
        · rw [isOps, callsOf_append]
          show _ ++ callsOf (w₁.slice (p₀.step + 1 + body.size) p₀.target) = _
          rw [slice.1, List.append_nil]
          exact emits.calls emitting
        · rw [isOps, nestsOf_append]
          show _ ++ nestsOf (w₁.slice (p₀.step + 1 + body.size) p₀.target) = _
          rw [slice.2, List.append_nil]
          exact emits.nests emitting

end SplitRun

/-! ### Emitted calls -/

/-- Every `CALL` op of frame `k` stands for a call that succeeded. -/
def CallsSucceed (logs : List StructLog) (tree : FrameTreeExtract) (k : Nat) : Prop :=
  ∀ frame steps, tree.frames[k]? = some frame → tree.opSteps[k]? = some steps →
    ∀ c i, (StateUpdate.call c, i) ∈ frame.updates.zip steps → Succeeded logs i

/-- No call that frame `k` makes itself, or through `DELEGATECALL` and `CALLCODE` frames that succeed, fails;
a call given a frame of its own does not count. -/
def NoCallFails (elig : Eligibility) (logs : List StructLog) (t : CallTree) (tree : FrameTreeExtract) (k : Nat) :
    Prop :=
  ∀ r n body, scanCandidates logs = .ok r → FrameScope t tree k n body →
    ∀ i ∈ body.callSteps (handedTo elig r.1) n, Succeeded logs i

theorem mem_callsOf {ops : List Op} {i : Nat} :
    i ∈ callsOf ops ↔ ∃ c, (StateUpdate.call c, i) ∈ (ops.map Op.update).zip (ops.map Op.step) := by
  rw [List.zip_map']
  constructor
  · intro member
    obtain ⟨op, inside, rfl⟩ := List.mem_map.mp member
    obtain ⟨inside, isCall⟩ := List.mem_filter.mp inside
    obtain ⟨update, step⟩ := op
    cases update with
    | call c => exact ⟨c, List.mem_map.mpr ⟨_, inside, rfl⟩⟩
    | _ => cases isCall
  · rintro ⟨c, member⟩
    obtain ⟨⟨update, step⟩, inside, same⟩ := List.mem_map.mp member
    obtain ⟨rfl, rfl⟩ := Prod.mk.inj same
    exact List.mem_map.mpr ⟨_, List.mem_filter.mpr ⟨inside, rfl⟩, rfl⟩

theorem FrameScope.unique {k n n' : Nat} {body body' : CallTree} (first : FrameScope t tree k n body)
    (second : FrameScope t tree k n' body') : n = n' ∧ body = body' := by
  unfold FrameScope at first second
  split at first
  · rename_i isRoot
    rw [if_pos isRoot] at second
    exact ⟨first.1.trans second.1.symm, first.2.trans second.2.symm⟩
  · rename_i nonroot
    rw [if_neg nonroot] at second
    obtain ⟨j, call, rest, found, opens, -, rfl⟩ := first
    obtain ⟨j', call', rest', found', opens', -, rfl⟩ := second
    obtain rfl := Option.some.inj (found.symm.trans found')
    exact ⟨rfl, (opens.unique opens').2.1⟩

/-- A frame's `CALL` ops all succeeded exactly if none of its calls failed. -/
theorem callsSucceed_iff (wf : t.WellFormed 1) (flat : trace.structLogs = t.flatten)
    (answer : splitFrameTree H trace root elig cost = .ok tree) {k : Nat} (inside : k < tree.frames.length) :
    (∃ n body, FrameScope t tree k n body) ∧
      (CallsSucceed trace.structLogs tree k ↔ NoCallFails elig trace.structLogs t tree k) := by
  obtain ⟨run⟩ := splitFrameTree_run answer
  obtain ⟨frame, found⟩ : ∃ frame, tree.frames[k]? = some frame := ⟨_, List.getElem?_eq_getElem inside⟩
  obtain ⟨n, body, d, tail, ops, ops', scope, bodyWf, suffix, calls, nests, same, updates, steps⟩ :=
    run.scopeOps wf flat found
  refine ⟨⟨n, body, scope⟩, ?_⟩
  have nested := @succeeded_of_nestSteps (handedTo elig run.candidates) _ _ _ _ _ bodyWf suffix
  constructor
  · intro succeed r n' body' scanned scope' i member
    obtain ⟨rfl, rfl⟩ := scope.unique scope'
    have isR : r.1 = run.candidates := congrArg Prod.fst (Except.ok.inj (scanned.symm.trans run.scanned))
    rw [isR, ← calls] at member
    obtain ⟨c, listed⟩ := mem_callsOf.mp ((mem_callsOf_sameOrCall same).1 member)
    rw [← updates] at listed
    exact succeed frame _ found steps c i listed
  · intro none frame' steps' found' isSteps c i listed
    obtain rfl := Option.some.inj (found.symm.trans found')
    obtain rfl := Option.some.inj (steps.symm.trans isSteps)
    rw [updates] at listed
    rcases (mem_callsOf_sameOrCall same).2 (mem_callsOf.mpr ⟨c, listed⟩) with call | nest
    · rw [calls] at call
      exact none _ n body run.scanned scope i call
    · rw [nests] at nest
      exact nested i nest

theorem frameIndex_none (candidate : Option Candidate) (callee : Option Address) :
    (Eligibility.consumers fun _ => false).frameIndex candidate callee = none := by
  unfold Eligibility.frameIndex
  cases candidate.filter (fun c => !c.unsupportedOp) with
  | none => rfl
  | some c =>
    cases callee with
    | none => rfl
    | some a =>
      obtain ⟨bump, unsupported⟩ := c
      cases bump <;> rfl

/-- The un-errored `CALL`s of the root frame and of its `DELEGATECALL` and `CALLCODE` frames that succeed. -/
def CallTree.rootCalls (t : CallTree) : List Nat := t.callSteps (fun _ _ => false) 0

/-- Every `CALL` op a split returns stands for a call that succeeded exactly if no call of a returned frame,
or of a `DELEGATECALL` or `CALLCODE` frame of it that succeeds, fails. With nothing nested these are the
calls of the root. -/
theorem emitted_calls_succeed_iff (H : Hashes) (trace : DefaultFrame) (root : Address) (cost : NestingCostModel)
    (t : CallTree) (wf : t.WellFormed 1) (flat : trace.structLogs = t.flatten) :
    (∀ isNestable tree, computeFrameTreeCanonical H trace root isNestable cost = .ok tree →
      ∀ k < tree.frames.length, (∃ n body, FrameScope t tree k n body) ∧
        (CallsSucceed trace.structLogs tree k ↔
          NoCallFails (.consumers isNestable) trace.structLogs t tree k)) ∧
    (∀ owned tree, computeFrameTreeHypothetical H trace root owned cost = .ok tree →
      ∀ k < tree.frames.length, (∃ n body, FrameScope t tree k n body) ∧
        (CallsSucceed trace.structLogs tree k ↔ NoCallFails (.hypothetical owned) trace.structLogs t tree k)) ∧
    (∀ r, computeStateUpdatesCanonical H trace root = .ok r →
      ∃ tree frame, computeFrameTreeCanonical H trace root (fun _ => false) nestingCostModelV1 = .ok tree ∧
        tree.frames[0]? = some frame ∧ frame.updates = r.1 ∧
        (CallsSucceed trace.structLogs tree 0 ↔ ∀ i ∈ t.rootCalls, Succeeded trace.structLogs i)) := by
  refine ⟨fun isNestable tree answer k inside => callsSucceed_iff wf flat answer inside,
    fun owned tree answer k inside => callsSucceed_iff wf flat answer inside, ?_⟩
  intro r answer
  obtain ⟨tree, split, answer⟩ := Outcome.bind_ok answer
  obtain ⟨frame, first, answer⟩ := Outcome.bind_ok answer
  rw [Outcome.okOr_ok, List.head?_eq_getElem?] at first
  obtain rfl := Except.ok.inj answer
  refine ⟨tree, frame, split, first, rfl, ?_⟩
  have inside := (List.getElem?_eq_some_iff.mp first).1
  rw [(callsSucceed_iff wf flat split inside).2]
  have unhanded : ∀ candidates, handedTo (.consumers fun _ => false) candidates = fun _ _ => false := by
    intro candidates
    funext j log
    rw [handedTo, frameIndex_none]
    rfl
  obtain ⟨run⟩ := splitFrameTree_run split
  constructor
  · intro none i member
    refine none _ 0 t run.scanned (by rw [FrameScope, if_pos rfl]; exact ⟨rfl, rfl⟩) i ?_
    rw [unhanded]
    exact member
  · intro succeed r' n body scanned scope i member
    rw [FrameScope, if_pos rfl] at scope
    obtain ⟨rfl, rfl⟩ := scope
    rw [unhanded] at member
    exact succeed i member

/-- A call that opens no frame and resumes with `flag`. -/
def oneCall (flag : U256) : CallTree :=
  .step { op := .call, stack := some [0, 0, 0, 0, 0, 7, 0] } (.step { op := .other "STOP", stack := some [flag] } .done)

def oneCallTrace (flag : U256) : DefaultFrame where
  structLogs := [{ op := .call, stack := some [0, 0, 0, 0, 0, 7, 0] }, { op := .other "STOP", stack := some [flag] }]
  bounded := by simp

theorem oneCall_wellFormed (flag : U256) : (oneCall flag).WellFormed 1 := by
  refine ⟨⟨rfl, rfl, rfl⟩, fun _ _ => rfl, ⟨rfl, rfl, rfl⟩, ?_, trivial⟩
  intro _ opens
  cases opens

/-- The canonical split of `oneCall`: one frame that holds the call. -/
theorem oneCall_split (flag : U256) (small : flag = 0 ∨ flag = 1) :
    ∃ tree frame, computeFrameTreeCanonical ⟨fun _ => 0, fun _ => 0⟩ (oneCallTrace flag) 9 (fun _ => true)
      nestingCostModelV1 = .ok tree ∧ tree.frames = [frame] ∧ frame.updates = [.call ⟨7, 0, []⟩] ∧
      tree.opSteps = [[0]] := by
  rcases small with rfl | rfl <;> exact ⟨_, _, rfl, rfl, rfl, rfl⟩

theorem oneCall_succeeds : ∃ tree, computeFrameTreeCanonical ⟨fun _ => 0, fun _ => 0⟩ (oneCallTrace 1) 9
    (fun _ => true) nestingCostModelV1 = .ok tree ∧ CallsSucceed (oneCallTrace 1).structLogs tree 0 := by
  obtain ⟨tree, frame, answer, frames, -, -⟩ := oneCall_split 1 (Or.inr rfl)
  obtain ⟨canonical, -, -⟩ := emitted_calls_succeed_iff ⟨fun _ => 0, fun _ => 0⟩ (oneCallTrace 1) 9
    nestingCostModelV1 (oneCall 1) (oneCall_wellFormed 1) rfl
  obtain ⟨-, same⟩ := canonical _ tree answer 0 (by rw [frames]; exact Nat.one_pos)
  refine ⟨tree, answer, same.mpr ?_⟩
  intro r n body _ scope i member
  rw [FrameScope, if_pos rfl] at scope
  obtain ⟨rfl, rfl⟩ := scope
  have isFirst : i = 0 := by
    simp only [oneCall, CallTree.callSteps, List.append_nil, List.mem_append] at member
    rcases member with first | second
    · split at first
      · exact List.mem_singleton.mp first
      · cases first
    · simp [StructLog.isCall] at second
  rw [isFirst]
  exact ⟨1, rfl, by decide⟩

/-- A failed call is emitted all the same. -/
theorem failed_call_emitted :
    (∃ tree, computeFrameTreeCanonical ⟨fun _ => 0, fun _ => 0⟩ (oneCallTrace 0) 9 (fun _ => true)
      nestingCostModelV1 = .ok tree ∧ ¬ CallsSucceed (oneCallTrace 0).structLogs tree 0) ∧
    (∃ r, computeStateUpdatesCanonical ⟨fun _ => 0, fun _ => 0⟩ (oneCallTrace 0) 9 = .ok r ∧
      r.1 = [.call ⟨7, 0, []⟩]) := by
  refine ⟨?_, ⟨_, rfl, rfl⟩⟩
  obtain ⟨tree, frame, answer, frames, updates, steps⟩ := oneCall_split 0 (Or.inl rfl)
  refine ⟨tree, answer, ?_⟩
  intro succeed
  obtain ⟨flag, resumes, nonzero⟩ := succeed frame [0] (by rw [frames]; rfl) (by rw [steps]; rfl) ⟨7, 0, []⟩ 0
    (by rw [updates]; exact List.mem_singleton.mpr rfl)
  have zero : (resumeOf (oneCallTrace 0).structLogs 0).bind StructLog.flag = some 0 := rfl
  exact nonzero (Option.some.inj (resumes.symm.trans zero))

end GasAnalyzer
