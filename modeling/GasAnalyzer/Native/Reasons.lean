import GasAnalyzer.Core.Unnested
import GasAnalyzer.Native.Metered

/-!
# Why a contract has no frame

The report looks for the contract among the `CALL`s of the returned programs. These are what is left of the calls made in
the frames' scopes: a callee given a frame of its own that failed leaves no op, nor does a `DELEGATECALL` or `CALLCODE`
frame that failed. A contract whose every call was undone is reported as not reached.
-/

namespace GasAnalyzer

/-! ### Callees of ops -/

/-- Whom a `CALL` or `NESTED` op runs. -/
def Op.callee (op : Op) : Option Address :=
  match op.update with
  | .call c => some c.target
  | .nested x => some x.target
  | _ => none

/-- The op runs the callee of its step. -/
def Addressed (logs : List StructLog) (op : Op) : Prop :=
  ∀ target, op.callee = some target → ∃ log, logs[op.step]? = some log ∧ log.callee = some target

theorem addressed_of_idle {logs : List StructLog} {op : Op} (idle : op.callee = none) : Addressed logs op := by
  intro target runs
  rw [idle] at runs
  cases runs

variable {H : Hashes} {elig : Eligibility} {candidates : OrdMap Nat Candidate} {n : Nat} {log : StructLog}
variable {logs tail : List StructLog} {w w' : Walk}

theorem addressed_slice (step : Nat) (target : Address) (w : Walk) : ∀ op ∈ w.slice step target, Addressed logs op := by
  intro op member
  obtain ⟨e, -, rfl⟩ := List.mem_map.mp member
  exact addressed_of_idle rfl

theorem Executed.addressed (executed : Executed H elig candidates n log w w') (carries : log.memory.isSome = true)
    (found : logs[n]? = some log) (held : ∀ op ∈ w.top.out, Addressed logs op) :
    ∀ op ∈ w'.top.out, Addressed logs op := by
  obtain ⟨words, memory⟩ := Option.isSome_iff_exists.mp carries
  have decodes : ∀ {update : Option StateUpdate} {skipped : Option Opcode}, effectful log.op = true →
      log.op ≠ .call → decodeStructLog log = .ok (update, skipped) →
      ∀ op ∈ update.toList.map (Op.mk · n), Addressed logs op := by
    intro update skipped effect other decoded op member
    obtain ⟨u, same, opcode, plain⟩ := decodeStructLog_effect decoded effect memory
    injection same with same _
    subst same
    obtain rfl := List.mem_singleton.mp member
    apply addressed_of_idle
    cases u with
    | call c => exact absurd opcode.symm other
    | nested x => cases plain
    | _ => rfl
  have sliced : ∀ {p : ProgramState} {ops : List Op}, (∀ op ∈ ops, Addressed logs op) →
      ∀ op ∈ (w.sliced n p.target).out ++ ops, Addressed logs op := by
    intro p ops more op member
    rw [Walk.sliced_out] at member
    rcases List.mem_append.mp member with before | new
    · rcases List.mem_append.mp before with old | slice
      · exact held op old
      · exact addressed_slice n p.target w op slice
    · exact more op new
  cases executed with
  | stored =>
    rw [Walk.stored_top]
    exact held
  | logged kind fine emits decoded =>
    intro op member
    rcases List.mem_append.mp member with old | new
    · exact held op old
    · refine decodes ?_ ?_ decoded op new
      · simp [effectful, kind]
      · intro isCall
        rw [isCall] at kind
        cases kind
  | @emitted id p c kind fine emits decoded' decoded callee =>
    refine sliced fun op member => ?_
    obtain rfl := List.mem_singleton.mp member
    intro target runs
    obtain rfl := Option.some.inj runs
    exact ⟨log, found, callee⟩
  | @opened id p c index kind fine emits found' decoded callee handed =>
    refine sliced fun op member => ?_
    obtain rfl := List.mem_singleton.mp member
    intro target runs
    obtain rfl := Option.some.inj runs
    exact ⟨log, found, callee⟩
  | deployed kind fine emits found' decoded =>
    refine sliced (decodes ?_ ?_ decoded)
    · simp [effectful, kind]
    · intro isCall
      rw [isCall] at kind
      cases kind
  | _ => exact held

/-- A frame that returns leaves its caller no op but theirs. -/
theorem Returned.ops {P : Op → Prop} {flag : U256} {f g g' : WalkFrame} (returned : Returned flag f g g')
    (inner : ∀ op ∈ f.out, P op) (outer : ∀ op ∈ g.out, P op) : ∀ op ∈ g'.out, P op := by
  intro op member
  cases returned with
  | absorbed kept =>
    rcases List.mem_append.mp (show op ∈ _ ++ _ from member) with old | new
    · rw [kept.out] at old
      exact outer op old
    · exact inner op new
  | discarded kept =>
    rw [kept.out] at member
    exact outer op member
  | @merged g₁ kept =>
    rw [show (g₁.mergeJournal f.journal).out = g.out from kept.out] at member
    exact outer op member
  | retracted _ _ _ last =>
    apply outer op
    rw [last]
    exact List.mem_append_left _ member

theorem Walked.addressed {d : Nat} {t : CallTree} (walked : Walked H elig candidates n t w w') (wf : t.WellFormed d)
    (here : logs.drop n = t.flatten ++ tail) (free : w.pending = none) (held : ∀ op ∈ w.top.out, Addressed logs op) :
    ∀ op ∈ w'.top.out, Addressed logs op := by
  induction walked generalizing d tail with
  | done => exact held
  | last executed _ => exact (exec_executed executed).addressed wf.1.memory (CallTree.at_head here rfl) held
  | @step n log next rest w w₁ w₂ w' executed head level entered walked ih =>
    have step := exec_executed executed
    have inline := frames_inline free executed level entered
    refine ih wf.2.2 (CallTree.drop_step here) inline.free ?_
    have between : w₂.top.out = w₁.top.out := (entered_kept free step level entered).1.out
    rw [between]
    exact step.addressed wf.1.memory (CallTree.at_head here rfl) held
  | @enter n call first next body rest p w w₁ w₂ w₃ w' executed waits head inner resumes popped walked
      ihInner ihTail =>
    have ran := inner.frames rfl
    have during := ihInner wf.2.2.2.2.1 (CallTree.drop_body here) rfl (fun op member => by cases member)
    have before := (exec_executed executed).addressed wf.1.memory (CallTree.at_head here rfl) held
    obtain ⟨g, others, flag, -, caller, -, pop⟩ := popped_of_frames ran popped
    refine ihTail wf.2.2.2.2.2.2 (CallTree.drop_rest here) (pop.pending.trans ran.free) ?_
    apply pop.returned.ops during
    rw [caller.out]
    exact before

/-! ### Returned programs -/

variable {trace : DefaultFrame} {root : Address} {cost : NestingCostModel} {tree : FrameTreeExtract} {t : CallTree}

namespace SplitRun

/-- The ops a program was closed with run the callees of their steps. -/
theorem closed_addressed (run : SplitRun H trace root elig cost tree) (wf : t.WellFormed 1)
    (flat : trace.structLogs = t.flatten) {id : Nat} {p : ProgramState} {ops : List Op}
    (found : run.closed.programs[id]? = some p) (updates : p.updates = some ops) :
    ∀ op ∈ ops, Addressed trace.structLogs op := by
  have whole := CallTree.drop_flatten flat
  have sliced : ∀ {step : Nat} {target : Address} {v : Walk}, (∀ op ∈ v.top.out, Addressed trace.structLogs op) →
      ∀ op ∈ (v.sliced step target).out, Addressed trace.structLogs op := by
    intro step target v held op member
    rw [Walk.sliced_out] at member
    rcases List.mem_append.mp member with old | slice
    · exact held op old
    · exact addressed_slice step target v op slice
  by_cases isRoot : id = 0
  · subst isRoot
    have held := (run.derivation wf flat).addressed wf whole rfl (fun op member => by cases member)
    obtain ⟨below, -, q, -, -, top, programs, -⟩ := closeRoot_ok run.closes
    rw [programs] at found
    obtain ⟨p₀, -, rfl⟩ := found_modify found
    obtain rfl : run.closed.top.out = ops := Option.some.inj updates
    have isSliced : run.closed.top = run.last.sliced trace.structLogs.length q.target := by
      rw [top, Walk.sliced, below]
    rw [isSliced]
    exact sliced held
  · obtain ⟨call, body, rest, w₀, w₁, opens, -, -, -, fresh, walked, closes⟩ := (run.ran wf flat found isRoot).ran
    obtain ⟨d, callWf⟩ := opens.wellFormed wf
    obtain ⟨tail, suffix⟩ := opens.suffix whole
    have held := walked.addressed callWf.2.2.2.2.1 (CallTree.drop_body suffix) fresh.free (fun op member => by
      rw [fresh.out] at member
      cases member)
    obtain ⟨-, rfl⟩ := closes ops updates
    exact sliced held

/-- So do those of the returned programs: a pruned frame's `CALL` runs the frame's target. -/
theorem addressed (run : SplitRun H trace root elig cost tree) (wf : t.WellFormed 1)
    (flat : trace.structLogs = t.flatten) {id : Nat} {p : ProgramState} {ops : List Op}
    (found : run.programs[id]? = some p) (updates : p.updates = some ops) : ∀ op ∈ ops, Addressed trace.structLogs op := by
  obtain ⟨p₁, found₁, -⟩ := look_core run.final.trims.core found
  obtain ⟨p₀, found₀, -, updates₀, -⟩ := retained_program found₁ run.older
  have related := run.final.trims.updates id p₁ p found₁ found
  rw [updates, updates₀] at related
  cases before : p₀.updates with
  | none =>
    rw [before] at related
    cases related
  | some ops₀ =>
    rw [before] at related
    cases related with
    | some same =>
      have held := run.closed_addressed wf flat found₀ before
      intro op member
      obtain ⟨i, inside, rfl⟩ := List.mem_iff_getElem.mp member
      obtain ⟨lengths, each⟩ := List.forall₂_iff_get.mp same
      have here := each i (by omega) inside
      have there := held _ (List.getElem_mem (show i < ops₀.length by omega))
      change Unnested _ ops₀[i] ops[i] at here
      generalize ops₀[i] = o at here there
      generalize ops[i] = o' at here
      cases here with
      | same => exact there
      | @call j q c foundQ alive fallback =>
        obtain ⟨q₀, foundQ₀, coreQ, -⟩ := retained_program foundQ run.older
        have target : c.target = q.target := by
          by_cases isRoot : j = 0
          · subst isRoot
            obtain ⟨running, books, -⟩ := run.isClosed.books
            obtain ⟨l, foundL, isRoot⟩ := books.first
            rw [List.getElem?_map, foundQ₀] at foundL
            obtain rfl := Option.some.inj foundL
            have none : q₀.fallback = none := congrArg Node.fallback isRoot
            have same : q.core.fallback = q₀.core.fallback := congrArg ProgramState.fallback coreQ
            change q.fallback = q₀.fallback at same
            rw [fallback, none] at same
            cases same
          · obtain ⟨ofCall, -⟩ := run.isClosed.settle.forest.child j q.node
              (by rw [getElem?_nodes, foundQ]; rfl) (Nat.pos_of_ne_zero isRoot)
            obtain ⟨c', same, target, -⟩ := ofCall.call
            obtain rfl := Option.some.inj (fallback.symm.trans same)
            exact target
        intro a runs
        obtain rfl := Option.some.inj runs
        exact there c.target (congrArg some target.symm)

/-- A `NESTED` op left in a returned program runs the frame of its target. -/
theorem nested_framed (run : SplitRun H trace root elig cost tree) {id : Nat} {p : ProgramState} {ops : List Op}
    (found : run.programs[id]? = some p) (alive : p.dropped = false) (updates : p.updates = some ops) {x : Nested}
    {step : Nat} (member : ⟨.nested x, step⟩ ∈ ops) : x.target ∈ tree.frames.map FrameProgram.target := by
  have settled := run.final.settled
  have isNested : (⟨.nested x, step⟩ : Op) ∈ nestedOps ops := List.mem_filter.mpr ⟨member, rfl⟩
  rw [settled.ops id p ops found alive updates] at isNested
  obtain ⟨c, isChild, isOp⟩ := List.mem_filterMap.mp isNested
  obtain ⟨child, foundC, -, aliveC⟩ := (settled.mem_children found alive).mp isChild
  rw [getElem?_nodes, foundC] at isOp
  have target : child.target = x.target := by
    have same : child.node.op = ⟨.nested x, step⟩ := Option.some.inj isOp
    have update : StateUpdate.nested ⟨child.target, child.value, 0⟩ = .nested x := congrArg Op.update same
    exact congrArg Nested.target (StateUpdate.nested.inj update)
  have framed := Settled.frame_at foundC aliveC
  rw [← run.frames] at framed
  exact List.mem_map.mpr ⟨_, List.mem_of_getElem? framed, target⟩

end SplitRun

/-! ### Reached contracts -/

namespace CallTree

/-- The `CALL`s of a scope that leave an op: those of the frame and of its `DELEGATECALL` and `CALLCODE` frames that
succeed, but for a callee given a frame of its own that failed. -/
def stays (handed : Nat → StructLog → Bool) (n : Nat) (t : CallTree) : List Nat :=
  t.callSteps handed n ++ t.nestSteps handed n

theorem stays_calls {handed : Nat → StructLog → Bool} {n i : Nat} {t : CallTree} (member : i ∈ t.stays handed n) :
    ∃ log, (i, log) ∈ t.closure always n ∧ log.isCall = true := by
  unfold stays at member
  induction t generalizing n with
  | done => cases member
  | step log rest ih =>
    have later : i ∈ rest.callSteps handed (n + 1) ++ rest.nestSteps handed (n + 1) →
        ∃ log', (i, log') ∈ (step log rest).closure always n ∧ log'.isCall = true := by
      intro member
      obtain ⟨log', inside, isCall⟩ := ih member
      exact ⟨log', List.mem_cons_of_mem _ inside, isCall⟩
    rcases List.mem_append.mp member with call | nest
    · rcases List.mem_append.mp call with here | after
      · split at here
        · rename_i both
          rw [List.mem_singleton.mp here]
          exact ⟨log, List.mem_cons_self, (Bool.and_eq_true_iff.mp both).1⟩
        · cases here
      · exact later (List.mem_append_left _ after)
    · exact later (List.mem_append_right _ nest)
  | enter call body rest ihBody ihRest =>
    have own : call.isCall = true → i = n →
        ∃ log', (i, log') ∈ (enter call body rest).closure always n ∧ log'.isCall = true := by
      intro isCall same
      rw [same]
      exact ⟨call, List.mem_cons_self, isCall⟩
    have during : call.op.isDelegate = true → i ∈ body.callSteps handed (n + 1) ++ body.nestSteps handed (n + 1) →
        ∃ log', (i, log') ∈ (enter call body rest).closure always n ∧ log'.isCall = true := by
      intro delegates member
      obtain ⟨log', inside, isCall⟩ := ihBody member
      refine ⟨log', List.mem_cons_of_mem _ (List.mem_append_left _ ?_), isCall⟩
      rw [delegates]
      exact inside
    have later : i ∈ rest.callSteps handed (n + 1 + body.size) ++ rest.nestSteps handed (n + 1 + body.size) →
        ∃ log', (i, log') ∈ (enter call body rest).closure always n ∧ log'.isCall = true := by
      intro member
      obtain ⟨log', inside, isCall⟩ := ihRest member
      exact ⟨log', List.mem_cons_of_mem _ (List.mem_append_right _ inside), isCall⟩
    rcases List.mem_append.mp member with first | second
    · rcases List.mem_append.mp first with here | after
      · split at here
        · rename_i isCall
          split at here
          · cases here
          · exact own isCall (List.mem_singleton.mp here)
        · split at here
          · rename_i both
            exact during (Bool.and_eq_true_iff.mp both).1 (List.mem_append_left _ here)
          · cases here
      · exact later (List.mem_append_left _ after)
    · rcases List.mem_append.mp second with here | after
      · split at here
        · rename_i isCall
          split at here
          · exact own isCall (List.mem_singleton.mp here)
          · cases here
        · split at here
          · rename_i both
            exact during (Bool.and_eq_true_iff.mp both).1 (List.mem_append_right _ here)
          · cases here
      · exact later (List.mem_append_right _ after)

end CallTree

/-- A returned frame, or a `DELEGATECALL` or `CALLCODE` frame below it, makes an un-errored `CALL` to `a`. -/
def Reached (t : CallTree) (tree : FrameTreeExtract) (a : Address) : Prop :=
  ∃ k n body i log, k < tree.frames.length ∧ FrameScope t tree k n body ∧ (i, log) ∈ body.closure CallTree.always n ∧
    log.isCall = true ∧ log.callee = some a

/-- One of these `CALL`s is not undone: it is in no delegate frame that fails, and if its callee was given a frame of its
own, that frame succeeds. -/
def ReachedForGood (logs : List StructLog) (handed : Nat → StructLog → Bool) (t : CallTree) (tree : FrameTreeExtract)
    (a : Address) : Prop :=
  ∃ k n body i log, k < tree.frames.length ∧ FrameScope t tree k n body ∧ i ∈ body.stays handed n ∧
    logs[i]? = some log ∧ log.callee = some a

theorem callTarget_eq {u : StateUpdate} {a : Address} : u.callTarget = some a ↔ ∃ c, u = .call c ∧ c.target = a := by
  cases u <;> simp [StateUpdate.callTarget]

/-- The program behind a returned frame. -/
theorem SplitRun.program_of_frame (run : SplitRun H trace root elig cost tree) {k : Nat} {frame : FrameProgram}
    (found : tree.frames[k]? = some frame) : ∃ (id : Nat) (p : ProgramState) (ops : List Op),
      run.programs[id]? = some p ∧ p.dropped = false ∧ p.updates = some ops ∧ frame.updates = ops.map Op.update ∧
      tree.opSteps[k]? = some (ops.map Op.step) := by
  rw [run.frames] at found
  obtain ⟨id, p, foundP, alive, isRank, rfl⟩ := Settled.of_frame found
  have kept : (keptPrograms run.programs)[k]? = some p := by
    rw [← isRank]
    exact getElem?_rank foundP (Settled.kept_alive alive)
  obtain ⟨ops, updates⟩ := Option.isSome_iff_exists.mp (run.final.done id p (Nat.zero_le _) foundP alive)
  refine ⟨id, p, ops, foundP, alive, updates, by simp [ProgramState.frame, updates], ?_⟩
  rw [run.opSteps, List.getElem?_map, kept]
  simp [updates]

theorem ops_ext {xs ys : List Op} (updates : xs.map Op.update = ys.map Op.update)
    (steps : xs.map Op.step = ys.map Op.step) : xs = ys := by
  have zips : ∀ zs : List Op, ((zs.map Op.update).zip (zs.map Op.step)).map (fun x => Op.mk x.1 x.2) = zs := by
    intro zs
    rw [List.zip_map', List.map_map]
    exact List.map_id _
  rw [← zips xs, ← zips ys, updates, steps]

/-- A `CALL` or `NESTED` op stays one of the two. -/
theorem kept_sameOrCall {ops ops' : List Op} (same : List.Forall₂ SameOrCall ops ops') {i : Nat}
    (member : i ∈ callsOf ops ∨ i ∈ nestsOf ops) :
    ∃ op ∈ ops', op.step = i ∧ (op.isCall = true ∨ op.update.isNested = true) := by
  have counterpart : ∀ op ∈ ops, ∃ op' ∈ ops', SameOrCall op op' := by
    intro op inside
    obtain ⟨j, bound, rfl⟩ := List.mem_iff_getElem.mp inside
    obtain ⟨lengths, each⟩ := List.forall₂_iff_get.mp same
    exact ⟨ops'[j], List.getElem_mem _, each j bound (by omega)⟩
  have found : ∃ op ∈ ops, op.step = i ∧ (op.isCall = true ∨ op.update.isNested = true) := by
    rcases member with call | nest
    · obtain ⟨op, inside, step⟩ := List.mem_map.mp call
      obtain ⟨inside, kind⟩ := List.mem_filter.mp inside
      exact ⟨op, inside, step, Or.inl kind⟩
    · obtain ⟨op, inside, step⟩ := List.mem_map.mp nest
      obtain ⟨inside, kind⟩ := List.mem_filter.mp inside
      exact ⟨op, inside, step, Or.inr kind⟩
  obtain ⟨op, inside, step, kind⟩ := found
  obtain ⟨op', inside', related⟩ := counterpart op inside
  refine ⟨op', inside', related.step.trans step, ?_⟩
  cases related with
  | same => exact kind
  | call => exact Or.inl rfl

/-- A frame's program calls an owned contract that has no frame exactly if its scope made a `CALL` to it that stays. -/
theorem SplitRun.calls_iff (run : SplitRun H trace root elig cost tree) (wf : t.WellFormed 1)
    (flat : trace.structLogs = t.flatten) {a : Address} (frameless : a ∉ tree.frames.map FrameProgram.target) :
    (∃ frame ∈ tree.frames, ∃ u ∈ frame.updates, u.callTarget = some a) ↔
      ReachedForGood trace.structLogs (handedTo elig run.candidates) t tree a := by
  constructor
  · rintro ⟨frame, member, u, inside, calls⟩
    obtain ⟨c, rfl, rfl⟩ := callTarget_eq.mp calls
    obtain ⟨k, found⟩ := List.mem_iff_getElem?.mp member
    obtain ⟨n, body, d, tail, ops, ops', scope, -, -, calls, nests, same, updates, steps⟩ := run.scopeOps wf flat found
    obtain ⟨id, p, ops'', foundP, -, updatesP, updates'', steps''⟩ := run.program_of_frame found
    obtain rfl := ops_ext (updates.symm.trans updates'') (Option.some.inj (steps.symm.trans steps''))
    rw [updates] at inside
    obtain ⟨op, inOps, isCall⟩ := List.mem_map.mp inside
    have callee : op.callee = some c.target := by rw [Op.callee, isCall]
    obtain ⟨log, here, called⟩ := run.addressed wf flat foundP updatesP op inOps c.target callee
    have step : op.step ∈ callsOf ops' := List.mem_map.mpr ⟨op, List.mem_filter.mpr ⟨inOps, by
      rw [Op.isCall, isCall]⟩, rfl⟩
    refine ⟨k, n, body, op.step, log, (List.getElem?_eq_some_iff.mp found).1, scope, ?_, here, called⟩
    rw [CallTree.stays, ← calls, ← nests]
    exact List.mem_append.mpr ((mem_callsOf_sameOrCall same).2 step)
  · rintro ⟨k, n, body, i, log, inside, scope, member, here, called⟩
    obtain ⟨frame, found⟩ : ∃ frame, tree.frames[k]? = some frame := ⟨_, List.getElem?_eq_getElem inside⟩
    obtain ⟨n', body', d, tail, ops, ops', scope', -, -, calls, nests, same, updates, steps⟩ :=
      run.scopeOps wf flat found
    obtain ⟨rfl, rfl⟩ := scope.unique scope'
    obtain ⟨id, p, ops'', foundP, alive, updatesP, updates'', steps''⟩ := run.program_of_frame found
    obtain rfl := ops_ext (updates.symm.trans updates'') (Option.some.inj (steps.symm.trans steps''))
    rw [CallTree.stays, ← calls, ← nests] at member
    -- The op of the step is a `CALL`, or a `NESTED` op, whose target would have a frame.
    obtain ⟨op, inOps, rfl, kind⟩ := kept_sameOrCall same (List.mem_append.mp member)
    obtain ⟨update, step⟩ := op
    have addressed := run.addressed wf flat foundP updatesP ⟨update, step⟩ inOps
    have target : ∀ b, (Op.mk update step).callee = some b → b = a := by
      intro b runs
      obtain ⟨log', here', called'⟩ := addressed b runs
      obtain rfl := Option.some.inj (here.symm.trans here')
      exact Option.some.inj (called'.symm.trans called)
    cases update with
    | call c =>
      refine ⟨frame, List.mem_of_getElem? found, .call c, ?_, callTarget_eq.mpr ⟨c, rfl, target c.target rfl⟩⟩
      rw [updates]
      exact List.mem_map.mpr ⟨_, inOps, rfl⟩
    | nested x =>
      have framed := run.nested_framed foundP alive updatesP inOps
      rw [target x.target rfl] at framed
      exact absurd framed frameless
    | _ =>
      rcases kind with isCall | isNested
      · cases isCall
      · cases isNested

/-- The documented reasons: `KeptAsCall` for a contract that a returned frame's scope calls, `NotReached` for no other. -/
structure Explains (t : CallTree) (tree : FrameTreeExtract) (a : Address) (reason : NotNestedReason) : Prop where
  kept : Reached t tree a → reason = .keptAsCall
  unreached : reason = .notReached ↔ ¬Reached t tree a

theorem mem_unnestedOwned {owned : Finset Address} {frames : List FrameProgram} {a : Address} {r : NotNestedReason} :
    (a, r) ∈ unnestedOwned owned frames ↔ (a ∈ owned ∧ a ∉ frames.map FrameProgram.target) ∧
      r = if ∃ frame ∈ frames, ∃ u ∈ frame.updates, u.callTarget = some a then .keptAsCall else .notReached := by
  have called : a ∈ (frames.flatMap FrameProgram.updates).filterMap StateUpdate.callTarget ↔
      ∃ frame ∈ frames, ∃ u ∈ frame.updates, u.callTarget = some a := by
    rw [List.mem_filterMap]
    constructor
    · rintro ⟨u, member, calls⟩
      obtain ⟨frame, isFrame, inside⟩ := List.mem_flatMap.mp member
      exact ⟨frame, isFrame, u, inside, calls⟩
    · rintro ⟨frame, isFrame, u, inside, calls⟩
      exact ⟨u, List.mem_flatMap.mpr ⟨frame, isFrame, inside⟩, calls⟩
  unfold unnestedOwned
  rw [List.mem_map]
  constructor
  · rintro ⟨b, member, same⟩
    obtain ⟨rfl, rfl⟩ := Prod.mk.inj same
    obtain ⟨isOwned, frameless⟩ := List.mem_filter.mp member
    refine ⟨⟨(Finset.mem_sort _).mp isOwned, by simpa using frameless⟩, ?_⟩
    exact if_congr called rfl rfl
  · rintro ⟨⟨isOwned, frameless⟩, rfl⟩
    refine ⟨a, List.mem_filter.mpr ⟨(Finset.mem_sort _).mpr isOwned, by simpa using frameless⟩, ?_⟩
    exact congrArg (Prod.mk a) (if_congr called rfl rfl)

/-- An owned contract without a frame gets the documented reason exactly if, where a returned frame's scope calls it at
all, one such call is not undone. -/
theorem unnested_owned_iff (H : Hashes) (trace : DefaultFrame) (root : Address) (owned : Finset Address)
    (cost : NestingCostModel) (t : CallTree) (wf : t.WellFormed 1) (flat : trace.structLogs = t.flatten)
    (tree : FrameTreeExtract) (answer : computeFrameTreeHypothetical H trace root owned cost = .ok tree) :
    ∃ candidates rootIndex, scanCandidates trace.structLogs = .ok (candidates, rootIndex) ∧
      ∀ a ∈ owned, a ∉ tree.frames.map FrameProgram.target →
        ∃ reason, (∀ r, (a, r) ∈ unnestedOwned owned tree.frames ↔ r = reason) ∧
          (Explains t tree a reason ↔ (Reached t tree a →
            ReachedForGood trace.structLogs (handedTo (.hypothetical owned) candidates) t tree a)) := by
  obtain ⟨run⟩ := splitFrameTree_run answer
  refine ⟨run.candidates, run.rootIndex, run.scanned, ?_⟩
  intro a isOwned frameless
  refine ⟨_, fun r => by rw [mem_unnestedOwned, and_iff_right ⟨isOwned, frameless⟩], ?_⟩
  have calls := run.calls_iff wf flat frameless
  have reached : ReachedForGood trace.structLogs (handedTo (.hypothetical owned) run.candidates) t tree a →
      Reached t tree a := by
    rintro ⟨k, n, body, i, log, inside, scope, member, here, called⟩
    obtain ⟨log', closed, isCall⟩ := CallTree.stays_calls member
    obtain ⟨tail, suffix⟩ : ∃ tail, trace.structLogs.drop n = body.flatten ++ tail := by
      unfold FrameScope at scope
      split at scope
      · obtain ⟨rfl, rfl⟩ := scope
        exact ⟨[], CallTree.drop_flatten flat⟩
      · obtain ⟨j, call, rest, -, opens, -, rfl⟩ := scope
        obtain ⟨tail, suffix⟩ := opens.suffix (CallTree.drop_flatten flat)
        exact ⟨_, CallTree.drop_body suffix⟩
    obtain rfl := Option.some.inj (here.symm.trans (CallTree.closure_at suffix closed))
    exact ⟨k, n, body, i, log, inside, scope, closed, isCall, called⟩
  by_cases good : ReachedForGood trace.structLogs (handedTo (.hypothetical owned) run.candidates) t tree a
  · rw [if_pos (calls.mpr good)]
    exact ⟨fun _ _ => good, fun _ => ⟨fun _ => rfl, ⟨nofun, fun never => absurd (reached good) never⟩⟩⟩
  · rw [if_neg (fun called => good (calls.mp called))]
    constructor
    · intro explains isReached
      cases explains.kept isReached
    · intro stays
      have never : ¬Reached t tree a := fun isReached => good (stays isReached)
      exact ⟨fun isReached => absurd isReached never, fun _ => never, fun _ => rfl⟩

/-- A root that calls the owned `7`, whose frame returns `flag`. -/
def ownedCall (flag : U256) : CallTree :=
  .enter { op := .call, gas := 100000, stack := some [0, 0, 0, 0, 0, 7, 0] }
    (.step { op := .other "STOP", gas := 90000, depth := 2, stack := some [] } .done)
    (.step { op := .other "STOP", gas := 80000, stack := some [flag] } .done)

def ownedCallTrace (flag : U256) : DefaultFrame where
  structLogs := (ownedCall flag).flatten
  bounded := by simp [ownedCall, CallTree.flatten]

theorem ownedCall_wellFormed (flag : U256) : (ownedCall flag).WellFormed 1 := by
  refine ⟨⟨rfl, rfl, rfl⟩, rfl, rfl, rfl, ⟨⟨rfl, rfl, rfl⟩, nofun, trivial⟩, rfl, ⟨rfl, rfl, rfl⟩, nofun, trivial⟩

/-- The split of `ownedCall` gives `7` no frame; `calls` tells whether it keeps the call. -/
def ownedCallShape (flag : U256) (calls : Bool) : Bool :=
  (computeFrameTreeHypothetical ⟨fun _ => 0, fun _ => 0⟩ (ownedCallTrace flag) 9 {7} nestingCostModelV1).toOption.any
    fun tree => decide (0 < tree.frames.length) && decide (7 ∉ tree.frames.map FrameProgram.target) &&
      decide (∃ frame ∈ tree.frames, ∃ u ∈ frame.updates, u.callTarget = some 7) == calls

theorem ownedCall_run (flag : U256) (calls : Bool) (shape : ownedCallShape flag calls = true) :
    ∃ tree, computeFrameTreeHypothetical ⟨fun _ => 0, fun _ => 0⟩ (ownedCallTrace flag) 9 {7} nestingCostModelV1 =
        .ok tree ∧ 0 < tree.frames.length ∧ 7 ∉ tree.frames.map FrameProgram.target ∧
      (7, if calls then NotNestedReason.keptAsCall else .notReached) ∈ unnestedOwned {7} tree.frames := by
  obtain ⟨tree, answer, shape⟩ := Outcome.any_ok shape
  obtain ⟨shape, called⟩ := Bool.and_eq_true_iff.mp shape
  obtain ⟨some, frameless⟩ := Bool.and_eq_true_iff.mp shape
  refine ⟨tree, answer, of_decide_eq_true some, of_decide_eq_true frameless, ?_⟩
  rw [mem_unnestedOwned, ← beq_iff_eq.mp called]
  exact ⟨⟨Finset.mem_singleton_self 7, of_decide_eq_true frameless⟩, if_congr decide_eq_true_iff rfl rfl⟩

theorem ownedCall_scope (flag : U256) (tree : FrameTreeExtract) : FrameScope (ownedCall flag) tree 0 0 (ownedCall flag) := by
  rw [FrameScope, if_pos rfl]
  exact ⟨rfl, rfl⟩

theorem ownedCall_stays (handed : Nat → StructLog → Bool) : 0 ∈ (ownedCall 1).stays handed 0 := by
  cases given : handed 0 { op := .call, gas := 100000, stack := some [0, 0, 0, 0, 0, 7, 0] } <;>
    simp [CallTree.stays, ownedCall, CallTree.callSteps, CallTree.nestSteps, StructLog.isCall, StructLog.errored,
      CallTree.succeeds, CallTree.outcome, CallTree.head?, StructLog.flag, given]

/-- `7` returns, and is too cheap for a frame. -/
theorem unnested_owned_cheapCall : ∃ tree,
    computeFrameTreeHypothetical ⟨fun _ => 0, fun _ => 0⟩ (ownedCallTrace 1) 9 {7} nestingCostModelV1 = .ok tree ∧
      (7, NotNestedReason.keptAsCall) ∈ unnestedOwned {7} tree.frames ∧ Explains (ownedCall 1) tree 7 .keptAsCall := by
  obtain ⟨tree, answer, inside, frameless, listed⟩ := ownedCall_run 1 true (by decide +kernel)
  obtain ⟨candidates, rootIndex, -, each⟩ := unnested_owned_iff ⟨fun _ => 0, fun _ => 0⟩ (ownedCallTrace 1) 9 {7}
    nestingCostModelV1 (ownedCall 1) (ownedCall_wellFormed 1) rfl tree answer
  obtain ⟨reason, only, explains⟩ := each 7 (Finset.mem_singleton_self 7) frameless
  obtain rfl : .keptAsCall = reason := (only _).mp listed
  refine ⟨tree, answer, listed, explains.mpr fun _ => ?_⟩
  exact ⟨0, 0, _, 0, _, inside, ownedCall_scope 1 tree, ownedCall_stays _, rfl, rfl⟩

/-- `7` reverts: the root called it, and it is reported as not reached. -/
theorem unnested_owned_revertedCall : ∃ tree,
    computeFrameTreeHypothetical ⟨fun _ => 0, fun _ => 0⟩ (ownedCallTrace 0) 9 {7} nestingCostModelV1 = .ok tree ∧
      (ownedCall 0).WellFormed 1 ∧ (ownedCallTrace 0).structLogs = (ownedCall 0).flatten ∧
      7 ∉ tree.frames.map FrameProgram.target ∧ (7, NotNestedReason.notReached) ∈ unnestedOwned {7} tree.frames ∧
      Reached (ownedCall 0) tree 7 ∧ ¬Explains (ownedCall 0) tree 7 .notReached := by
  obtain ⟨tree, answer, inside, frameless, listed⟩ := ownedCall_run 0 false (by decide +kernel)
  have reached : Reached (ownedCall 0) tree 7 :=
    ⟨0, 0, _, 0, _, inside, ownedCall_scope 0 tree, List.mem_cons_self, rfl, rfl⟩
  exact ⟨tree, answer, ownedCall_wellFormed 0, rfl, frameless, listed, reached, fun explains =>
    explains.unreached.mp rfl reached⟩

end GasAnalyzer
