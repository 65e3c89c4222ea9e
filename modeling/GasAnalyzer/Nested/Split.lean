import GasAnalyzer.Nested.PreOrderTree

/-!
# The split, stage by stage

What an answer of `splitFrameTree` says of its stages: the walk and its sound outline, the closed root,
and the settled programs the frames are read off.
-/

namespace GasAnalyzer

open Outcome

structure SplitRun (H : Hashes) (trace : DefaultFrame) (root : Address) (elig : Eligibility)
    (cost : NestingCostModel) (tree : FrameTreeExtract) where
  candidates : OrdMap Nat Candidate
  rootIndex : Option U256
  last : Walk
  closed : Walk
  programs : List ProgramState
  scanned : scanCandidates trace.structLogs = .ok (candidates, rootIndex)
  walked : walk H elig candidates trace.structLogs 0 (initialWalk root rootIndex) = .ok last
  closes : closeRoot trace.structLogs.length last = .ok closed
  settles : settlePrograms cost closed = .ok programs
  frames : tree.frames = (keptPrograms programs).map (ProgramState.frame programs)
  opSteps : tree.opSteps = (keptPrograms programs).map (fun p => (p.updates.getD []).map Op.step)
  frameSteps : tree.frameSteps = (keptPrograms programs).map ProgramState.step
  counterMoves : tree.counterMoves = GasAnalyzer.counterMoves closed.top.journal
  callGas : tree.callGasTotal = nativeCallGas programs (fun p => (p.directCallGas, p.nativeGas))
  calleeGas : tree.calleeGasTotal = nativeCallGas programs (fun p => (p.directCalleeGas, p.nativeCalleeGas))
  createGas : tree.createGasTotal = nativeCallGas programs (fun p => (p.directCreateGas, 0))
  skipped : tree.skippedOpcodes = closed.skippedOpcodes

namespace SplitRun

variable {H : Hashes} {trace : DefaultFrame} {root : Address} {elig : Eligibility} {cost : NestingCostModel}
variable {tree : FrameTreeExtract}

theorem enters (run : SplitRun H trace root elig cost tree) : Enters run.candidates trace.structLogs :=
  (scanCandidates_upheld trace.structLogs).of_ok run.scanned

theorem sound (run : SplitRun H trace root elig cost tree) :
    run.last.outline.Sound (rootNode root run.rootIndex) :=
  (walk_upheld H elig run.candidates trace.structLogs run.enters trace.structLogs 0 _ rfl
    (initialWalk_sound root run.rootIndex) (fun _ _ waits => by cases waits)).of_ok run.walked

theorem isClosed (run : SplitRun H trace root elig cost tree) :
    Closed (rootNode root run.rootIndex) run.closed.programs :=
  (closeRoot_upheld run.sound _).of_ok run.closes

theorem final (run : SplitRun H trace root elig cost tree) :
    Final (rootNode root run.rootIndex) run.closed.programs run.programs :=
  (settlePrograms_upheld run.isClosed cost).of_ok run.settles

end SplitRun

variable {H : Hashes} {trace : DefaultFrame} {root : Address} {elig : Eligibility} {cost : NestingCostModel}
variable {tree : FrameTreeExtract}

theorem splitFrameTree_run (answer : splitFrameTree H trace root elig cost = .ok tree) :
    Nonempty (SplitRun H trace root elig cost tree) := by
  unfold splitFrameTree at answer
  obtain ⟨⟨candidates, rootIndex⟩, scanned, answer⟩ := Outcome.bind_ok answer
  obtain ⟨last, walked, answer⟩ := Outcome.bind_ok answer
  obtain ⟨closed, closes, answer⟩ := Outcome.bind_ok answer
  obtain ⟨programs, settles, answer⟩ := Outcome.bind_ok answer
  obtain ⟨frames, compacted, answer⟩ := Outcome.bind_ok answer
  obtain rfl := Except.ok.inj answer
  have enters := (scanCandidates_upheld trace.structLogs).of_ok scanned
  have sound := (walk_upheld H elig candidates trace.structLogs enters trace.structLogs 0 _ rfl
    (initialWalk_sound root rootIndex) (fun _ _ waits => by cases waits)).of_ok walked
  have isClosed := (closeRoot_upheld sound _).of_ok closes
  have final := (settlePrograms_upheld isClosed cost).of_ok settles
  rw [compact_ok final.done] at compacted
  exact ⟨⟨candidates, rootIndex, last, closed, programs, scanned, walked, closes, settles,
    (Except.ok.inj compacted).symm, rfl, rfl, rfl, rfl, rfl, rfl, rfl⟩⟩

/-- The op a settled program holds for one of the walk: the same, or the `CALL` a pruned frame was. -/
inductive SameOrCall : Op → Op → Prop where
  | same (op : Op) : SameOrCall op op
  | call (n : Nested) (c : Call) (step : Nat) : SameOrCall ⟨.nested n, step⟩ ⟨.call c, step⟩

theorem SameOrCall.of_unnested {ps : List ProgramState} {o o' : Op} (unnested : Unnested ps o o') :
    SameOrCall o o' := by
  cases unnested with
  | same => exact .same o
  | call _ _ _ => exact .call _ _ _

theorem SameOrCall.step {o o' : Op} (same : SameOrCall o o') : o'.step = o.step := by
  cases same <;> rfl

theorem closeRoot_ok {last closed : Walk} {step : Nat} (closes : closeRoot step last = .ok closed) :
    last.below = [] ∧ ∃ id p, last.top.program = some id ∧ last.programs[id]? = some p ∧
      closed.top = last.top.flushed step (visibleImage [last.top] p.target) ∧
      closed.programs = last.programs.modify 0 (ProgramState.finishRoot closed.top) ∧ closed.below = [] := by
  unfold closeRoot at closes
  split at closes
  · cases closes
  · rename_i alone
    have below : last.below = [] := not_not.mp alone
    obtain ⟨v, flushed, closes⟩ := Outcome.bind_ok closes
    obtain ⟨id, p, emits, found, rfl⟩ := flushSlice_ok flushed
    obtain rfl := Except.ok.inj closes
    exact ⟨below, id, p, emits, found, by rw [below]; rfl, rfl, below⟩

theorem retained_program {ps : List ProgramState} {id : Nat} {p' : ProgramState}
    (found : (retainChildren (dropDescendantsOfDropped ps))[id]? = some p')
    (older : ∀ (id : Nat) (p : ProgramState) (q : Nat), ps[id]? = some p → p.parent = some q → q < id) :
    ∃ p, ps[id]? = some p ∧ p'.core = p.core ∧ p'.updates = p.updates ∧ p'.pruned = p.pruned ∧
      (p'.dropped = false → p.dropped = false) := by
  obtain ⟨spread, -⟩ := dropDescendants_spec ps 1 (ps.length - 1) older
  rw [retainChildren_eq, List.getElem?_map] at found
  obtain ⟨p₁, found₁, rfl⟩ := Option.map_eq_some_iff.mp found
  obtain ⟨d, found₀⟩ := Spreads.look spread.same.symm found₁
  refine ⟨_, found₀, rfl, rfl, rfl, ?_⟩
  intro alive
  by_contra dropped
  have gone : isDropped (dropDescendantsOfDropped ps) id := spread.mono id ⟨_, found₀, by simpa using dropped⟩
  rw [isDropped_iff found₁] at gone
  exact Bool.noConfusion (alive.symm.trans gone)

namespace SplitRun

theorem older (run : SplitRun H trace root elig cost tree) :
    ∀ (id : Nat) (p : ProgramState) (q : Nat), run.closed.programs[id]? = some p → p.parent = some q → q < id := by
  obtain ⟨running, books, -⟩ := run.isClosed.books
  apply older_of_forest
  simpa [nodes, Function.comp_def, ProgramState.ledger] using books.forest

/-- A settled program is one of the closed walk, with pruned frames turned back into calls. -/
theorem program_ops (run : SplitRun H trace root elig cost tree) {id : Nat} {p : ProgramState}
    (found : run.programs[id]? = some p) :
    ∃ p₀, run.closed.programs[id]? = some p₀ ∧ p.core = p₀.core ∧
      Option.Rel (List.Forall₂ SameOrCall) p₀.updates p.updates := by
  obtain ⟨p₁, found₁, core₁⟩ := look_core run.final.trims.core found
  obtain ⟨p₀, found₀, core₀, updates, -⟩ := retained_program found₁ run.older
  refine ⟨p₀, found₀, core₁.trans core₀, ?_⟩
  have related := run.final.trims.updates id p₁ p found₁ found
  rw [updates] at related
  generalize p₀.updates = before, p.updates = after at related
  cases related with
  | none => exact .none
  | some ops => exact .some (ops.imp fun _ _ => SameOrCall.of_unnested)

/-- The root's program is its walk's ops, with pruned frames turned back into calls. -/
theorem rootProgram (run : SplitRun H trace root elig cost tree) :
    ∃ frame ops, tree.frames[0]? = some frame ∧ frame.updates = ops.map Op.update ∧
      tree.opSteps[0]? = some (ops.map Op.step) ∧ List.Forall₂ SameOrCall run.closed.top.out ops := by
  obtain ⟨below, id, p, emits, found, -, programs, -⟩ := closeRoot_ok run.closes
  obtain ⟨r, first, alive, done⟩ := run.final.settled.root
  obtain ⟨ops, updates⟩ := Option.isSome_iff_exists.mp done
  have here := Settled.frame_at first alive
  rw [rank_zero, ← run.frames] at here
  have kept : (keptPrograms run.programs)[0]? = some r := by
    have : (keptPrograms run.programs)[rank ProgramState.kept run.programs 0]? = some r :=
      getElem?_rank first (Settled.kept_alive alive)
    rwa [rank_zero] at this
  refine ⟨r.frame run.programs, ops, here, by simp [ProgramState.frame, updates], ?_, ?_⟩
  · rw [run.opSteps, List.getElem?_map, kept]
    simp [updates]
  · obtain ⟨r₀, first₀, -, related⟩ := run.program_ops first
    rw [programs] at first₀
    obtain ⟨r₁, -, rfl⟩ := found_modify first₀
    rw [updates] at related
    cases related with
    | some same => exact same

end SplitRun

end GasAnalyzer
