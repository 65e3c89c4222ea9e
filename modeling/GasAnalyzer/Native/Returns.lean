import GasAnalyzer.Native.Counted
import GasAnalyzer.Native.Lasting

/-!
# Frames in the order they return

The frames of a tree cover intervals of the trace, nested as the frames are and apart for siblings, so visiting a frame
after its children lists the frames by where they end.
-/

namespace GasAnalyzer

variable {H : Hashes} {trace : DefaultFrame} {root : Address} {elig : Eligibility} {cost : NestingCostModel}
variable {tree : FrameTreeExtract} {t : CallTree}

namespace SplitRun

theorem lasts (run : SplitRun H trace root elig cost tree) (wf : t.WellFormed 1) (flat : trace.structLogs = t.flatten)
    (id : Nat) : ∀ {p : ProgramState}, run.programs[id]? = some p → p.dropped = false → id ≠ 0 →
      ∃ call body rest, CallTree.Lasts 0 t p.step call body rest := by
  induction id using Nat.strong_induction_on with
  | _ id ih =>
    intro p found alive nonroot
    obtain ⟨q, parent, older, foundQ, aliveQ, inside⟩ := run.nested_in_parent found alive nonroot
    obtain ⟨m, outer, d, ops, ops', ranQ, -, nests, same, updates⟩ := run.runs wf flat foundQ aliveQ
    have nested : p.step ∈ outer.nestSteps (handedTo elig run.candidates) m := by
      rw [← nests]
      exact nestsOf_sameOrCall same (inside ops' updates)
    obtain ⟨call, body, rest, within⟩ := CallTree.lasts_of_nestSteps nested
    refine ⟨call, body, rest, ?_⟩
    unfold Runs at ranQ
    split at ranQ
    · obtain ⟨rfl, rfl, -⟩ := ranQ
      exact within
    · rename_i nonrootQ
      obtain ⟨callQ, restQ, opensQ, -, rfl⟩ := ranQ
      obtain ⟨callQ', outer', restQ', around⟩ := ih q older foundQ aliveQ nonrootQ
      obtain ⟨rfl, rfl, rfl⟩ := opensQ.unique around.opens
      exact around.trans within

theorem scoped_of_frame (run : SplitRun H trace root elig cost tree) (wf : t.WellFormed 1)
    (flat : trace.structLogs = t.flatten) {k : Nat} {frame : FrameProgram} (found : tree.frames[k]? = some frame) :
    ∃ id p ops n body, run.programs[id]? = some p ∧ p.dropped = false ∧ p.updates = some ops ∧
      rank ProgramState.kept run.programs id = k ∧ frame = p.frame run.programs ∧ Scoped t id p.step n body ∧
      (spendsOf ops).Sublist (body.spendSteps n) ∧ FrameScope t tree k n body := by
  have found' := found
  rw [run.frames] at found'
  obtain ⟨id, p, foundP, alive, isRank, same⟩ := Settled.of_frame found'
  obtain ⟨ops, updates⟩ := Option.isSome_iff_exists.mp (run.final.done id p (Nat.zero_le _) foundP alive)
  obtain ⟨n, body, scope, within⟩ := run.spends wf flat foundP updates
  refine ⟨id, p, ops, n, body, foundP, alive, updates, isRank, same, scope, within, ?_⟩
  have kept : (keptPrograms run.programs)[k]? = some p := by
    rw [← isRank]
    exact getElem?_rank foundP (Settled.kept_alive alive)
  by_cases isRoot : id = 0
  · subst isRoot
    rw [rank_zero] at isRank
    rw [Scoped, if_pos rfl] at scope
    rw [FrameScope, if_pos isRank.symm]
    exact scope
  · rw [Scoped, if_neg isRoot] at scope
    obtain ⟨call, rest, opens, kind, -, rfl⟩ := scope
    obtain ⟨r, first, rootAlive, -⟩ := run.final.settled.root
    have later := rank_lt first (Settled.kept_alive rootAlive) (Nat.pos_of_ne_zero isRoot)
    rw [FrameScope, if_neg (by omega)]
    refine ⟨p.step, call, rest, ?_, opens, kind, rfl⟩
    rw [run.frameSteps, List.getElem?_map, kept]
    rfl

theorem root_leaves (run : SplitRun H trace root elig cost tree) (wf : t.WellFormed 1)
    (flat : trace.structLogs = t.flatten) {p : ProgramState} {ops : List Op} (found : run.closed.programs[0]? = some p)
    (updates : p.updates = some ops) (s : B256) :
    leftBy ops s = wrote (t.writes CallTree.unborn (some root) 0) p.target s := by
  have walked := run.derivation wf flat
  obtain ⟨below, id, q, emits, foundQ, top, programs, -⟩ := closeRoot_ok run.closes
  rw [programs] at found
  obtain ⟨p₁, found₁, rfl⟩ := found_modify found
  have isRoot := (walked.frames rfl).top.program
  obtain rfl : id = 0 := Option.some.inj (emits.symm.trans isRoot)
  obtain rfl := Option.some.inj (foundQ.symm.trans found₁)
  obtain rfl := Option.some.inj updates
  have targets : (initialWalk root run.rootIndex).Targets 0 root := ⟨_, rfl, rfl⟩
  have target : q.target = root := (walked.targets rfl targets).program q foundQ
  have start : Truthful [] root (initialWalk root run.rootIndex) := ⟨nofun, nofun⟩
  have closed := (walked.truthful wf rfl rfl targets start).closed trace.structLogs.length s
  have sliced : run.closed.top = run.last.sliced trace.structLogs.length root := by
    rw [top, Walk.sliced, below, target]
  rw [sliced, closed, walked.image rfl]
  show _ = wrote _ q.target s
  rw [target]
  exact Option.or_none

/-- A returned program leaves, in every slot of its target, what was last written there before its frame ended. -/
theorem left (run : SplitRun H trace root elig cost tree) (wf : t.WellFormed 1) (flat : trace.structLogs = t.flatten)
    {k n : Nat} {body : CallTree} {frame : FrameProgram} (found : tree.frames[k]? = some frame)
    (scope : FrameScope t tree k n body) (s : B256) : lastStored frame.updates s =
      wrote (t.writesBefore CallTree.unborn (some root) 0 (n + body.size)) frame.target s := by
  obtain ⟨id, p, ops', n', body', foundP, alive, updates', -, rfl, scope', -, framed⟩ := run.scoped_of_frame wf flat found
  obtain ⟨rfl, rfl⟩ := scope.unique framed
  obtain ⟨p₀, found₀, core, related⟩ := run.program_ops foundP
  have step : p.core.step = p₀.core.step := congrArg ProgramState.step core
  have target : p.core.target = p₀.core.target := congrArg ProgramState.target core
  change p.step = p₀.step at step
  change p.target = p₀.target at target
  have frameUpdates : lastStored (p.frame run.programs).updates s = leftBy ops' s := by
    unfold leftBy
    simp [ProgramState.frame, updates']
  rw [updates'] at related
  cases updates : p₀.updates with
  | none =>
    rw [updates] at related
    cases related
  | some ops =>
    rw [updates] at related
    cases related with
    | some same =>
      rw [frameUpdates, leftBy_sameOrCall same]
      show leftBy ops s = wrote _ p.target s
      rw [target]
      by_cases isRoot : id = 0
      · subst isRoot
        rw [Scoped, if_pos rfl] at scope'
        obtain ⟨rfl, rfl⟩ := scope'
        rw [CallTree.writesBefore_all (Nat.le_refl _)]
        exact run.root_leaves wf flat found₀ updates s
      · obtain ⟨call, inner, rest, lasts⟩ := run.lasts wf flat id foundP alive isRoot
        rw [Scoped, if_neg isRoot] at scope'
        obtain ⟨call', rest', opens, -, -, rfl⟩ := scope'
        obtain ⟨rfl, rfl, rfl⟩ := opens.unique lasts.opens
        obtain ⟨-, -, -, -, -, -, programs, -⟩ := closeRoot_ok run.closes
        rw [programs, List.getElem?_modify] at found₀
        have found₀ : run.last.programs[id]? = some p₀ := by simpa [Ne.symm isRoot] using found₀
        have text : run.last.texts[id]? = some p₀.text := by
          rw [getElem?_texts, found₀]
          rfl
        have leaves := (run.derivation wf flat).leavesEnd wf rfl id p₀.text (by show 1 ≤ id; omega) text ops _ body
          _ updates (step ▸ lasts) s
        rw [leaves, step]
        exact Option.or_none

/-! ### Intervals -/

/-- The `CALL` of a live program's child is one its program replays. -/
theorem child_replayed (run : SplitRun H trace root elig cost tree) {q c : Nat} {p child : ProgramState} {ops : List Op}
    (found : run.programs[q]? = some p) (alive : p.dropped = false) (updates : p.updates = some ops)
    (isChild : c ∈ p.children) (foundC : run.programs[c]? = some child) : child.step ∈ spendsOf ops := by
  have op : child.node.op ∈ nestedOps ops := by
    rw [run.final.settled.ops q p ops found alive updates]
    refine List.mem_filterMap.mpr ⟨c, isChild, ?_⟩
    rw [getElem?_nodes, foundC]
    rfl
  obtain ⟨inside, nested⟩ := List.mem_filter.mp op
  refine List.mem_map.mpr ⟨child.node.op, List.mem_filter.mpr ⟨inside, ?_⟩, rfl⟩
  unfold Op.spends
  cases update : child.node.op.update <;> simp_all [StateUpdate.isNested]

theorem child_opens {q c n m : Nat} {p child : ProgramState} {body inner : CallTree} (scope : Scoped t q p.step n body)
    (scopeC : Scoped t c child.step m inner) (nonroot : c ≠ 0) (inside : child.step ∈ body.spendSteps n) :
    ∃ call rest, CallTree.Opens n body child.step call inner rest ∧ CallTree.Opens 0 t child.step call inner rest ∧
      call.op = .call ∧ m = child.step + 1 := by
  rw [Scoped, if_neg nonroot] at scopeC
  obtain ⟨call, rest, opens, kind, -, rfl⟩ := scopeC
  refine ⟨call, rest, ?_, opens, kind, rfl⟩
  unfold Scoped at scope
  split at scope
  · obtain ⟨rfl, rfl⟩ := scope
    exact opens
  · obtain ⟨callP, restP, opensP, -, -, rfl⟩ := scope
    have := CallTree.spendSteps_bounds inside
    exact opensP.within opens (by omega) (by omega)

/-- Frames cover nested intervals, children in call order. -/
theorem intervals (run : SplitRun H trace root elig cost tree) (wf : t.WellFormed 1)
    (flat : trace.structLogs = t.flatten) {starts ends : Nat → Nat}
    (spans : ∀ k n body, k < tree.frames.length → FrameScope t tree k n body →
      starts k = n ∧ ends k = n + body.size) :
    PreOrder.Intervals (childrenOf tree.frames) tree.frames.length starts ends := by
  have settled := run.final.settled
  -- The children of a frame are those of its program, whose calls the program replays.
  have family : ∀ k, k < tree.frames.length → ∃ id p n body, run.programs[id]? = some p ∧ p.dropped = false ∧
      Scoped t id p.step n body ∧ starts k = n ∧ ends k = n + body.size ∧
      childrenOf tree.frames k = p.children.map (rank ProgramState.kept run.programs) ∧
      ∀ c ∈ p.children, ∃ child m inner call rest, run.programs[c]? = some child ∧ 0 < c ∧
        rank ProgramState.kept run.programs c < tree.frames.length ∧ child.step ∈ body.spendSteps n ∧
        CallTree.Opens n body child.step call inner rest ∧ CallTree.Opens 0 t child.step call inner rest ∧
        call.op = .call ∧ m = child.step + 1 ∧ starts (rank ProgramState.kept run.programs c) = m ∧
        ends (rank ProgramState.kept run.programs c) = m + inner.size := by
    intro k inside
    obtain ⟨frame, found⟩ : ∃ frame, tree.frames[k]? = some frame := ⟨_, List.getElem?_eq_getElem inside⟩
    obtain ⟨id, p, ops, n, body, foundP, alive, updates, -, rfl, scope, within, framed⟩ :=
      run.scoped_of_frame wf flat found
    obtain ⟨begins, finishes⟩ := spans k n body inside framed
    refine ⟨id, p, n, body, foundP, alive, scope, begins, finishes, ?_, ?_⟩
    · unfold childrenOf
      rw [found]
      exact settled.frame_children foundP alive
    · intro c isChild
      obtain ⟨child, foundC, hasParent, aliveC⟩ := (settled.mem_children foundP alive).mp isChild
      obtain ⟨-, -, -, older, -⟩ := settled.parent_kept foundC aliveC hasParent
      have nonroot : c ≠ 0 := by omega
      have foundFrame := Settled.frame_at foundC aliveC
      rw [← run.frames] at foundFrame
      obtain ⟨id', p', ops', m, inner, foundP', alive', -, sameRank, -, scopeC, -, framedC⟩ :=
        run.scoped_of_frame wf flat foundFrame
      obtain rfl := rank_inj foundP' (Settled.kept_alive alive') foundC (Settled.kept_alive aliveC) sameRank
      obtain rfl := Option.some.inj (foundP'.symm.trans foundC)
      have replayed := within.subset (run.child_replayed foundP alive updates isChild foundC)
      obtain ⟨call, rest, opens, whole, kind, isStart⟩ := child_opens scope scopeC nonroot replayed
      have inRange := (List.getElem?_eq_some_iff.mp foundFrame).1
      obtain ⟨startC, endC⟩ := spans _ m inner inRange framedC
      exact ⟨_, m, inner, call, rest, foundC, by omega, inRange, replayed, opens, whole, kind, isStart, startC, endC⟩
  constructor
  · intro k inside c member
    obtain ⟨id, p, n, body, foundP, alive, scope, begins, finishes, children, each⟩ := family k inside
    rw [children] at member
    obtain ⟨c, isChild, rfl⟩ := List.mem_map.mp member
    obtain ⟨child, m, inner, call, rest, -, -, inRange, -, opens, whole, -, isStart, startC, endC⟩ := each c isChild
    obtain ⟨d, callWf⟩ := whole.wellFormed wf
    obtain ⟨-, -, -, head, -, resumes, -⟩ := callWf
    have bounds := opens.bounds
    have within := opens.body_bounds
    have nonempty : 0 < inner.size := by
      cases inner with
      | done => cases head
      | step | enter => simp only [CallTree.size]; omega
    have resumed : 0 < rest.size := by
      cases rest with
      | done => cases resumes
      | step | enter => simp only [CallTree.size]; omega
    rw [begins, finishes, startC, endC]
    exact ⟨inRange, by omega, by omega, by omega⟩
  · intro k inside
    obtain ⟨id, p, n, body, foundP, alive, scope, begins, finishes, children, each⟩ := family k inside
    rw [children, List.pairwise_map]
    have sorted : p.children.Pairwise (· < ·) := by
      rw [settled.children id p foundP alive]
      exact List.pairwise_lt_range.filter _
    refine sorted.imp_of_mem ?_
    intro c c' isChild isChild' lt
    obtain ⟨child, m, inner, call, rest, foundC, pos, -, -, opens, -, kind, isStart, -, endC⟩ := each c isChild
    obtain ⟨child', m', inner', call', rest', foundC', -, -, replayed', -, -, -, isStart', startC', -⟩ :=
      each c' isChild'
    have steps := run.steps_distinct wf flat foundC foundC' pos lt
    rw [endC, startC']
    -- A call replayed by the parent is not made in the frame of another.
    by_contra overlap
    have delegates := (opens.delegates replayed' steps (by omega)).1
    rw [kind] at delegates
    cases delegates

end SplitRun

end GasAnalyzer
