import GasAnalyzer.Replay.Frames

/-!
# Replaying a frame tree

The executor of a frame tree runs the root's program and, at each `NESTED` op, the program of the next child in place;
the calls that stay calls are made as the execution made them. Run on the chain the execution starts from, a tree the
split answers with ends on the chain the execution ends on, each call on its way finding what the execution's step
found.
-/

namespace GasAnalyzer

/-! ### The executor -/

/-- Runs ops for `target`. A `NESTED` op runs the next child and any other call does what its step does; what each of them
found is listed, in the order they are made. -/
def replayOps (does : Nat → Chain → Chain) (child : Nat → Chain → Option (Chain × List (Nat × Chain)))
    (target : Address) : List Op → List Nat → Chain → Option (Chain × List (Nat × Chain))
  | [], children, c => if children = [] then some (c, []) else none
  | op :: ops, children, c =>
    match op.update with
    | .store s => replayOps does child target ops children (c.store target s.slot s.value)
    | .nested _ => do
      let k ← children.head?
      let inner ← child k c
      let after ← replayOps does child target ops children.tail inner.1
      some (after.1, (op.step, c) :: inner.2 ++ after.2)
    | u =>
      match u.event? with
      | some e => replayOps does child target ops children (c.emit target e)
      | none => do
        let after ← replayOps does child target ops children (does op.step c)
        some (after.1, (op.step, c) :: after.2)

namespace FrameTreeExtract

variable (tree : FrameTreeExtract) (does : Nat → Chain → Chain)

/-- Runs the program of frame `k`; frames are nested at most `fuel` deep. -/
def replayFrame : Nat → Nat → Chain → Option (Chain × List (Nat × Chain))
  | 0, _, _ => none
  | fuel + 1, k, c => do
    let frame ← tree.frames[k]?
    let steps ← tree.opSteps[k]?
    replayOps does (replayFrame fuel) frame.target (List.zipWith Op.mk frame.updates steps) frame.children c

def replay (c : Chain) : Option (Chain × List (Nat × Chain)) := tree.replayFrame does tree.frames.length 0 c

end FrameTreeExtract

/-! ### Running one program -/

variable {sees : Nat → Chain} {does : Nat → Chain → Chain} {target : Address} {ops ops' : List Op} {c c' : Chain}

/-- What calls made from step `low` to step `high` found, in the order they were made. -/
structure Sightings (sees : Nat → Chain) (low high : Nat) (seen : List (Nat × Chain)) : Prop where
  found : ∀ x ∈ seen, x.2 = sees x.1
  within : ∀ x ∈ seen, low ≤ x.1 ∧ x.1 < high
  ordered : (seen.map Prod.fst).Pairwise (· < ·)

theorem Sightings.nil {low high : Nat} : Sightings sees low high [] :=
  ⟨fun _ member => absurd member List.not_mem_nil, fun _ member => absurd member List.not_mem_nil, List.Pairwise.nil⟩

theorem Sightings.cons {n low past high : Nat} {inner after : List (Nat × Chain)} (here : low ≤ n) (finds : c = sees n)
    (inside : Sightings sees (n + 1) past inner) (later : Sightings sees past high after) (deep : n < past)
    (ends : past ≤ high) : Sightings sees low high ((n, c) :: inner ++ after) := by
  constructor
  · intro x member
    rcases List.mem_append.mp member with first | second
    · rcases List.mem_cons.mp first with rfl | nested
      · exact finds
      · exact inside.found x nested
    · exact later.found x second
  · intro x member
    rcases List.mem_append.mp member with first | second
    · rcases List.mem_cons.mp first with rfl | nested
      · exact ⟨here, by omega⟩
      · have := inside.within x nested
        omega
    · have := later.within x second
      omega
  · rw [List.map_append, List.map_cons]
    refine List.pairwise_append.mpr ⟨List.pairwise_cons.mpr ⟨?_, inside.ordered⟩, later.ordered, ?_⟩
    · intro m member
      obtain ⟨x, nested, rfl⟩ := List.mem_map.mp member
      have := inside.within x nested
      omega
    · intro m first k second
      obtain ⟨y, after', rfl⟩ := List.mem_map.mp second
      have := later.within y after'
      rcases List.mem_cons.mp first with rfl | nested
      · omega
      · obtain ⟨x, deeper, rfl⟩ := List.mem_map.mp nested
        have := inside.within x deeper
        omega

/-- A frame turned back into a call is replayed as well. -/
theorem Follows.sameOrCall (same : List.Forall₂ SameOrCall ops ops') (follows : Follows sees does target ops c c') :
    Follows sees does target ops' c c' := by
  induction same generalizing c with
  | nil => exact follows
  | cons first _ ih =>
    cases first with
    | same =>
      cases follows with
      | store follows => exact .store (ih follows)
      | event logs follows => exact .event logs (ih follows)
      | boundary hands finds follows => exact .boundary hands finds (ih follows)
    | call =>
      cases follows with
      | event logs => cases logs
      | boundary _ finds follows => exact .boundary rfl finds (ih follows)

theorem spendsOf_cons (op : Op) (ops : List Op) :
    spendsOf (op :: ops) = if op.update.isBoundary then op.step :: spendsOf ops else spendsOf ops := by
  unfold spendsOf
  rw [List.filter_cons]
  obtain ⟨u, n⟩ := op
  cases u <;> rfl

theorem nestsOf_cons (op : Op) (ops : List Op) :
    nestsOf (op :: ops) = if op.update.isNested then op.step :: nestsOf ops else nestsOf ops := by
  unfold nestsOf
  rw [List.filter_cons]
  split <;> rfl

/-- Ops that follow the execution replay it, if each child replays its call within the steps of its frame. -/
theorem Follows.replayed {child : Nat → Chain → Option (Chain × List (Nat × Chain))} {children : List Nat}
    (follows : Follows sees does target ops c c') {low high : Nat}
    (within : ∀ n ∈ spendsOf ops, low ≤ n ∧ n < high) (sorted : (spendsOf ops).Pairwise (· < ·)) (ends : low ≤ high)
    (nests : List.Forall₂ (fun n k => ∃ past seen, child k (sees n) = some (does n (sees n), seen) ∧
      Sightings sees (n + 1) past seen ∧ n < past ∧ past ≤ high ∧ ∀ m ∈ spendsOf ops, n < m → past ≤ m)
      (nestsOf ops) children) :
    ∃ seen, replayOps does child target ops children c = some (c', seen) ∧ Sightings sees low high seen := by
  induction follows generalizing low children with
  | done =>
    cases nests
    exact ⟨[], rfl, .nil⟩
  | @store s n ops c c' _ ih => exact ih within sorted ends nests
  | @event u e n ops c c' logs _ ih =>
    have still : u.isBoundary = false ∧ u.isNested = false := by
      cases u <;> first | exact ⟨rfl, rfl⟩ | cases logs
    have here : replayOps does child target (⟨u, n⟩ :: ops) children c =
        replayOps does child target ops children (c.emit target e) := by
      cases u <;> cases logs <;> rfl
    rw [spendsOf_cons, if_neg (by simp [still])] at within sorted nests
    rw [nestsOf_cons, if_neg (by simp [still])] at nests
    rw [here]
    exact ih within sorted ends nests
  | @boundary u n ops c c' hands finds _ ih =>
    have spends : spendsOf (⟨u, n⟩ :: ops) = n :: spendsOf ops := by rw [spendsOf_cons, if_pos hands]
    rw [spends] at within sorted nests
    obtain ⟨first, sorted⟩ := List.pairwise_cons.mp sorted
    obtain ⟨least, below⟩ := within n List.mem_cons_self
    have later : ∀ {past : Nat}, (∀ m ∈ n :: spendsOf ops, n < m → past ≤ m) →
        ∀ m ∈ spendsOf ops, past ≤ m ∧ m < high := by
      intro past reach m member
      exact ⟨reach m (List.mem_cons_of_mem _ member) (first m member), (within m (List.mem_cons_of_mem _ member)).2⟩
    have narrow : ∀ {ns ks : List Nat}, List.Forall₂ (fun n' k => ∃ past seen, child k (sees n') =
        some (does n' (sees n'), seen) ∧ Sightings sees (n' + 1) past seen ∧ n' < past ∧ past ≤ high ∧
          ∀ m ∈ n :: spendsOf ops, n' < m → past ≤ m) ns ks →
        List.Forall₂ (fun n' k => ∃ past seen, child k (sees n') = some (does n' (sees n'), seen) ∧
          Sightings sees (n' + 1) past seen ∧ n' < past ∧ past ≤ high ∧ ∀ m ∈ spendsOf ops, n' < m → past ≤ m) ns ks := by
      intro ns ks all
      refine all.imp ?_
      rintro n' k ⟨past, seen, runs, sightings, deep, inside, reach⟩
      exact ⟨past, seen, runs, sightings, deep, inside, fun m member => reach m (List.mem_cons_of_mem _ member)⟩
    rw [nestsOf_cons] at nests
    by_cases nested : u.isNested = true
    · -- The next child runs in place.
      rw [if_pos nested] at nests
      cases nests with
      | @cons _ k _ children runs nests =>
        obtain ⟨past, inner, runs, sightings, deep, inside, reach⟩ := runs
        obtain ⟨after, replays, found⟩ := ih (later reach) sorted inside (narrow nests)
        refine ⟨(n, c) :: inner ++ after, ?_, .cons least finds sightings found deep inside⟩
        have here : replayOps does child target (⟨u, n⟩ :: ops) (k :: children) c = (child k c).bind fun inner =>
            (replayOps does child target ops children inner.1).bind fun after =>
              some (after.1, (n, c) :: inner.2 ++ after.2) := by
          cases u <;> first | rfl | cases nested
        rw [here, finds, runs, Option.bind_some, ← finds, replays, Option.bind_some]
    · rw [if_neg nested] at nests
      obtain ⟨after, replays, found⟩ := ih (later fun m _ (lt : n < m) => Nat.succ_le_of_lt lt) sorted below (narrow nests)
      have inside : Sightings sees (n + 1) (n + 1) [] := .nil
      refine ⟨(n, c) :: after, ?_, .cons least finds inside found (Nat.lt_succ_self n) below⟩
      have here : replayOps does child target (⟨u, n⟩ :: ops) children c =
          (replayOps does child target ops children (does n c)).bind fun after => some (after.1, (n, c) :: after.2) := by
        cases u <;> first | rfl | exact absurd rfl nested | cases hands
      rw [here, replays, Option.bind_some]

/-! ### Running the tree -/

variable {H : Hashes} {trace : DefaultFrame} {root : Address} {elig : Eligibility} {cost : NestingCostModel}
variable {tree : FrameTreeExtract} {t : CallTree}

/-- What holds of each of the children listed holds of their `NESTED` ops. -/
theorem forall₂_opsOf {ps : List ProgramState} {R : Nat → Nat → Prop} {f : Nat → Nat} {children : List Nat}
    (each : ∀ c ∈ children, ∃ child, ps[c]? = some child ∧ R child.step (f c)) :
    List.Forall₂ R ((opsOf (nodes ps) children).map Op.step) (children.map f) := by
  induction children with
  | nil => exact .nil
  | cons c children ih =>
    obtain ⟨child, found, related⟩ := each c List.mem_cons_self
    have here : (nodes ps)[c]? = some child.node := by rw [getElem?_nodes, found]; rfl
    rw [show opsOf (nodes ps) (c :: children) = child.node.op :: opsOf (nodes ps) children by simp [opsOf, here]]
    exact .cons related (ih fun c' member => each c' (List.mem_cons_of_mem _ member))

theorem CallTree.spendSteps_sorted (n : Nat) (t : CallTree) : (t.spendSteps n).Pairwise (· < ·) :=
  (closure_sorted succeeds n t).sublist (List.filter_sublist.map Prod.fst)

namespace SplitRun

/-- The root's program takes the chain the whole call found to the one it leaves. -/
theorem root_follows (run : SplitRun H trace root elig cost tree) (wf : t.WellFormed 1)
    (flat : trace.structLogs = t.flatten)
    (placed : Placed sees does (some root) 0 t [] c (initialWalk root run.rootIndex)) {p : ProgramState}
    (found : run.closed.programs[0]? = some p) (updates : p.updates = some ops) :
    Follows sees does p.target ops c (t.run (some root) c) := by
  have walked := run.derivation wf flat
  obtain ⟨below, id, q, emits, foundQ, top, programs, -⟩ := closeRoot_ok run.closes
  rw [programs] at found
  obtain ⟨p₀, found₀, rfl⟩ := found_modify found
  obtain rfl : id = 0 := Option.some.inj (emits.symm.trans (walked.frames rfl).top.program)
  obtain rfl := Option.some.inj (foundQ.symm.trans found₀)
  obtain rfl := Option.some.inj updates
  have targets : (initialWalk root run.rootIndex).Targets 0 root := ⟨_, rfl, rfl⟩
  have target : q.target = root := (walked.targets rfl targets).program q foundQ
  have sliced : run.closed.top = run.last.sliced trace.structLogs.length root := by
    rw [top, Walk.sliced, below, target]
  rw [sliced]
  show Follows sees does q.target _ _ _
  rw [target]
  exact placed.program wf walked rfl rfl targets rfl rfl rfl _

/-- Every program of a settled split takes the chain its call found to the one the call left. -/
theorem follows (run : SplitRun H trace root elig cost tree) (wf : t.WellFormed 1)
    (flat : trace.structLogs = t.flatten)
    (placed : Placed sees does (some root) 0 t [] c (initialWalk root run.rootIndex)) {id : Nat} {p : ProgramState}
    (found : run.programs[id]? = some p) (updates : p.updates = some ops) :
    if id = 0 then Follows sees does p.target ops c (t.run (some root) c)
    else Follows sees does p.target ops (sees p.step) (does p.step (sees p.step)) := by
  obtain ⟨p₀, found₀, core, related⟩ := run.program_ops found
  have step : p.core.step = p₀.core.step := congrArg ProgramState.step core
  have target : p.core.target = p₀.core.target := congrArg ProgramState.target core
  change p.step = p₀.step at step
  change p.target = p₀.target at target
  rw [step, target]
  rw [updates] at related
  generalize updates₀ : p₀.updates = before at related
  cases related with
  | some same =>
    by_cases isRoot : id = 0
    · subst isRoot
      rw [if_pos rfl]
      exact (run.root_follows wf flat placed found₀ updates₀).sameOrCall same
    · rw [if_neg isRoot]
      obtain ⟨-, -, -, -, -, -, programs, -⟩ := closeRoot_ok run.closes
      rw [programs, List.getElem?_modify] at found₀
      have found₀ : run.last.programs[id]? = some p₀ := by simpa [Ne.symm isRoot] using found₀
      have text : run.last.texts[id]? = some p₀.text := by
        rw [getElem?_texts, found₀]
        rfl
      have replays := (run.derivation wf flat).replays wf rfl placed rfl id p₀.text (by show 1 ≤ id; omega) text
      exact (replays _ updates₀).sameOrCall same

/-- What frame `k` replays: the whole call, or the call it stands for. -/
theorem frame_replays (run : SplitRun H trace root elig cost tree) (wf : t.WellFormed 1)
    (flat : trace.structLogs = t.flatten)
    (placed : Placed sees does (some root) 0 t [] c (initialWalk root run.rootIndex)) (fuel : Nat) :
    ∀ {id : Nat} {p : ProgramState}, run.programs[id]? = some p → p.dropped = false →
      tree.frames.length ≤ fuel + rank ProgramState.kept run.programs id →
      ∃ n body seen, Scoped t id p.step n body ∧ Sightings sees n (n + body.size) seen ∧
        tree.replayFrame does fuel (rank ProgramState.kept run.programs id) (if id = 0 then c else sees p.step) =
          some (if id = 0 then t.run (some root) c else does p.step (sees p.step), seen) := by
  have settled := run.final.settled
  have inRange : ∀ {id : Nat} {p : ProgramState}, run.programs[id]? = some p → p.dropped = false →
      rank ProgramState.kept run.programs id < tree.frames.length := by
    intro id p found alive
    have here := Settled.frame_at found alive
    rw [← run.frames] at here
    exact (List.getElem?_eq_some_iff.mp here).1
  induction fuel with
  | zero =>
    intro id p found alive enough
    have := inRange found alive
    omega
  | succ fuel ih =>
    intro id p found alive enough
    obtain ⟨ops, updates⟩ := Option.isSome_iff_exists.mp (run.final.done id p (Nat.zero_le _) found alive)
    obtain ⟨n, body, scope, within⟩ := run.spends wf flat found updates
    have follows := run.follows wf flat placed found updates
    have bounds : ∀ m ∈ spendsOf ops, n ≤ m ∧ m < n + body.size := fun m member =>
      CallTree.spendSteps_bounds (within.subset member)
    have nests : List.Forall₂ (fun m k => ∃ past seen, tree.replayFrame does fuel k (sees m) =
        some (does m (sees m), seen) ∧ Sightings sees (m + 1) past seen ∧ m < past ∧ past ≤ n + body.size ∧
          ∀ m' ∈ spendsOf ops, m < m' → past ≤ m') (nestsOf ops) (p.frame run.programs).children := by
      rw [settled.frame_children found alive]
      unfold nestsOf
      rw [show ops.filter _ = nestedOps ops from rfl, settled.ops id p ops found alive updates]
      apply forall₂_opsOf
      intro k isChild
      obtain ⟨child, foundC, hasParent, aliveC⟩ := (settled.mem_children found alive).mp isChild
      obtain ⟨-, -, -, older, -⟩ := settled.parent_kept foundC aliveC hasParent
      have later := rank_lt found (Settled.kept_alive alive) older
      obtain ⟨m, inner, seen, scopeC, sightings, replays⟩ := ih foundC aliveC (by omega)
      have nonroot : k ≠ 0 := by omega
      have replayed := within.subset (run.child_replayed found alive updates isChild foundC)
      obtain ⟨call, rest, opens, -, kind, rfl⟩ := child_opens scope scopeC nonroot replayed
      have := opens.body_bounds
      rw [if_neg nonroot, if_neg nonroot] at replays
      refine ⟨child, foundC, child.step + 1 + inner.size, seen, replays, sightings, by omega, by omega, ?_⟩
      intro m' spent after
      by_contra inside
      -- A call the parent makes lies in no frame of another `CALL`.
      have delegates := (opens.delegates (within.subset spent) after (by omega)).1
      rw [kind] at delegates
      cases delegates
    have isFrame := Settled.frame_at found alive
    rw [← run.frames] at isFrame
    have isSteps : tree.opSteps[rank ProgramState.kept run.programs id]? = some (ops.map Op.step) := by
      have kept : (keptPrograms run.programs)[rank ProgramState.kept run.programs id]? = some p :=
        getElem?_rank found (Settled.kept_alive alive)
      rw [run.opSteps, List.getElem?_map, kept]
      simp [updates]
    have isOps : List.zipWith Op.mk (p.frame run.programs).updates (ops.map Op.step) = ops := by
      show List.zipWith Op.mk ((p.updates.getD []).map Op.update) _ = _
      rw [updates, Option.getD_some, List.zipWith_map, List.zipWith_self]
      exact List.map_id _
    have runs : ∀ {c c' : Chain}, Follows sees does p.target ops c c' → ∃ seen,
        tree.replayFrame does (fuel + 1) (rank ProgramState.kept run.programs id) c = some (c', seen) ∧
          Sightings sees n (n + body.size) seen := by
      intro c c' follows
      obtain ⟨seen, replays, sightings⟩ := follows.replayed bounds
        ((CallTree.spendSteps_sorted n body).sublist within) (Nat.le_add_right n body.size) nests
      refine ⟨seen, ?_, sightings⟩
      unfold FrameTreeExtract.replayFrame
      rw [isFrame, isSteps]
      show replayOps does _ p.target (List.zipWith Op.mk _ _) _ c = _
      rw [isOps]
      exact replays
    by_cases isRoot : id = 0
    · rw [if_pos isRoot] at follows ⊢
      obtain ⟨seen, replays, sightings⟩ := runs follows
      exact ⟨n, body, seen, scope, sightings, by rw [if_pos isRoot]; exact replays⟩
    · rw [if_neg isRoot] at follows ⊢
      obtain ⟨seen, replays, sightings⟩ := runs follows
      exact ⟨n, body, seen, scope, sightings, by rw [if_neg isRoot]; exact replays⟩

end SplitRun

/-- The frame tree of a call, run on the chain the call found, leaves the chain the call left. Every call it makes is made
on the chain that the execution's was, and in the order of the execution. -/
theorem splitFrameTree_replays (H : Hashes) (x : Execution) (elig : Eligibility) (cost : NestingCostModel)
    (tree : FrameTreeExtract) (fine : x.failed = false) (hushed : x.tree.Hushed) (newborn : x.Newborn)
    (answer : splitFrameTree H x.trace x.consumer elig cost = .ok tree) :
    ∃ seen, tree.replay x.perform x.start = some (x.finish, seen) ∧ x.finish.storage = x.after ∧
      (∀ found ∈ seen, found.2 = x.atStep found.1) ∧ (seen.map Prod.fst).Pairwise (· < ·) := by
  obtain ⟨run⟩ := splitFrameTree_run answer
  have placed : Placed x.atStep x.perform (some x.consumer) 0 x.tree [] x.start
      (initialWalk x.consumer run.rootIndex) := by
    refine ⟨CallTree.shows_of_agree (fun _ _ _ => rfl) (fun _ _ _ _ => rfl), newborn, Or.inl rfl, fun a s => rfl, ?_,
      x.readOnly, hushed⟩
    intro a s v held
    cases held
  obtain ⟨r, first, alive, -⟩ := run.final.settled.root
  obtain ⟨n, body, seen, -, sightings, replays⟩ := run.frame_replays x.wellFormed rfl placed tree.frames.length first alive
    (Nat.le_add_right _ _)
  rw [rank_zero, if_pos rfl, if_pos rfl] at replays
  refine ⟨seen, ?_, x.finish_storage, sightings.found, sightings.ordered⟩
  unfold FrameTreeExtract.replay Execution.finish
  rw [fine]
  exact replays

theorem CallTree.Opens.mem {n j : Nat} {call : StructLog} {body rest : CallTree} (opens : Opens n t j call body rest) :
    call ∈ t.flatten := by
  induction opens with
  | here => exact List.mem_cons_self
  | later _ ih => exact List.mem_cons_of_mem _ ih
  | inside _ ih => exact List.mem_cons_of_mem _ (List.mem_append_left _ ih)
  | after _ ih => exact List.mem_cons_of_mem _ (List.mem_append_right _ ih)

theorem CallTree.newborn_of_createless {ctx : Option Address} {n : Nat} {ws : List Write}
    (createless : ∀ log ∈ t.flatten, log.op.isCreate = false) : t.Newborn ctx n ws := by
  intro j call body rest c opens create
  rw [createless call opens.mem] at create
  cases create

/-- The consumer `9` stores and calls the consumer `7`, which calls back into `9` to store over it; `9` then stores its
first value again. -/
def reenteredStore : Execution where
  consumer := 9
  tree := .step { op := .sstore, gas := 2000000, stack := some [3, 1] }
    (.enter { op := .call, gas := 1900000, stack := some [0, 0, 0, 0, 0, 7, 0] }
      (.step { op := .sstore, gas := 1800000, depth := 2, stack := some [1, stateTrackerSlot] }
        (.enter { op := .call, gas := 1700000, depth := 2, stack := some [0, 0, 0, 0, 0, 9, 0] }
          (.step { op := .sstore, gas := 1600000, depth := 3, stack := some [4, 1] }
            (.step { op := .other "STOP", gas := 1500000, depth := 3, stack := some [] } .done))
          (.step { op := .other "STOP", gas := 1400000, depth := 2, stack := some [1] } .done)))
      (.step { op := .sstore, gas := 900000, stack := some [1, 3, 1] }
        (.step { op := .other "STOP", gas := 800000, stack := some [1] } .done)))
  before := fun _ _ => 0
  wellFormed := by
    have plain : ∀ {op : Opcode}, op.opensFrame = false → ∀ {p : Prop}, op.opensFrame = true → p := by
      intro op closed p opens
      rw [closed] at opens
      cases opens
    exact ⟨⟨rfl, rfl, rfl⟩, fun _ => plain rfl, ⟨rfl, rfl, rfl⟩, rfl, rfl, rfl,
      ⟨⟨rfl, rfl, rfl⟩, fun _ => plain rfl, ⟨rfl, rfl, rfl⟩, rfl, rfl, rfl,
        ⟨⟨rfl, rfl, rfl⟩, fun _ => plain rfl, ⟨rfl, rfl, rfl⟩, fun _ => plain rfl, trivial⟩, rfl,
        ⟨rfl, rfl, rfl⟩, fun _ => plain rfl, trivial⟩, rfl,
      ⟨rfl, rfl, rfl⟩, fun _ => plain rfl, ⟨rfl, rfl, rfl⟩, fun _ => plain rfl, trivial⟩
  readOnly := by simp [CallTree.ReadOnly]
  bounded := by decide

theorem reenteredStore_newborn : reenteredStore.Newborn :=
  CallTree.newborn_of_createless (by decide)

/-- `7` has a frame. Its call back into `9` makes the root store its slot anew. -/
theorem splitFrameTree_replays_reentered : ∃ tree seen,
    splitFrameTree ⟨fun _ => 0, fun _ => 0⟩ reenteredStore.trace 9 (.consumers fun a => a == 7) ⟨0, 0, 0⟩ = .ok tree ∧
      tree.frames.length = 2 ∧ tree.replay reenteredStore.perform reenteredStore.start = some (reenteredStore.finish, seen) ∧
      seen.map Prod.fst = [1, 3] ∧ reenteredStore.finish.storage 9 1 = 3 ∧
      ∀ found ∈ seen, found.2 = reenteredStore.atStep found.1 := by
  have answers : (splitFrameTree ⟨fun _ => 0, fun _ => 0⟩ reenteredStore.trace 9 (.consumers fun a => a == 7)
      ⟨0, 0, 0⟩).toOption.any (fun tree => tree.frames.length == 2 &&
        (tree.replay reenteredStore.perform reenteredStore.start).any (fun r => r.2.map Prod.fst == [1, 3])) = true := by
    decide +kernel
  obtain ⟨tree, answer, shape⟩ := Outcome.any_ok answers
  obtain ⟨two, listed⟩ := Bool.and_eq_true_iff.mp shape
  obtain ⟨seen, replays, -, found, -⟩ := splitFrameTree_replays ⟨fun _ => 0, fun _ => 0⟩ reenteredStore
    (.consumers fun a => a == 7) ⟨0, 0, 0⟩ tree rfl (by simp [CallTree.Hushed, reenteredStore]) reenteredStore_newborn answer
  rw [replays] at listed
  exact ⟨tree, seen, answer, beq_iff_eq.mp two, replays, beq_iff_eq.mp listed, by decide +kernel, found⟩

end GasAnalyzer
