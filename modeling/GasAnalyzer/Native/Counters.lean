import GasAnalyzer.Native.Outcomes
import GasAnalyzer.Native.Writes

/-!
# Counters that move

The counters a split reports are those its trace commits a write to. A nested frame pins the counter of its target; it
was found eligible by a pre-pass that does not look at outcomes, so the write it was admitted for may be undone by a
`DELEGATECALL` frame that fails.
-/

namespace GasAnalyzer

/-! ### Writes and closures -/

/-- An un-errored write of the tracker slot. -/
def StructLog.moves (log : StructLog) : Bool := log.stored?.any (fun e => e.1 == stateTrackerSlot)

theorem StructLog.mem_writes {ctx : Option Address} {n : Nat} {log : StructLog} {w : Write} :
    w ∈ log.writes ctx n ↔ w.step = n ∧ ctx = some w.account ∧ log.stored? = some (w.slot, w.value) := by
  unfold StructLog.writes
  obtain ⟨step, account, slot, value⟩ := w
  cases ctx with
  | none => simp
  | some a =>
    cases log.stored? with
    | none => simp
    | some e =>
      obtain ⟨slot', value'⟩ := e
      simp only [List.mem_singleton, Write.mk.injEq, Option.some.injEq, Prod.mk.injEq]
      constructor
      · rintro ⟨rfl, rfl, rfl, rfl⟩
        exact ⟨rfl, rfl, rfl, rfl⟩
      · rintro ⟨rfl, rfl, rfl, rfl⟩
        exact ⟨rfl, rfl, rfl, rfl⟩

namespace CallTree

variable {born : CallTree → Option Address} {ctx : Option Address} {n : Nat} {t : CallTree}

theorem writes_bounds {w : Write} (member : w ∈ t.writes born ctx n) : n ≤ w.step ∧ w.step < n + t.size := by
  induction t generalizing ctx n with
  | done => cases member
  | step log rest ih =>
    rw [size]
    rcases List.mem_append.mp member with here | later
    · have := (StructLog.mem_writes.mp here).1
      omega
    · have := ih later
      omega
  | enter call body rest ihBody ihRest =>
    rw [size]
    rcases List.mem_append.mp member with inside | after
    · split at inside
      · have := ihBody inside
        omega
      · cases inside
    · have := ihRest after
      omega

theorem closure_bounds {keep : CallTree → Bool} {p : Nat × StructLog} (member : p ∈ t.closure keep n) :
    n ≤ p.1 ∧ p.1 < n + t.size := by
  induction t generalizing n with
  | done => cases member
  | step log rest ih =>
    rw [size]
    rcases List.mem_cons.mp member with rfl | later
    · omega
    · have := ih later
      omega
  | enter call body rest ihBody ihRest =>
    rw [size]
    rcases List.mem_cons.mp member with rfl | later
    · omega
    · rcases List.mem_append.mp later with inside | after
      · split at inside
        · have := ihBody inside
          omega
        · cases inside
      · have := ihRest after
        omega

theorem closure_mono {p : Nat × StructLog} (member : p ∈ t.closure succeeds n) : p ∈ t.closure always n := by
  induction t generalizing n with
  | done => cases member
  | step log rest ih =>
    rcases List.mem_cons.mp member with rfl | later
    · exact List.mem_cons_self
    · exact List.mem_cons_of_mem _ (ih later)
  | enter call body rest ihBody ihRest =>
    rcases List.mem_cons.mp member with rfl | later
    · exact List.mem_cons_self
    · apply List.mem_cons_of_mem
      rcases List.mem_append.mp later with inside | after
      · split at inside
        · rename_i both
          rw [(Bool.and_eq_true_iff.mp both).1]
          exact List.mem_append_left _ (ihBody inside)
        · cases inside
      · exact List.mem_append_right _ (ihRest after)

/-- A store of a frame's scope that no failing delegate frame undoes is a write of the frame. -/
theorem mem_writes_of_closure {i : Nat} {log : StructLog} {a : Address} {slot value : B256}
    (wf : ∃ d, t.WellFormed d) (member : (i, log) ∈ t.closure succeeds n) (stores : log.stored? = some (slot, value)) :
    ⟨i, a, slot, value⟩ ∈ t.writes born (some a) n := by
  induction t generalizing n with
  | done => cases member
  | step log' rest ih =>
    obtain ⟨d, wf⟩ := wf
    rcases List.mem_cons.mp member with here | later
    · obtain ⟨rfl, rfl⟩ := Prod.mk.inj here
      exact List.mem_append_left _ (StructLog.mem_writes.mpr ⟨rfl, rfl, stores⟩)
    · exact List.mem_append_right _ (ih ⟨d, wf.2.2⟩ later)
  | enter call body rest ihBody ihRest =>
    obtain ⟨d, wf⟩ := wf
    rcases List.mem_cons.mp member with here | later
    · -- A call stores nothing.
      obtain ⟨rfl, rfl⟩ := Prod.mk.inj here
      have opens := wf.2.2.1
      unfold StructLog.stored? at stores
      split at stores
      · rename_i both
        rw [both.1] at opens
        cases opens
      · cases stores
    · rcases List.mem_append.mp later with inside | after
      · split at inside
        · rename_i both
          obtain ⟨delegates, success⟩ := Bool.and_eq_true_iff.mp both
          apply List.mem_append_left
          rw [if_pos success]
          unfold context
          rw [if_pos delegates]
          exact ihBody ⟨_, wf.2.2.2.2.1⟩ inside
        · cases inside
      · exact List.mem_append_right _ (ihRest ⟨_, wf.2.2.2.2.2.2⟩ after)

/-- A write of the frame made in its scope is made in the part of it that succeeds. -/
theorem closure_of_mem_writes {w : Write} {log : StructLog} (member : w ∈ t.writes born ctx n)
    (scope : (w.step, log) ∈ t.closure always n) :
    (w.step, log) ∈ t.closure succeeds n ∧ log.stored? = some (w.slot, w.value) := by
  induction t generalizing ctx n with
  | done => cases member
  | step log' rest ih =>
    rcases List.mem_append.mp member with here | later
    · obtain ⟨at', -, stores⟩ := StructLog.mem_writes.mp here
      rcases List.mem_cons.mp scope with same | after
      · obtain ⟨-, rfl⟩ := Prod.mk.inj same
        exact ⟨by rw [closure, at']; exact List.mem_cons_self, stores⟩
      · have := (closure_bounds after).1
        simp only at this
        omega
    · rcases List.mem_cons.mp scope with same | after
      · have := (writes_bounds later).1
        have := (Prod.mk.inj same).1
        omega
      · obtain ⟨kept, stores⟩ := ih later after
        exact ⟨List.mem_cons_of_mem _ kept, stores⟩
  | enter call body rest ihBody ihRest =>
    rcases List.mem_append.mp member with inside | after
    · split at inside
      · rename_i success
        have bounds := writes_bounds inside
        rcases List.mem_cons.mp scope with same | later
        · have := (Prod.mk.inj same).1
          omega
        · rcases List.mem_append.mp later with within | beyond
          · split at within
            · rename_i both
              obtain ⟨kept, stores⟩ := ihBody inside within
              refine ⟨List.mem_cons_of_mem _ (List.mem_append_left _ ?_), stores⟩
              rw [(Bool.and_eq_true_iff.mp both).1, success]
              exact kept
            · cases within
          · have := (closure_bounds beyond).1
            simp only at this
            omega
      · cases inside
    · have bounds := writes_bounds after
      rcases List.mem_cons.mp scope with same | later
      · have := (Prod.mk.inj same).1
        omega
      · rcases List.mem_append.mp later with within | beyond
        · split at within
          · have := (closure_bounds within).2
            simp only at this
            omega
          · cases within
        · obtain ⟨kept, stores⟩ := ihRest after beyond
          exact ⟨List.mem_cons_of_mem _ (List.mem_append_right _ kept), stores⟩

theorem Opens.body_bounds {j : Nat} {call : StructLog} {body rest : CallTree} (opens : Opens n t j call body rest) :
    j + 1 + body.size + rest.size ≤ n + t.size := by
  induction opens with
  | here => simp only [size]; omega
  | later _ ih => simp only [size]; omega
  | inside _ ih => simp only [size]; omega
  | after _ ih => simp only [size]; omega

/-- What is written inside a frame, seen from outside. -/
theorem Opens.writes_inside {j : Nat} {call : StructLog} {body rest : CallTree} (opens : Opens n t j call body rest)
    {w : Write} (member : w ∈ t.writes born ctx n) (low : j < w.step) (high : w.step < j + 1 + body.size) :
    ∃ ctx', w ∈ body.writes born ctx' (j + 1) := by
  induction opens generalizing ctx with
  | here =>
    rcases List.mem_append.mp member with inside | after
    · split at inside
      · exact ⟨_, inside⟩
      · cases inside
    · have := (writes_bounds after).1
      omega
  | later opens ih =>
    have := opens.bounds
    rcases List.mem_append.mp member with here | later
    · have := (StructLog.mem_writes.mp here).1
      omega
    · exact ih later low high
  | @inside n j outer call t t' body rest opens ih =>
    rcases List.mem_append.mp member with inside | after
    · split at inside
      · exact ih inside low high
      · cases inside
    · have within := opens.body_bounds
      have := (writes_bounds after).1
      omega
  | @after n j outer call t t' body rest opens ih =>
    have := opens.bounds
    rcases List.mem_append.mp member with inside | after
    · split at inside
      · have := (writes_bounds inside).2
        omega
      · cases inside
    · exact ih after low high

/-- A frame opened inside a frame. -/
theorem Opens.trans {j k : Nat} {outer call : StructLog} {mid after body rest : CallTree}
    (first : Opens n t j outer mid after) (second : Opens (j + 1) mid k call body rest) : Opens n t k call body rest := by
  induction first with
  | here => exact .inside second
  | later _ ih => exact .later (ih second)
  | inside _ ih => exact .inside (ih second)
  | after _ ih => exact .after (ih second)

/-- A call with a frame of its own that succeeds, all the way up to the frame that makes it. -/
theorem mem_nestSteps {handed : Nat → StructLog → Bool} {d j : Nat} (wf : t.WellFormed d)
    (member : j ∈ t.nestSteps handed n) : ∃ call body rest, Opens n t j call body rest ∧ call.op = .call ∧
      ∀ born ctx, ∀ w ∈ body.writes born call.callee (j + 1), w ∈ t.writes born ctx n := by
  induction t generalizing d n with
  | done => cases member
  | step log rest ih =>
    obtain ⟨call, body, rest', opens, kind, writes⟩ := ih wf.2.2 member
    exact ⟨call, body, rest', .later opens, kind, fun born ctx w inside =>
      List.mem_append_right _ (writes born ctx w inside)⟩
  | enter call body rest ihBody ihRest =>
    rcases List.mem_append.mp member with first | second
    · split at first
      · rename_i isCall
        split at first
        · rename_i both
          obtain rfl := List.mem_singleton.mp first
          have kind : call.op = .call := by simpa using (Bool.and_eq_true_iff.mp isCall).1
          refine ⟨call, body, rest, .here, kind, ?_⟩
          intro born ctx w inside
          apply List.mem_append_left
          rw [if_pos (Bool.and_eq_true_iff.mp both).2]
          unfold context
          rw [kind]
          exact inside
        · cases first
      · split at first
        · rename_i both
          obtain ⟨delegates, success⟩ := Bool.and_eq_true_iff.mp both
          obtain ⟨call', body', rest', opens, kind, writes⟩ := ihBody wf.2.2.2.2.1 first
          refine ⟨call', body', rest', .inside opens, kind, ?_⟩
          intro born ctx w inside
          apply List.mem_append_left
          rw [if_pos success]
          exact writes born _ w inside
        · cases first
    · obtain ⟨call', body', rest', opens, kind, writes⟩ := ihRest wf.2.2.2.2.2.2 second
      exact ⟨call', body', rest', .after opens, kind, fun born ctx w inside =>
        List.mem_append_right _ (writes born ctx w inside)⟩

end CallTree

/-! ### The counters of a journal -/

theorem mem_counterMoves (j : Journal) (a : Address) :
    a ∈ counterMoves j ↔ (j.value a stateTrackerSlot).isSome = true := by
  unfold counterMoves
  rw [List.mem_toFinset]
  constructor
  · intro member
    obtain ⟨e, inside, rfl⟩ := List.mem_map.mp member
    obtain ⟨inside, moved⟩ := List.mem_filter.mp inside
    unfold Journal.value Journal.slots
    rw [OrdMap.mem_entries.mp inside]
    exact moved
  · intro moved
    unfold Journal.value Journal.slots at moved
    cases found : j.get a with
    | none =>
      rw [found] at moved
      cases moved
    | some slots =>
      rw [found] at moved
      exact List.mem_map.mpr ⟨(a, slots), List.mem_filter.mpr ⟨OrdMap.mem_entries.mpr found, moved⟩, rfl⟩

variable {H : Hashes} {trace : DefaultFrame} {root : Address} {elig : Eligibility} {cost : NestingCostModel}
variable {tree : FrameTreeExtract} {t : CallTree}

namespace SplitRun

/-- The counters reported are those the trace commits a write to. -/
theorem counters (run : SplitRun H trace root elig cost tree) (wf : t.WellFormed 1)
    (flat : trace.structLogs = t.flatten) (a : Address) :
    a ∈ tree.counterMoves ↔
      ∃ w ∈ t.writes CallTree.unborn (some root) 0, w.account = a ∧ w.slot = stateTrackerSlot := by
  obtain ⟨-, id, p, -, -, top, -, -⟩ := closeRoot_ok run.closes
  have journal := (run.derivation wf flat).journal rfl a stateTrackerSlot
  rw [run.counterMoves, mem_counterMoves, top]
  show (run.last.top.journal.value a stateTrackerSlot).isSome = true ↔ _
  rw [journal, ← wrote_isSome_iff]
  show ((wrote _ a stateTrackerSlot).or none).isSome = true ↔ _
  rw [Option.or_none]
  rfl

/-- The `NESTED` ops a settled program holds are among those it was closed with. -/
theorem nestsOf_sameOrCall {ops ops' : List Op} (same : List.Forall₂ SameOrCall ops ops') {i : Nat}
    (member : i ∈ nestsOf ops') : i ∈ nestsOf ops := by
  induction same with
  | nil => exact member
  | @cons o o' rest rest' first _ ih =>
    rw [show nestsOf (o' :: rest') = nestsOf [o'] ++ nestsOf rest' from nestsOf_append [o'] rest'] at member
    rw [show nestsOf (o :: rest) = nestsOf [o] ++ nestsOf rest from nestsOf_append [o] rest]
    rcases List.mem_append.mp member with here | later
    · cases first with
      | same => exact List.mem_append_left _ here
      | call => cases here
    · exact List.mem_append_right _ (ih later)

/-- The body a live program runs, from its first step on. -/
def Runs (t : CallTree) (root : Address) (id : Nat) (p : ProgramState) (n : Nat) (body : CallTree) : Prop :=
  if id = 0 then n = 0 ∧ body = t ∧ p.target = root
  else ∃ call rest, CallTree.Opens 0 t p.step call body rest ∧ call.callee = some p.target ∧ n = p.step + 1

theorem runs (run : SplitRun H trace root elig cost tree) (wf : t.WellFormed 1)
    (flat : trace.structLogs = t.flatten) {id : Nat} {p : ProgramState} (found : run.programs[id]? = some p)
    (alive : p.dropped = false) :
    ∃ n body d ops ops', Runs t root id p n body ∧ body.WellFormed d ∧
      nestsOf ops = body.nestSteps (handedTo elig run.candidates) n ∧ List.Forall₂ SameOrCall ops ops' ∧
      p.updates = some ops' := by
  obtain ⟨p₀, found₀, core, related⟩ := run.program_ops found
  obtain ⟨ops', updates'⟩ := Option.isSome_iff_exists.mp (run.final.done id p (Nat.zero_le _) found alive)
  rw [updates'] at related
  have step : p.core.step = p₀.core.step := congrArg ProgramState.step core
  have target : p.core.target = p₀.core.target := congrArg ProgramState.target core
  change p.step = p₀.step at step
  change p.target = p₀.target at target
  by_cases isRoot : id = 0
  · subst isRoot
    obtain ⟨ops, updates, -, nests⟩ := run.rootOps wf flat found₀
    rw [updates] at related
    cases related with
    | some same =>
      refine ⟨0, t, 1, ops, ops', ?_, wf, nests, same, updates'⟩
      obtain ⟨r, first, rooted⟩ := run.final.first
      obtain rfl := Option.some.inj (first.symm.trans found)
      rw [Runs, if_pos rfl]
      exact ⟨rfl, rfl, rooted⟩
  · obtain ⟨call, body, rest, w₀, w₁, opens, kind, callee, handed, fresh, walked, closes⟩ :=
      (run.ran wf flat found₀ isRoot).ran
    obtain ⟨d, callWf⟩ := opens.wellFormed wf
    have bodyWf := callWf.2.2.2.2.1
    obtain ⟨ops, out, emits⟩ := walked.emission bodyWf fresh.free
    cases updates : p₀.updates with
    | none =>
      rw [updates] at related
      cases related
    | some ops₀ =>
      rw [updates] at related
      cases related with
      | some same =>
        obtain ⟨-, isOps⟩ := closes ops₀ updates
        have slice := callFree_slice (p₀.step + 1 + body.size) p₀.target w₁
        rw [Walk.sliced_out, out, fresh.out, List.nil_append] at isOps
        refine ⟨p.step + 1, body, _, ops₀, ops', ?_, bodyWf, ?_, same, updates'⟩
        · rw [Runs, if_neg isRoot, step, target]
          exact ⟨call, rest, opens, callee, rfl⟩
        · rw [isOps, nestsOf_append, step]
          show _ ++ nestsOf (w₁.slice (p₀.step + 1 + body.size) p₀.target) = _
          rw [slice.2, List.append_nil]
          exact emits.nests (by rw [fresh.program]; exact Option.some_ne_none id)

/-- A live program other than the root's is a child of an older one, whose ops hold the `NESTED` op that runs it. -/
theorem nested_in_parent (run : SplitRun H trace root elig cost tree) {id : Nat} {p : ProgramState}
    (found : run.programs[id]? = some p) (alive : p.dropped = false) (nonroot : id ≠ 0) :
    ∃ q parent, q < id ∧ run.programs[q]? = some parent ∧ parent.dropped = false ∧
      ∀ ops, parent.updates = some ops → p.step ∈ nestsOf ops := by
  have settled := run.final.settled
  obtain ⟨-, q, node, hasParent, older, foundNode, -⟩ := settled.forest.child id p.node
    (by rw [getElem?_nodes, found]; rfl) (Nat.pos_of_ne_zero nonroot)
  rw [getElem?_nodes] at foundNode
  obtain ⟨parent, foundQ, -⟩ := Option.map_eq_some_iff.mp foundNode
  have aliveQ := settled.parent_alive found alive hasParent foundQ
  refine ⟨q, parent, older, foundQ, aliveQ, ?_⟩
  intro ops updates
  have isChildId : id ∈ parent.children := by
    rw [settled.children q parent foundQ aliveQ]
    refine List.mem_filter.mpr ⟨List.mem_range.mpr (List.getElem?_eq_some_iff.mp found).1, ?_⟩
    exact isChild_nodes.mpr ⟨p, found, hasParent, alive⟩
  have op : p.node.op ∈ nestedOps ops := by
    rw [settled.ops q parent ops foundQ aliveQ updates]
    refine List.mem_filterMap.mpr ⟨id, isChildId, ?_⟩
    rw [getElem?_nodes, found]
    rfl
  exact List.mem_map.mpr ⟨p.node.op, op, rfl⟩

/-- Whatever a live program's frame commits, the trace commits: every frame around it succeeded. -/
theorem commits (run : SplitRun H trace root elig cost tree) (wf : t.WellFormed 1)
    (flat : trace.structLogs = t.flatten) (id : Nat) : ∀ {p : ProgramState} {n : Nat} {body : CallTree},
    run.programs[id]? = some p → p.dropped = false → Runs t root id p n body →
      ∀ born, ∀ w ∈ body.writes born (some p.target) n, w ∈ t.writes born (some root) 0 := by
  induction id using Nat.strong_induction_on with
  | _ id ih =>
    intro p n body found alive ran born w member
    by_cases isRoot : id = 0
    · rw [Runs, if_pos isRoot] at ran
      obtain ⟨rfl, rfl, rooted⟩ := ran
      rwa [rooted] at member
    · rw [Runs, if_neg isRoot] at ran
      obtain ⟨call, rest, opens, callee, rfl⟩ := ran
      obtain ⟨q, parent, older, foundQ, aliveQ, inside⟩ := run.nested_in_parent found alive isRoot
      obtain ⟨m, outer, d, ops, ops', ranQ, wfQ, nests, same, updates⟩ := run.runs wf flat foundQ aliveQ
      have nested : p.step ∈ outer.nestSteps (handedTo elig run.candidates) m := by
        rw [← nests]
        exact nestsOf_sameOrCall same (inside ops' updates)
      obtain ⟨call', body', rest', opens', -, writes⟩ := CallTree.mem_nestSteps wfQ nested
      have whole : CallTree.Opens 0 t p.step call' body' rest' := by
        unfold Runs at ranQ
        split at ranQ
        · obtain ⟨rfl, rfl, -⟩ := ranQ
          exact opens'
        · obtain ⟨callQ, restQ, opensQ, -, rfl⟩ := ranQ
          exact opensQ.trans opens'
      obtain ⟨rfl, rfl, -⟩ := opens.unique whole
      apply ih q older foundQ aliveQ ranQ born w
      apply writes
      rwa [callee]

end SplitRun

/-! ### Pinned counters -/

/-- Frame `k` pins a counter that moves inside it: its trace commits a write of its target's tracker slot, made in the
frame or in the `DELEGATECALL` and `CALLCODE` frames below it. -/
def Pins (root : Address) (t : CallTree) (tree : FrameTreeExtract) (k : Nat) : Prop :=
  ∃ frame n body w log, tree.frames[k]? = some frame ∧ FrameScope t tree k n body ∧
    w ∈ t.writes CallTree.unborn (some root) 0 ∧ w.account = frame.target ∧ w.slot = stateTrackerSlot ∧
    (w.step, log) ∈ body.closure CallTree.always n

/-- In the scope of frame `k` the tracker slot is written outside every `DELEGATECALL` and `CALLCODE` frame that
fails. -/
def KeepsWrite (t : CallTree) (tree : FrameTreeExtract) (k : Nat) : Prop :=
  ∃ n body i log, FrameScope t tree k n body ∧ (i, log) ∈ body.closure CallTree.succeeds n ∧ log.moves = true

theorem moves_iff (log : StructLog) : log.moves = true ↔ ∃ value, log.stored? = some (stateTrackerSlot, value) := by
  unfold StructLog.moves
  cases log.stored? with
  | none => simp
  | some e =>
    obtain ⟨slot, value⟩ := e
    simp

theorem pins_iff (wf : t.WellFormed 1) (flat : trace.structLogs = t.flatten)
    (answer : splitFrameTree H trace root elig cost = .ok tree) {k : Nat} (inside : k < tree.frames.length)
    (nested : 0 < k) : Pins root t tree k ↔ KeepsWrite t tree k := by
  obtain ⟨run⟩ := splitFrameTree_run answer
  constructor
  · rintro ⟨frame, n, body, w, log, -, scope, member, -, slot, within⟩
    have scope' := scope
    rw [FrameScope, if_neg (Nat.ne_of_gt nested)] at scope
    obtain ⟨j, call, rest, -, opens, -, rfl⟩ := scope
    have bounds := CallTree.closure_bounds within
    obtain ⟨ctx, member'⟩ := opens.writes_inside member bounds.1 bounds.2
    obtain ⟨kept, stores⟩ := CallTree.closure_of_mem_writes member' within
    exact ⟨j + 1, body, w.step, log, scope', kept, (moves_iff log).mpr ⟨w.value, by rw [stores, slot]⟩⟩
  · rintro ⟨n, body, i, log, scope, kept, moves⟩
    obtain ⟨value, stores⟩ := (moves_iff log).mp moves
    obtain ⟨frame, found⟩ : ∃ frame, tree.frames[k]? = some frame := ⟨_, List.getElem?_eq_getElem inside⟩
    have found' := found
    rw [run.frames] at found'
    obtain ⟨id, p, foundP, alive, isRank, rfl⟩ := Settled.of_frame found'
    have keptP : (keptPrograms run.programs)[k]? = some p := by
      rw [← isRank]
      exact getElem?_rank foundP (Settled.kept_alive alive)
    have scope' := scope
    rw [FrameScope, if_neg (Nat.ne_of_gt nested), run.frameSteps, List.getElem?_map, keptP] at scope
    obtain ⟨j, call, rest, atJ, opens, -, rfl⟩ := scope
    obtain rfl : p.step = j := Option.some.inj atJ
    obtain ⟨m, body', d, -, -, ran, bodyWf, -⟩ := run.runs wf flat foundP alive
    have nonroot : id ≠ 0 := by
      rintro rfl
      rw [rank_zero] at isRank
      omega
    have ran' := ran
    rw [SplitRun.Runs, if_neg nonroot] at ran
    obtain ⟨call', rest', opens', callee, rfl⟩ := ran
    obtain ⟨rfl, rfl, rfl⟩ := opens.unique opens'
    have member : (⟨i, p.target, stateTrackerSlot, value⟩ : Write) ∈
        body.writes CallTree.unborn (some p.target) (p.step + 1) :=
      CallTree.mem_writes_of_closure ⟨d, bodyWf⟩ kept stores
    exact ⟨_, p.step + 1, body, _, log, found, scope', run.commits wf flat id foundP alive ran' CallTree.unborn _ member,
      rfl, rfl, CallTree.closure_mono kept⟩

/-- The counters reported are exactly those committed, and a nested frame pins one that moves inside it exactly when
some tracker write of its scope is not undone by a delegate frame. -/
theorem nested_frames_pin_iff (H : Hashes) (trace : DefaultFrame) (root : Address) (isNestable : Address → Bool)
    (cost : NestingCostModel) (tree : FrameTreeExtract) (t : CallTree) (wf : t.WellFormed 1)
    (flat : trace.structLogs = t.flatten) (answer : computeFrameTreeCanonical H trace root isNestable cost = .ok tree) :
    (∀ a, a ∈ tree.counterMoves ↔
      ∃ w ∈ t.writes CallTree.unborn (some root) 0, w.account = a ∧ w.slot = stateTrackerSlot) ∧
    ∀ k, 0 < k → k < tree.frames.length → (Pins root t tree k ↔ KeepsWrite t tree k) := by
  constructor
  · obtain ⟨run⟩ := splitFrameTree_run answer
    exact run.counters wf flat
  · intro k nested inside
    exact pins_iff wf flat answer inside nested

/-- A root calls a consumer, which delegates its counter increment and carries on whatever the outcome. -/
def delegatedMove (flag : U256) : CallTree :=
  .enter { op := .call, gas := 1000000, stack := some [0, 0, 0, 0, 0, 7, 0] }
    (.enter { op := .delegatecall, gas := 900000, depth := 2, stack := some [0, 0, 0, 0, 8, 0] }
      (.step { op := .sstore, gas := 800000, depth := 3, stack := some [5, stateTrackerSlot] } .done)
      (.step { op := .other "STOP", gas := 700000, depth := 2, stack := some [flag] } .done))
    (.step { op := .other "STOP", gas := 500000, stack := some [1] } .done)

def delegatedMoveTrace (flag : U256) : DefaultFrame where
  structLogs := (delegatedMove flag).flatten
  bounded := by simp [delegatedMove, CallTree.flatten]

theorem delegatedMove_wellFormed (flag : U256) : (delegatedMove flag).WellFormed 1 := by
  refine ⟨⟨rfl, rfl, rfl⟩, rfl, rfl, rfl, ?_, rfl, ⟨rfl, rfl, rfl⟩, ?_, trivial⟩
  · refine ⟨⟨rfl, rfl, rfl⟩, rfl, rfl, rfl, ⟨⟨rfl, rfl, rfl⟩, ?_, trivial⟩, rfl, ⟨rfl, rfl, rfl⟩, ?_, trivial⟩
    · intro _ opens
      cases opens
    · intro _ opens
      cases opens
  · intro _ opens
    cases opens

/-- Either way the consumer gets a frame of its own. -/
theorem delegatedMove_split (flag : U256) (small : flag = 0 ∨ flag = 1) :
    ∃ tree, computeFrameTreeCanonical ⟨fun _ => 0, fun _ => 0⟩ (delegatedMoveTrace flag) 9 (fun _ => true)
      nestingCostModelV1 = .ok tree ∧ tree.frames.length = 2 ∧ tree.frameSteps = [0, 0] := by
  have shape : (computeFrameTreeCanonical ⟨fun _ => 0, fun _ => 0⟩ (delegatedMoveTrace flag) 9 (fun _ => true)
      nestingCostModelV1).toOption.any (fun tree => tree.frames.length == 2 && tree.frameSteps == [0, 0]) = true := by
    rcases small with rfl | rfl <;> decide +kernel
  obtain ⟨tree, answer, shape⟩ := Outcome.any_ok shape
  obtain ⟨length, steps⟩ := Bool.and_eq_true_iff.mp shape
  exact ⟨tree, answer, by simpa using length, by simpa using steps⟩

theorem delegatedMove_scope {flag : U256} {tree : FrameTreeExtract} (steps : tree.frameSteps = [0, 0]) {n : Nat}
    {body : CallTree} (scope : FrameScope (delegatedMove flag) tree 1 n body) :
    n = 1 ∧ body = .enter { op := .delegatecall, gas := 900000, depth := 2, stack := some [0, 0, 0, 0, 8, 0] }
      (.step { op := .sstore, gas := 800000, depth := 3, stack := some [5, stateTrackerSlot] } .done)
      (.step { op := .other "STOP", gas := 700000, depth := 2, stack := some [flag] } .done) := by
  rw [FrameScope, if_neg Nat.one_ne_zero, steps] at scope
  obtain ⟨j, call, rest, atJ, opens, -, rfl⟩ := scope
  obtain rfl : 0 = j := Option.some.inj atJ
  obtain ⟨-, rfl, -⟩ := opens.unique .here
  exact ⟨rfl, rfl⟩

theorem nested_frames_pin_delegatedMove : ∃ tree, computeFrameTreeCanonical ⟨fun _ => 0, fun _ => 0⟩
    (delegatedMoveTrace 1) 9 (fun _ => true) nestingCostModelV1 = .ok tree ∧ Pins 9 (delegatedMove 1) tree 1 := by
  obtain ⟨tree, answer, length, steps⟩ := delegatedMove_split 1 (Or.inr rfl)
  obtain ⟨-, pins⟩ := nested_frames_pin_iff ⟨fun _ => 0, fun _ => 0⟩ (delegatedMoveTrace 1) 9 (fun _ => true)
    nestingCostModelV1 tree (delegatedMove 1) (delegatedMove_wellFormed 1) rfl answer
  refine ⟨tree, answer, (pins 1 Nat.one_pos (by rw [length]; decide)).mpr ?_⟩
  have scope : ∃ body, FrameScope (delegatedMove 1) tree 1 1 body := by
    unfold FrameScope
    simp only [if_neg Nat.one_ne_zero, steps]
    exact ⟨_, 0, _, _, rfl, .here, rfl, rfl⟩
  obtain ⟨body, scope⟩ := scope
  obtain ⟨-, rfl⟩ := delegatedMove_scope steps scope
  exact ⟨1, _, 2, _, scope, List.mem_cons_of_mem _ List.mem_cons_self, rfl⟩

/-- The delegate reverts: the consumer still gets a frame, and nothing in it moves its counter. -/
theorem nested_frame_revertedMove : ∃ tree, computeFrameTreeCanonical ⟨fun _ => 0, fun _ => 0⟩ (delegatedMoveTrace 0) 9
    (fun _ => true) nestingCostModelV1 = .ok tree ∧ tree.frames.length = 2 ∧ ¬Pins 9 (delegatedMove 0) tree 1 := by
  obtain ⟨tree, answer, length, steps⟩ := delegatedMove_split 0 (Or.inl rfl)
  refine ⟨tree, answer, length, ?_⟩
  rw [pins_iff (delegatedMove_wellFormed 0) rfl answer (by rw [length]; decide) Nat.one_pos]
  rintro ⟨n, body, i, log, scope, member, moves⟩
  obtain ⟨rfl, rfl⟩ := delegatedMove_scope steps scope
  change (i, log) ∈ [_, _] at member
  rcases List.mem_cons.mp member with here | later
  · obtain ⟨rfl, rfl⟩ := Prod.mk.inj here
    cases moves
  · obtain ⟨rfl, rfl⟩ := Prod.mk.inj (List.mem_singleton.mp later)
    cases moves

end GasAnalyzer
