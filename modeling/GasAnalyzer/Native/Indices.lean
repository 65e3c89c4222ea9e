import GasAnalyzer.Native.Eligibility

/-!
# Transition indices

A frame's index is the predecessor of the first counter write seen in its scope. For a nested frame nothing comes before
that write, so the index is the counter on entry. The root's first write may come late: a call that re-entered the root
and moved its counter before it is counted in the index.
-/

namespace GasAnalyzer

/-! ### Native counters -/

/-- The counter of `account` once `ws` was written, `pre` being the counters before. -/
def tracker (pre : Address → B256) (ws : List Write) (account : Address) : B256 :=
  (wrote ws account stateTrackerSlot).getD (pre account)

namespace CallTree

section

variable (born : CallTree → Option Address)

/-- The writes of `t` that stand at step `j`, after those of `ws`: a write of a frame that failed before no longer
does. -/
def standing : Option Address → Nat → CallTree → List Write → Nat → List Write
  | _, _, done, ws, _ => ws
  | ctx, n, step log rest, ws, j =>
    if j ≤ n then ws else rest.standing ctx (n + 1) (ws ++ log.writes ctx n) j
  | ctx, n, enter call body rest, ws, j =>
    if j ≤ n then ws
    else if j < n + 1 + body.size then body.standing (context born ctx call rest) (n + 1) ws j
    else rest.standing ctx (n + 1 + body.size)
      (ws ++ if rest.succeeds then body.writes born (context born ctx call rest) (n + 1) else []) j

variable (pre : Address → B256)

/-- Every un-errored write of a tracker slot adds one to the counter it finds. -/
def Counts : Option Address → Nat → CallTree → List Write → Prop
  | _, _, done, _ => True
  | ctx, n, step log rest, ws =>
    (∀ account value, ctx = some account → log.moved? = some value →
      value.val = (tracker pre ws account).val + 1) ∧ rest.Counts ctx (n + 1) (ws ++ log.writes ctx n)
  | ctx, n, enter call body rest, ws =>
    body.Counts (context born ctx call rest) (n + 1) ws ∧ rest.Counts ctx (n + 1 + body.size)
      (ws ++ if rest.succeeds then body.writes born (context born ctx call rest) (n + 1) else [])

end

variable {born : CallTree → Option Address} {pre : Address → B256} {ctx : Option Address} {n : Nat} {t : CallTree}
variable {ws : List Write}

theorem standing_first : t.standing born ctx n ws n = ws := by
  cases t with
  | done => rfl
  | step log rest => exact if_pos (Nat.le_refl n)
  | enter call body rest => exact if_pos (Nat.le_refl n)

/-- A move of the scope adds one to the counter it finds. -/
theorem Counts.at_move {d j : Nat} {log : StructLog} {account : Address} {value : B256} (wf : t.WellFormed d)
    (counts : t.Counts born pre (some account) n ws) (member : (j, log) ∈ t.closure always n)
    (moved : log.moved? = some value) :
    value.val = (tracker pre (t.standing born (some account) n ws j) account).val + 1 := by
  induction t generalizing d n ws with
  | done => cases member
  | step log' rest ih =>
    rw [standing]
    rcases List.mem_cons.mp member with here | later
    · obtain ⟨rfl, rfl⟩ := Prod.mk.inj here
      rw [if_pos (Nat.le_refl j)]
      exact counts.1 account value rfl moved
    · have := closure_bounds later
      rw [if_neg (by omega)]
      exact ih wf.2.2 counts.2 later
  | enter call body rest ihBody ihRest =>
    obtain ⟨-, -, opens, -, innerWf, -, tailWf⟩ := wf
    rw [standing]
    rcases List.mem_cons.mp member with here | later
    · obtain ⟨rfl, rfl⟩ := Prod.mk.inj here
      rw [StructLog.moved?_of_opens opens] at moved
      cases moved
    · rcases List.mem_append.mp later with inside | after
      · split at inside
        · rename_i both
          have delegates := (Bool.and_eq_true_iff.mp both).1
          have same : context born (some account) call rest = some account := if_pos delegates
          have := closure_bounds inside
          rw [if_neg (by omega), if_pos (by omega), same]
          have inner := counts.1
          rw [same] at inner
          exact ihBody innerWf inner inside
        · cases inside
      · have := closure_bounds after
        rw [if_neg (by omega), if_neg (by omega)]
        exact ihRest tailWf counts.2 after

/-! ### Before the first effect -/

theorem writes_of_effectless {log : StructLog} (quiet : log.effects = false) : log.writes ctx n = [] := by
  have none : log.stored? = none := by
    unfold StructLog.stored?
    rw [if_neg]
    rintro ⟨kind, fine⟩
    simp [StructLog.effects, kind, fine] at quiet
  unfold StructLog.writes
  rw [none]
  cases ctx <;> rfl

/-- A call whose scope goes on without an effect is a delegate call. -/
theorem delegates_of_effectless {call : StructLog} (fine : call.errored = false) (opens : call.op.opensFrame = true)
    (quiet : call.effects = false) : call.op.isDelegate = true := by
  unfold StructLog.effects at quiet
  rw [fine] at quiet
  cases op : call.op <;>
    simp_all [Scan.observable, Opcode.opensFrame, Opcode.isDelegate, Opcode.isCreate, Opcode.isLog]

/-- A frame without effects in its scope writes nothing. -/
theorem writes_of_quiet {d : Nat} (wf : t.WellFormed d)
    (quiet : (t.closure always n).find? (fun p => p.2.effects) = none) : t.writes born ctx n = [] := by
  induction t generalizing d n with
  | done => rfl
  | step log rest ih =>
    rw [closure, List.find?_cons] at quiet
    cases effects : log.effects with
    | true => simp [effects] at quiet
    | false =>
      rw [effects] at quiet
      rw [writes, writes_of_effectless effects, ih wf.2.2 quiet]
      rfl
  | enter call body rest ihBody ihRest =>
    obtain ⟨-, fine, opens, -, innerWf, -, tailWf⟩ := wf
    rw [closure, List.find?_cons] at quiet
    cases effects : call.effects with
    | true => simp [effects] at quiet
    | false =>
      rw [effects] at quiet
      rw [delegates_of_effectless fine opens effects] at quiet
      have parts := List.find?_append.symm.trans quiet
      rw [Option.or_eq_none_iff] at parts
      have inner : body.writes born (context born ctx call rest) (n + 1) = [] := by
        unfold context
        rw [if_pos (delegates_of_effectless fine opens effects)]
        exact ihBody innerWf parts.1
      rw [writes, inner, ihRest tailWf parts.2, ite_self]
      rfl

/-- At the first effect of a frame's scope, when that is a move, the frame has written nothing yet. -/
theorem standing_at_first {d j : Nat} {log : StructLog} (wf : t.WellFormed d)
    (first : (t.closure always n).find? (fun p => p.2.effects) = some (j, log)) (moves : log.moved?.isSome = true) :
    t.standing born ctx n ws j = ws := by
  induction t generalizing d n ws with
  | done => rfl
  | step log' rest ih =>
    rw [closure, List.find?_cons] at first
    cases effects : log'.effects with
    | true =>
      rw [effects] at first
      obtain ⟨rfl, -⟩ := Prod.mk.inj (Option.some.inj first)
      exact standing_first
    | false =>
      rw [effects] at first
      have := closure_bounds (List.mem_of_find?_eq_some first)
      rw [standing, if_neg (by omega), writes_of_effectless effects, List.append_nil]
      exact ih wf.2.2 first
  | enter call body rest ihBody ihRest =>
    obtain ⟨-, fine, opens, -, innerWf, -, tailWf⟩ := wf
    rw [closure, List.find?_cons] at first
    cases effects : call.effects with
    | true =>
      rw [effects] at first
      obtain ⟨rfl, rfl⟩ := Prod.mk.inj (Option.some.inj first)
      exact standing_first
    | false =>
      have delegates := delegates_of_effectless fine opens effects
      rw [effects] at first
      rw [delegates] at first
      change (List.find? _ (body.closure always (n + 1) ++ _)) = _ at first
      rw [List.find?_append] at first
      have same : context born ctx call rest = ctx := if_pos delegates
      rw [standing, same]
      cases inside : (body.closure always (n + 1)).find? (fun p => p.2.effects) with
      | some x =>
        rw [inside] at first
        obtain rfl := Option.some.inj first
        have := closure_bounds (List.mem_of_find?_eq_some inside)
        rw [if_neg (by omega), if_pos (by omega)]
        exact ihBody innerWf inside
      | none =>
        rw [inside, Option.none_or] at first
        have := closure_bounds (List.mem_of_find?_eq_some first)
        rw [if_neg (by omega), if_neg (by omega), writes_of_quiet innerWf inside, ite_self, List.append_nil]
        exact ihRest tailWf first

/-! ### Frames of a tree -/

/-- What stands while a frame runs. -/
theorem Opens.standing {j : Nat} {call : StructLog} {body rest : CallTree} (opens : Opens n t j call body rest)
    (counts : t.Counts born pre ctx n ws) :
    ∃ ctx' ws', body.Counts born pre (context born ctx' call rest) (j + 1) ws' ∧
      ∀ i, j < i → i < j + 1 + body.size →
        t.standing born ctx n ws i = body.standing born (context born ctx' call rest) (j + 1) ws' i := by
  induction opens generalizing ctx ws with
  | here =>
    refine ⟨ctx, ws, counts.1, ?_⟩
    intro i low high
    rw [CallTree.standing, if_neg (by omega), if_pos high]
  | later opens ih =>
    obtain ⟨ctx', ws', inner, same⟩ := ih counts.2
    refine ⟨ctx', ws', inner, ?_⟩
    intro i low high
    have := opens.bounds
    rw [CallTree.standing, if_neg (by omega)]
    exact same i low high
  | inside opens ih =>
    obtain ⟨ctx', ws', inner, same⟩ := ih counts.1
    refine ⟨ctx', ws', inner, ?_⟩
    intro i low high
    have := opens.bounds
    have := opens.body_bounds
    rw [CallTree.standing, if_neg (by omega), if_pos (by omega)]
    exact same i low high
  | after opens ih =>
    obtain ⟨ctx', ws', inner, same⟩ := ih counts.2
    refine ⟨ctx', ws', inner, ?_⟩
    intro i low high
    have := opens.bounds
    rw [CallTree.standing, if_neg (by omega), if_neg (by omega)]
    exact same i low high

end CallTree

/-! ### Tallies -/

/-- The writes of `account`'s counter. -/
def Moves (account : Address) (w : Write) : Prop := w.account = account ∧ w.slot = stateTrackerSlot

instance (account : Address) (w : Write) : Decidable (Moves account w) :=
  inferInstanceAs (Decidable (_ ∧ _))

/-- Every counter moved by one with every write of it. -/
def Tallies (pre : Address → B256) (ws : List Write) : Prop :=
  ∀ account, (tracker pre ws account).val = (pre account).val + ws.countP (fun w => decide (Moves account w))

variable {born : CallTree → Option Address} {pre : Address → B256} {ctx : Option Address} {n : Nat} {t : CallTree}
variable {ws : List Write}

theorem Tallies.nil (pre : Address → B256) : Tallies pre [] := fun _ => rfl

theorem tracker_concat (w : Write) (account : Address) :
    tracker pre (ws ++ [w]) account = if Moves account w then w.value else tracker pre ws account := by
  unfold tracker
  rw [wrote_append]
  have one : wrote [w] account stateTrackerSlot = if Moves account w then some w.value else none := by
    unfold wrote
    rw [List.map_singleton, WriteLog.last_singleton]
    by_cases moves : Moves account w
    · rw [if_pos moves, if_pos (Prod.ext moves.1 moves.2)]
      rfl
    · rw [if_neg moves, if_neg]
      intro same
      exact moves (Prod.mk.inj same)
  rw [one]
  split <;> rfl

theorem Tallies.step {log : StructLog} (tallies : Tallies pre ws)
    (adds : ∀ account value, ctx = some account → log.moved? = some value →
      value.val = (tracker pre ws account).val + 1) : Tallies pre (ws ++ log.writes ctx n) := by
  unfold StructLog.writes
  split
  · rename_i account slot value stores
    intro other
    rw [tracker_concat, List.countP_append, List.countP_singleton, ← Nat.add_assoc, ← tallies other]
    by_cases moves : Moves other ⟨n, account, slot, value⟩
    · obtain ⟨rfl, tracked⟩ := moves
      change slot = stateTrackerSlot at tracked
      have moved : log.moved? = some value := by
        unfold StructLog.moved?
        rw [stores, Option.bind_some, if_pos tracked]
      have both : Moves account ⟨n, account, slot, value⟩ := ⟨rfl, tracked⟩
      rw [if_pos both, if_pos (by simpa using both)]
      exact adds account value rfl moved
    · rw [if_neg moves, if_neg (by simpa using moves)]
      rfl
  · rwa [List.append_nil]

theorem Tallies.writes (tallies : Tallies pre ws) (counts : t.Counts born pre ctx n ws) :
    Tallies pre (ws ++ t.writes born ctx n) := by
  induction t generalizing ctx n ws with
  | done => rwa [CallTree.writes, List.append_nil]
  | step log rest ih =>
    rw [CallTree.writes, ← List.append_assoc]
    exact ih (tallies.step counts.1) counts.2
  | enter call body rest ihBody ihRest =>
    rw [CallTree.writes, ← List.append_assoc]
    refine ihRest ?_ counts.2
    split
    · exact ihBody tallies counts.1
    · rwa [List.append_nil]

theorem Tallies.standing (tallies : Tallies pre ws) (counts : t.Counts born pre ctx n ws) (j : Nat) :
    Tallies pre (t.standing born ctx n ws j) := by
  induction t generalizing ctx n ws with
  | done => exact tallies
  | step log rest ih =>
    rw [CallTree.standing]
    split
    · exact tallies
    · exact ih (tallies.step counts.1) counts.2
  | enter call body rest ihBody ihRest =>
    rw [CallTree.standing]
    split
    · exact tallies
    · split
      · exact ihBody tallies counts.1
      · refine ihRest ?_ counts.2
        split
        · exact tallies.writes counts.1
        · rwa [List.append_nil]

/-- A counter is where it was exactly if no write of it stands. -/
theorem Tallies.unmoved_iff (tallies : Tallies pre ws) (account : Address) :
    tracker pre ws account = pre account ↔ ∀ w ∈ ws, ¬Moves account w := by
  have none : ws.countP (fun w => decide (Moves account w)) = 0 ↔ ∀ w ∈ ws, ¬Moves account w := by
    rw [List.countP_eq_zero]
    simp
  rw [← none, ← Fin.val_inj, tallies account]
  omega

theorem predSat_succ {value index : B256} (next : value.val = index.val + 1) : U256.predSat value = index := by
  unfold U256.predSat
  have isNext : value = index + 1 := by
    apply Fin.ext
    have := value.isLt
    rw [next, Fin.val_add]
    show _ = (index.val + 1) % 2 ^ 256
    omega
  rw [if_neg, isNext, add_sub_cancel_right]
  rintro rfl
  cases next

/-! ### The frames returned -/

variable {H : Hashes} {trace : DefaultFrame} {root : Address} {elig : Eligibility} {cost : NestingCostModel}
variable {tree : FrameTreeExtract}

namespace SplitRun

/-- A settled program keeps the step that opened it and its index. -/
theorem opening (run : SplitRun H trace root elig cost tree) {id : Nat} {p : ProgramState}
    (found : run.programs[id]? = some p) : run.last.openings[id]? = some (p.step, p.transitionIndex) := by
  obtain ⟨p₀, found₀, core, -⟩ := run.program_ops found
  obtain ⟨-, -, -, -, -, -, programs, -⟩ := closeRoot_ok run.closes
  have same : run.last.openings = run.closed.programs.map (fun p => (p.step, p.transitionIndex)) := by
    rw [programs]
    apply Eq.symm
    apply map_modify
    intro q
    rfl
  have step : p.core.step = p₀.core.step := congrArg ProgramState.step core
  have index : p.core.transitionIndex = p₀.core.transitionIndex := congrArg ProgramState.transitionIndex core
  change p.step = p₀.step at step
  change p.transitionIndex = p₀.transitionIndex at index
  rw [same, List.getElem?_map, found₀, step, index]
  rfl

/-- A returned frame is the root's, or that of a `CALL` whose callee was given one. -/
theorem index (run : SplitRun H trace root elig cost tree) (wf : t.WellFormed 1) (flat : trace.structLogs = t.flatten)
    {k j : Nat} {frame : FrameProgram} (found : tree.frames[k]? = some frame) (at' : tree.frameSteps[k]? = some j) :
    k = 0 ∧ frame.target = root ∧ frame.transitionIndex = run.rootIndex ∨
      k ≠ 0 ∧ ∃ call body rest, CallTree.Opens 0 t j call body rest ∧ call.op = .call ∧
        call.callee = some frame.target ∧
        frame.transitionIndex = granting elig run.candidates j call body := by
  rw [run.frames] at found
  obtain ⟨id, p, foundP, alive, isRank, rfl⟩ := Settled.of_frame found
  have kept : (keptPrograms run.programs)[k]? = some p := by
    rw [← isRank]
    exact getElem?_rank foundP (Settled.kept_alive alive)
  rw [run.frameSteps, List.getElem?_map, kept] at at'
  obtain rfl : p.step = j := Option.some.inj at'
  have opening := run.opening foundP
  rw [(run.derivation wf flat).openings wf rfl] at opening
  obtain ⟨m, body', d, -, -, ran, -⟩ := run.runs wf flat foundP alive
  by_cases isRoot : id = 0
  · subst isRoot
    left
    rw [rank_zero] at isRank
    rw [SplitRun.Runs, if_pos rfl] at ran
    exact ⟨isRank.symm, ran.2.2, (Prod.mk.inj (Option.some.inj opening)).2.symm⟩
  · right
    refine ⟨?_, ?_⟩
    · obtain ⟨r, first, rootAlive, -⟩ := run.final.settled.root
      have later := rank_lt first (Settled.kept_alive rootAlive) (Nat.pos_of_ne_zero isRoot)
      omega
    · rw [SplitRun.Runs, if_neg isRoot] at ran
      obtain ⟨call, rest, opens, callee, -⟩ := ran
      obtain ⟨id', rfl⟩ := Nat.exists_eq_succ_of_ne_zero isRoot
      change ((t.framed (granting elig run.candidates) 0).map (fun x => (x.1, some x.2)))[id']? = _ at opening
      obtain ⟨x, member, same⟩ := List.mem_map.mp (List.mem_of_getElem? opening)
      obtain ⟨step, index⟩ := Prod.mk.inj same
      obtain ⟨call', body'', rest', opens', kind, granted⟩ := CallTree.opens_of_framed member
      rw [step] at opens'
      obtain ⟨rfl, rfl, rfl⟩ := opens.unique opens'
      refine ⟨call, body', rest, opens, kind, callee, ?_⟩
      show p.transitionIndex = _
      rw [← index, ← step]
      exact granted.symm

end SplitRun

/-- The first step of frame `k`, which the `CALL` at step `j` opened unless it is the root's. -/
def frameEntry (k j : Nat) : Nat := if k = 0 then 0 else j + 1

/-- Every index is its target's counter when the frame was entered. -/
def IndicesNative (born : CallTree → Option Address) (pre : Address → B256) (root : Address) (t : CallTree)
    (tree : FrameTreeExtract) : Prop :=
  ∀ k j frame index, tree.frames[k]? = some frame → tree.frameSteps[k]? = some j →
    frame.transitionIndex = some index →
    index = tracker pre (t.standing born (some root) 0 [] (frameEntry k j)) frame.target

/-- When the root's scope first writes the root's counter, no other write of it stands. -/
def RootMovesFirst (born : CallTree → Option Address) (root : Address) (t : CallTree) : Prop :=
  ∀ j log, (t.closure CallTree.always 0).find? (fun p => p.2.moved?.isSome) = some (j, log) →
    ∀ w ∈ t.standing born (some root) 0 [] j, ¬Moves root w

theorem firstMove_eq (n : Nat) (t : CallTree) : t.firstMove n =
    ((t.closure CallTree.always n).find? (fun p => p.2.moved?.isSome)).bind (fun p => p.2.moved?) := by
  unfold CallTree.firstMove
  induction t.closure CallTree.always n with
  | nil => rfl
  | cons x xs ih =>
    rw [List.findSome?_cons, List.find?_cons]
    cases moved : x.2.moved? with
    | none => simpa using ih
    | some value => simp [moved]

/-- A nested frame's index is its target's counter on entry: its increment comes before anything else. -/
theorem nested_index (wf : t.WellFormed 1) {isNestable : Address → Bool} {j : Nat} {call : StructLog}
    {body rest : CallTree} {index : U256} {target : Address} (counts : t.Counts born pre (some root) 0 [])
    (opens : CallTree.Opens 0 t j call body rest) (kind : call.op = .call) (callee : call.callee = some target)
    (granted : (if body.strands then none else (qualifying isNestable j call body).map U256.predSat) = some index) :
    index = tracker pre (t.standing born (some root) 0 [] (j + 1)) target := by
  obtain ⟨d, callWf⟩ := opens.wellFormed wf
  have bodyWf := callWf.2.2.2.2.1
  have inhabited : 0 < body.size := by
    have head := callWf.2.2.2.1
    cases body with
    | done => cases head
    | step => exact Nat.succ_pos _
    | enter => exact Nat.succ_pos _
  split at granted
  · cases granted
  · unfold qualifying CallTree.bump at granted
    split at granted
    · split at granted
      · cases granted
      · obtain ⟨value, isBump, rfl⟩ := Option.map_eq_some_iff.mp granted
        obtain ⟨log, first, moved⟩ := Option.bind_eq_some_iff.mp isBump
        unfold CallTree.scope at first
        rw [CallTree.closure_logs CallTree.always 0 (j + 1), List.find?_map] at first
        obtain ⟨⟨i, log'⟩, earliest, rfl⟩ := Option.map_eq_some_iff.mp first
        change (body.closure CallTree.always (j + 1)).find? (fun p => p.2.effects) = _ at earliest
        change log'.moved? = some value at moved
        obtain ⟨ctx', ws', inner, same⟩ := opens.standing counts
        have context : CallTree.context born ctx' call rest = some target := by
          unfold CallTree.context
          rw [kind]
          exact callee
        rw [context] at inner same
        have isMove := inner.at_move bodyWf (List.mem_of_find?_eq_some earliest) moved
        rw [CallTree.standing_at_first bodyWf earliest (by rw [moved]; rfl)] at isMove
        rw [same (j + 1) (by omega) (by omega), CallTree.standing_first]
        exact predSat_succ isMove
    · cases granted

/-- Where every counter write adds one, the indices are the counters on entry exactly if no other frame has moved the
root's counter when the root's scope first writes it. -/
theorem indices_native_iff (H : Hashes) (trace : DefaultFrame) (root : Address) (isNestable : Address → Bool)
    (cost : NestingCostModel) (tree : FrameTreeExtract) (t : CallTree) (born : CallTree → Option Address)
    (pre : Address → B256) (wf : t.WellFormed 1) (flat : trace.structLogs = t.flatten)
    (counts : t.Counts born pre (some root) 0 [])
    (answer : computeFrameTreeCanonical H trace root isNestable cost = .ok tree) :
    IndicesNative born pre root t tree ↔ RootMovesFirst born root t := by
  obtain ⟨run⟩ := splitFrameTree_run answer
  have small : t.size < 2 ^ 63 := by
    have bounded := trace.bounded
    rwa [flat, CallTree.length_flatten] at bounded
  have scanned := run.scanned
  rw [flat] at scanned
  obtain ⟨rootIndex, judged⟩ := scanCandidates_scopes wf small scanned
  rw [firstMove_eq] at rootIndex
  have tallies := fun j => (Tallies.nil pre).standing counts j
  -- The root's first move adds one to the counter it finds.
  have found : ∀ j log value, (t.closure CallTree.always 0).find? (fun p => p.2.moved?.isSome) = some (j, log) →
      log.moved? = some value →
      run.rootIndex = some (tracker pre (t.standing born (some root) 0 [] j) root) := by
    intro j log value first moved
    rw [rootIndex, first, Option.bind_some, moved, Option.map_some]
    exact congrArg some (predSat_succ (counts.at_move wf (List.mem_of_find?_eq_some first) moved))
  constructor
  · intro native j log first
    have moves : log.moved?.isSome = true := by simpa using List.find?_some first
    obtain ⟨value, moved⟩ := Option.isSome_iff_exists.mp moves
    obtain ⟨frame, ops, at0, -⟩ := run.rootProgram
    have at0' : ∃ j, tree.frameSteps[0]? = some j := by
      rw [run.frames] at at0
      rw [run.frameSteps]
      obtain ⟨p, kept, -⟩ := List.getElem?_map.symm.trans at0 |> Option.map_eq_some_iff.mp
      exact ⟨p.step, by rw [List.getElem?_map, kept]; rfl⟩
    obtain ⟨j₀, step⟩ := at0'
    rcases run.index wf flat at0 step with ⟨-, target, isRoot⟩ | ⟨nonroot, -⟩
    · have known := found j log value first moved
      have entry := native 0 j₀ frame _ at0 step (isRoot.trans known)
      rw [frameEntry, if_pos rfl, CallTree.standing_first, target] at entry
      exact ((tallies j).unmoved_iff root).mp entry
    · exact absurd rfl nonroot
  · intro first k j frame index at' step isIndex
    rcases run.index wf flat at' step with ⟨rfl, target, isRoot⟩ | ⟨nonroot, call, body, rest, opens, kind, callee, granted⟩
    · rw [isRoot] at isIndex
      rw [frameEntry, if_pos rfl, CallTree.standing_first, target]
      have known := rootIndex
      rw [isIndex] at known
      obtain ⟨value, isMove, -⟩ := Option.map_eq_some_iff.mp known.symm
      obtain ⟨⟨i, log⟩, isFirst, moved⟩ := Option.bind_eq_some_iff.mp isMove
      have isKnown := found i log value isFirst moved
      rw [isIndex] at isKnown
      rw [Option.some.inj isKnown]
      exact ((tallies i).unmoved_iff root).mpr (first i log isFirst)
    · rw [isIndex] at granted
      unfold granting at granted
      rw [judged opens kind, frameIndex_judged isNestable j call body] at granted
      rw [frameEntry, if_neg nonroot]
      exact nested_index wf counts opens kind callee granted.symm

theorem indices_native_delegatedMove : ∃ tree, computeFrameTreeCanonical ⟨fun _ => 0, fun _ => 0⟩
    (delegatedMoveTrace 1) 9 (fun _ => true) nestingCostModelV1 = .ok tree ∧
      IndicesNative CallTree.deployed (fun _ => 4) 9 (delegatedMove 1) tree := by
  obtain ⟨tree, answer, -⟩ := delegatedMove_split 1 (Or.inr rfl)
  refine ⟨tree, answer, ?_⟩
  refine (indices_native_iff ⟨fun _ => 0, fun _ => 0⟩ (delegatedMoveTrace 1) 9 (fun _ => true) nestingCostModelV1 tree
    (delegatedMove 1) CallTree.deployed (fun _ => 4) (delegatedMove_wellFormed 1) rfl ?_ answer).mpr ?_
  · refine ⟨⟨⟨?_, trivial⟩, ?_, trivial⟩, ?_, trivial⟩
    · intro account value context moved
      obtain rfl := Option.some.inj context
      obtain rfl := Option.some.inj moved
      rfl
    · intro account value _ moved
      cases moved
    · intro account value _ moved
      cases moved
  · -- The root never writes its own counter.
    intro j log first
    cases first

/-- A callee calls back into the root, which counts, and the root counts again once the callee returned. -/
def reentrantMove : CallTree :=
  .enter { op := .call, gas := 1000000, stack := some [0, 0, 0, 0, 0, 7, 0] }
    (.enter { op := .call, gas := 900000, depth := 2, stack := some [0, 0, 0, 0, 0, 9, 0] }
      (.step { op := .sstore, gas := 800000, depth := 3, stack := some [1, stateTrackerSlot] } .done)
      (.step { op := .other "STOP", gas := 700000, depth := 2, stack := some [1] } .done))
    (.step { op := .other "POP", gas := 500000, stack := some [1] }
      (.step { op := .sstore, gas := 400000, stack := some [2, stateTrackerSlot] } .done))

def reentrantMoveTrace : DefaultFrame where
  structLogs := reentrantMove.flatten
  bounded := by simp [reentrantMove, CallTree.flatten]

/-- The counter starts at zero, and the root's index is one. -/
theorem reentrant_move_miscounted : reentrantMove.WellFormed 1 ∧
    reentrantMove.Counts CallTree.deployed (fun _ => 0) (some 9) 0 [] ∧
    ∃ tree, computeFrameTreeCanonical ⟨fun _ => 0, fun _ => 0⟩ reentrantMoveTrace 9 (fun _ => true)
        nestingCostModelV1 = .ok tree ∧
      ¬IndicesNative CallTree.deployed (fun _ => 0) 9 reentrantMove tree := by
  refine ⟨?_, ?_, ?_⟩
  · refine ⟨⟨rfl, rfl, rfl⟩, rfl, rfl, rfl, ?_, rfl, ⟨rfl, rfl, rfl⟩, ?_, ⟨rfl, rfl, rfl⟩, ?_, trivial⟩
    · refine ⟨⟨rfl, rfl, rfl⟩, rfl, rfl, rfl, ⟨⟨rfl, rfl, rfl⟩, ?_, trivial⟩, rfl, ⟨rfl, rfl, rfl⟩, ?_, trivial⟩
      · intro _ opens
        cases opens
      · intro _ opens
        cases opens
    · intro _ opens
      cases opens
    · intro _ opens
      cases opens
  · refine ⟨⟨⟨?_, trivial⟩, ?_, trivial⟩, ?_, ?_, trivial⟩
    · intro account value context moved
      obtain rfl := Option.some.inj context
      obtain rfl := Option.some.inj moved
      rfl
    · intro account value _ moved
      cases moved
    · intro account value _ moved
      cases moved
    · intro account value context moved
      obtain rfl := Option.some.inj context
      obtain rfl := Option.some.inj moved
      decide +kernel
  · have shape : (computeFrameTreeCanonical ⟨fun _ => 0, fun _ => 0⟩ reentrantMoveTrace 9 (fun _ => true)
        nestingCostModelV1).toOption.any (fun tree => tree.frames.map FrameProgram.transitionIndex == [some 1] &&
          tree.frameSteps == [0]) = true := by
      decide +kernel
    obtain ⟨tree, answer, shape⟩ := Outcome.any_ok shape
    obtain ⟨indices, steps⟩ := Bool.and_eq_true_iff.mp shape
    obtain ⟨frame, frames, index⟩ := List.map_eq_singleton_iff.mp (beq_iff_eq.mp indices)
    refine ⟨tree, answer, ?_⟩
    intro native
    have entry := native 0 0 frame 1 (by rw [frames]; rfl) (by rw [beq_iff_eq.mp steps]; rfl) index
    rw [frameEntry, if_pos rfl, CallTree.standing_first] at entry
    change (1 : U256) = 0 at entry
    exact absurd entry (by decide)

end GasAnalyzer
