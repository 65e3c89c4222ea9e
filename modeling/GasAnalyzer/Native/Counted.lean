import GasAnalyzer.Native.Indices
import GasAnalyzer.Native.Totals

/-!
# What the totals count

The returned programs replay every call and create at most once: none in a frame that failed, none below another one
replayed, none that a kept `NESTED` op replaces. A step counted lies in the scope of the one program that emitted it, and
every frame around it is a delegate frame or a program's, up to the root.
-/

namespace GasAnalyzer

namespace CallTree

variable {n : Nat} {t : CallTree}

/-! ### Frames around a step -/

theorem closure_sorted (keep : CallTree → Bool) (n : Nat) (t : CallTree) :
    ((t.closure keep n).map Prod.fst).Pairwise (· < ·) := by
  have inside : ∀ {m k : Nat} {t : CallTree}, k ∈ (t.closure keep m).map Prod.fst → m ≤ k ∧ k < m + t.size := by
    intro m k t member
    obtain ⟨x, found, rfl⟩ := List.mem_map.mp member
    exact closure_bounds found
  induction t generalizing n with
  | done => exact List.Pairwise.nil
  | step log rest ih =>
    refine List.Pairwise.cons ?_ (ih (n + 1))
    intro k later
    have := inside later
    omega
  | enter call body rest ihBody ihRest =>
    rw [closure, List.map_cons, List.map_append]
    refine List.Pairwise.cons ?_ (List.pairwise_append.mpr ⟨?_, ihRest _, ?_⟩)
    · intro k later
      rcases List.mem_append.mp later with first | second
      · split at first
        · have := inside first
          omega
        · cases first
      · have := inside second
        omega
    · split
      · exact ihBody _
      · exact List.Pairwise.nil
    · intro k first k' second
      split at first
      · have := inside first
        have := inside second
        omega
      · cases first

theorem mem_spendSteps {i : Nat} : i ∈ t.spendSteps n ↔ ∃ log, (i, log) ∈ t.closure succeeds n ∧ log.spends = true := by
  unfold spendSteps
  simp

theorem spendSteps_bounds {i : Nat} (member : i ∈ t.spendSteps n) : n ≤ i ∧ i < n + t.size := by
  obtain ⟨log, inside, -⟩ := mem_spendSteps.mp member
  exact closure_bounds inside

theorem spendSteps_nodup (n : Nat) (t : CallTree) : (t.spendSteps n).Nodup := by
  have sorted : (t.spendSteps n).Pairwise (· < ·) :=
    (closure_sorted succeeds n t).sublist (List.filter_sublist.map Prod.fst)
  exact sorted.imp fun lt => Nat.ne_of_lt lt

/-- A frame between a scope and one of its steps is a delegate frame that succeeds. -/
theorem Opens.delegates {i j : Nat} {call : StructLog} {body rest : CallTree} (opens : Opens n t j call body rest)
    (member : i ∈ t.spendSteps n) (low : j < i) (high : i < j + 1 + body.size) :
    call.op.isDelegate = true ∧ rest.succeeds = true := by
  induction opens with
  | @here n call body rest =>
    rw [spendSteps_enter, List.mem_append, List.mem_append] at member
    rcases member with (first | inside) | after
    · split at first
      · have := List.mem_singleton.mp first
        omega
      · cases first
    · split at inside
      · rename_i both
        exact Bool.and_eq_true_iff.mp both
      · cases inside
    · have := spendSteps_bounds after
      omega
  | later opens ih =>
    have := opens.bounds
    rw [spendSteps_step, List.mem_append] at member
    rcases member with first | later
    · split at first
      · have := List.mem_singleton.mp first
        omega
      · cases first
    · exact ih later low high
  | inside opens ih =>
    have := opens.bounds
    have := opens.body_bounds
    rw [spendSteps_enter, List.mem_append, List.mem_append] at member
    rcases member with (first | inside) | after
    · split at first
      · have := List.mem_singleton.mp first
        omega
      · cases first
    · split at inside
      · exact ih inside low high
      · cases inside
    · have := spendSteps_bounds after
      omega
  | after opens ih =>
    have := opens.bounds
    rw [spendSteps_enter, List.mem_append, List.mem_append] at member
    rcases member with (first | inside) | after
    · split at first
      · have := List.mem_singleton.mp first
        omega
      · cases first
    · split at inside
      · have := spendSteps_bounds inside
        omega
      · cases inside
    · exact ih after low high

/-- Of two frames one of which starts in the other, the inner one is a frame of the outer one's body. -/
theorem Opens.within {i j : Nat} {outer call : StructLog} {mid above body rest : CallTree}
    (first : Opens n t i outer mid above) (second : Opens n t j call body rest) (low : i < j)
    (high : j < i + 1 + mid.size) : Opens (i + 1) mid j call body rest := by
  induction first with
  | here =>
    cases second with
    | here => omega
    | inside second => exact second
    | after second =>
      have := second.bounds
      omega
  | later first ih =>
    cases second with
    | later second => exact ih second low high
  | inside first ih =>
    have := first.bounds
    have := first.body_bounds
    cases second with
    | here => omega
    | inside second => exact ih second low high
    | after second =>
      have := second.bounds
      omega
  | after first ih =>
    have := first.bounds
    cases second with
    | here => omega
    | inside second =>
      have := second.bounds
      omega
    | after second => exact ih second low high

theorem framed_sorted {α : Type} (grant : Nat → StructLog → CallTree → Option α) (n : Nat) (t : CallTree) :
    ((t.framed grant n).map Prod.fst).Pairwise (· < ·) := by
  have inside : ∀ {m k : Nat} {t : CallTree}, k ∈ (t.framed grant m).map Prod.fst → m ≤ k ∧ k < m + t.size := by
    intro m k t member
    obtain ⟨x, found, rfl⟩ := List.mem_map.mp member
    obtain ⟨call, body, rest, opens, -⟩ := opens_of_framed found
    exact opens.bounds
  induction t generalizing n with
  | done => exact List.Pairwise.nil
  | step log rest ih => exact ih (n + 1)
  | enter call body rest ihBody ihRest =>
    rw [framed, List.map_append]
    refine List.pairwise_append.mpr ⟨?_, ihRest _, ?_⟩
    · split
      · split
        · refine List.Pairwise.cons ?_ (ihBody (n + 1))
          intro k later
          have := inside later
          omega
        · exact List.Pairwise.nil
      · split
        · exact ihBody (n + 1)
        · exact List.Pairwise.nil
    · intro k first k' second
      have after := inside second
      split at first
      · split at first
        · rcases List.mem_cons.mp first with here | within
          · have here : k = n := here
            omega
          · have := inside within
            omega
        · cases first
      · split at first
        · have := inside first
          omega
        · cases first

end CallTree

/-! ### The ops returned -/

/-- The ops of the returned programs, with the steps they were emitted at. -/
def FrameTreeExtract.replayed (tree : FrameTreeExtract) : List Op :=
  (tree.frames.zip tree.opSteps).flatMap (fun x => (x.1.updates.zip x.2).map (fun op => ⟨op.1, op.2⟩))

variable {H : Hashes} {trace : DefaultFrame} {root : Address} {elig : Eligibility} {cost : NestingCostModel}
variable {tree : FrameTreeExtract} {t : CallTree}

theorem spendsOf_sameOrCall {ops ops' : List Op} (same : List.Forall₂ SameOrCall ops ops') :
    spendsOf ops' = spendsOf ops := by
  induction same with
  | nil => rfl
  | @cons o o' rest rest' first _ ih =>
    show spendsOf ([o'] ++ rest') = spendsOf ([o] ++ rest)
    rw [spendsOf_append, spendsOf_append, ih]
    congr 1
    cases first <;> rfl

namespace SplitRun

theorem replayed (run : SplitRun H trace root elig cost tree) : tree.replayed = heldOps run.programs := by
  unfold FrameTreeExtract.replayed heldOps
  rw [run.frames, run.opSteps, List.zip_map', List.flatMap_map]
  refine List.flatMap_congr fun p _ => ?_
  show (((p.updates.getD []).map Op.update).zip ((p.updates.getD []).map Op.step)).map _ = _
  rw [List.zip_map', List.map_map]
  exact List.map_id _

/-- The scope of a live program: the whole trace for the root's, and for any other the body of the `CALL` it stands for,
which succeeded. -/
def Scoped (t : CallTree) (id step n : Nat) (body : CallTree) : Prop :=
  if id = 0 then n = 0 ∧ body = t
  else ∃ call rest, CallTree.Opens 0 t step call body rest ∧ call.op = .call ∧ rest.succeeds = true ∧ n = step + 1

/-- A live program emitted its calls and creates in its scope. -/
theorem spends (run : SplitRun H trace root elig cost tree) (wf : t.WellFormed 1) (flat : trace.structLogs = t.flatten)
    {id : Nat} {p : ProgramState} {ops' : List Op} (found : run.programs[id]? = some p)
    (updates' : p.updates = some ops') :
    ∃ n body, Scoped t id p.step n body ∧ (spendsOf ops').Sublist (body.spendSteps n) := by
  have whole := CallTree.drop_flatten flat
  obtain ⟨p₀, found₀, core, related⟩ := run.program_ops found
  have step : p.core.step = p₀.core.step := congrArg ProgramState.step core
  change p.step = p₀.step at step
  rw [updates'] at related
  by_cases isRoot : id = 0
  · subst isRoot
    obtain ⟨ops, billed⟩ := (run.derivation wf flat).billed wf whole rfl
    obtain ⟨below, -, q, -, -, top, programs, -⟩ := closeRoot_ok run.closes
    rw [programs] at found₀
    obtain ⟨p₁, -, rfl⟩ := found_modify found₀
    have sliced : run.closed.top = run.last.sliced trace.structLogs.length q.target := by
      rw [top, Walk.sliced, below]
    have out : run.last.top.out = ops := billed.out
    have held : spendsOf run.closed.top.out = spendsOf ops := by
      rw [sliced, Walk.sliced_out, spendsOf_append, (idle_slice trace.structLogs _ _ run.last).2, List.append_nil, out]
    refine ⟨0, t, by rw [Scoped, if_pos rfl]; exact ⟨rfl, rfl⟩, ?_⟩
    cases related with
    | some same =>
      rw [spendsOf_sameOrCall same, held]
      exact billed.spends
  · obtain ⟨call, body, rest, w₀, w₁, opens, kind, -, -, fresh, walked, closes⟩ := (run.ran wf flat found₀ isRoot).ran
    obtain ⟨d, callWf⟩ := opens.wellFormed wf
    obtain ⟨tail, suffix⟩ := opens.suffix whole
    obtain ⟨ops, billed⟩ := walked.billed callWf.2.2.2.2.1 (CallTree.drop_body suffix) fresh.free
    cases updates : p₀.updates with
    | none =>
      rw [updates] at related
      cases related
    | some ops₀ =>
      rw [updates] at related
      cases related with
      | some same =>
        obtain ⟨success, isOps⟩ := closes ops₀ updates
        have out : w₁.top.out = ops := by rw [billed.out, fresh.out, List.nil_append]
        have held : spendsOf ops₀ = spendsOf ops := by
          rw [isOps, Walk.sliced_out, spendsOf_append, (idle_slice trace.structLogs _ _ w₁).2, List.append_nil, out]
        refine ⟨p.step + 1, body, ?_, ?_⟩
        · rw [Scoped, if_neg isRoot, step]
          exact ⟨call, rest, opens, kind, success, rfl⟩
        · rw [spendsOf_sameOrCall same, held, step]
          exact billed.spends

/-- No two programs but the root's stand for the same step. -/
theorem steps_distinct (run : SplitRun H trace root elig cost tree) (wf : t.WellFormed 1)
    (flat : trace.structLogs = t.flatten) {i j : Nat} {p q : ProgramState} (foundP : run.programs[i]? = some p)
    (foundQ : run.programs[j]? = some q) (pos : 0 < i) (lt : i < j) : p.step < q.step := by
  have opened := (run.derivation wf flat).openings wf rfl
  have sorted := CallTree.framed_sorted (granting elig run.candidates) 0 t
  have look : ∀ {k : Nat} {r : ProgramState}, run.programs[k]? = some r → 0 < k →
      ((t.framed (granting elig run.candidates) 0).map Prod.fst)[k - 1]? = some r.step := by
    intro k r found later
    have opening := run.opening found
    rw [opened] at opening
    obtain ⟨k, rfl⟩ := Nat.exists_eq_succ_of_ne_zero (Nat.ne_of_gt later)
    change ((t.framed (granting elig run.candidates) 0).map (fun x => (x.1, some x.2)))[k]? = _ at opening
    rw [List.getElem?_map] at opening
    obtain ⟨x, here, same⟩ := Option.map_eq_some_iff.mp opening
    rw [Nat.succ_sub_one, List.getElem?_map, here]
    exact congrArg some (Prod.mk.inj same).1
  obtain ⟨insideI, atI⟩ := List.getElem?_eq_some_iff.mp (look foundP pos)
  obtain ⟨insideJ, atJ⟩ := List.getElem?_eq_some_iff.mp (look foundQ (by omega))
  have less := List.pairwise_iff_getElem.mp sorted (i - 1) (j - 1) insideI insideJ (by omega)
  rwa [atI, atJ] at less

/-- Two programs replay no step in common. -/
theorem spends_apart (run : SplitRun H trace root elig cost tree) (wf : t.WellFormed 1)
    (flat : trace.structLogs = t.flatten) {i j k : Nat} {p q : ProgramState} {ops ops' : List Op}
    (foundP : run.programs[i]? = some p) (foundQ : run.programs[j]? = some q) (lt : i < j)
    (updatesP : p.updates = some ops) (updatesQ : q.updates = some ops') (first : k ∈ spendsOf ops) :
    k ∉ spendsOf ops' := by
  intro second
  obtain ⟨n, body, scope, within⟩ := run.spends wf flat foundP updatesP
  obtain ⟨m, inner, scope', within'⟩ := run.spends wf flat foundQ updatesQ
  rw [Scoped, if_neg (by omega)] at scope'
  obtain ⟨call, rest, opens, kind, -, rfl⟩ := scope'
  have bounds := CallTree.spendSteps_bounds (within'.subset second)
  have inside := within.subset first
  -- The younger program's `CALL` would be a delegate call of the older one's scope.
  have reached : CallTree.Opens n body q.step call inner rest := by
    by_cases isRoot : i = 0
    · rw [Scoped, if_pos isRoot] at scope
      obtain ⟨rfl, rfl⟩ := scope
      exact opens
    · rw [Scoped, if_neg isRoot] at scope
      obtain ⟨callP, restP, opensP, -, -, rfl⟩ := scope
      have older := run.steps_distinct wf flat foundP foundQ (Nat.pos_of_ne_zero isRoot) lt
      have := CallTree.spendSteps_bounds inside
      exact opensP.within opens older (by omega)
  have delegates := (reached.delegates inside (by omega) (by omega)).1
  rw [kind] at delegates
  cases delegates

/-- No step is replayed twice, by one program or by two. -/
theorem spends_once (run : SplitRun H trace root elig cost tree) (wf : t.WellFormed 1)
    (flat : trace.structLogs = t.flatten) : (spendsOf (heldOps run.programs)).Nodup := by
  have each : ∀ {i : Nat} {p : ProgramState}, run.programs[i]? = some p → (spendsOf (p.updates.getD [])).Nodup := by
    intro i p found
    cases updates : p.updates with
    | none => exact List.nodup_nil
    | some ops =>
      obtain ⟨n, body, -, within⟩ := run.spends wf flat found updates
      exact (CallTree.spendSteps_nodup n body).sublist within
  have split : spendsOf (heldOps run.programs) =
      (keptPrograms run.programs).flatMap (fun p => spendsOf (p.updates.getD [])) := by
    unfold heldOps spendsOf
    rw [List.filter_flatMap, List.map_flatMap]
  rw [split, List.nodup_flatMap]
  refine ⟨?_, ?_⟩
  · intro p member
    obtain ⟨i, found⟩ := List.mem_iff_getElem?.mp (List.mem_filter.mp member).1
    exact each found
  · refine List.Pairwise.sublist List.filter_sublist ?_
    rw [List.pairwise_iff_getElem]
    intro i j insideI insideJ lt k first second
    have foundI := List.getElem?_eq_getElem insideI
    have foundJ := List.getElem?_eq_getElem insideJ
    change k ∈ spendsOf (run.programs[i].updates.getD []) at first
    change k ∈ spendsOf (run.programs[j].updates.getD []) at second
    cases updatesI : run.programs[i].updates with
    | none =>
      rw [updatesI] at first
      cases first
    | some ops =>
      cases updatesJ : run.programs[j].updates with
      | none =>
        rw [updatesJ] at second
        cases second
      | some ops' =>
        rw [updatesI] at first
        rw [updatesJ] at second
        exact run.spends_apart wf flat foundI foundJ lt updatesI updatesJ first second

theorem mem_heldOps {op : Op} {ps : List ProgramState} :
    op ∈ heldOps ps ↔ ∃ (i : Nat) (p : ProgramState) (ops : List Op), ps[i]? = some p ∧ p.dropped = false ∧
      p.updates = some ops ∧ op ∈ ops := by
  unfold heldOps keptPrograms
  rw [List.mem_flatMap]
  constructor
  · rintro ⟨p, member, inside⟩
    obtain ⟨member, alive⟩ := List.mem_filter.mp member
    obtain ⟨i, found⟩ := List.mem_iff_getElem?.mp member
    cases updates : p.updates with
    | none =>
      rw [updates] at inside
      cases inside
    | some ops =>
      rw [updates] at inside
      exact ⟨i, p, ops, found, by simpa using alive, updates, inside⟩
  · rintro ⟨i, p, ops, found, alive, updates, inside⟩
    refine ⟨p, List.mem_filter.mpr ⟨List.mem_of_getElem? found, by simp [alive]⟩, ?_⟩
    rw [updates]
    exact inside

/-- Around a step that a live program replays, every frame succeeded and is a delegate frame or that of a kept `NESTED`
op. -/
theorem surrounded (run : SplitRun H trace root elig cost tree) (wf : t.WellFormed 1)
    (flat : trace.structLogs = t.flatten) (id : Nat) : ∀ {p : ProgramState} {ops : List Op},
    run.programs[id]? = some p → p.dropped = false → p.updates = some ops → ∀ i ∈ spendsOf ops,
      ∀ {j : Nat} {call : StructLog} {body rest : CallTree}, CallTree.Opens 0 t j call body rest → j < i →
        i < j + 1 + body.size → rest.succeeds = true ∧
          (call.op.isDelegate = true ∨ j ∈ nestsOf (heldOps run.programs)) := by
  induction id using Nat.strong_induction_on with
  | _ id ih =>
    intro p ops found alive updates i member j call body rest opens low high
    obtain ⟨n, scope, ran, within⟩ := run.spends wf flat found updates
    have inside := within.subset member
    by_cases isRoot : id = 0
    · rw [Scoped, if_pos isRoot] at ran
      obtain ⟨rfl, rfl⟩ := ran
      obtain ⟨delegates, success⟩ := opens.delegates inside low high
      exact ⟨success, Or.inl delegates⟩
    · rw [Scoped, if_neg isRoot] at ran
      obtain ⟨callP, restP, opensP, -, success, rfl⟩ := ran
      obtain ⟨q, parent, older, foundQ, aliveQ, nested⟩ := run.nested_in_parent found alive isRoot
      obtain ⟨opsQ, updatesQ⟩ := Option.isSome_iff_exists.mp (run.final.done q parent (Nat.zero_le q) foundQ aliveQ)
      have nests := nested opsQ updatesQ
      have bounds := CallTree.spendSteps_bounds inside
      rcases Nat.lt_trichotomy j p.step with outside | rfl | deeper
      · -- The frame holds the program's own call, which its parent replays as a `NESTED` op.
        have spent : p.step ∈ spendsOf opsQ := by
          obtain ⟨op, isNest, same⟩ := List.mem_map.mp nests
          obtain ⟨inOps, isNested⟩ := List.mem_filter.mp isNest
          refine List.mem_map.mpr ⟨op, List.mem_filter.mpr ⟨inOps, ?_⟩, same⟩
          obtain ⟨update, step⟩ := op
          cases update with
          | nested => rfl
          | _ => cases isNested
        exact ih q older foundQ aliveQ updatesQ p.step spent opens outside (by omega)
      · obtain ⟨rfl, rfl, rfl⟩ := opens.unique opensP
        refine ⟨success, Or.inr ?_⟩
        obtain ⟨op, isNest, same⟩ := List.mem_map.mp nests
        obtain ⟨inOps, isNested⟩ := List.mem_filter.mp isNest
        refine List.mem_map.mpr ⟨op, List.mem_filter.mpr ⟨?_, isNested⟩, same⟩
        exact mem_heldOps.mpr ⟨q, parent, opsQ, foundQ, aliveQ, updatesQ, inOps⟩
      · obtain ⟨delegates, succeeds⟩ := (opensP.within opens deeper (by omega)).delegates inside low high
        exact ⟨succeeds, Or.inl delegates⟩

end SplitRun

end GasAnalyzer
