import GasAnalyzer.Library.Sums
import GasAnalyzer.Native.Bills

/-!
# Gas totals

Pruning turns a `NESTED` op of a live parent back into a `CALL`, and the totals count the pruned frame's own figures for
it. Program by program the figures counted are those of the ops held, so the totals are what the returned programs spend
when they are replayed.
-/

namespace GasAnalyzer

open Finset (range)

/-! ### The pruning run -/

/-- Programs that pruning reaches from `ps`. -/
inductive Prunings (ps : List ProgramState) : List ProgramState → Prop where
  | refl : Prunings ps ps
  | prune {ps₁ ps₂ : List ProgramState} {id : Nat} {program : ProgramState} (before : Prunings ps ps₁)
      (settled : Settled ps₁) (found : ps₁[id]? = some program) (alive : program.dropped = false) (pos : 0 < id)
      (pruned : pruneProgram id program ps₁ = .ok ps₂) : Prunings ps ps₂

theorem pruneStep_prunings {cost : NestingCostModel} {ps : List ProgramState} {s s' : Pruning} {id : Nat}
    (before : Prunings ps s.programs) (settled : Settled s.programs) (pos : 0 < id)
    (stepped : pruneStep cost id s = .ok s') : Prunings ps s'.programs ∧ Settled s'.programs := by
  unfold pruneStep at stepped
  obtain ⟨program, found, stepped⟩ := Outcome.bind_ok stepped
  replace found : s.programs[id]? = some program := Outcome.okOr_ok.mp found
  split at stepped
  · obtain rfl := Except.ok.inj stepped
    exact ⟨before, settled⟩
  · rename_i notDropped
    have alive : program.dropped = false := by simpa using notDropped
    dsimp only at stepped
    split at stepped
    · obtain rfl := Except.ok.inj stepped
      exact ⟨before, settled⟩
    · obtain ⟨ps₂, pruned, stepped⟩ := Outcome.bind_ok stepped
      obtain rfl := Except.ok.inj stepped
      obtain ⟨ps', ok, settled', -⟩ := pruneProgram_spec settled found alive pos
      obtain rfl := Except.ok.inj (ok.symm.trans pruned)
      exact ⟨.prune before settled found alive pos pruned, settled'⟩

theorem pruneLoop_prunings {cost : NestingCostModel} {ps : List ProgramState} {ids : List Nat} {s s' : Pruning}
    (before : Prunings ps s.programs) (settled : Settled s.programs) (pos : ∀ id ∈ ids, 0 < id)
    (looped : pruneLoop cost ids s = .ok s') : Prunings ps s'.programs := by
  induction ids generalizing s with
  | nil =>
    obtain rfl := Except.ok.inj looped
    exact before
  | cons id rest ih =>
    obtain ⟨s₁, stepped, looped⟩ := Outcome.bind_ok looped
    obtain ⟨before₁, settled₁⟩ := pruneStep_prunings before settled (pos id List.mem_cons_self) stepped
    exact ih before₁ settled₁ (fun id' member => pos id' (List.mem_cons_of_mem _ member)) looped

theorem pruneUnprofitable_prunings {cost : NestingCostModel} {ps ps' : List ProgramState} (settled : Settled ps)
    (pruned : pruneUnprofitable ps cost = .ok ps') : Prunings ps ps' := by
  unfold pruneUnprofitable at pruned
  obtain ⟨s, looped, pruned⟩ := Outcome.bind_ok pruned
  obtain rfl := Except.ok.inj pruned
  refine pruneLoop_prunings .refl settled ?_ looped
  intro id member
  have := List.mem_range'.mp (List.mem_reverse.mp member)
  omega

/-! ### Balance -/

/-- What pruned program `m` passes on to program `q`: the figures of its call, if `q` made it. -/
def turnedAt (ps : List ProgramState) (q m : Nat) : Bill :=
  match ps[m]? with
  | some p => if p.pruned && p.parent == some q then p.nativeBill else 0
  | none => 0

/-- The figures of the calls that pruning gave back to program `q`. -/
def turned (ps : List ProgramState) (q : Nat) : Bill := ∑ m ∈ range ps.length, turnedAt ps q m

/-- Every program's ops spend what the program is counted for. -/
structure Balanced (logs : List StructLog) (ps : List ProgramState) : Prop where
  pruned : ∀ (id : Nat) (p : ProgramState), ps[id]? = some p → p.pruned = true → p.dropped = true
  native : ∀ (id : Nat) (p : ProgramState), ps[id]? = some p → 0 < id → p.dropped = false → ∀ c,
    p.nativeBill = Op.bill logs ⟨.call c, p.step⟩
  ops : ∀ (id : Nat) (p : ProgramState) (ops : List Op), ps[id]? = some p → p.updates = some ops →
    billOf logs ops = p.directBill + turned ps id

variable {logs : List StructLog} {ps ps' : List ProgramState}

theorem nativeBill_of_core {p p' : ProgramState} (same : p'.core = p.core) : p'.nativeBill = p.nativeBill := by
  rw [ProgramState.eq_of_core same]
  rfl

theorem directBill_of_core {p p' : ProgramState} (same : p'.core = p.core) : p'.directBill = p.directBill := by
  rw [ProgramState.eq_of_core same]
  rfl

/-- Pruning a program passes its call on to its parent. -/
theorem Cut.turned {id q position : Nat} {out : List Op} {program : ProgramState}
    (cut : Cut ps ps' id q position out) (found : ps[id]? = some program) (fresh : program.pruned = false)
    (parent : program.parent = some q) (r : Nat) :
    turned ps' r = turned ps r + if q = r then program.nativeBill else 0 := by
  have inside : id < ps.length := (List.getElem?_eq_some_iff.mp found).1
  have look : ∀ {m : Nat} {p : ProgramState}, ps[m]? = some p → ∃ d,
      ps'[m]? = some ((pruneEdit id q position out m p).mark d) := by
    intro m p here
    have lt : m < ps'.length := by
      rw [cut.size]
      exact (List.getElem?_eq_some_iff.mp here).1
    obtain ⟨p₀, d, here₀, same⟩ := cut.look (List.getElem?_eq_getElem lt)
    obtain rfl := Option.some.inj (here.symm.trans here₀)
    exact ⟨d, by rw [List.getElem?_eq_getElem lt, same]⟩
  unfold GasAnalyzer.turned
  rw [cut.size]
  refine Sums.sum_range_change inside ?_ ?_
  · obtain ⟨d, after⟩ := look found
    unfold turnedAt
    rw [found, after]
    by_cases isParent : q = r <;> simp [pruneEdit, ProgramState.prune, ProgramState.mark, ProgramState.nativeBill,
      fresh, parent, isParent]
  · intro m other
    unfold turnedAt
    cases here : ps[m]? with
    | none =>
      have beyond : ps'[m]? = none := by
        rw [List.getElem?_eq_none_iff, cut.size]
        exact List.getElem?_eq_none_iff.mp here
      rw [beyond]
    | some p =>
      obtain ⟨d, after⟩ := look here
      have edit : pruneEdit id q position out m p = if q = m then p.dropChild position out else p :=
        if_neg (Ne.symm other)
      rw [after, edit]
      by_cases isParent : q = m <;> simp [isParent, ProgramState.mark, ProgramState.dropChild, ProgramState.nativeBill]

theorem Balanced.prune {id : Nat} {program : ProgramState} (balanced : Balanced logs ps) (settled : Settled ps)
    (found : ps[id]? = some program) (alive : program.dropped = false) (pos : 0 < id)
    (pruned : pruneProgram id program ps = .ok ps') : Balanced logs ps' := by
  obtain ⟨q, parent, position, call, before, after, hasParent, older, foundQ, aliveQ, atPosition, fallback, updates,
    length, ok⟩ := pruneProgram_ok settled found alive pos
  obtain rfl := Except.ok.inj (ok.symm.trans pruned)
  have inside : id < ps.length := (List.getElem?_eq_some_iff.mp found).1
  have edited := edited_modify older ps position (before ++ ⟨.call call, program.step⟩ :: after)
  have cut := dropDescendants_cut settled inside edited
  generalize dropDescendants _ _ = ps' at cut
  have fresh : program.pruned = false := by
    by_contra isPruned
    have := balanced.pruned id program found (by simpa using isPruned)
    rw [alive] at this
    cases this
  refine ⟨?_, ?_, ?_⟩
  · intro c p' found' isPruned
    obtain ⟨p, d, found₀, rfl⟩ := cut.look found'
    rw [← isDropped_iff found']
    by_cases here : id = c
    · rw [← here]
      exact cut.gone
    · apply cut.mono
      refine ⟨p, found₀, balanced.pruned c p found₀ ?_⟩
      unfold pruneEdit at isPruned
      rw [if_neg here] at isPruned
      split at isPruned <;> exact isPruned
  · intro c p' found' later alive' call'
    obtain ⟨p, d, found₀, rfl⟩ := cut.look found'
    have core : ((pruneEdit id q position (before ++ ⟨.call call, program.step⟩ :: after) c p).mark d).core = p.core :=
      pruneEdit_core _ _ _ _ _ _
    have step : ((pruneEdit id q position (before ++ ⟨.call call, program.step⟩ :: after) c p).mark d).core.step =
        p.core.step := congrArg ProgramState.step core
    rw [nativeBill_of_core core, balanced.native c p found₀ later (cut.before found₀ found' alive').1 call']
    exact congrArg (fun s => Op.bill logs ⟨.call call', s⟩) step.symm
  · intro c p' ops found' isOps
    obtain ⟨p, d, found₀, rfl⟩ := cut.look found'
    have core : ((pruneEdit id q position (before ++ ⟨.call call, program.step⟩ :: after) c p).mark d).core = p.core :=
      pruneEdit_core _ _ _ _ _ _
    rw [directBill_of_core core, cut.turned found fresh hasParent c]
    unfold pruneEdit at isOps
    by_cases isId : id = c
    · rw [if_pos isId] at isOps
      rw [if_neg (by omega), add_zero]
      exact balanced.ops c p ops found₀ isOps
    · rw [if_neg isId] at isOps
      by_cases isParent : q = c
      · subst isParent
        obtain rfl := Option.some.inj (foundQ.symm.trans found₀)
        rw [if_pos rfl] at isOps ⊢
        obtain rfl : before ++ ⟨.call call, program.step⟩ :: after = ops := Option.some.inj isOps
        have was := balanced.ops q parent _ foundQ updates
        have nested : Op.bill logs program.node.op = 0 := rfl
        have split : ∀ op : Op, billOf logs (before ++ op :: after) =
            billOf logs before + billOf logs after + op.bill logs := by
          intro op
          rw [← List.singleton_append, billOf_append, billOf_append, billOf_singleton, add_comm (op.bill logs),
            add_assoc]
        rw [split, nested, add_zero] at was
        rw [split, was, ← balanced.native id program found pos alive call, add_assoc]
      · rw [if_neg isParent] at isOps ⊢
        rw [add_zero]
        exact balanced.ops c p ops found₀ isOps

theorem Balanced.prunings (balanced : Balanced logs ps) (prunings : Prunings ps ps') : Balanced logs ps' := by
  induction prunings with
  | refl => exact balanced
  | prune _ settled found alive pos pruned ih => exact ih.prune settled found alive pos pruned

/-! ### The totals -/

/-- The gas totals of a split. -/
def totals (ps : List ProgramState) : Bill :=
  (nativeCallGas ps (fun p => (p.directCallGas, p.nativeGas)),
    nativeCallGas ps (fun p => (p.directCalleeGas, p.nativeCalleeGas)),
    nativeCallGas ps (fun p => (p.directCreateGas, 0)))

def alive (ps : List ProgramState) (id : Nat) : Bool := ps[id]?.any (fun p => !p.dropped)

/-- The figures a program is counted for. -/
def countedFor (ps : List ProgramState) (p : ProgramState) : Bill :=
  if !p.dropped then p.directBill
  else if p.pruned && (p.parent.bind (fun i => ps[i]?)).any (fun parent => !parent.dropped) then p.nativeBill
  else 0

theorem sum_bills {α : Type} (f : α → Bill) (xs : List α) :
    (xs.map f).sum = ((xs.map fun x => (f x).1).sum, (xs.map fun x => (f x).2.1).sum,
      (xs.map fun x => (f x).2.2).sum) := by
  induction xs with
  | nil => rfl
  | cons x xs ih =>
    rw [List.map_cons, List.sum_cons, ih]
    rfl

theorem totals_eq (ps : List ProgramState) : totals ps = (ps.map (countedFor ps)).sum := by
  rw [sum_bills]
  unfold totals nativeCallGas
  refine Prod.ext ?_ (Prod.ext ?_ ?_)
  all_goals
    refine congrArg List.sum (List.map_congr_left fun p _ => ?_)
    unfold countedFor
    split
    · rfl
    · split <;> rfl

/-- The ops of the returned programs. -/
def heldOps (ps : List ProgramState) : List Op := (keptPrograms ps).flatMap (fun p => p.updates.getD [])

theorem billOf_heldOps (logs : List StructLog) (ps : List ProgramState) :
    billOf logs (heldOps ps) = (ps.map (fun p => if p.dropped then 0 else billOf logs (p.updates.getD []))).sum := by
  unfold heldOps keptPrograms
  induction ps with
  | nil => rfl
  | cons p ps ih =>
    rw [List.map_cons, List.sum_cons, ← ih, List.filter_cons]
    cases p.dropped with
    | true => simp
    | false => simp

/-- The totals of balanced programs are what the ops they hold spend. -/
theorem Balanced.totals (balanced : Balanced logs ps) (done : DoneFrom 0 ps) :
    totals ps = billOf logs (heldOps ps) := by
  rw [totals_eq, billOf_heldOps, Sums.sum_map_eq_range, Sums.sum_map_eq_range]
  -- Program by program: its own figures, and those of the calls given back to it.
  have own : ∀ i ∈ range ps.length,
      (ps[i]?.map (fun p => if p.dropped then 0 else billOf logs (p.updates.getD []))).getD 0 =
        (if alive ps i then (ps[i]?.map ProgramState.directBill).getD 0 else 0) +
          if alive ps i then turned ps i else 0 := by
    intro i inside
    obtain ⟨p, found⟩ : ∃ p, ps[i]? = some p := ⟨_, List.getElem?_eq_getElem (Finset.mem_range.mp inside)⟩
    unfold alive
    rw [found]
    cases dropped : p.dropped with
    | true => simp [dropped]
    | false =>
      obtain ⟨ops, updates⟩ := Option.isSome_iff_exists.mp (done i p (Nat.zero_le i) found dropped)
      simp [dropped, updates, balanced.ops i p ops found updates]
  rw [Finset.sum_congr rfl own, Finset.sum_add_distrib]
  -- The calls given back, child by child.
  let passed := fun m : Nat => (ps[m]?.map (fun p => if p.pruned then p.nativeBill else 0)).getD 0
  have given : ∀ q, turned ps q =
      ∑ m ∈ range ps.length, if ps[m]?.bind ProgramState.parent = some q then passed m else 0 := by
    intro q
    refine Finset.sum_congr rfl fun m _ => ?_
    unfold turnedAt
    cases here : ps[m]? with
    | none => simp
    | some p =>
      show _ = if p.parent = some q then (ps[m]?.map (fun p => if p.pruned then p.nativeBill else 0)).getD 0 else 0
      rw [here]
      by_cases isParent : p.parent = some q <;> cases p.pruned <;> simp [isParent]
  simp only [given]
  rw [Sums.sum_by_parent ps.length (fun m => ps[m]?.bind ProgramState.parent) (alive ps) passed,
    ← Finset.sum_add_distrib]
  refine Finset.sum_congr rfl fun i inside => ?_
  obtain ⟨p, found⟩ : ∃ p, ps[i]? = some p := ⟨_, List.getElem?_eq_getElem (Finset.mem_range.mp inside)⟩
  have above : (p.parent.any fun q => decide (q < ps.length) && alive ps q) =
      (p.parent.bind (fun i => ps[i]?)).any (fun parent => !parent.dropped) := by
    cases p.parent with
    | none => rfl
    | some q =>
      show (decide (q < ps.length) && alive ps q) = ps[q]?.any (fun parent => !parent.dropped)
      unfold alive
      by_cases lt : q < ps.length
      · simp [lt]
      · rw [List.getElem?_eq_none (by omega)]
        simp
  show (ps[i]?.map (countedFor ps)).getD 0 = _ +
    if (ps[i]?.bind ProgramState.parent).any _ then (ps[i]?.map _).getD 0 else 0
  unfold alive at above ⊢
  rw [found]
  simp only [Option.bind_some, Option.map_some, Option.getD_some, Option.any_some]
  rw [above]
  unfold countedFor
  cases dropped : p.dropped with
  | false =>
    have fresh : p.pruned = false := by
      by_contra isPruned
      have := balanced.pruned i p found (by simpa using isPruned)
      rw [dropped] at this
      cases this
    simp [fresh]
  | true => cases p.pruned <;> simp

/-! ### The split -/

variable {H : Hashes} {trace : DefaultFrame} {root : Address} {elig : Eligibility} {cost : NestingCostModel}
variable {tree : FrameTreeExtract} {t : CallTree}

namespace SplitRun

/-- Every live program of a well-formed trace returned. -/
theorem finished (run : SplitRun H trace root elig cost tree) (wf : t.WellFormed 1) (flat : trace.structLogs = t.flatten)
    {id : Nat} {p : ProgramState} (found : run.closed.programs[id]? = some p) (alive : p.dropped = false) :
    p.updates.isSome = true := by
  obtain ⟨below, -, -, -, -, -, programs, -⟩ := closeRoot_ok run.closes
  rw [programs] at found
  obtain ⟨p₀, found₀, same⟩ := found_modify found
  split at same
  · rw [← same]
    rfl
  · rename_i nonroot
    subst same
    by_contra unfinished
    have none : p₀.updates = none := by simpa using unfinished
    have ran := (run.derivation wf flat).frames rfl
    have found₁ : run.last.outline.ledgers[id]? = some p₀.ledger := by
      show (run.last.programs.map ProgramState.ledger)[id]? = _
      rw [List.getElem?_map, found₀]
      rfl
    obtain ⟨-, running⟩ := run.sound.books.unfinished id p₀.ledger found₁ alive none
    rcases running with ⟨f, member, program⟩ | ⟨q, waits, -⟩
    · rw [show run.last.outline.below = [] by simp [Walk.outline, below]] at member
      rw [List.mem_singleton.mp member] at program
      exact nonroot (Option.some.inj (ran.top.program.symm.trans program))
    · exact absurd (waits.symm.trans ran.free) (Option.some_ne_none q)

/-- The programs of the closed walk are charged for their ops. -/
theorem accounted (run : SplitRun H trace root elig cost tree) (wf : t.WellFormed 1)
    (flat : trace.structLogs = t.flatten) {id : Nat} {p : ProgramState} (found : run.closed.programs[id]? = some p) :
    p.pruned = false ∧ (∀ ops, p.updates = some ops → p.directBill = billOf trace.structLogs ops) ∧
      (id ≠ 0 → ∀ ops, p.updates = some ops → ∀ c, p.nativeBill = Op.bill trace.structLogs ⟨.call c, p.step⟩) := by
  have here := CallTree.drop_flatten flat
  have all := (run.derivation wf flat).accounted wf here rfl (by
    intro q member
    rw [List.mem_singleton.mp member]
    exact .fresh rfl rfl)
  have of_last : ∀ {q : ProgramState}, run.last.programs[id]? = some q → Accounted trace.structLogs q.text :=
    fun inside => all _ (List.mem_map_of_mem (List.mem_of_getElem? inside))
  obtain ⟨below, -, q, -, -, top, programs, -⟩ := closeRoot_ok run.closes
  rw [programs] at found
  obtain ⟨p₀, found₀, same⟩ := found_modify found
  obtain ⟨unpruned, direct, native⟩ := of_last found₀
  split at same
  · rename_i isRoot
    obtain ⟨ops, billed⟩ := (run.derivation wf flat).billed wf here rfl
    have out : run.last.top.out = ops := billed.out
    have bill : run.last.top.bill = billOf trace.structLogs ops := billed.bill.trans (zero_add _)
    rw [← same]
    refine ⟨unpruned, ?_, fun nonroot => absurd isRoot.symm nonroot⟩
    intro ops' updates
    obtain rfl := Option.some.inj updates
    have sliced : run.closed.top = run.last.sliced trace.structLogs.length q.target := by
      rw [top, Walk.sliced, below]
    show run.closed.top.bill = _
    rw [sliced, Walk.sliced_out, billOf_append, (idle_slice trace.structLogs _ _ run.last).1, add_zero, out, ← bill]
    rfl
  · rw [← same]
    exact ⟨unpruned, direct, fun _ => native⟩

theorem balanced (run : SplitRun H trace root elig cost tree) (wf : t.WellFormed 1)
    (flat : trace.structLogs = t.flatten) : Balanced trace.structLogs run.programs := by
  have settled := run.isClosed.settle
  refine Balanced.prunings ?_ (pruneUnprofitable_prunings settled run.settles)
  have look : ∀ {id : Nat} {p' : ProgramState},
      (retainChildren (dropDescendantsOfDropped run.closed.programs))[id]? = some p' → ∃ p,
        run.closed.programs[id]? = some p ∧ p'.core = p.core ∧ p'.updates = p.updates ∧ p'.pruned = false ∧
          (p'.dropped = false → p.dropped = false) := by
    intro id p' found'
    obtain ⟨p, found, core, updates, pruned, alive⟩ := retained_program found' run.older
    exact ⟨p, found, core, updates, pruned.trans (run.accounted wf flat found).1, alive⟩
  refine ⟨?_, ?_, ?_⟩
  · intro id p' found' isPruned
    obtain ⟨-, -, -, -, unpruned, -⟩ := look found'
    rw [isPruned] at unpruned
    cases unpruned
  · intro id p' found' pos alive c
    obtain ⟨p, found, core, -, -, spared⟩ := look found'
    obtain ⟨ops, updates⟩ := Option.isSome_iff_exists.mp (run.finished wf flat found (spared alive))
    have step : p'.core.step = p.core.step := congrArg ProgramState.step core
    rw [nativeBill_of_core core, (run.accounted wf flat found).2.2 (by omega) ops updates c]
    exact congrArg (fun s => Op.bill trace.structLogs ⟨.call c, s⟩) step.symm
  · intro id p' ops found' updates'
    obtain ⟨p, found, core, updates, -, -⟩ := look found'
    rw [directBill_of_core core, ← (run.accounted wf flat found).2.1 ops (updates.symm.trans updates')]
    have none : turned (retainChildren (dropDescendantsOfDropped run.closed.programs)) id = 0 := by
      refine Finset.sum_eq_zero fun m _ => ?_
      unfold turnedAt
      cases here : (retainChildren (dropDescendantsOfDropped run.closed.programs))[m]? with
      | none => rfl
      | some q' =>
        obtain ⟨-, -, -, -, unpruned, -⟩ := look here
        simp [unpruned]
    rw [none, add_zero]

/-- The totals are what the ops of the returned programs spend. -/
theorem totals (run : SplitRun H trace root elig cost tree) (wf : t.WellFormed 1)
    (flat : trace.structLogs = t.flatten) :
    (tree.callGasTotal, tree.calleeGasTotal, tree.createGasTotal) =
      billOf trace.structLogs (heldOps run.programs) := by
  rw [← (run.balanced wf flat).totals run.final.done, run.callGas, run.calleeGas, run.createGas]
  rfl

end SplitRun

end GasAnalyzer
