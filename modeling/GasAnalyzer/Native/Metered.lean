import Mathlib
import GasAnalyzer.Native.Counted

/-!
# The totals and the gas of the trace

The totals are sums of machine words: what the returned programs spend, every call and create counted once, modulo the
word size. Where gas is metered, what is counted stays below the gas the trace starts with and the totals are exact.
-/

namespace GasAnalyzer

/-! ### Calls and creates -/

def Op.isCreate (op : Op) : Bool :=
  match op.update with
  | .create _ _ | .create2 _ _ _ => true
  | _ => false

/-- The steps of the creates of a program. -/
def createsOf (ops : List Op) : List Nat := (ops.filter Op.isCreate).map Op.step

@[simp] theorem createsOf_append (xs ys : List Op) : createsOf (xs ++ ys) = createsOf xs ++ createsOf ys := by
  simp [createsOf]

theorem billOf_eq (logs : List StructLog) (ops : List Op) :
    billOf logs ops = (((callsOf ops).map (nativeGasAt logs)).sum, ((callsOf ops).map (calleeGasAt logs)).sum,
      ((createsOf ops).map (nativeGasAt logs)).sum) := by
  induction ops with
  | nil => rfl
  | cons op ops ih =>
    have first : op.bill logs = (((callsOf [op]).map (nativeGasAt logs)).sum,
        ((callsOf [op]).map (calleeGasAt logs)).sum, ((createsOf [op]).map (nativeGasAt logs)).sum) := by
      obtain ⟨update, step⟩ := op
      cases update with
      | call =>
        refine Prod.ext ?_ (Prod.ext ?_ rfl)
        · exact List.sum_singleton.symm
        · exact List.sum_singleton.symm
      | create | create2 => exact Prod.ext rfl (Prod.ext rfl List.sum_singleton.symm)
      | _ => rfl
    rw [← List.singleton_append, billOf_append, billOf_singleton, ih, first, callsOf_append, createsOf_append]
    simp only [List.map_append, List.sum_append, Prod.mk_add_mk]

/-- The ops that stand for calls and creates are `CALL`s, creates and `NESTED` ops. -/
theorem spendsOf_perm (ops : List Op) : (spendsOf ops).Perm (callsOf ops ++ createsOf ops ++ nestsOf ops) := by
  induction ops with
  | nil => exact List.Perm.nil
  | cons op ops ih =>
    rw [← List.singleton_append, spendsOf_append, callsOf_append, createsOf_append, nestsOf_append]
    obtain ⟨update, step⟩ := op
    cases update with
    | call => exact ih.cons step
    | create | create2 => exact (ih.cons step).trans (List.perm_middle.symm.append_right _)
    | nested => exact (ih.cons step).trans List.perm_middle.symm
    | _ => exact ih

/-- The steps of the calls and creates that the totals count. -/
def FrameTreeExtract.counted (tree : FrameTreeExtract) : List Nat :=
  callsOf tree.replayed ++ createsOf tree.replayed

/-- The gas of some steps, as a number. -/
def gasSpent (gasAt : Nat → UInt64) (steps : List Nat) : Nat := (steps.map (fun i => (gasAt i).toNat)).sum

theorem toNat_sum_gas (gasAt : Nat → UInt64) (steps : List Nat) :
    (steps.map gasAt).sum.toNat = gasSpent gasAt steps % 2 ^ 64 := by
  rw [Sums.toNat_sum, List.map_map]
  rfl

/-- A callee spends no more than its call. -/
theorem calleeGasAt_le (logs : List StructLog) (i : Nat) :
    (calleeGasAt logs i).toNat ≤ (nativeGasAt logs i).toNat := by
  unfold calleeGasAt
  split
  · unfold calleeGas
    split
    · exact Nat.zero_le _
    · rw [toNat_satSub]
      exact Nat.sub_le _ _
  · exact Nat.zero_le _

theorem gasSpent_mono {f g : Nat → UInt64} (le : ∀ i, (f i).toNat ≤ (g i).toNat) (steps : List Nat) :
    gasSpent f steps ≤ gasSpent g steps := by
  unfold gasSpent
  exact List.sum_le_sum fun i _ => le i

/-! ### Counted once -/

namespace CallTree

/-- A step of a closure stands at its position in the trace. -/
theorem closure_at {keep : CallTree → Bool} {logs tail : List StructLog} {n i : Nat} {t : CallTree} {log : StructLog}
    (here : logs.drop n = t.flatten ++ tail) (member : (i, log) ∈ t.closure keep n) : logs[i]? = some log := by
  induction t generalizing n tail with
  | done => cases member
  | step first rest ih =>
    rcases List.mem_cons.mp member with same | member
    · obtain ⟨rfl, rfl⟩ := Prod.mk.inj same
      exact at_head here rfl
    · exact ih (drop_step here) member
  | enter call body rest ihBody ihRest =>
    rcases List.mem_cons.mp member with same | member
    · obtain ⟨rfl, rfl⟩ := Prod.mk.inj same
      exact at_head here rfl
    · rcases List.mem_append.mp member with inside | after
      · split at inside
        · exact ihBody (drop_body here) inside
        · cases inside
      · exact ihRest (drop_rest here) after

end CallTree

/-- The totals count every call and create once: none in a frame that failed, none in one they count, and none that a
`NESTED` op stands for. -/
structure CountedOnce (t : CallTree) (tree : FrameTreeExtract) : Prop where
  once : tree.counted.Nodup
  unnested : ∀ i ∈ nestsOf tree.replayed, i ∉ tree.counted
  committed : ∀ i ∈ tree.counted, ∀ {j : Nat} {call : StructLog} {body rest : CallTree},
    CallTree.Opens 0 t j call body rest → j < i → i < j + 1 + body.size → rest.succeeds = true
  outermost : ∀ i ∈ tree.counted, ∀ {j : Nat} {call : StructLog} {body rest : CallTree},
    CallTree.Opens 0 t j call body rest → j < i → i < j + 1 + body.size → j ∉ tree.counted

variable {H : Hashes} {trace : DefaultFrame} {root : Address} {elig : Eligibility} {cost : NestingCostModel}
variable {tree : FrameTreeExtract} {t : CallTree}

namespace SplitRun

theorem counted_perm (run : SplitRun H trace root elig cost tree) :
    (spendsOf (heldOps run.programs)).Perm (tree.counted ++ nestsOf tree.replayed) := by
  rw [FrameTreeExtract.counted, run.replayed]
  exact spendsOf_perm _

theorem counted_spends (run : SplitRun H trace root elig cost tree) {i : Nat} (member : i ∈ tree.counted) :
    i ∈ spendsOf (heldOps run.programs) :=
  run.counted_perm.symm.subset (List.mem_append_left _ member)

/-- A step that a live program replays is an un-errored call or create. -/
theorem replayed_log (run : SplitRun H trace root elig cost tree) (wf : t.WellFormed 1)
    (flat : trace.structLogs = t.flatten) {i : Nat} (member : i ∈ spendsOf (heldOps run.programs)) :
    ∃ log, trace.structLogs[i]? = some log ∧ log.spends = true := by
  have whole := CallTree.drop_flatten flat
  obtain ⟨op, inside, rfl⟩ := List.mem_map.mp member
  obtain ⟨held, spends⟩ := List.mem_filter.mp inside
  obtain ⟨id, p, ops, found, -, updates, inOps⟩ := mem_heldOps.mp held
  obtain ⟨n, body, scope, within⟩ := run.spends wf flat found updates
  have step : op.step ∈ spendsOf ops := List.mem_map_of_mem (List.mem_filter.mpr ⟨inOps, spends⟩)
  obtain ⟨log, closed, isSpend⟩ := CallTree.mem_spendSteps.mp (within.subset step)
  refine ⟨log, ?_, isSpend⟩
  unfold Scoped at scope
  split at scope
  · obtain ⟨rfl, rfl⟩ := scope
    exact CallTree.closure_at whole closed
  · obtain ⟨call, rest, opens, -, -, rfl⟩ := scope
    obtain ⟨tail, suffix⟩ := opens.suffix whole
    exact CallTree.closure_at (CallTree.drop_body suffix) closed

theorem counted_once (run : SplitRun H trace root elig cost tree) (wf : t.WellFormed 1)
    (flat : trace.structLogs = t.flatten) : CountedOnce t tree := by
  have distinct := run.counted_perm.nodup_iff.mp (run.spends_once wf flat)
  obtain ⟨once, -, apart⟩ := List.nodup_append.mp distinct
  have unnested : ∀ i ∈ nestsOf tree.replayed, i ∉ tree.counted :=
    fun i nested counted => apart i counted i nested rfl
  have around : ∀ i ∈ tree.counted, ∀ {j : Nat} {call : StructLog} {body rest : CallTree},
      CallTree.Opens 0 t j call body rest → j < i → i < j + 1 + body.size → rest.succeeds = true ∧
        (call.op.isDelegate = true ∨ j ∈ nestsOf tree.replayed) := by
    intro i member j call body rest opens low high
    obtain ⟨op, inside, rfl⟩ := List.mem_map.mp (run.counted_spends member)
    obtain ⟨held, spends⟩ := List.mem_filter.mp inside
    obtain ⟨id, p, ops, found, alive, updates, inOps⟩ := mem_heldOps.mp held
    have step : op.step ∈ spendsOf ops := List.mem_map_of_mem (List.mem_filter.mpr ⟨inOps, spends⟩)
    rw [run.replayed]
    exact run.surrounded wf flat id found alive updates op.step step opens low high
  refine ⟨once, unnested, ?_, ?_⟩
  · intro i member j call body rest opens low high
    exact (around i member opens low high).1
  · intro i member j call body rest opens low high counted
    rcases (around i member opens low high).2 with delegates | nested
    · -- A delegate call is neither a `CALL` nor a create.
      obtain ⟨tail, suffix⟩ := opens.suffix (CallTree.drop_flatten flat)
      have here := CallTree.at_head suffix rfl
      obtain ⟨log, found, spends⟩ := run.replayed_log wf flat (run.counted_spends counted)
      obtain rfl := Option.some.inj (here.symm.trans found)
      rw [(StructLog.opens_of_spends spends).2.2] at delegates
      cases delegates
    · exact unnested j nested counted

end SplitRun

/-! ### Metered gas -/

namespace CallTree

/-- The gas a frame is left with, if it starts with `gas`. -/
def endGas : CallTree → UInt64 → UInt64
  | done, gas => gas
  | step log rest, _ => rest.endGas log.gas
  | enter call _ rest, _ => rest.endGas call.gas

/-- Gas never rises along a frame, and what a frame spends its caller is charged. -/
def Metered : CallTree → UInt64 → Prop
  | done, _ => True
  | step log rest, gas => log.gas ≤ gas ∧ rest.Metered log.gas
  | enter call body rest, gas =>
    call.gas ≤ gas ∧
      (∀ first next, body.head? = some first → rest.head? = some next → body.Metered first.gas ∧
        first.gas.toNat + next.gas.toNat ≤ call.gas.toNat + (body.endGas first.gas).toNat) ∧
      rest.Metered call.gas

theorem Metered.resumes {t : CallTree} {gas : UInt64} {next : StructLog} (metered : t.Metered gas)
    (head : t.head? = some next) : t.Metered next.gas ∧ next.gas ≤ gas := by
  cases t with
  | done => cases head
  | step log rest =>
    obtain rfl := Option.some.inj head
    exact ⟨⟨UInt64.le_refl _, metered.2⟩, metered.1⟩
  | enter call body rest =>
    obtain rfl := Option.some.inj head
    exact ⟨⟨UInt64.le_refl _, metered.2⟩, metered.1⟩

theorem endGas_resumes {t : CallTree} {next : StructLog} (head : t.head? = some next) (gas : UInt64) :
    t.endGas gas = t.endGas next.gas := by
  cases t with
  | done => cases head
  | step log rest => rfl
  | enter call body rest => rfl

/-- The gas of the steps of `t` that are in `C`. -/
def gasIn (logs : List StructLog) (C : List Nat) (n : Nat) (t : CallTree) : Nat :=
  ∑ i ∈ Finset.Ico n (n + t.size), if i ∈ C then (nativeGasAt logs i).toNat else 0

/-- `C` holds calls and creates of a tree, none of them in a frame that another one opens. -/
structure Outermost (logs : List StructLog) (C : List Nat) (n : Nat) (t : CallTree) : Prop where
  spends : ∀ i ∈ C, ∃ log, logs[i]? = some log ∧ log.spends = true
  outermost : ∀ i ∈ C, ∀ {j : Nat} {call : StructLog} {body rest : CallTree}, Opens n t j call body rest → j < i →
    i < j + 1 + body.size → j ∉ C

variable {logs tail : List StructLog} {C : List Nat} {n d : Nat} {log call first next : StructLog} {body rest : CallTree}

theorem gasIn_step : gasIn logs C n (step log rest) =
    (if n ∈ C then (nativeGasAt logs n).toNat else 0) + gasIn logs C (n + 1) rest := by
  have bound : n + (step log rest).size = n + 1 + rest.size := by
    simp only [size]
    omega
  unfold gasIn
  rw [bound, Finset.sum_eq_sum_Ico_succ_bot (by omega)]

theorem gasIn_enter : gasIn logs C n (enter call body rest) =
    (if n ∈ C then (nativeGasAt logs n).toNat else 0) + gasIn logs C (n + 1) body +
      gasIn logs C (n + 1 + body.size) rest := by
  have bound : n + (enter call body rest).size = n + 1 + body.size + rest.size := by
    simp only [size]
    omega
  unfold gasIn
  rw [bound, Finset.sum_eq_sum_Ico_succ_bot (by omega),
    ← Finset.sum_Ico_consecutive _ (Nat.le_add_right (n + 1) body.size) (Nat.le_add_right _ rest.size)]
  exact (Nat.add_assoc _ _ _).symm

/-- What the calls and creates of a frame spend, it no longer has when it ends. -/
theorem gasIn_le {t : CallTree} (here : logs.drop n = t.flatten ++ tail) (wf : t.WellFormed d)
    (counted : Outermost logs C n t) {gas : UInt64} (metered : t.Metered gas) :
    gasIn logs C n t + (t.endGas gas).toNat ≤ gas.toNat := by
  induction t generalizing n d tail gas with
  | done => simp [gasIn, size, endGas]
  | step log rest ih =>
    have later := drop_step here
    have after : Outermost logs C (n + 1) rest :=
      ⟨counted.spends, fun i member _ _ _ _ opens => counted.outermost i member opens.later⟩
    have found := at_head here rfl
    have least := UInt64.le_iff_toNat_le.mp metered.1
    rw [gasIn_step]
    show _ + (rest.endGas log.gas).toNat ≤ _
    cases head : rest.head? with
    | none =>
      have bound := ih later wf.2.2 after metered.2
      have uncounted : n ∉ C := by
        intro member
        obtain ⟨log', found', spends⟩ := counted.spends n member
        obtain rfl := Option.some.inj (found.symm.trans found')
        obtain ⟨fine, opens, -⟩ := StructLog.opens_of_spends spends
        have outcome := wf.2.1 fine opens
        unfold CallTree.outcome at outcome
        rw [head] at outcome
        cases outcome
      rw [if_neg uncounted]
      omega
    | some next =>
      obtain ⟨metered', drops⟩ := metered.2.resumes head
      have bound := ih later wf.2.2 after metered'
      have drops := UInt64.le_iff_toNat_le.mp drops
      have own : (if n ∈ C then (nativeGasAt logs n).toNat else 0) ≤ log.gas.toNat - next.gas.toNat := by
        split
        · rename_i member
          obtain ⟨log', found', spends⟩ := counted.spends n member
          obtain rfl := Option.some.inj (found.symm.trans found')
          obtain ⟨fine, opens, -⟩ := StructLog.opens_of_spends spends
          rw [(resumed_step here wf fine opens head).1, toNat_satSub]
        · exact Nat.zero_le _
      rw [endGas_resumes head]
      omega
  | enter call body rest ihBody ihRest =>
    obtain ⟨-, -, -, starts, innerWf, resumes, restWf⟩ := id wf
    obtain ⟨first, bodyHead⟩ := Option.isSome_iff_exists.mp starts
    obtain ⟨next, -, head, -⟩ := head?_of_outcome resumes
    obtain ⟨least, charged, beyond⟩ := metered
    obtain ⟨inner, spent⟩ := charged first next bodyHead head
    obtain ⟨beyond, drops⟩ := beyond.resumes head
    have least := UInt64.le_iff_toNat_le.mp least
    have drops := UInt64.le_iff_toNat_le.mp drops
    have during := ihBody (drop_body here) innerWf
      ⟨counted.spends, fun i member _ _ _ _ opens => counted.outermost i member opens.inside⟩ inner
    have leaving := ihRest (drop_rest here) restWf
      ⟨counted.spends, fun i member _ _ _ _ opens => counted.outermost i member opens.after⟩ beyond
    rw [gasIn_enter]
    show _ + (rest.endGas call.gas).toNat ≤ _
    rw [endGas_resumes head]
    by_cases member : n ∈ C
    · -- A call that is counted is counted whole.
      have none : gasIn logs C (n + 1) body = 0 := by
        refine Finset.sum_eq_zero fun i inside => ?_
        obtain ⟨low, high⟩ := Finset.mem_Ico.mp inside
        rw [if_neg]
        intro inC
        exact counted.outermost i inC .here (by omega) (by omega) member
      rw [if_pos member, (resumed_enter here wf bodyHead head).1, toNat_satSub, none]
      omega
    · rw [if_neg member]
      omega

end CallTree

/-! ### Exact totals -/

/-- The totals are the gas of the calls and creates counted, and callees spend no more than their calls. -/
structure TotalsExact (logs : List StructLog) (tree : FrameTreeExtract) : Prop where
  calls : tree.callGasTotal.toNat = gasSpent (nativeGasAt logs) (callsOf tree.replayed)
  callees : tree.calleeGasTotal.toNat = gasSpent (calleeGasAt logs) (callsOf tree.replayed)
  creates : tree.createGasTotal.toNat = gasSpent (nativeGasAt logs) (createsOf tree.replayed)
  callee_le : tree.calleeGasTotal ≤ tree.callGasTotal

namespace SplitRun

theorem totals_mod (run : SplitRun H trace root elig cost tree) (wf : t.WellFormed 1)
    (flat : trace.structLogs = t.flatten) :
    tree.callGasTotal.toNat = gasSpent (nativeGasAt trace.structLogs) (callsOf tree.replayed) % 2 ^ 64 ∧
      tree.calleeGasTotal.toNat = gasSpent (calleeGasAt trace.structLogs) (callsOf tree.replayed) % 2 ^ 64 ∧
      tree.createGasTotal.toNat = gasSpent (nativeGasAt trace.structLogs) (createsOf tree.replayed) % 2 ^ 64 := by
  have totals := run.totals wf flat
  rw [billOf_eq, ← run.replayed] at totals
  obtain ⟨calls, totals⟩ := Prod.mk.inj totals
  obtain ⟨callees, creates⟩ := Prod.mk.inj totals
  rw [calls, callees, creates]
  exact ⟨toNat_sum_gas _ _, toNat_sum_gas _ _, toNat_sum_gas _ _⟩

theorem exact_iff (run : SplitRun H trace root elig cost tree) (wf : t.WellFormed 1)
    (flat : trace.structLogs = t.flatten) :
    TotalsExact trace.structLogs tree ↔
      gasSpent (nativeGasAt trace.structLogs) (callsOf tree.replayed) < 2 ^ 64 ∧
        gasSpent (nativeGasAt trace.structLogs) (createsOf tree.replayed) < 2 ^ 64 := by
  obtain ⟨calls, callees, creates⟩ := run.totals_mod wf flat
  have le := gasSpent_mono (calleeGasAt_le trace.structLogs) (callsOf tree.replayed)
  constructor
  · intro totals
    have := totals.calls
    have := totals.creates
    omega
  · intro bounds
    refine ⟨by omega, by omega, by omega, ?_⟩
    rw [UInt64.le_iff_toNat_le]
    omega

/-- The calls and creates counted spend no more than the trace starts with. -/
theorem counted_le (run : SplitRun H trace root elig cost tree) (wf : t.WellFormed 1)
    (flat : trace.structLogs = t.flatten) {gas : UInt64} (metered : t.Metered gas) :
    gasSpent (nativeGasAt trace.structLogs) tree.counted ≤ gas.toNat := by
  have whole := CallTree.drop_flatten flat
  have counted := run.counted_once wf flat
  have spends : ∀ i ∈ tree.counted, ∃ log, trace.structLogs[i]? = some log ∧ log.spends = true :=
    fun i member => run.replayed_log wf flat (run.counted_spends member)
  have inside : ∀ i ∈ tree.counted, 0 ≤ i ∧ i < 0 + t.size := by
    intro i member
    obtain ⟨log, found, -⟩ := spends i member
    have := (List.getElem?_eq_some_iff.mp found).1
    rw [flat, CallTree.length_flatten] at this
    omega
  have bound := CallTree.gasIn_le whole wf ⟨spends, counted.outermost⟩ metered
  unfold gasSpent
  rw [Sums.sum_map_eq_Ico counted.once inside]
  exact (Nat.le_add_right _ _).trans bound

end SplitRun

/-- The totals count each call and create of the returned programs once. They are sums of machine words, exact as long as
the sums fit, as they do where gas is metered. -/
theorem gas_totals_counted (H : Hashes) (trace : DefaultFrame) (root : Address) (elig : Eligibility)
    (cost : NestingCostModel) (tree : FrameTreeExtract) (t : CallTree) (wf : t.WellFormed 1)
    (flat : trace.structLogs = t.flatten) (answer : splitFrameTree H trace root elig cost = .ok tree) :
    (tree.callGasTotal.toNat = gasSpent (nativeGasAt trace.structLogs) (callsOf tree.replayed) % 2 ^ 64 ∧
      tree.calleeGasTotal.toNat = gasSpent (calleeGasAt trace.structLogs) (callsOf tree.replayed) % 2 ^ 64 ∧
      tree.createGasTotal.toNat = gasSpent (nativeGasAt trace.structLogs) (createsOf tree.replayed) % 2 ^ 64) ∧
    CountedOnce t tree ∧
    (TotalsExact trace.structLogs tree ↔
      gasSpent (nativeGasAt trace.structLogs) (callsOf tree.replayed) < 2 ^ 64 ∧
        gasSpent (nativeGasAt trace.structLogs) (createsOf tree.replayed) < 2 ^ 64) ∧
    ∀ gas, t.Metered gas → TotalsExact trace.structLogs tree := by
  obtain ⟨run⟩ := splitFrameTree_run answer
  refine ⟨run.totals_mod wf flat, run.counted_once wf flat, run.exact_iff wf flat, ?_⟩
  intro gas metered
  have bound := run.counted_le wf flat metered
  have start := gas.toNat_lt
  have split : gasSpent (nativeGasAt trace.structLogs) tree.counted =
      gasSpent (nativeGasAt trace.structLogs) (callsOf tree.replayed) +
        gasSpent (nativeGasAt trace.structLogs) (createsOf tree.replayed) := by
    unfold gasSpent FrameTreeExtract.counted
    rw [List.map_append, List.sum_append]
  exact (run.exact_iff wf flat).mpr ⟨by omega, by omega⟩

/-- A root that calls a consumer whose own call is most of what it does. -/
def cheapCallee : CallTree :=
  .enter { op := .call, gas := 1000000, gasCost := 985000, stack := some [0, 0, 0, 0, 0, 7, 0] }
    (.step { op := .sstore, gas := 980000, depth := 2, stack := some [1, stateTrackerSlot] }
      (.enter { op := .call, gas := 970000, depth := 2, stack := some [0, 0, 0, 0, 0, 8, 0] }
        (.step { op := .other "STOP", gas := 950000, depth := 3, stack := some [] } .done)
        (.step { op := .other "STOP", gas := 965000, depth := 2, stack := some [1] } .done)))
    (.step { op := .other "STOP", gas := 960000, stack := some [1] } .done)

def cheapCalleeTrace : DefaultFrame where
  structLogs := cheapCallee.flatten
  bounded := by simp [cheapCallee, CallTree.flatten]

theorem cheapCallee_wellFormed : cheapCallee.WellFormed 1 := by
  refine ⟨⟨rfl, rfl, rfl⟩, rfl, rfl, rfl, ?_, rfl, ⟨rfl, rfl, rfl⟩, nofun, trivial⟩
  refine ⟨⟨rfl, rfl, rfl⟩, nofun, ⟨rfl, rfl, rfl⟩, rfl, rfl, rfl, ?_, rfl, ⟨rfl, rfl, rfl⟩, nofun, trivial⟩
  exact ⟨⟨rfl, rfl, rfl⟩, nofun, trivial⟩

theorem cheapCallee_metered : cheapCallee.Metered 1000000 := by
  refine ⟨by decide, ?_, by decide, trivial⟩
  intro first next starts resumes
  obtain rfl := Option.some.inj starts
  obtain rfl := Option.some.inj resumes
  refine ⟨⟨by decide, by decide, ?_, by decide, trivial⟩, by decide⟩
  intro first next starts resumes
  obtain rfl := Option.some.inj starts
  obtain rfl := Option.some.inj resumes
  exact ⟨⟨by decide, trivial⟩, by decide⟩

/-- The callee's frame is pruned, and its inner call is not counted beside it. -/
theorem gas_totals_cheapCallee : ∃ tree, splitFrameTree ⟨fun _ => 0, fun _ => 0⟩ cheapCalleeTrace 9
    (.consumers fun _ => true) nestingCostModelV1 = .ok tree ∧ tree.counted = [0] ∧ tree.callGasTotal = 40000 ∧
      CountedOnce cheapCallee tree ∧ TotalsExact cheapCalleeTrace.structLogs tree := by
  have shape : (splitFrameTree ⟨fun _ => 0, fun _ => 0⟩ cheapCalleeTrace 9 (.consumers fun _ => true)
      nestingCostModelV1).toOption.any (fun tree => tree.counted == [0] && tree.callGasTotal == 40000) = true := by
    decide +kernel
  obtain ⟨tree, answer, shape⟩ := Outcome.any_ok shape
  obtain ⟨counted, total⟩ := Bool.and_eq_true_iff.mp shape
  obtain ⟨-, once, -, metered⟩ := gas_totals_counted ⟨fun _ => 0, fun _ => 0⟩ cheapCalleeTrace 9
    (.consumers fun _ => true) nestingCostModelV1 tree cheapCallee cheapCallee_wellFormed rfl answer
  exact ⟨tree, answer, by simpa using counted, by simpa using total, once, metered _ cheapCallee_metered⟩

/-- Two calls that take `2 ^ 63` gas each. -/
def costlyCalls : CallTree :=
  .enter { op := .call, gas := 2 ^ 63, gasCost := 2 ^ 63 - 1, stack := some [0, 0, 0, 0, 0, 7, 0] }
    (.step { op := .other "STOP", depth := 2, stack := some [] } .done)
    (.step { op := .other "POP", stack := some [1] }
      (.enter { op := .call, gas := 2 ^ 63, gasCost := 2 ^ 63 - 1, stack := some [0, 0, 0, 0, 0, 7, 0] }
        (.step { op := .other "STOP", depth := 2, stack := some [] } .done)
        (.step { op := .other "STOP", stack := some [1] } .done)))

def costlyCallsTrace : DefaultFrame where
  structLogs := costlyCalls.flatten
  bounded := by simp [costlyCalls, CallTree.flatten]

theorem costlyCalls_wellFormed : costlyCalls.WellFormed 1 := by
  refine ⟨⟨rfl, rfl, rfl⟩, rfl, rfl, rfl, ⟨⟨rfl, rfl, rfl⟩, nofun, trivial⟩, rfl, ⟨rfl, rfl, rfl⟩, nofun, ?_⟩
  exact ⟨⟨rfl, rfl, rfl⟩, rfl, rfl, rfl, ⟨⟨rfl, rfl, rfl⟩, nofun, trivial⟩, rfl, ⟨rfl, rfl, rfl⟩, nofun, trivial⟩

/-- Their sum does not fit the total, which is then even less than what the callees spent. -/
theorem gas_totals_costlyCalls : ∃ tree, splitFrameTree ⟨fun _ => 0, fun _ => 0⟩ costlyCallsTrace 9
    (.consumers fun _ => false) nestingCostModelV1 = .ok tree ∧ costlyCalls.WellFormed 1 ∧
      costlyCallsTrace.structLogs = costlyCalls.flatten ∧
      gasSpent (nativeGasAt costlyCallsTrace.structLogs) (callsOf tree.replayed) = 2 ^ 64 ∧
      tree.callGasTotal = 0 ∧ tree.calleeGasTotal = 2 ∧ ¬TotalsExact costlyCallsTrace.structLogs tree := by
  have shape : (splitFrameTree ⟨fun _ => 0, fun _ => 0⟩ costlyCallsTrace 9 (.consumers fun _ => false)
      nestingCostModelV1).toOption.any (fun tree =>
        gasSpent (nativeGasAt costlyCallsTrace.structLogs) (callsOf tree.replayed) == 2 ^ 64 &&
          (tree.callGasTotal == 0 && tree.calleeGasTotal == 2)) = true := by
    decide +kernel
  obtain ⟨tree, answer, shape⟩ := Outcome.any_ok shape
  obtain ⟨spent, shape⟩ := Bool.and_eq_true_iff.mp shape
  obtain ⟨calls, callees⟩ := Bool.and_eq_true_iff.mp shape
  replace calls : tree.callGasTotal = 0 := by simpa using calls
  replace callees : tree.calleeGasTotal = 2 := by simpa using callees
  refine ⟨tree, answer, costlyCalls_wellFormed, rfl, by simpa using spent, calls, callees, ?_⟩
  intro totals
  have le := totals.callee_le
  rw [calls, callees] at le
  exact absurd le (by decide)

end GasAnalyzer
