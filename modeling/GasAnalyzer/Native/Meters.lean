import GasAnalyzer.Native.Metered
import GasAnalyzer.Native.Writes
import GasAnalyzer.Nested.Pricing

/-!
# What a program's computation leaves out

The walk meters, on each program, the gas of its effects and of the calls and creates it makes. Both meters stay on the
program when a `DELEGATECALL` or `CALLCODE` frame it emits from reverts, while what that frame emitted goes. They are
what the program reproduces exactly where such frames leave nothing on them.
-/

namespace GasAnalyzer

/-! ### Meters -/

/-- Gas of a program's effects, and of its calls and creates. -/
abbrev Meter := UInt64 × UInt64

def ProgramState.meter (p : ProgramState) : Meter := (p.effectGas, p.childCallGas)

/-- The step and target of program `i`, and what its meters show. -/
def Walk.meterAt (w : Walk) (i : Nat) : Option ((Nat × Address) × Meter) :=
  w.programs[i]?.map fun p => ((p.step, p.target), p.meter)

/-- Program `i` is charged `m`. -/
def Charged (i : Nat) (m : Meter) (w w' : Walk) : Prop := w'.meterAt i = (w.meterAt i).map fun x => (x.1, x.2 + m)

/-- The frame that emits into program `i` runs in the storage of its target. -/
def Walk.Owns (w : Walk) (i : Nat) : Prop :=
  ∀ step target meter, w.top.program = some i → w.meterAt i = some ((step, target), meter) →
    w.top.storageCtx = some target

section

variable {i : Nat} {m m' : Meter} {w w' w'' : Walk}

theorem Charged.nothing (same : w'.meterAt i = w.meterAt i) : Charged i 0 w w' := by
  unfold Charged
  rw [same]
  cases w.meterAt i with
  | none => rfl
  | some x => exact congrArg some (Prod.ext rfl (add_zero x.2).symm)

theorem Charged.trans (first : Charged i m w w') (second : Charged i m' w' w'') : Charged i (m + m') w w'' := by
  unfold Charged at *
  rw [second, first]
  cases w.meterAt i with
  | none => rfl
  | some x => exact congrArg some (Prod.ext rfl (add_assoc x.2 m m'))

theorem charged_modify {id : Nat} {f : ProgramState → ProgramState}
    (same : ∀ p, ((f p).step, (f p).target) = (p.step, p.target))
    (meter : ∀ p, w.programs[id]? = some p → (f p).meter = p.meter + m) :
    Charged i (if id = i then m else 0) w (modifyProgram id f w) := by
  by_cases here : id = i
  · subst here
    rw [if_pos rfl]
    unfold Charged Walk.meterAt modifyProgram
    rw [List.getElem?_modify_eq]
    cases found : w.programs[id]? with
    | none => rfl
    | some p => exact congrArg some (Prod.ext (same p) (meter p found))
  · rw [if_neg here]
    apply Charged.nothing
    unfold Walk.meterAt modifyProgram
    rw [List.getElem?_modify]
    simp [here]

theorem charged_chargeProgram (gas : UInt64) (w : Walk) :
    Charged i (if w.top.program = some i then (0, gas) else 0) w (chargeProgram gas w) := by
  unfold chargeProgram
  cases w.top.program with
  | none => exact .nothing rfl
  | some id =>
    simp only [Option.some.injEq]
    apply charged_modify
    · exact fun _ => rfl
    · intro p _
      exact Prod.ext (add_zero p.effectGas).symm rfl

theorem Charged.owns (charged : Charged i m w w') (owns : w.Owns i) (program : w'.top.program = w.top.program)
    (context : w'.top.storageCtx = w.top.storageCtx) : w'.Owns i := by
  intro step target meter emits shows
  rw [program] at emits
  rw [charged] at shows
  obtain ⟨⟨place, meter'⟩, before, same⟩ := Option.map_eq_some_iff.mp shows
  obtain ⟨rfl, -⟩ := Prod.mk.inj same
  exact context.trans (owns step target meter' emits before)

end

/-! ### Executing a step -/

/-- An un-errored storage write or log. -/
def StructLog.affects (log : StructLog) : Bool := !log.errored && (log.op == .sstore || log.op.isLog)

def StructLog.effectGas (log : StructLog) : UInt64 := if log.affects then log.gasCost else 0

variable {H : Hashes} {elig : Eligibility} {candidates : OrdMap Nat Candidate} {n i : Nat} {log next : StructLog}
variable {w w' : Walk}

theorem StructLog.effectGas_of_opens (opens : log.op.opensFrame = true) : log.effectGas = 0 := by
  have idle : log.affects = false := by
    cases op : log.op <;> simp_all [StructLog.affects, Opcode.opensFrame, Opcode.isLog]
  rw [effectGas, idle]
  rfl

theorem Executed.metered (executed : Executed H elig candidates n log w w') (inside : i < w.programs.length)
    (owns : w.Owns i) : Charged i (if w.top.program = some i then (log.effectGas, 0) else 0) w w' := by
  have idle : ∀ {v : Walk}, log.op.opensFrame = true → v.meterAt i = w.meterAt i →
      Charged i (if w.top.program = some i then (log.effectGas, 0) else 0) w v := by
    intro v opens same
    rw [StructLog.effectGas_of_opens opens, show ((0, 0) : Meter) = 0 from rfl, ite_self]
    exact .nothing same
  have shown : ∃ step target meter, w.meterAt i = some ((step, target), meter) :=
    ⟨_, _, _, by rw [Walk.meterAt, List.getElem?_eq_getElem inside]; rfl⟩
  cases executed with
  | quiet silent =>
    by_cases emits : w.top.program = some i
    · have none : log.affects = false := by
        rw [emits] at silent
        cases op : log.op <;> simp_all [StructLog.affects, StructLog.silent, Opcode.opensFrame, Opcode.isLog]
      rw [if_pos emits, StructLog.effectGas, none]
      exact .nothing rfl
    · rw [if_neg emits]
      exact .nothing rfl
  | unowned kind fine context =>
    have silent : w.top.program ≠ some i := by
      intro emits
      obtain ⟨step, target, meter, shows⟩ := shown
      rw [owns step target meter emits shows] at context
      cases context
    rw [if_neg silent]
    exact .nothing rfl
  | @stored ctx slot value kind fine context first second =>
    have affects : log.affects = true := by simp [StructLog.affects, kind, fine]
    rw [StructLog.effectGas, if_pos affects]
    unfold Walk.stored
    cases emits : w.top.program with
    | none => exact .nothing rfl
    | some id =>
      simp only [Option.some.injEq]
      by_cases here : id = i
      · subst here
        refine charged_modify (w := modifyTop (WalkFrame.write ctx slot value) w) ?_ ?_
        · intro p
          unfold ProgramState.chargeStore
          split <;> rfl
        · intro p found
          have own := owns p.step p.target p.meter emits (by
            show w.programs[id]?.map _ = _
            rw [show w.programs[id]? = some p from found]
            rfl)
          rw [context] at own
          unfold ProgramState.chargeStore
          rw [if_pos (Option.some.inj own).symm]
          exact Prod.ext rfl (add_zero p.childCallGas).symm
      · rw [if_neg here]
        apply Charged.nothing
        unfold Walk.meterAt modifyProgram modifyTop
        rw [List.getElem?_modify]
        simp [here]
  | @logged id update skipped kind fine emits decoded =>
    have affects : log.affects = true := by simp [StructLog.affects, kind, fine]
    rw [StructLog.effectGas, if_pos affects, emits]
    simp only [Option.some.injEq]
    refine charged_modify (w := modifyTop (fun f => { f with out := f.out ++ update.toList.map (Op.mk · n) }) w) ?_ ?_
    · exact fun _ => rfl
    · intro p _
      exact Prod.ext rfl (add_zero p.childCallGas).symm
  | delegated kind =>
    refine idle ?_ rfl
    cases op : log.op <;> simp_all [Opcode.isDelegate, Opcode.opensFrame]
  | creates kind =>
    refine idle ?_ rfl
    cases op : log.op <;> simp_all [Opcode.isCreate, Opcode.opensFrame]
  | deployed kind =>
    refine idle ?_ rfl
    cases op : log.op <;> simp_all [Opcode.isCreate, Opcode.opensFrame]
  | observed kind | called kind | emitted kind =>
    refine idle ?_ rfl
    rw [kind]
    rfl
  | @opened id p c index kind fine emits found decoded callee handed =>
    refine idle (by rw [kind]; rfl) ?_
    unfold Walk.meterAt openNested
    rw [List.getElem?_modify, List.getElem?_append_left inside]
    cases w.programs[i]? with
    | none => rfl
    | some p =>
      by_cases parent : id = i
      · simp [parent, ProgramState.meter]
      · simp [parent]

/-! ### Calls and creates -/

theorem charged_chargeCall (create : Bool) (gas callee : UInt64) (w : Walk) :
    Charged i (if w.top.program = some i then (0, gas) else 0) w (chargeCall create gas callee w) := by
  have program : (modifyTop (WalkFrame.charge create gas callee) w).top.program = w.top.program :=
    (Kept.charge create gas callee w.top).program
  unfold chargeCall
  rw [← program]
  exact charged_chargeProgram gas (modifyTop (WalkFrame.charge create gas callee) w)

/-- What a call or create of the trace owes its program: the callee of its own that failed leaves nothing. -/
def owedAt (logs : List StructLog) (handed : Nat → StructLog → Bool) (x : Nat × StructLog) : UInt64 :=
  if x.2.spends && !(x.2.isCall && handed x.1 x.2 && !((resumeOf logs x.1).bind StructLog.flag).any (· ≠ 0)) then
    nativeGasAt logs x.1
  else 0

/-- What a step charges its program. -/
def meterOf (logs : List StructLog) (handed : Nat → StructLog → Bool) (x : Nat × StructLog) : Meter :=
  (x.2.effectGas, owedAt logs handed x)

/-- The gas a frame owes its caller's program, `resume` being what the caller resumes with. -/
def WalkFrame.owes (f : WalkFrame) (success : Bool) (resume : UInt64) : UInt64 :=
  (f.emittedCallGas.map (satSub · resume)).getD 0 +
    if success then (f.nestedStartGas.map (satSub · resume)).getD 0 else 0

/-- Which frames owe their caller's program when they return: those of its calls and creates. -/
theorem Executed.owing (executed : Executed H elig candidates n log w w') (free : w.pending = none)
    {p : PendingFrame} (waits : w'.pending = some p) (emits : w.top.program ≠ none) :
    p.emittedCallGas = (if log.spends && !(log.isCall && handedTo elig candidates n log) then some log.gas else none) ∧
      p.nestedStartGas = if log.isCall && handedTo elig candidates n log then some log.gas else none := by
  cases executed with
  | quiet | unowned =>
    rw [free] at waits
    cases waits
  | stored =>
    rw [Walk.stored_pending, free] at waits
    cases waits
  | logged =>
    have waits : w.pending = some p := waits
    rw [free] at waits
    cases waits
  | delegated kind | observed kind =>
    obtain rfl := Option.some.inj waits
    cases op : log.op <;> simp_all [StructLog.spends, StructLog.isCall, Opcode.isDelegate, Opcode.isCreate]
  | called kind fine native => exact absurd native emits
  | creates kind fine native => exact absurd native emits
  | emitted kind fine emits found decoded callee stays =>
    obtain rfl := Option.some.inj waits
    simp [StructLog.spends, StructLog.isCall, handedTo, kind, fine, stays]
  | opened kind fine emits found decoded callee handed =>
    obtain rfl := Option.some.inj waits
    simp [StructLog.spends, StructLog.isCall, handedTo, kind, fine, handed]
  | deployed kind fine =>
    obtain rfl := Option.some.inj waits
    have other : (log.op == .call) = false := by
      cases op : log.op <;> simp_all [Opcode.isCreate]
    simp [StructLog.spends, StructLog.isCall, kind, fine, other]

theorem metered_inline {p : PendingFrame} (waits : w.pending = some p) (elsewhere : next.depth ≠ p.parentDepth + 1)
    (entered : enterPending next w = .ok w') :
    Charged i (if w.top.program = some i then (0, (p.emittedCallGas.map (satSub · next.gas)).getD 0) else 0) w w' := by
  unfold enterPending at entered
  rw [waits] at entered
  simp only [if_neg elsewhere] at entered
  split at entered
  · cases entered
  · split at entered
    · cases entered
    · split at entered
      · rename_i unpaid
        obtain rfl := Except.ok.inj entered
        rw [unpaid]
        exact (ite_self (0 : Meter)).symm ▸ .nothing rfl
      · rename_i gas paid
        obtain rfl := Except.ok.inj entered
        rw [paid]
        exact charged_chargeCall _ _ _ { w with pending := none }

theorem metered_chargeReturn (frame : WalkFrame) (w : Walk) :
    Charged i (if w.top.program = some i then (0, (frame.emittedCallGas.map (satSub · next.gas)).getD 0) else 0) w
      (chargeReturn next frame w) := by
  unfold chargeReturn
  cases frame.emittedCallGas with
  | none => exact (ite_self (0 : Meter)).symm ▸ .nothing rfl
  | some gas => exact charged_chargeCall _ _ _ w

theorem metered_closeNested {start : UInt64} {success : Bool} {frame : WalkFrame}
    (closed : closeNested start success next frame w = .ok w') :
    Charged i (if w.top.program = some i then (0, if success then satSub start next.gas else 0) else 0) w w' := by
  unfold closeNested at closed
  obtain ⟨id, -, closed⟩ := Outcome.bind_ok closed
  cases success with
  | true =>
    obtain rfl := Except.ok.inj closed
    have finished : Charged i (if id = i then 0 else 0) w
        (modifyProgram id (ProgramState.finish (satSub start next.gas) frame) w) :=
      charged_modify (fun _ => rfl) (fun p _ => (add_zero p.meter).symm)
    have charged := finished.trans (charged_chargeProgram (satSub start next.gas)
      (modifyProgram id (ProgramState.finish (satSub start next.gas) frame) w))
    rw [ite_self, zero_add] at charged
    exact charged
  | false =>
    rw [show (if (false : Bool) = true then satSub start next.gas else 0) = 0 from rfl]
    simp only [Bool.false_eq_true, if_false] at closed
    split at closed
    · obtain rfl := Except.ok.inj closed
      exact (ite_self (0 : Meter)).symm ▸ .nothing rfl
    · cases closed

theorem meterAt_dropOpened (first : Nat) (w : Walk) : (dropOpened first w).meterAt i = w.meterAt i := by
  have same : (dropFrom first w.programs).map (fun p => ((p.step, p.target), p.meter)) =
      w.programs.map (fun p => ((p.step, p.target), p.meter)) := by
    unfold dropFrom
    rw [List.map_append, List.map_map]
    conv_rhs => rw [← List.take_append_drop first w.programs, List.map_append]
    rfl
  have here := congrArg (·[i]?) same
  simp only [List.getElem?_map] at here
  exact here

theorem meterAt_closeFrame (success : Bool) (frame : WalkFrame) (w : Walk) :
    (closeFrame success frame w).meterAt i = w.meterAt i := by
  unfold closeFrame
  split
  · split <;> rfl
  · rfl

/-- A frame that returns charges its caller's program, whatever its outcome: a reverted frame takes nothing back. -/
theorem metered_popFrame {step : Nat} {g : WalkFrame} {rest : List WalkFrame} {flag : U256} (below : w.below = g :: rest)
    (flagged : next.flag = some flag) (popped : popFrame step next w = .ok w') :
    Charged i (if g.program = some i then (0, w.top.owes (decide (flag ≠ 0)) next.gas) else 0) w w' := by
  unfold popFrame at popped
  split at popped
  · cases popped
  · obtain ⟨stack, hasStack, popped⟩ := Outcome.bind_ok popped
    obtain ⟨flag', hasFlag, popped⟩ := Outcome.bind_ok popped
    obtain ⟨v, sliced, popped⟩ := Outcome.bind_ok popped
    rw [Outcome.okOr_ok] at hasStack hasFlag
    obtain rfl : flag' = flag := by
      simpa [StructLog.flag, hasStack, hasFlag] using flagged
    have slice : v.below = w.below ∧ v.programs = w.programs ∧ v.top.emittedCallGas = w.top.emittedCallGas ∧
        v.top.nestedStartGas = w.top.nestedStartGas := by
      unfold lastSlice at sliced
      split at sliced
      · obtain ⟨id, p, -, -, rfl⟩ := flushSlice_ok sliced
        exact ⟨rfl, rfl, rfl, rfl⟩
      · obtain rfl := Except.ok.inj sliced
        exact ⟨rfl, rfl, rfl, rfl⟩
    obtain ⟨same, programs, emitted, nested⟩ := slice
    rw [same, below] at popped
    dsimp only at popped
    unfold returnFrame at popped
    split at popped
    · cases popped
    · have kept : ∀ u : Walk, u.top = g → u.meterAt i = w.meterAt i →
          Charged i (if g.program = some i then (0, (v.top.emittedCallGas.map (satSub · next.gas)).getD 0) else 0) w
            (chargeReturn next v.top u) ∧ (chargeReturn next v.top u).top.program = g.program := by
        intro u top shows
        refine ⟨?_, ?_⟩
        · have charged := (Charged.nothing shows).trans (@metered_chargeReturn _ next v.top u)
          rw [zero_add, top] at charged
          exact charged
        · rw [← top]
          exact (chargeReturn_frames next v.top u).1.program
      have charged := kept (if decide (flag' ≠ 0) then v.leave g rest else
        dropOpened v.top.firstProgram (v.leave g rest)) (by split <;> rfl) (by
          split
          · exact congrArg (fun ps => ps[i]?.map _) programs
          · rw [meterAt_dropOpened]
            exact congrArg (fun ps => ps[i]?.map _) programs)
      generalize chargeReturn next v.top _ = u at charged popped
      obtain ⟨charged, program⟩ := charged
      rw [emitted] at charged
      unfold WalkFrame.owes
      split at popped
      · rename_i start isNested
        have closed := charged.trans (metered_closeNested (i := i) popped)
        rw [nested] at isNested
        rw [program] at closed
        rw [isNested]
        by_cases emits : g.program = some i
        · rw [if_pos emits, if_pos emits, Prod.mk_add_mk, zero_add] at closed
          rw [if_pos emits]
          exact closed
        · rw [if_neg emits, if_neg emits, zero_add] at closed
          rw [if_neg emits]
          exact closed
      · rename_i plain
        obtain rfl := Except.ok.inj popped
        rw [nested] at plain
        rw [plain, Option.map_none, Option.getD_none, ite_self, add_zero]
        have closed := charged.trans (Charged.nothing (meterAt_closeFrame (i := i) (decide (flag' ≠ 0)) v.top u))
        rw [add_zero] at closed
        exact closed

/-! ### Walking -/

theorem Charged.inside {m : Meter} (charged : Charged i m w w') (inside : i < w.programs.length) :
    i < w'.programs.length := by
  by_contra outside
  have gone : w'.meterAt i = none := by
    rw [Walk.meterAt, List.getElem?_eq_none (Nat.not_lt.mp outside)]
    rfl
  rw [charged, Walk.meterAt, List.getElem?_eq_getElem inside] at gone
  cases gone

/-- The frame a step opens emits into a program already there only if a `DELEGATECALL` or `CALLCODE` hands it on. -/
theorem Executed.emitting (executed : Executed H elig candidates n log w w') (free : w.pending = none)
    (inside : i < w.programs.length) {p : PendingFrame} (waits : w'.pending = some p) :
    p.program = some i ↔ w.top.program = some i ∧ log.op.isDelegate = true := by
  cases executed with
  | quiet | unowned =>
    rw [free] at waits
    cases waits
  | stored =>
    rw [Walk.stored_pending, free] at waits
    cases waits
  | logged =>
    change w.pending = some p at waits
    rw [free] at waits
    cases waits
  | delegated kind =>
    obtain rfl := Option.some.inj waits
    exact (and_iff_left kind).symm
  | observed kind | called kind | emitted kind =>
    obtain rfl := Option.some.inj waits
    simp [kind, Opcode.isDelegate]
  | opened kind =>
    obtain rfl := Option.some.inj waits
    simp only [kind, Opcode.isDelegate, Option.some.injEq, Bool.false_eq_true, and_false, iff_false]
    exact Nat.ne_of_gt inside
  | creates kind | deployed kind =>
    obtain rfl := Option.some.inj waits
    cases op : log.op <;> simp_all [Opcode.isCreate, Opcode.isDelegate]

variable {logs tail : List StructLog} {rest : CallTree}

theorem StructLog.spends_of_isCall (isCall : log.isCall = true) : log.spends = true := by
  obtain ⟨kind, fine⟩ := Bool.and_eq_true_iff.mp isCall
  unfold spends
  rw [fine, kind]
  rfl

/-- A call that opened no frame owes the gas it took. -/
theorem Executed.owes_inline (executed : Executed H elig candidates n log w w') (free : w.pending = none)
    (emits : w.top.program ≠ none) {p : PendingFrame} (waits : w'.pending = some p) (plain : p.nestedStartGas = none)
    (native : nativeGasAt logs n = satSub log.gas next.gas) :
    (p.emittedCallGas.map (satSub · next.gas)).getD 0 = owedAt logs (handedTo elig candidates) (n, log) := by
  have unhanded : (log.isCall && handedTo elig candidates n log) = false := by
    apply executed.handed emits
    intro q waits'
    obtain rfl := Option.some.inj (waits.symm.trans waits')
    exact plain
  rw [(executed.owing free waits emits).1, owedAt, unhanded, native]
  cases log.spends <;> rfl

/-- A frame owes its caller what its call took, unless it was the callee's own and failed. -/
theorem Executed.owes_enter (executed : Executed H elig candidates n log w w') (free : w.pending = none)
    (emits : w.top.program ≠ none) {p : PendingFrame} (waits : w'.pending = some p) {f : WalkFrame}
    (emitted : f.emittedCallGas = p.emittedCallGas) (nested : f.nestedStartGas = p.nestedStartGas)
    (native : nativeGasAt logs n = satSub log.gas next.gas) (resumes : resumeOf logs n = rest.head?) :
    f.owes rest.succeeds next.gas = owedAt logs (handedTo elig candidates) (n, log) := by
  obtain ⟨calls, own⟩ := executed.owing free waits emits
  have success : ((resumeOf logs n).bind StructLog.flag).any (· ≠ 0) = rest.succeeds := by
    rw [resumes]
    rfl
  unfold WalkFrame.owes owedAt
  rw [emitted, nested, calls, own, native, success]
  cases handed : log.isCall && handedTo elig candidates n log with
  | false => cases log.spends <;> simp
  | true =>
    rw [StructLog.spends_of_isCall (Bool.and_eq_true_iff.mp handed).1]
    cases rest.succeeds <;> simp

theorem meterOf_split (handed : Nat → StructLog → Bool) (x : Nat × StructLog) :
    meterOf logs handed x = (x.2.effectGas, 0) + (0, owedAt logs handed x) :=
  Prod.ext (add_zero x.2.effectGas).symm (zero_add (owedAt logs handed x)).symm

/-- What the steps of a frame and of all its delegate frames charge its program. -/
def CallTree.charges (logs : List StructLog) (handed : Nat → StructLog → Bool) (n : Nat) (t : CallTree) : Meter :=
  ((t.closure CallTree.always n).map (meterOf logs handed)).sum

theorem CallTree.charges_step (handed : Nat → StructLog → Bool) :
    (CallTree.step log rest).charges logs handed n =
      (log.effectGas, 0) + (0, owedAt logs handed (n, log)) + rest.charges logs handed (n + 1) := by
  unfold charges
  rw [closure, List.map_cons, List.sum_cons, meterOf_split]

theorem CallTree.charges_enter {call : StructLog} {body : CallTree} (handed : Nat → StructLog → Bool) :
    (CallTree.enter call body rest).charges logs handed n =
      (call.effectGas, 0) + (if call.op.isDelegate then body.charges logs handed (n + 1) else 0) +
        (0, owedAt logs handed (n, call)) + rest.charges logs handed (n + 1 + body.size) := by
  unfold charges
  rw [closure, List.map_cons, List.sum_cons, List.map_append, List.sum_append, always, Bool.and_true, meterOf_split,
    ← add_assoc, add_right_comm (call.effectGas, 0) (0, _)]
  congr 3
  split <;> rfl

theorem metered_step {d : Nat} {w₁ : Walk} (executed : exec H elig candidates n log w = .ok w₁) (free : w.pending = none)
    (wf : (CallTree.step log rest).WellFormed d) (here : logs.drop n = (CallTree.step log rest).flatten ++ tail)
    (inside : i < w.programs.length) (owns : w.Owns i) (head : rest.head? = some next) (level : next.depth = log.depth)
    (entered : enterPending next w₁ = .ok w') :
    Charged i (if w.top.program = some i then
      (log.effectGas, 0) + (0, owedAt logs (handedTo elig candidates) (n, log)) else 0) w w' := by
  have step := exec_executed executed
  have program := step.place.2.program
  have charged := step.metered inside owns
  cases waits : w₁.pending with
  | none =>
    have same : w' = w₁ := by
      unfold enterPending at entered
      rw [waits] at entered
      exact (Except.ok.inj entered).symm
    have silent : log.spends = false := by
      by_contra spends
      obtain ⟨fine, opens, -⟩ := StructLog.opens_of_spends (Bool.not_eq_false _ ▸ spends)
      have waits' := (step.pending free).mpr ⟨fine, opens⟩
      rw [waits] at waits'
      cases waits'
    rw [same, owedAt, silent]
    rw [Prod.mk_add_mk, add_zero]
    exact charged
  | some p =>
    have elsewhere : next.depth ≠ p.parentDepth + 1 := by
      rw [step.waits free waits, level]
      simp
    have paid := charged.trans (metered_inline waits elsewhere entered)
    rw [program] at paid
    by_cases emits : w.top.program = some i
    · obtain ⟨fine, opens⟩ := (step.pending free).mp (by rw [waits]; rfl)
      have owes := step.owes_inline free (by rw [emits]; nofun) waits (plain_inline step free level entered waits)
        (resumed_step here wf fine opens head).1
      rw [if_pos emits, if_pos emits, owes] at paid
      rw [if_pos emits]
      exact paid
    · rw [if_neg emits, if_neg emits, zero_add] at paid
      rw [if_neg emits]
      exact paid

theorem metered_enter {d step : Nat} {call first : StructLog} {body : CallTree} {p : PendingFrame} {w₁ w₂ w₃ : Walk}
    (executed : Executed H elig candidates n call w w₁) (free : w.pending = none)
    (wf : (CallTree.enter call body rest).WellFormed d)
    (here : logs.drop n = (CallTree.enter call body rest).flatten ++ tail) (inside : i < w.programs.length)
    (owns : w.Owns i) (waits : w₁.pending = some p) (bodyHead : body.head? = some first)
    (ran : Frames (pushFrame p first { w₁ with pending := none }) w₂) (terms : w₂.top.emittedCallGas = p.emittedCallGas)
    {m : Meter} (inner : Charged i (if p.program = some i then m else 0) (pushFrame p first { w₁ with pending := none }) w₂)
    (resumes : rest.head? = some next) (popped : popFrame step next w₂ = .ok w₃) :
    Charged i (if w.top.program = some i then (call.effectGas, 0) + (if call.op.isDelegate then m else 0) +
      (0, owedAt logs (handedTo elig candidates) (n, call)) else 0) w w₃ := by
  obtain ⟨g, others, flag, flagged, caller, -, pop⟩ := popped_of_frames ran popped
  have success := CallTree.succeeds_of_flag resumes flagged
  have program : g.program = w.top.program := caller.program.trans executed.place.2.program
  have entered : Charged i (if p.program = some i then m else 0) w₁ w₂ := inner
  have charged := ((executed.metered inside owns).trans entered).trans
    (metered_popFrame (i := i) pop.below flagged popped)
  rw [program, ← success] at charged
  by_cases emits : w.top.program = some i
  · have owes := executed.owes_enter free (by rw [emits]; nofun) waits terms ran.top.nestedStartGas
      (resumed_enter here wf bodyHead resumes).1 (resumeOf_enter here wf)
    have handsOn : (if p.program = some i then m else 0) = if call.op.isDelegate then m else 0 := by
      congr 1
      rw [executed.emitting free inside waits, and_iff_right emits]
    rw [if_pos emits, if_pos emits, owes, handsOn] at charged
    rw [if_pos emits]
    exact charged
  · have apart : p.program ≠ some i := by
      intro same
      exact emits ((executed.emitting free inside waits).mp same).1
    rw [if_neg emits, if_neg emits, if_neg apart, add_zero, add_zero] at charged
    rw [if_neg emits]
    exact charged

/-- A frame and its delegate frames charge their program for every step, those that failed and those that did not. -/
theorem Walked.metered {d : Nat} {t : CallTree} (walked : Walked H elig candidates n t w w') (wf : t.WellFormed d)
    (here : logs.drop n = t.flatten ++ tail) (free : w.pending = none) (inside : i < w.programs.length)
    (owns : w.Owns i) :
    Charged i (if w.top.program = some i then t.charges logs (handedTo elig candidates) n else 0) w w' := by
  induction walked generalizing d tail with
  | done => exact (ite_self (0 : Meter)).symm ▸ .nothing rfl
  | @last n log w w' executed free' =>
    have step := exec_executed executed
    have silent : log.spends = false := by
      by_contra spends
      obtain ⟨fine, opens, -⟩ := StructLog.opens_of_spends (Bool.not_eq_false _ ▸ spends)
      have waits := (step.pending free).mpr ⟨fine, opens⟩
      rw [free'] at waits
      cases waits
    have same : (CallTree.step log .done).charges logs (handedTo elig candidates) n = (log.effectGas, 0) := by
      rw [CallTree.charges_step, owedAt, silent]
      exact (add_zero _).trans (add_zero _)
    rw [same]
    exact step.metered inside owns
  | @step n log next rest w w₁ w₂ w' executed head level entered walked ih =>
    have inline := frames_inline free executed level entered
    have first := metered_step executed free wf here inside owns head level entered
    have second := ih wf.2.2 (CallTree.drop_step here) inline.free (first.inside inside)
      (first.owns owns inline.top.program inline.top.storageCtx)
    rw [inline.top.program] at second
    have both := first.trans second
    rw [CallTree.charges_step]
    split
    · rename_i emits
      rwa [if_pos emits, if_pos emits] at both
    · rename_i silent
      rwa [if_neg silent, if_neg silent, add_zero] at both
  | @enter n call first next body rest p w w₁ w₂ w₃ w' executed waits head inner resumes popped walked
      ihInner ihTail =>
    have step := exec_executed executed
    have ran := inner.frames rfl
    obtain ⟨ops, billed⟩ := inner.billed wf.2.2.2.2.1 (CallTree.drop_body here) rfl
    have opening := step.metered inside owns
    have place := step.place.2
    have pushed : (pushFrame p first { w₁ with pending := none }).Owns i := by
      intro step' target meter emits shows
      obtain ⟨same, delegates⟩ := (step.emitting free inside waits).mp emits
      have context : p.storageCtx = w₁.top.storageCtx := by
        rw [step.context free waits rest, CallTree.context, if_pos delegates, place.storageCtx]
      exact context.trans
        (opening.owns owns place.program place.storageCtx step' target meter (place.program.trans same) shows)
    have during := ihInner wf.2.2.2.2.1 (CallTree.drop_body here) rfl (opening.inside inside) pushed
    have entering := metered_enter step free wf here inside owns waits head ran billed.terms.emittedCallGas during
      resumes popped
    obtain ⟨g, others, flag, -, caller, -, pop⟩ := popped_of_frames ran popped
    have program : w₃.top.program = w.top.program := (program_of_frames ran popped).trans place.program
    have context : w₃.top.storageCtx = w.top.storageCtx := by
      rw [pop.returned.samePlace.storageCtx, caller.storageCtx, place.storageCtx]
    have leaving := ihTail wf.2.2.2.2.2.2 (CallTree.drop_rest here) (pop.pending.trans ran.free) (entering.inside inside)
      (entering.owns owns program context)
    rw [program] at leaving
    have both := entering.trans leaving
    rw [CallTree.charges_enter]
    split
    · rename_i emits
      rwa [if_pos emits, if_pos emits] at both
    · rename_i silent
      rwa [if_neg silent, if_neg silent, add_zero] at both

/-! ### Programs opened by a trace -/

theorem Charged.kept {m : Meter} {c : Prop} [Decidable c] (charged : Charged i (if c then m else 0) w w') (apart : ¬c) :
    w'.meterAt i = w.meterAt i := by
  rw [if_neg apart] at charged
  rw [charged]
  cases w.meterAt i with
  | none => rfl
  | some x => exact congrArg some (Prod.ext rfl (add_zero x.2))

theorem length_inline (entered : enterPending next w = .ok w') : w'.programs.length = w.programs.length := by
  rw [← length_texts, texts_enterPending entered, length_texts]

theorem length_popFrame {step : Nat} (popped : popFrame step next w = .ok w') :
    w'.programs.length = w.programs.length := by
  obtain ⟨flag, -, returns⟩ := texts_popFrame popped
  rw [← length_texts, ← length_texts]
  split at returns
  · obtain ⟨id, p, start, -, -, -, closes⟩ := returns
    rw [closes, List.length_modify]
  · rw [returns]

/-- Every program opened by a walk of `t` shows what the steps of its call's body charged. -/
def Shown (logs : List StructLog) (handed : Nat → StructLog → Bool) (n : Nat) (t : CallTree) (i : Nat) (w' : Walk) :
    Prop :=
  ∀ step target meter, w'.meterAt i = some ((step, target), meter) → ∃ call body rest,
    CallTree.Opens n t step call body rest ∧ meter = body.charges logs handed (step + 1)

theorem Shown.of_kept {handed : Nat → StructLog → Bool} {t : CallTree} (shown : Shown logs handed n t i w)
    (kept : w'.meterAt i = w.meterAt i) : Shown logs handed n t i w' := by
  unfold Shown
  rw [kept]
  exact shown

theorem Shown.mono {handed : Nat → StructLog → Bool} {t t' : CallTree} {n' : Nat} (shown : Shown logs handed n t i w)
    (opens : ∀ {j call body rest}, CallTree.Opens n t j call body rest → CallTree.Opens n' t' j call body rest) :
    Shown logs handed n' t' i w := by
  intro step target meter shows
  obtain ⟨call, body, rest, here, same⟩ := shown step target meter shows
  exact ⟨call, body, rest, opens here, same⟩

/-- A program a step opens starts with nothing on its meters. -/
theorem Executed.starts (executed : Executed H elig candidates n log w w') (free : w.pending = none)
    {p : PendingFrame} (waits : w'.pending = some p) :
    (p.nestedStartGas = none ∧ w'.programs.length = w.programs.length) ∨
      w'.programs.length = w.programs.length + 1 ∧ p.program = some w.programs.length ∧
        ∃ target, p.storageCtx = some target ∧ w'.meterAt w.programs.length = some ((n, target), 0) := by
  rcases executed.texts with same | ⟨id, q, c, index, kind, callee, handed, emits, found, rfl, texts⟩
  · left
    refine ⟨executed.plain free same waits, ?_⟩
    rw [← length_texts, same, length_texts]
  · right
    obtain rfl := Option.some.inj waits
    refine ⟨by simp [openNested], rfl, c.target, callee, ?_⟩
    unfold Walk.meterAt openNested
    rw [List.getElem?_modify, List.getElem?_concat_length]
    by_cases parent : id = w.programs.length
    · simp [parent, ProgramState.meter, nestedProgram]
    · simp [parent, ProgramState.meter, nestedProgram]

theorem Shown.absent {handed : Nat → StructLog → Bool} {t : CallTree} (beyond : w.programs.length ≤ i) :
    Shown logs handed n t i w := by
  intro step target meter shows
  rw [Walk.meterAt, List.getElem?_eq_none beyond] at shows
  cases shows

theorem Walked.shown {d : Nat} {t : CallTree} (walked : Walked H elig candidates n t w w') (wf : t.WellFormed d)
    (here : logs.drop n = t.flatten ++ tail) (free : w.pending = none)
    (emits : ∀ id, w.top.program = some id → id < w.programs.length) (beyond : w.programs.length ≤ i) :
    Shown logs (handedTo elig candidates) n t i w' := by
  induction walked generalizing d tail with
  | done => exact .absent beyond
  | @last n log w w' executed free' =>
    apply Shown.absent
    rcases (exec_executed executed).texts with same | ⟨id, p, c, index, -, -, -, -, -, rfl, -⟩
    · rwa [← length_texts, same, length_texts]
    · cases free'
  | @step n log next rest w w₁ w₂ w' executed head level entered walked ih =>
    have step := exec_executed executed
    have inline := frames_inline free executed level entered
    have same : w₂.programs.length = w.programs.length := by
      rw [length_inline entered]
      rcases step.texts with same | ⟨id, p, c, index, -, -, -, -, -, rfl, -⟩
      · rw [← length_texts, same, length_texts]
      · cases plain_inline step free level entered rfl
    refine Shown.mono (ih wf.2.2 (CallTree.drop_step here) inline.free ?_ (same ▸ beyond)) .later
    intro id program
    rw [same]
    exact emits id (inline.top.program.symm.trans program)
  | @enter n call first next body rest p w w₁ w₂ w₃ w' executed waits head inner resumes popped walked
      ihInner ihTail =>
    have step := exec_executed executed
    have ran := inner.frames rfl
    have innerWf := wf.2.2.2.2.1
    obtain ⟨g, others, flag, flagged, caller, -, pop⟩ := popped_of_frames ran popped
    have caller : g.program = w.top.program := caller.program.trans step.place.2.program
    have program : w₃.top.program = w.top.program := pop.returned.samePlace.program.trans caller
    have returned := length_popFrame popped
    have longer : w₁.programs.length ≤ w₂.programs.length := by
      have more := (inner.opened rfl).more
      rwa [length_texts, length_texts] at more
    have grows : w.programs.length ≤ w₁.programs.length := by
      rcases step.starts free waits with ⟨-, same⟩ | ⟨more, -⟩
      · exact Nat.le_of_eq same.symm
      · omega
    by_cases late : w₃.programs.length ≤ i
    · refine Shown.mono (ihTail wf.2.2.2.2.2.2 (CallTree.drop_rest here) (pop.pending.trans ran.free) ?_ late) .after
      intro id same
      have := emits id (program.symm.trans same)
      omega
    · -- A program opened by now is charged no more: the frame that resumes emits into an older one.
      have apart : w.top.program ≠ some i := by
        intro same
        have := emits i same
        omega
      have leaving := (walked.metered wf.2.2.2.2.2.2 (CallTree.drop_rest here) (pop.pending.trans ran.free)
        (Nat.not_le.mp late) (fun _ _ _ same => absurd (program.symm.trans same) apart)).kept (program.symm ▸ apart)
      have returning := (metered_popFrame (i := i) pop.below flagged popped).kept (caller.symm ▸ apart)
      refine Shown.of_kept ?_ (leaving.trans returning)
      rcases step.starts free waits with ⟨plain, same⟩ | ⟨more, own, target, context, fresh⟩
      · refine Shown.mono (ihInner innerWf (CallTree.drop_body here) rfl ?_ (same ▸ beyond)) .inside
        intro id pushed
        have pushed : p.program = some id := pushed
        cases step.role free waits with
        | delegate _ _ kept =>
          have := emits id (kept.symm.trans pushed)
          exact Nat.lt_of_lt_of_le this grows
        | native _ _ none _ =>
          rw [none] at pushed
          cases pushed
        | own _ nested _ _ =>
          rw [plain] at nested
          cases nested
      · by_cases isOwn : i = w.programs.length
        · subst isOwn
          intro step' target' meter shows
          have during := inner.metered innerWf (CallTree.drop_body here) rfl
            (show w.programs.length < w₁.programs.length by omega) (by
              intro _ target'' _ _ shows'
              have shows' := fresh.symm.trans shows'
              obtain ⟨place, -⟩ := Prod.mk.inj (Option.some.inj shows')
              obtain ⟨-, rfl⟩ := Prod.mk.inj place
              exact context)
          rw [if_pos (show (pushFrame p first { w₁ with pending := none }).top.program = some _ from own)] at during
          have during : w₂.meterAt w.programs.length = (w₁.meterAt w.programs.length).map _ := during
          rw [fresh, shows] at during
          obtain ⟨place, total⟩ := Prod.mk.inj (Option.some.inj during)
          obtain ⟨rfl, -⟩ := Prod.mk.inj place
          exact ⟨call, body, rest, .here, total.trans (zero_add _)⟩
        · refine Shown.mono (ihInner innerWf (CallTree.drop_body here) rfl ?_ (by
            show w₁.programs.length ≤ i
            omega)) .inside
          intro id pushed
          obtain rfl := Option.some.inj (own.symm.trans pushed)
          show w.programs.length < w₁.programs.length
          omega

/-! ### The ops of a program -/

/-- An emitting frame keeps an op for every un-errored call and create it makes. -/
theorem Executed.spending (executed : Executed H elig candidates n log w w') (carries : log.memory.isSome = true) :
    ∃ ops, w'.top.out = w.top.out ++ ops ∧ (w.top.program = none → ops = []) ∧
      (w.top.program ≠ none → spendsOf ops = if log.spends then [n] else []) := by
  obtain ⟨words, memory⟩ := Option.isSome_iff_exists.mp carries
  have nothing : ∀ {v : Walk}, v.top.out = w.top.out → (w.top.program ≠ none → log.spends = false) →
      ∃ ops, v.top.out = w.top.out ++ ops ∧ (w.top.program = none → ops = []) ∧
        (w.top.program ≠ none → spendsOf ops = if log.spends then [n] else []) := by
    intro v out quiet
    refine ⟨[], by rw [out, List.append_nil], fun _ => rfl, fun emits => ?_⟩
    rw [quiet emits]
    rfl
  cases executed with
  | quiet silent =>
    refine nothing rfl fun emits => ?_
    cases op : log.op <;> simp_all [StructLog.silent, StructLog.spends, Opcode.opensFrame, Opcode.isCreate]
  | unowned kind | observed kind => exact nothing rfl fun _ => by simp [StructLog.spends, kind, Opcode.isCreate]
  | stored kind =>
    rw [Walk.stored_top]
    exact nothing (v := modifyTop (WalkFrame.write _ _ _) w) rfl fun _ => by simp [StructLog.spends, kind, Opcode.isCreate]
  | delegated kind =>
    refine nothing rfl fun _ => ?_
    cases op : log.op <;> simp_all [StructLog.spends, Opcode.isDelegate, Opcode.isCreate]
  | called kind fine native | creates kind fine native => exact nothing rfl fun emits => absurd native emits
  | @logged id update skipped kind fine emits decoded =>
    obtain ⟨u, same, opcode, -⟩ := decodeStructLog_effect decoded (by simp [effectful, kind]) memory
    injection same with same _
    subst same
    have idle : Op.spends ⟨u, n⟩ = false := by
      cases u with
      | call | create | create2 | nested =>
        rw [← opcode] at kind
        cases kind
      | _ => rfl
    have silent : log.spends = false := by
      cases op : log.op <;> simp_all [StructLog.spends, Opcode.isLog, Opcode.isCreate]
    refine ⟨[⟨u, n⟩], rfl, fun native => by simp [emits] at native, fun _ => ?_⟩
    rw [silent]
    simp [spendsOf, idle]
  | @emitted id p c kind fine emits found decoded callee stays =>
    refine ⟨w.slice n p.target ++ [⟨.call c, n⟩], by simp [WalkFrame.emit, Walk.sliced_out],
      fun native => by simp [emits] at native, fun _ => ?_⟩
    rw [spendsOf_append, (idle_slice [] n p.target w).2, StructLog.spends, fine, kind]
    rfl
  | @opened id p c index kind fine emits found decoded callee handed =>
    refine ⟨w.slice n p.target ++ [⟨.nested ⟨c.target, c.value, 0⟩, n⟩],
      by simp [openNested, WalkFrame.emit, Walk.sliced_out], fun native => by simp [emits] at native, fun _ => ?_⟩
    rw [spendsOf_append, (idle_slice [] n p.target w).2, StructLog.spends, fine, kind]
    rfl
  | @deployed id p update kind fine emits found decoded =>
    obtain ⟨u, same, opcode, -⟩ := decodeStructLog_effect decoded (by simp [effectful, kind]) memory
    injection same with same _
    subst same
    have creates : Op.spends ⟨u, n⟩ = true := by
      cases u with
      | create | create2 => rfl
      | _ =>
        rw [← opcode] at kind
        cases kind
    refine ⟨w.slice n p.target ++ [⟨u, n⟩], by simp [Walk.sliced_out], fun native => by simp [emits] at native,
      fun _ => ?_⟩
    rw [spendsOf_append, (idle_slice [] n p.target w).2, StructLog.spends, fine, kind]
    simp [spendsOf, creates]

/-- What some steps owe their program, as a number. -/
def owedBy (logs : List StructLog) (handed : Nat → StructLog → Bool) (steps : List (Nat × StructLog)) : Nat :=
  (steps.map fun x => (owedAt logs handed x).toNat).sum

/-- The gas of the writes and logs among some steps, as a number. -/
def effectsBy (steps : List (Nat × StructLog)) : Nat := (steps.map fun x => x.2.effectGas.toNat).sum

theorem gasSpent_append (gasAt : Nat → UInt64) (xs ys : List Nat) :
    gasSpent gasAt (xs ++ ys) = gasSpent gasAt xs + gasSpent gasAt ys := by
  unfold gasSpent
  rw [List.map_append, List.sum_append]

/-- A part of the walk adds ops to its frame whose calls and creates took `gas`. -/
structure Repays (logs : List StructLog) (gas : Nat) (w w' : Walk) (ops : List Op) : Prop where
  out : w'.top.out = w.top.out ++ ops
  native : w.top.program = none → ops = []
  gas : w.top.program ≠ none → gasSpent (nativeGasAt logs) (spendsOf ops) = gas

theorem Repays.trans {gas gas' : Nat} {w'' : Walk} {ops ops' : List Op} (first : Repays logs gas w w' ops)
    (second : Repays logs gas' w' w'' ops') (program : w'.top.program = w.top.program) :
    Repays logs (gas + gas') w w'' (ops ++ ops') where
  out := by rw [second.out, first.out, List.append_assoc]
  native is := by rw [first.native is, second.native (program.trans is)]; rfl
  gas is := by
    rw [spendsOf_append, gasSpent_append, first.gas is, second.gas (program.symm ▸ is)]

theorem repays_step {d : Nat} {w₁ : Walk} (executed : exec H elig candidates n log w = .ok w₁)
    (wf : (CallTree.step log rest).WellFormed d) (plain : ∀ p, w₁.pending = some p → p.nestedStartGas = none) :
    ∃ ops, Repays logs (owedAt logs (handedTo elig candidates) (n, log)).toNat w w₁ ops := by
  have step := exec_executed executed
  obtain ⟨ops, out, native, spends⟩ := step.spending wf.1.memory
  refine ⟨ops, out, native, fun emits => ?_⟩
  rw [spends emits, owedAt, step.handed emits plain]
  cases log.spends with
  | false => rfl
  | true => exact List.sum_singleton

theorem owedBy_step (handed : Nat → StructLog → Bool) :
    owedBy logs handed ((CallTree.step log rest).closure CallTree.succeeds n) =
      (owedAt logs handed (n, log)).toNat + owedBy logs handed (rest.closure CallTree.succeeds (n + 1)) := by
  unfold owedBy
  rw [CallTree.closure, List.map_cons, List.sum_cons]

theorem owedBy_enter {call : StructLog} {body : CallTree} (handed : Nat → StructLog → Bool) :
    owedBy logs handed ((CallTree.enter call body rest).closure CallTree.succeeds n) =
      (owedAt logs handed (n, call)).toNat +
        (if call.op.isDelegate && rest.succeeds then
          owedBy logs handed (body.closure CallTree.succeeds (n + 1)) else 0) +
        owedBy logs handed (rest.closure CallTree.succeeds (n + 1 + body.size)) := by
  unfold owedBy
  rw [CallTree.closure, List.map_cons, List.sum_cons, List.map_append, List.sum_append, ← add_assoc]
  congr 2
  split <;> rfl

theorem repays_enter {d step : Nat} {call first : StructLog} {body : CallTree} {p : PendingFrame} {w₁ w₂ w₃ : Walk}
    {gas : Nat} {ops : List Op} (executed : Executed H elig candidates n call w w₁) (free : w.pending = none)
    (wf : (CallTree.enter call body rest).WellFormed d)
    (here : logs.drop n = (CallTree.enter call body rest).flatten ++ tail) (waits : w₁.pending = some p)
    (ran : Frames (pushFrame p first { w₁ with pending := none }) w₂)
    (inner : Repays logs gas (pushFrame p first { w₁ with pending := none }) w₂ ops)
    (resumes : rest.head? = some next) (popped : popFrame step next w₂ = .ok w₃) :
    ∃ ops, Repays logs ((owedAt logs (handedTo elig candidates) (n, call)).toNat +
      if call.op.isDelegate && rest.succeeds then gas else 0) w w₃ ops := by
  obtain ⟨head, outHead, nativeHead, spendsHead⟩ := executed.spending wf.1.memory
  obtain ⟨g, others, flag, flagged, caller, -, pop⟩ := popped_of_frames ran popped
  have success := CallTree.succeeds_of_flag resumes flagged
  have outG : g.out = w.top.out ++ head := by rw [caller.out, outHead]
  have outInner : w₂.top.out = ops := inner.out
  have nested : w₂.top.nestedStartGas = p.nestedStartGas := ran.top.nestedStartGas
  have resumed : ((resumeOf logs n).bind StructLog.flag).any (· ≠ 0) = rest.succeeds := by
    rw [resumeOf_enter here wf]
    rfl
  have returned := pop.returned
  unfold owedAt
  rw [resumed]
  cases executed.role free waits with
  | delegate kind plain same =>
    have silent : call.spends = false := by
      cases op : call.op <;> simp_all [StructLog.spends, Opcode.isDelegate, Opcode.isCreate]
    simp only [silent, Bool.false_and, Bool.false_eq_true, if_false, kind, Bool.true_and] at *
    have none : Repays logs 0 w w₁ head := ⟨outHead, nativeHead, fun emits => by rw [spendsHead emits]; rfl⟩
    generalize isTop : w₃.top = g'' at returned
    cases returned with
    | absorbed kept succ _ =>
      rw [success, decide_eq_true succ]
      refine ⟨head ++ ops, ?_, ?_, ?_⟩
      · rw [isTop]
        show _ ++ w₂.top.out = _
        rw [kept.out, outG, outInner, List.append_assoc]
      · intro is
        rw [nativeHead is, inner.native (same.trans is)]
        rfl
      · intro emits
        rw [spendsOf_append, gasSpent_append, none.gas emits,
          inner.gas (show p.program ≠ Option.none from same.symm ▸ emits)]
        rfl
    | discarded kept failure _ =>
      rw [success, decide_eq_false (not_not.mpr failure)]
      exact ⟨head, by rw [isTop, kept.out, outG], nativeHead, none.gas⟩
    | merged _ _ isNested | retracted _ _ isNested =>
      rw [nested, plain] at isNested
      cases isNested
  | native kind plain none stays =>
    obtain rfl : ops = [] := inner.native none
    have own : ∀ emits : w.top.program ≠ Option.none, (call.isCall && handedTo elig candidates n call) = false := by
      intro emits
      by_cases op : call.op = .call
      · simp [handedTo, stays op emits]
      · simp [StructLog.isCall, op]
    have gas : w.top.program ≠ Option.none → gasSpent (nativeGasAt logs) (spendsOf head) =
        (if call.spends && !(call.isCall && handedTo elig candidates n call && !rest.succeeds) then
          nativeGasAt logs n else 0).toNat + if call.op.isDelegate && rest.succeeds then gas else 0 := by
      intro emits
      rw [spendsHead emits, own emits, kind]
      cases call.spends <;> simp [gasSpent]
    generalize isTop : w₃.top = g'' at returned
    cases returned with
    | absorbed kept succ _ =>
      refine ⟨head, ?_, nativeHead, gas⟩
      rw [isTop]
      show _ ++ w₂.top.out = _
      rw [kept.out, outG, outInner, List.append_nil]
    | discarded kept failure _ => exact ⟨head, by rw [isTop, kept.out, outG], nativeHead, gas⟩
    | merged _ _ isNested | retracted _ _ isNested =>
      rw [nested, plain] at isNested
      cases isNested
  | own kind isNested emits handed =>
    have isCall : call.isCall = true := by simp [StructLog.isCall, kind, wf.2.1]
    have isHanded : handedTo elig candidates n call = true := handed
    have plain : call.op.isDelegate = false := by rw [kind]; rfl
    have spends := spendsHead emits
    rw [StructLog.spends_of_isCall isCall, if_pos rfl] at spends
    rw [StructLog.spends_of_isCall isCall, isCall, isHanded, plain, success]
    generalize isTop : w₃.top = g'' at returned
    cases returned with
    | absorbed _ _ plain | discarded _ _ plain =>
      rw [← nested, plain] at isNested
      cases isNested
    | merged kept succ _ =>
      rw [decide_eq_true succ]
      refine ⟨head, ?_, nativeHead, fun _ => ?_⟩
      · rw [isTop]
        exact kept.out.trans outG
      · rw [spends]
        simp [gasSpent]
    | @retracted g₁ kept' x st kept failure _ last =>
      rw [decide_eq_false (not_not.mpr failure)]
      rw [outG] at last
      rcases List.eq_nil_or_concat head with empty | ⟨head', op, rfl⟩
      · rw [empty] at spends
        cases spends
      · rw [List.concat_eq_append, ← List.append_assoc] at last
        obtain ⟨same, isLast⟩ := List.append_inj' last rfl
        obtain rfl := List.singleton_inj.mp isLast
        rw [List.concat_eq_append, spendsOf_append] at spends
        refine ⟨head', ?_, fun native => absurd native emits, fun _ => ?_⟩
        · rw [isTop]
          exact same.symm
        · have gone : spendsOf head' = [] := by
            rcases List.append_eq_cons_iff.mp spends with ⟨gone, -⟩ | ⟨more, -, isLast⟩
            · exact gone
            · simp [spendsOf, Op.spends] at isLast
          rw [gone]
          rfl

/-- The calls and creates of the ops a frame is left with took what its committed steps owe. -/
theorem Walked.repays {d : Nat} {t : CallTree} (walked : Walked H elig candidates n t w w') (wf : t.WellFormed d)
    (here : logs.drop n = t.flatten ++ tail) (free : w.pending = none) :
    ∃ ops, Repays logs (owedBy logs (handedTo elig candidates) (t.closure CallTree.succeeds n)) w w' ops := by
  induction walked generalizing d tail with
  | done => exact ⟨[], by simp, fun _ => rfl, fun _ => rfl⟩
  | last executed free' =>
    rw [owedBy_step]
    apply repays_step executed wf
    intro p waits
    rw [free'] at waits
    cases waits
  | @step n log next rest w w₁ w₂ w' executed head level entered walked ih =>
    have step := exec_executed executed
    have inline := frames_inline free executed level entered
    obtain ⟨ops, first⟩ : ∃ ops, Repays logs _ w w₁ ops :=
      repays_step executed wf (fun p => plain_inline step free level entered)
    obtain ⟨ops', second⟩ := ih wf.2.2 (CallTree.drop_step here) inline.free
    have between : w₂.top.out = w₁.top.out := (entered_kept free step level entered).1.out
    have arrived : Repays logs (owedAt logs (handedTo elig candidates) (n, log)).toNat w w₂ ops :=
      ⟨between.trans first.out, first.native, first.gas⟩
    rw [owedBy_step]
    exact ⟨_, arrived.trans second inline.top.program⟩
  | @enter n call first next body rest p w w₁ w₂ w₃ w' executed waits head inner resumes popped walked
      ihInner ihTail =>
    have step := exec_executed executed
    have ran := inner.frames rfl
    obtain ⟨ops, during⟩ := ihInner wf.2.2.2.2.1 (CallTree.drop_body here) rfl
    obtain ⟨ops', entering⟩ := repays_enter step free wf here waits ran during resumes popped
    obtain ⟨g, others, flag, -, -, -, pop⟩ := popFrame_popped popped
    obtain ⟨ops'', leaving⟩ := ihTail wf.2.2.2.2.2.2 (CallTree.drop_rest here) (pop.pending.trans ran.free)
    rw [owedBy_enter]
    exact ⟨_, entering.trans leaving ((program_of_frames ran popped).trans step.place.2.program)⟩

/-! ### Steps that are undone -/

namespace CallTree

/-- The steps of a frame's delegate frames that failed, and of the delegate frames below those. -/
def lost : Nat → CallTree → List (Nat × StructLog)
  | _, done => []
  | n, step _ rest => rest.lost (n + 1)
  | n, enter call body rest =>
    (if call.op.isDelegate then if rest.succeeds then body.lost (n + 1) else body.closure always (n + 1) else []) ++
      rest.lost (n + 1 + body.size)

/-- Every step of a frame's closure commits with the frame or is lost. -/
theorem closure_perm (n : Nat) (t : CallTree) :
    (t.closure always n).Perm (t.closure succeeds n ++ t.lost n) := by
  induction t generalizing n with
  | done => exact List.Perm.nil
  | step log rest ih => exact (ih (n + 1)).cons (n, log)
  | enter call body rest ihBody ihRest =>
    refine List.Perm.cons (n, call) ?_
    have during : (if call.op.isDelegate && always rest then body.closure always (n + 1) else []).Perm
        ((if call.op.isDelegate && rest.succeeds then body.closure succeeds (n + 1) else []) ++
          if call.op.isDelegate then if rest.succeeds then body.lost (n + 1) else body.closure always (n + 1)
          else []) := by
      rw [always, Bool.and_true]
      cases call.op.isDelegate with
      | false => exact List.Perm.nil
      | true =>
        cases rest.succeeds with
        | false => exact List.Perm.refl _
        | true => exact ihBody (n + 1)
    have swap : ∀ as bs cs ds : List (Nat × StructLog), (as ++ bs ++ (cs ++ ds)).Perm (as ++ cs ++ (bs ++ ds)) := by
      intro as bs cs ds
      rw [List.append_assoc, List.append_assoc, ← List.append_assoc bs, ← List.append_assoc cs]
      exact (List.perm_append_comm.append_right ds).append_left as
    exact (during.append (ihRest (n + 1 + body.size))).trans (swap _ _ _ _)

end CallTree

theorem charges_toNat (logs : List StructLog) (handed : Nat → StructLog → Bool) (n : Nat) (t : CallTree) :
    (t.charges logs handed n).1.toNat =
        (effectsBy (t.closure CallTree.succeeds n) + effectsBy (t.lost n)) % 2 ^ 64 ∧
      (t.charges logs handed n).2.toNat =
        (owedBy logs handed (t.closure CallTree.succeeds n) + owedBy logs handed (t.lost n)) % 2 ^ 64 := by
  have pairs : ∀ xs : List (Nat × StructLog), (xs.map (meterOf logs handed)).sum =
      ((xs.map fun x => x.2.effectGas).sum, (xs.map (owedAt logs handed)).sum) := by
    intro xs
    induction xs with
    | nil => rfl
    | cons x xs ih =>
      rw [List.map_cons, List.sum_cons, ih]
      rfl
  have total : t.charges logs handed n = ((t.closure CallTree.succeeds n ++ t.lost n).map (meterOf logs handed)).sum :=
    ((CallTree.closure_perm n t).map _).sum_eq
  rw [total, pairs]
  unfold effectsBy owedBy
  rw [← List.sum_append, ← List.map_append, ← List.sum_append, ← List.map_append]
  refine ⟨?_, ?_⟩
  · exact (Sums.toNat_sum _).trans (by rw [List.map_map]; rfl)
  · exact (Sums.toNat_sum _).trans (by rw [List.map_map]; rfl)

/-! ### What the pass subtracts -/

/-- The meters of a program show the gas of the writes and logs its frames committed, and that of the calls and creates
it holds. -/
structure Reproduces (logs : List StructLog) (n : Nat) (body : CallTree) (p : ProgramState) (ops : List Op) : Prop where
  effects : p.effectGas.toNat = effectsBy (body.closure CallTree.succeeds n)
  calls : p.childCallGas.toNat = gasSpent (nativeGasAt logs) (spendsOf ops)

/-- The delegate frames of `body` that failed leave nothing on its program's meters, and what committed fits them. -/
structure LeavesNothing (logs : List StructLog) (handed : Nat → StructLog → Bool) (n : Nat) (body : CallTree) : Prop where
  effects : effectsBy (body.lost n) % 2 ^ 64 = 0
  calls : owedBy logs handed (body.lost n) % 2 ^ 64 = 0
  effects_fit : effectsBy (body.closure CallTree.succeeds n) < 2 ^ 64
  calls_fit : owedBy logs handed (body.closure CallTree.succeeds n) < 2 ^ 64

/-- A surviving program is one of the walk's. -/
theorem survivor_program {trace : DefaultFrame} {root : Address} {ps : List ProgramState} {id : Nat} {p : ProgramState}
    (survive : survivors H trace root elig = .ok ps) (found : ps[id]? = some p) (nested : id ≠ 0) :
    ∃ candidates rootIndex last q, scanCandidates trace.structLogs = .ok (candidates, rootIndex) ∧
      walk H elig candidates trace.structLogs 0 (initialWalk root rootIndex) = .ok last ∧
      last.programs[id]? = some q ∧ p.core = q.core ∧ p.updates = q.updates := by
  obtain ⟨⟨candidates, rootIndex⟩, scanned, survive⟩ := Outcome.bind_ok survive
  obtain ⟨last, walked, survive⟩ := Outcome.bind_ok survive
  obtain ⟨closed, closes, survive⟩ := Outcome.bind_ok survive
  obtain rfl := Except.ok.inj survive
  have enters := (scanCandidates_upheld trace.structLogs).of_ok scanned
  have sound := (walk_upheld H elig candidates trace.structLogs enters trace.structLogs 0 _ rfl
    (initialWalk_sound root rootIndex) (fun _ _ waits => by cases waits)).of_ok walked
  have older : ∀ (id : Nat) (p : ProgramState) (q : Nat), closed.programs[id]? = some p → p.parent = some q →
      q < id := by
    obtain ⟨running, books, -⟩ := ((closeRoot_upheld sound _).of_ok closes).books
    apply older_of_forest
    simpa [nodes, Function.comp_def, ProgramState.ledger] using books.forest
  obtain ⟨q, foundQ, core, updates, -⟩ := retained_program found older
  obtain ⟨-, -, -, -, -, -, programs, -⟩ := closeRoot_ok closes
  rw [programs, List.getElem?_modify] at foundQ
  exact ⟨candidates, rootIndex, last, q, scanned, walked, by simpa [Ne.symm nested] using foundQ, core, updates⟩

/-- The pass subtracts from a nested program what the program reproduces exactly if the delegate frames that failed below
it leave nothing on its meters. -/
theorem reproduced_only_iff (H : Hashes) (trace : DefaultFrame) (root : Address) (elig : Eligibility) (t : CallTree)
    (wf : t.WellFormed 1) (flat : trace.structLogs = t.flatten) (ps : List ProgramState)
    (survive : survivors H trace root elig = .ok ps) (id : Nat) (p : ProgramState) (ops : List Op) (nested : id ≠ 0)
    (found : ps[id]? = some p) (returned : p.updates = some ops) :
    ∃ candidates rootIndex call body rest, scanCandidates trace.structLogs = .ok (candidates, rootIndex) ∧
      CallTree.Opens 0 t p.step call body rest ∧ call.op = .call ∧ rest.succeeds = true ∧
      (Reproduces trace.structLogs (p.step + 1) body p ops ↔
        LeavesNothing trace.structLogs (handedTo elig candidates) (p.step + 1) body) := by
  obtain ⟨candidates, rootIndex, last, q, scanned, walked, foundQ, core, updates⟩ :=
    survivor_program survive found nested
  have whole := CallTree.drop_flatten flat
  rw [flat] at walked
  have derivation := walked_of_trace wf walked
  have text : last.texts[id]? = some q.text := by
    rw [getElem?_texts, foundQ]
    rfl
  have new : 1 ≤ id := Nat.pos_of_ne_zero nested
  obtain ⟨call, body, rest, w₀, w₁, opens, kind, -, -, fresh, inner, closes⟩ :=
    ((derivation.opened rfl).new id q.text new text).ran
  have shown := derivation.shown wf whole rfl (fun i program => by
    obtain rfl := Option.some.inj program
    exact Nat.one_pos) new q.step q.target q.meter (by
    rw [Walk.meterAt, foundQ]
    rfl)
  obtain ⟨call', body', rest', opens', meter⟩ := shown
  obtain ⟨rfl, rfl, rfl⟩ := opens.unique opens'
  have step : p.core.step = q.core.step := congrArg ProgramState.step core
  have meters : p.core.meter = q.core.meter := congrArg ProgramState.meter core
  change p.step = q.step at step
  change p.meter = q.meter at meters
  rw [updates] at returned
  obtain ⟨success, isOps⟩ := closes ops returned
  obtain ⟨d, callWf⟩ := opens.wellFormed wf
  obtain ⟨tail, suffix⟩ := opens.suffix whole
  obtain ⟨held, repays⟩ := inner.repays callWf.2.2.2.2.1 (CallTree.drop_body suffix) fresh.free
  have gas : gasSpent (nativeGasAt trace.structLogs) (spendsOf ops) =
      owedBy trace.structLogs (handedTo elig candidates) (body.closure CallTree.succeeds (q.step + 1)) := by
    rw [isOps, Walk.sliced_out, spendsOf_append, (idle_slice [] _ _ w₁).2, List.append_nil, repays.out, fresh.out]
    exact repays.gas (by rw [fresh.program]; nofun)
  obtain ⟨effects, calls⟩ := charges_toNat trace.structLogs (handedTo elig candidates) (q.step + 1) body
  rw [← meter, ← meters] at effects calls
  change p.effectGas.toNat = _ at effects
  change p.childCallGas.toNat = _ at calls
  refine ⟨candidates, rootIndex, call, body, rest, scanned, ?_, kind, success, ?_⟩
  · rw [step]
    exact opens
  · rw [step]
    constructor
    · intro reproduces
      have := reproduces.effects
      have := reproduces.calls
      refine ⟨?_, ?_, ?_, ?_⟩ <;> omega
    · intro nothing
      have := nothing.effects
      have := nothing.calls
      have := nothing.effects_fit
      have := nothing.calls_fit
      refine ⟨?_, ?_⟩ <;> omega

/-- A consumer counts, and delegates a store to a frame that returns `flag`. -/
def delegatedStoreBody (flag : U256) : CallTree :=
  .step { op := .sstore, gas := 1900000, gasCost := 5000, depth := 2, stack := some [1, stateTrackerSlot] }
    (.enter { op := .delegatecall, gas := 1800000, depth := 2, stack := some [0, 0, 0, 0, 8, 0] }
      (.step { op := .sstore, gas := 1700000, gasCost := 20000, depth := 3, stack := some [5, 3] }
        (.step { op := .other "STOP", gas := 1600000, depth := 3, stack := some [] } .done))
      (.step { op := .other "STOP", gas := 1500000, depth := 2, stack := some [flag] } .done))

def delegatedStore (flag : U256) : CallTree :=
  .enter { op := .call, gas := 2000000, stack := some [0, 0, 0, 0, 0, 7, 0] } (delegatedStoreBody flag)
    (.step { op := .other "STOP", gas := 1000000, stack := some [1] } .done)

def delegatedStoreTrace (flag : U256) : DefaultFrame where
  structLogs := (delegatedStore flag).flatten
  bounded := by simp [delegatedStore, delegatedStoreBody, CallTree.flatten]

theorem delegatedStore_wellFormed (flag : U256) : (delegatedStore flag).WellFormed 1 := by
  refine ⟨⟨rfl, rfl, rfl⟩, rfl, rfl, rfl, ?_, rfl, ⟨rfl, rfl, rfl⟩, nofun, trivial⟩
  refine ⟨⟨rfl, rfl, rfl⟩, nofun, ⟨rfl, rfl, rfl⟩, rfl, rfl, rfl, ?_, rfl, ⟨rfl, rfl, rfl⟩, nofun, trivial⟩
  exact ⟨⟨rfl, rfl, rfl⟩, nofun, ⟨rfl, rfl, rfl⟩, nofun, trivial⟩

/-- The consumer's program, as the pass receives it. -/
def delegatedStoreShape (flag : U256) (gas : UInt64) : Bool :=
  (survivors ⟨fun _ => 0, fun _ => 0⟩ (delegatedStoreTrace flag) 9 (.consumers fun _ => true)).toOption.any fun ps =>
    ps[1]?.any fun p => p.step == 0 && p.effectGas == gas && p.updates.isSome

theorem delegatedStore_run (flag : U256) (gas : UInt64) (shape : delegatedStoreShape flag gas = true) :
    ∃ ps p ops, survivors ⟨fun _ => 0, fun _ => 0⟩ (delegatedStoreTrace flag) 9 (.consumers fun _ => true) = .ok ps ∧
      ps[1]? = some p ∧ p.updates = some ops ∧ p.step = 0 ∧ p.effectGas = gas := by
  obtain ⟨ps, survive, shape⟩ := Outcome.any_ok shape
  obtain ⟨p, found, holds⟩ := Option.any_eq_true _ _ |>.mp shape
  simp only [Bool.and_eq_true, beq_iff_eq] at holds
  obtain ⟨⟨step, effects⟩, done⟩ := holds
  obtain ⟨ops, updates⟩ := Option.isSome_iff_exists.mp done
  exact ⟨ps, p, ops, survive, found, updates, step, effects⟩

/-- The delegate frame returns, and the consumer's meters show both stores. -/
theorem reproduced_only_delegatedStore : ∃ ps p ops,
    survivors ⟨fun _ => 0, fun _ => 0⟩ (delegatedStoreTrace 1) 9 (.consumers fun _ => true) = .ok ps ∧
      ps[1]? = some p ∧ p.updates = some ops ∧ p.effectGas = 25000 ∧
      Reproduces (delegatedStoreTrace 1).structLogs 1 (delegatedStoreBody 1) p ops := by
  obtain ⟨ps, p, ops, survive, found, updates, step, effects⟩ :=
    delegatedStore_run 1 25000 (by decide +kernel)
  obtain ⟨candidates, rootIndex, call, body, rest, -, opens, -, -, same⟩ :=
    reproduced_only_iff ⟨fun _ => 0, fun _ => 0⟩ (delegatedStoreTrace 1) 9 (.consumers fun _ => true) (delegatedStore 1)
      (delegatedStore_wellFormed 1) rfl ps survive 1 p ops Nat.one_ne_zero found updates
  rw [step] at opens same
  obtain ⟨-, rfl, -⟩ := opens.unique .here
  have none : owedBy (delegatedStoreTrace 1).structLogs (handedTo (.consumers fun _ => true) candidates)
      ((delegatedStoreBody 1).closure CallTree.succeeds (0 + 1)) = 0 := rfl
  exact ⟨ps, p, ops, survive, found, updates, effects, same.mpr ⟨rfl, rfl, by decide, by rw [none]; decide⟩⟩

/-- The delegate frame reverts: its store is gone, and its gas stays on the consumer's meter. -/
theorem reproduced_only_revertedStore : ∃ ps p ops,
    survivors ⟨fun _ => 0, fun _ => 0⟩ (delegatedStoreTrace 0) 9 (.consumers fun _ => true) = .ok ps ∧
      (delegatedStore 0).WellFormed 1 ∧ (delegatedStoreTrace 0).structLogs = (delegatedStore 0).flatten ∧
      ps[1]? = some p ∧ p.updates = some ops ∧ p.step = 0 ∧ p.effectGas = 25000 ∧
      effectsBy ((delegatedStoreBody 0).closure CallTree.succeeds 1) = 5000 ∧
      ¬Reproduces (delegatedStoreTrace 0).structLogs 1 (delegatedStoreBody 0) p ops := by
  obtain ⟨ps, p, ops, survive, found, updates, step, effects⟩ :=
    delegatedStore_run 0 25000 (by decide +kernel)
  have committed : effectsBy ((delegatedStoreBody 0).closure CallTree.succeeds 1) = 5000 := by decide
  refine ⟨ps, p, ops, survive, delegatedStore_wellFormed 0, rfl, found, updates, step, effects, committed, ?_⟩
  intro reproduces
  have shown := reproduces.effects
  rw [effects, committed] at shown
  exact absurd shown (by decide)

end GasAnalyzer
