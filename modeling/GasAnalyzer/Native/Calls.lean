import GasAnalyzer.Native.Programs
import GasAnalyzer.Nested.Split

/-!
# The calls of a program

Which `CALL` steps of a well-formed trace a program holds as `CALL` ops and which as `NESTED` ops: those
its frame makes itself or through `DELEGATECALL` and `CALLCODE` frames that succeed. A callee with a frame
of its own that failed leaves no op; any other `CALL` leaves one, whatever its outcome.
-/

namespace GasAnalyzer

def Op.isCall (op : Op) : Bool :=
  match op.update with
  | .call _ => true
  | _ => false

/-- The steps of the `CALL` ops of a program. -/
def callsOf (ops : List Op) : List Nat := (ops.filter Op.isCall).map Op.step

/-- The steps of the `NESTED` ops of a program. -/
def nestsOf (ops : List Op) : List Nat := (ops.filter (fun op => op.update.isNested)).map Op.step

@[simp] theorem callsOf_append (xs ys : List Op) : callsOf (xs ++ ys) = callsOf xs ++ callsOf ys := by
  simp [callsOf]

@[simp] theorem nestsOf_append (xs ys : List Op) : nestsOf (xs ++ ys) = nestsOf xs ++ nestsOf ys := by
  simp [nestsOf]

@[simp] theorem callsOf_call (c : Call) (n : Nat) : callsOf [⟨.call c, n⟩] = [n] := rfl

@[simp] theorem nestsOf_call (c : Call) (n : Nat) : nestsOf [⟨.call c, n⟩] = [] := rfl

@[simp] theorem callsOf_nested (x : Nested) (n : Nat) : callsOf [⟨.nested x, n⟩] = [] := rfl

@[simp] theorem nestsOf_nested (x : Nested) (n : Nat) : nestsOf [⟨.nested x, n⟩] = [n] := rfl

/-- An un-errored `CALL`. -/
def StructLog.isCall (log : StructLog) : Bool := log.op == .call && !log.errored

/-- The callee of step `j` is given a frame of its own. -/
def handedTo (elig : Eligibility) (candidates : OrdMap Nat Candidate) (j : Nat) (log : StructLog) : Bool :=
  (elig.frameIndex (candidates.get j) log.callee).isSome

namespace CallTree

variable (handed : Nat → StructLog → Bool)

/-- The un-errored `CALL`s of a frame and of its `DELEGATECALL` and `CALLCODE` frames that succeed, less
those given a frame of their own. The frame's first step is step `n`. -/
def callSteps : Nat → CallTree → List Nat
  | _, done => []
  | n, step log rest => (if log.isCall && !handed n log then [n] else []) ++ rest.callSteps (n + 1)
  | n, enter call body rest =>
    (if call.isCall then if handed n call then [] else [n]
      else if call.op.isDelegate && rest.succeeds then body.callSteps (n + 1) else []) ++
      rest.callSteps (n + 1 + body.size)

/-- Those given a frame of their own that succeeds. -/
def nestSteps : Nat → CallTree → List Nat
  | _, done => []
  | n, step _ rest => rest.nestSteps (n + 1)
  | n, enter call body rest =>
    (if call.isCall then if handed n call && rest.succeeds then [n] else []
      else if call.op.isDelegate && rest.succeeds then body.nestSteps (n + 1) else []) ++
      rest.nestSteps (n + 1 + body.size)

end CallTree

/-! ### What a step emits -/

variable {H : Hashes} {elig : Eligibility} {candidates : OrdMap Nat Candidate} {n : Nat} {log : StructLog}
variable {w w' : Walk}

/-- Ops that hold no call. -/
def CallFree (ops : List Op) : Prop := callsOf ops = [] ∧ nestsOf ops = []

theorem callFree_slice (step : Nat) (target : Address) (w : Walk) : CallFree (w.slice step target) := by
  unfold CallFree callsOf nestsOf Walk.slice staleStores
  constructor
  · rw [List.map_eq_nil_iff, List.filter_eq_nil_iff]
    intro op member
    obtain ⟨e, -, rfl⟩ := List.mem_map.mp member
    simp [storeOp, Op.isCall]
  · rw [List.map_eq_nil_iff, List.filter_eq_nil_iff]
    intro op member
    obtain ⟨e, -, rfl⟩ := List.mem_map.mp member
    simp [storeOp, StateUpdate.isNested]

theorem callFree_decoded {update : Option StateUpdate} {skipped : Option Opcode}
    (decoded : decodeStructLog log = .ok (update, skipped)) (effect : effectful log.op = true)
    (kind : log.op ≠ .call) : CallFree (update.toList.map (Op.mk · n)) := by
  cases update with
  | none => exact ⟨rfl, rfl⟩
  | some u =>
    cases memory : log.memory with
    | none => cases decodeStructLog_noMemory decoded memory
    | some words =>
      obtain ⟨u', same, opcode, plain⟩ := decodeStructLog_effect decoded effect memory
      obtain rfl := Option.some.inj (Prod.mk.inj same).1
      have notCall : Op.isCall ⟨u, n⟩ = false := by
        cases u with
        | call c => exact absurd opcode.symm kind
        | _ => rfl
      simp [CallFree, callsOf, nestsOf, notCall, plain]

/-- The ops a step adds to the frame it runs in. -/
theorem Executed.emission (executed : Executed H elig candidates n log w w') :
    ∃ ops, w'.top.out = w.top.out ++ ops ∧
      (w.top.program = none → ops = []) ∧
      (w.top.program ≠ none → callsOf ops = if log.isCall && !handedTo elig candidates n log then [n] else []) ∧
      (w.top.program ≠ none → nestsOf ops = if log.isCall && handedTo elig candidates n log then [n] else []) := by
  have nothing : log.isCall = false → ∃ ops, w.top.out = w.top.out ++ ops ∧
      (w.top.program = none → ops = []) ∧
      (w.top.program ≠ none → callsOf ops = if log.isCall && !handedTo elig candidates n log then [n] else []) ∧
      (w.top.program ≠ none → nestsOf ops = if log.isCall && handedTo elig candidates n log then [n] else []) := by
    intro other
    exact ⟨[], by simp, fun _ => rfl, fun _ => by simp [other, callsOf], fun _ => by simp [other, nestsOf]⟩
  cases executed with
  | quiet silent =>
    apply nothing
    cases op : log.op <;> simp_all [StructLog.silent, StructLog.isCall, Opcode.opensFrame]
  | unowned kind => exact nothing (by simp [StructLog.isCall, kind])
  | stored kind =>
    rw [Walk.stored_top]
    exact nothing (by simp [StructLog.isCall, kind])
  | delegated kind | creates kind =>
    apply nothing
    cases op : log.op <;> simp_all [StructLog.isCall, Opcode.isDelegate, Opcode.isCreate]
  | observed kind => exact nothing (by simp [StructLog.isCall, kind])
  | called kind fine native =>
    exact ⟨[], by simp, fun _ => rfl, fun emits => absurd native emits, fun emits => absurd native emits⟩
  | logged kind fine emits decoded =>
    have other : log.op ≠ .call := by
      intro call
      rw [call] at kind
      cases kind
    have effect : effectful log.op = true := by simp [effectful, kind]
    obtain ⟨calls, nests⟩ := callFree_decoded (n := n) decoded effect other
    refine ⟨_, rfl, fun native => by simp [emits] at native, fun _ => ?_, fun _ => ?_⟩
    · simp [calls, StructLog.isCall, other]
    · simp [nests, StructLog.isCall, other]
  | @emitted id p c kind fine emits found decoded callee stays =>
    obtain ⟨calls, nests⟩ := callFree_slice n p.target w
    refine ⟨w.slice n p.target ++ [⟨.call c, n⟩], by simp [WalkFrame.emit, Walk.sliced_out], fun native => by simp [emits] at native, fun _ => ?_, fun _ => ?_⟩
    · rw [callsOf_append, calls]
      simp [StructLog.isCall, kind, fine, handedTo, stays]
    · rw [nestsOf_append, nests]
      simp [handedTo, stays]
  | @opened id p c index kind fine emits found decoded callee handed =>
    obtain ⟨calls, nests⟩ := callFree_slice n p.target w
    refine ⟨w.slice n p.target ++ [⟨.nested ⟨c.target, c.value, 0⟩, n⟩],
      by simp [openNested, WalkFrame.emit, Walk.sliced_out], fun native => by simp [emits] at native, fun _ => ?_, fun _ => ?_⟩
    · rw [callsOf_append, calls]
      simp [handedTo, handed]
    · rw [nestsOf_append, nests]
      simp [StructLog.isCall, kind, fine, handedTo, handed]
  | @deployed id p update kind fine emits found decoded =>
    have other : log.op ≠ .call := by
      intro call
      rw [call] at kind
      cases kind
    have effect : effectful log.op = true := by simp [effectful, kind]
    obtain ⟨calls, nests⟩ := callFree_slice n p.target w
    obtain ⟨calls', nests'⟩ := callFree_decoded (n := n) decoded effect other
    refine ⟨w.slice n p.target ++ update.toList.map (Op.mk · n), by simp [Walk.sliced_out], fun native => by simp [emits] at native, fun _ => ?_, fun _ => ?_⟩
    · simp [calls, calls', StructLog.isCall, other]
    · simp [nests, nests', StructLog.isCall, other]

theorem Executed.handed (executed : Executed H elig candidates n log w w') (emits : w.top.program ≠ none)
    (plain : ∀ p, w'.pending = some p → p.nestedStartGas = none) :
    (log.isCall && handedTo elig candidates n log) = false := by
  cases executed with
  | quiet silent => cases op : log.op <;> simp_all [StructLog.silent, StructLog.isCall, Opcode.opensFrame]
  | unowned kind | stored kind | observed kind => simp [StructLog.isCall, kind]
  | delegated kind | creates kind | logged kind | deployed kind =>
    cases op : log.op <;> simp_all [StructLog.isCall, Opcode.isDelegate, Opcode.isCreate, Opcode.isLog]
  | called kind fine native => exact absurd native emits
  | emitted kind fine emits found decoded callee stays => simp [handedTo, stays]
  | opened => cases plain _ rfl

/-! ### What a walk emits -/

/-- The ops of a walk, with the calls among them. -/
structure Emits (program : Option Nat) (ops : List Op) (calls nests : List Nat) : Prop where
  native : program = none → ops = []
  calls : program ≠ none → callsOf ops = calls
  nests : program ≠ none → nestsOf ops = nests

theorem Emits.append {program : Option Nat} {ops ops' : List Op} {calls calls' nests nests' : List Nat}
    (first : Emits program ops calls nests) (second : Emits program ops' calls' nests') :
    Emits program (ops ++ ops') (calls ++ calls') (nests ++ nests') where
  native is := by rw [first.native is, second.native is]; rfl
  calls is := by rw [callsOf_append, first.calls is, second.calls is]
  nests is := by rw [nestsOf_append, first.nests is, second.nests is]

theorem emits_inline (executed : Executed H elig candidates n log w w')
    (plain : ∀ p, w'.pending = some p → p.nestedStartGas = none) :
    ∃ ops, w'.top.out = w.top.out ++ ops ∧
      Emits w.top.program ops (if log.isCall && !handedTo elig candidates n log then [n] else []) [] := by
  obtain ⟨ops, out, native, calls, nests⟩ := executed.emission
  refine ⟨ops, out, native, calls, ?_⟩
  intro emits
  rw [nests emits, executed.handed emits plain]
  rfl

namespace CallTree

variable (handed : Nat → StructLog → Bool)

/-- The calls a call step and the frame it opens leave in its caller's program. -/
def enteredCalls (n : Nat) (call : StructLog) (body rest : CallTree) : List Nat :=
  if call.isCall then if handed n call then [] else [n]
  else if call.op.isDelegate && rest.succeeds then body.callSteps handed (n + 1) else []

def enteredNests (n : Nat) (call : StructLog) (body rest : CallTree) : List Nat :=
  if call.isCall then if handed n call && rest.succeeds then [n] else []
  else if call.op.isDelegate && rest.succeeds then body.nestSteps handed (n + 1) else []

end CallTree

theorem emits_enter {call first next : StructLog} {body rest : CallTree} {p : PendingFrame} {w w₁ w₂ w₃ : Walk}
    {ops : List Op} (executed : Executed H elig candidates n call w w₁) (free : w.pending = none)
    (fine : call.errored = false) (waits : w₁.pending = some p)
    (ran : Frames (pushFrame p first { w₁ with pending := none }) w₂) (out : w₂.top.out = ops)
    (inner : Emits p.program ops (body.callSteps (handedTo elig candidates) (n + 1))
      (body.nestSteps (handedTo elig candidates) (n + 1)))
    (resumes : rest.head? = some next) {step : Nat} (popped : popFrame step next w₂ = .ok w₃) :
    ∃ ops, w₃.top.out = w.top.out ++ ops ∧
      Emits w.top.program ops (CallTree.enteredCalls (handedTo elig candidates) n call body rest)
        (CallTree.enteredNests (handedTo elig candidates) n call body rest) := by
  obtain ⟨head, outHead, nativeHead, callsHead, nestsHead⟩ := executed.emission
  obtain ⟨g, others, flag, flagged, caller, -, pop⟩ := popped_of_frames ran popped
  have success := CallTree.succeeds_of_flag resumes flagged
  have outG : g.out = w.top.out ++ head := by rw [caller.out, outHead]
  have nested : w₂.top.nestedStartGas = p.nestedStartGas := ran.top.nestedStartGas
  have returned := pop.returned
  unfold CallTree.enteredCalls CallTree.enteredNests
  cases executed.role free waits with
  | delegate kind plain same =>
    have notCall : call.isCall = false := by
      cases op : call.op <;> simp_all [StructLog.isCall, Opcode.isDelegate]
    simp only [notCall, Bool.false_and, Bool.false_eq_true, if_false, kind, Bool.true_and] at *
    rw [← same] at nativeHead callsHead nestsHead ⊢
    have emitsHead : Emits p.program head [] [] := ⟨nativeHead, callsHead, nestsHead⟩
    generalize w₃.top = g'' at returned
    cases returned with
    | absorbed kept succ _ =>
      rw [success, decide_eq_true succ]
      refine ⟨head ++ ops, ?_, emitsHead.append inner⟩
      show _ ++ w₂.top.out = _
      rw [kept.out, outG, out, List.append_assoc]
    | discarded kept failure _ =>
      rw [success, decide_eq_false (not_not.mpr failure)]
      exact ⟨head, by rw [kept.out, outG], emitsHead⟩
    | merged _ _ isNested =>
      rw [nested, plain] at isNested
      cases isNested
    | retracted _ _ isNested =>
      rw [nested, plain] at isNested
      cases isNested
  | native kind plain none stays =>
    obtain rfl : ops = [] := inner.native none
    have unhanded : w.top.program ≠ Option.none → (call.isCall && handedTo elig candidates n call) = false := by
      intro emits
      by_cases op : call.op = .call
      · simp [handedTo, stays op emits]
      · simp [StructLog.isCall, op]
    have emitsHead : Emits w.top.program head
        (if call.isCall then if handedTo elig candidates n call then [] else [n]
          else if call.op.isDelegate && rest.succeeds then body.callSteps (handedTo elig candidates) (n + 1) else [])
        (if call.isCall then if handedTo elig candidates n call && rest.succeeds then [n] else []
          else if call.op.isDelegate && rest.succeeds then body.nestSteps (handedTo elig candidates) (n + 1)
          else []) := by
      refine ⟨nativeHead, ?_, ?_⟩
      · intro emits
        rw [callsHead emits, kind]
        cases call.isCall <;> cases handedTo elig candidates n call <;> rfl
      · intro emits
        rw [nestsHead emits, unhanded emits, kind]
        have := unhanded emits
        cases isCall : call.isCall <;> cases handed : handedTo elig candidates n call <;> simp_all
    generalize w₃.top = g'' at returned
    cases returned with
    | absorbed kept succ _ =>
      refine ⟨head, ?_, emitsHead⟩
      show _ ++ w₂.top.out = _
      rw [kept.out, outG, out, List.append_nil]
    | discarded kept failure _ => exact ⟨head, by rw [kept.out, outG], emitsHead⟩
    | merged _ _ isNested =>
      rw [nested, plain] at isNested
      cases isNested
    | retracted _ _ isNested =>
      rw [nested, plain] at isNested
      cases isNested
  | own kind isNested emits handed =>
    have isCall : call.isCall = true := by simp [StructLog.isCall, kind, fine]
    have isHanded : handedTo elig candidates n call = true := handed
    have noCalls : callsOf head = [] := by rw [callsHead emits, isCall, isHanded]; rfl
    have oneNest : nestsOf head = [n] := by rw [nestsHead emits, isCall, isHanded]; rfl
    rw [isCall, isHanded, success]
    generalize w₃.top = g'' at returned
    cases returned with
    | absorbed _ _ plain =>
      rw [← nested, plain] at isNested
      cases isNested
    | discarded _ _ plain =>
      rw [← nested, plain] at isNested
      cases isNested
    | merged kept succ _ =>
      rw [decide_eq_true succ]
      exact ⟨head, by show _ = _; rw [show (WalkFrame.mergeJournal _ _).out = _ from kept.out, outG],
        fun native => absurd native emits, fun _ => noCalls, fun _ => oneNest⟩
    | @retracted g₁ kept' x st kept failure _ last =>
      rw [decide_eq_false (not_not.mpr failure)]
      rw [outG] at last
      rcases List.eq_nil_or_concat head with empty | ⟨head', op, rfl⟩
      · rw [empty] at oneNest
        cases oneNest
      · rw [List.concat_eq_append, ← List.append_assoc] at last
        obtain ⟨same, isLast⟩ := List.append_inj' last rfl
        obtain rfl := List.singleton_inj.mp isLast
        rw [List.concat_eq_append] at noCalls oneNest
        refine ⟨head', same.symm, fun native => absurd native emits, fun _ => ?_, fun _ => ?_⟩
        · rw [callsOf_append, callsOf_nested, List.append_nil] at noCalls
          exact noCalls
        · rw [nestsOf_append, nestsOf_nested] at oneNest
          exact (List.append_eq_cons_iff.mp oneNest).resolve_right (by simp) |>.1

theorem Walked.emission {d : Nat} {t : CallTree} (walked : Walked H elig candidates n t w w')
    (wf : t.WellFormed d) (free : w.pending = none) :
    ∃ ops, w'.top.out = w.top.out ++ ops ∧
      Emits w.top.program ops (t.callSteps (handedTo elig candidates) n)
        (t.nestSteps (handedTo elig candidates) n) := by
  induction walked generalizing d with
  | done => exact ⟨[], by simp, fun _ => rfl, fun _ => rfl, fun _ => rfl⟩
  | last executed free' =>
    obtain ⟨ops, out, emits⟩ := emits_inline (exec_executed executed) (fun p waits => by
      rw [free'] at waits
      cases waits)
    refine ⟨ops, out, ?_⟩
    simpa [CallTree.callSteps, CallTree.nestSteps] using emits
  | @step n log next rest w w₁ w₂ w' executed head level entered tail ih =>
    have step := exec_executed executed
    have inline := frames_inline free executed level entered
    obtain ⟨ops, out, emits⟩ := emits_inline step (fun p => plain_inline step free level entered)
    obtain ⟨ops', out', emits'⟩ := ih wf.2.2 inline.free
    have between : w₂.top.out = w₁.top.out := (entered_kept free step level entered).1.out
    refine ⟨ops ++ ops', by rw [out', between, out, List.append_assoc], ?_⟩
    rw [inline.top.program] at emits'
    have both := emits.append emits'
    simpa [CallTree.callSteps, CallTree.nestSteps] using both
  | @enter n call first next body rest p w w₁ w₂ w₃ w' executed waits head inner resumes popped tail
      ihInner ihTail =>
    obtain ⟨carries, fine, opens, -, innerWf, -, tailWf⟩ := wf
    have ran := inner.frames rfl
    obtain ⟨ops, out, emits⟩ := ihInner innerWf rfl
    obtain ⟨g, others, flag, -, -, -, pop⟩ := popFrame_popped popped
    obtain ⟨ops', out', emits'⟩ := emits_enter (exec_executed executed) free fine waits ran out emits resumes
      popped
    obtain ⟨ops'', out'', emits''⟩ := ihTail tailWf (pop.pending.trans ran.free)
    have program : w₃.top.program = w.top.program :=
      (program_of_frames ran popped).trans (exec_executed executed).place.2.program
    rw [program] at emits''
    exact ⟨ops' ++ ops'', by rw [out'', out', List.append_assoc], emits'.append emits''⟩

end GasAnalyzer
