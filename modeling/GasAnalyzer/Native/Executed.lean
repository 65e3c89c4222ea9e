import GasAnalyzer.Effects.Executing
import GasAnalyzer.Nested.WalkSound

/-!
# What executing a step does

Every way a step executes, with the state it leaves. Everything later said of a step of the walk is a case
analysis on `Executed`; nothing else looks into the step functions.
-/

namespace GasAnalyzer

/-- A store in the context `ctx` of the top frame. -/
def Walk.stored (ctx : Address) (slot value : B256) (gas : UInt64) (w : Walk) : Walk :=
  match w.top.program with
  | some p => modifyProgram p (ProgramState.chargeStore ctx gas) (modifyTop (WalkFrame.write ctx slot value) w)
  | none => modifyTop (WalkFrame.write ctx slot value) w

@[simp] theorem Walk.stored_top (ctx : Address) (slot value : B256) (gas : UInt64) (w : Walk) :
    (w.stored ctx slot value gas).top = w.top.write ctx slot value := by
  unfold stored
  split <;> rfl

@[simp] theorem Walk.stored_below (ctx : Address) (slot value : B256) (gas : UInt64) (w : Walk) :
    (w.stored ctx slot value gas).below = w.below := by
  unfold stored
  split <;> rfl

@[simp] theorem Walk.stored_pending (ctx : Address) (slot value : B256) (gas : UInt64) (w : Walk) :
    (w.stored ctx slot value gas).pending = w.pending := by
  unfold stored
  split <;> rfl

/-- The top frame after a slice of its target. -/
def Walk.sliced (n : Nat) (target : Address) (w : Walk) : WalkFrame :=
  w.top.flushed n (visibleImage (w.top :: w.below) target)

/-- The stores of that slice. -/
def Walk.slice (n : Nat) (target : Address) (w : Walk) : List Op :=
  staleStores n w.top.emittedView (visibleImage (w.top :: w.below) target)

theorem Walk.sliced_out (n : Nat) (target : Address) (w : Walk) :
    (w.sliced n target).out = w.top.out ++ w.slice n target := rfl

/-- A step with nothing to record: it errored, or its opcode has no effect the walk follows. -/
def StructLog.silent (log : StructLog) (emits : Bool) : Bool :=
  log.errored || (log.op != .sstore && !log.op.opensFrame && !(log.op.isLog && emits))

section

variable (H : Hashes) (elig : Eligibility) (candidates : OrdMap Nat Candidate) (n : Nat) (log : StructLog)

inductive Executed (w : Walk) : Walk → Prop where
  | quiet {skipped : Finset Opcode} (silent : log.silent w.top.program.isSome = true) :
      Executed w { w with skippedOpcodes := skipped }
  /-- Initcode writes to a contract whose address no step tells yet. -/
  | unowned (kind : log.op = .sstore) (fine : log.errored = false) (context : w.top.storageCtx = none) :
      Executed w w
  | stored {ctx : Address} {slot value : B256} (kind : log.op = .sstore) (fine : log.errored = false)
      (context : w.top.storageCtx = some ctx) (first : log.top 0 = some slot) (second : log.top 1 = some value) :
      Executed w (w.stored ctx slot value log.gasCost)
  | logged {id : Nat} {update : Option StateUpdate} {skipped : Option Opcode} (kind : log.op.isLog = true)
      (fine : log.errored = false) (emits : w.top.program = some id)
      (decoded : decodeStructLog log = .ok (update, skipped)) :
      Executed w (modifyProgram id (ProgramState.chargeEffect log.gasCost)
        (modifyTop (fun f => { f with out := f.out ++ update.toList.map (Op.mk · n) }) w))
  | delegated (kind : log.op.isDelegate = true) (fine : log.errored = false) :
      Executed w { w with pending := some {
        parentDepth := log.depth
        storageCtx := w.top.storageCtx
        program := w.top.program
        emittedView := if w.top.program.isSome then w.top.emittedView else OrdMap.empty } }
  | observed (kind : log.op = .staticcall) (fine : log.errored = false) :
      Executed w { w with pending := some { parentDepth := log.depth, storageCtx := log.callee } }
  | called (kind : log.op = .call) (fine : log.errored = false) (native : w.top.program = none) :
      Executed w { w with pending := some {
        parentDepth := log.depth, storageCtx := log.callee, callGasCost := log.gasCost } }
  | emitted {id : Nat} {p : ProgramState} {c : Call} (kind : log.op = .call) (fine : log.errored = false)
      (emits : w.top.program = some id) (found : w.programs[id]? = some p)
      (decoded : decodeStructLog log = .ok (some (.call c), none)) (callee : log.callee = some c.target)
      (stays : elig.frameIndex (candidates.get n) log.callee = none) :
      Executed w { w with
        top := (w.sliced n p.target).emit ⟨.call c, n⟩
        pending := some {
          parentDepth := log.depth, storageCtx := log.callee, callGasCost := log.gasCost
          emittedCallGas := some log.gas } }
  | opened {id : Nat} {p : ProgramState} {c : Call} {index : U256} (kind : log.op = .call)
      (fine : log.errored = false) (emits : w.top.program = some id) (found : w.programs[id]? = some p)
      (decoded : decodeStructLog log = .ok (some (.call c), none)) (callee : log.callee = some c.target)
      (handed : elig.frameIndex (candidates.get n) log.callee = some index) :
      Executed w (openNested H n id index c log { w with top := w.sliced n p.target })
  | creates (kind : log.op.isCreate = true) (fine : log.errored = false) (native : w.top.program = none) :
      Executed w { w with pending := some { parentDepth := log.depth, storageCtx := none } }
  | deployed {id : Nat} {p : ProgramState} {update : Option StateUpdate} (kind : log.op.isCreate = true)
      (fine : log.errored = false) (emits : w.top.program = some id) (found : w.programs[id]? = some p)
      (decoded : decodeStructLog log = .ok (update, none)) :
      Executed w { w with
        top := { w.sliced n p.target with
          out := (w.sliced n p.target).out ++ update.toList.map (Op.mk · n) }
        pending := some {
          parentDepth := log.depth, storageCtx := none
          emittedCallGas := some log.gas, emittedCreate := true } }

end

variable {H : Hashes} {elig : Eligibility} {candidates : OrdMap Nat Candidate} {n : Nat} {log : StructLog}
variable {w w' : Walk}

theorem silent_of_errored {emits : Bool} (errored : log.errored = true) : log.silent emits = true := by
  simp [StructLog.silent, errored]

theorem execStore_executed (kind : log.op = .sstore) (executed : execStore log w = .ok w') :
    Executed H elig candidates n log w w' := by
  unfold execStore at executed
  split at executed
  · rename_i ctx context
    split at executed
    · rename_i errored
      obtain rfl := Except.ok.inj executed
      exact .quiet (silent_of_errored errored)
    · rename_i fine
      obtain ⟨stack, hasStack, executed⟩ := Outcome.bind_ok executed
      obtain ⟨slot, first, executed⟩ := Outcome.bind_ok executed
      obtain ⟨value, second, executed⟩ := Outcome.bind_ok executed
      simp only [Outcome.okOr_ok, index] at hasStack first second
      have shape : w' = w.stored ctx slot value log.gasCost := by
        unfold Walk.stored
        dsimp only [modifyTop] at executed
        change (match w.top.program with | some p => _ | none => _) = _ at executed
        split at executed
        · exact (Except.ok.inj executed).symm
        · exact (Except.ok.inj executed).symm
      subst shape
      exact .stored kind (by simpa using fine) context (by simp [StructLog.top, hasStack, first])
        (by simp [StructLog.top, hasStack, second])
  · rename_i context
    obtain rfl := Except.ok.inj executed
    by_cases errored : log.errored = true
    · exact .quiet (silent_of_errored errored)
    · exact .unowned kind (by simpa using errored) context

theorem execLog_executed (kind : log.op.isLog = true) (executed : execLog n log w = .ok w') :
    Executed H elig candidates n log w w' := by
  unfold execLog at executed
  split at executed
  · rename_i native
    obtain rfl := Except.ok.inj executed
    refine .quiet ?_
    cases op : log.op <;> simp_all [StructLog.silent, Opcode.isLog, Opcode.opensFrame]
  · rename_i id emits
    split at executed
    · rename_i errored
      obtain rfl := Except.ok.inj executed
      exact .quiet (silent_of_errored errored)
    · rename_i fine
      obtain ⟨⟨out, skipped⟩, appended, executed⟩ := Outcome.bind_ok executed
      obtain rfl := Except.ok.inj executed
      obtain ⟨update, decoded, rfl⟩ := append_ok appended
      exact .logged kind (by simpa using fine) emits decoded

theorem execDelegate_executed (kind : log.op.isDelegate = true) :
    Executed H elig candidates n log w (execDelegate log w) := by
  unfold execDelegate
  split
  · rename_i errored
    exact .quiet (silent_of_errored errored)
  · rename_i fine
    exact .delegated kind (by simpa using fine)

theorem execStaticcall_executed (kind : log.op = .staticcall) (executed : execStaticcall log w = .ok w') :
    Executed H elig candidates n log w w' := by
  unfold execStaticcall at executed
  split at executed
  · rename_i errored
    obtain rfl := Except.ok.inj executed
    exact .quiet (silent_of_errored errored)
  · rename_i fine
    obtain ⟨stack, -, executed⟩ := Outcome.bind_ok executed
    obtain rfl := Except.ok.inj executed
    exact .observed kind (by simpa using fine)

/-- A decoded `CALL` is a call of its callee. -/
theorem decodeStructLog_call {r : Option StateUpdate × Option Opcode} (kind : log.op = .call)
    (decoded : decodeStructLog log = .ok r) :
    r.2 = none ∧ ∀ u, r.1 = some u → ∃ c, u = .call c ∧ log.callee = some c.target :=
  ((decodeStructLog_upheld log).of_ok decoded).call kind

theorem execCall_executed (kind : log.op = .call) (executed : execCall H elig candidates n log w = .ok w') :
    Executed H elig candidates n log w w' := by
  unfold execCall at executed
  obtain ⟨stack, -, executed⟩ := Outcome.bind_ok executed
  dsimp only at executed
  split at executed
  · rename_i errored
    obtain rfl := Except.ok.inj executed
    exact .quiet (silent_of_errored errored)
  · rename_i fine
    replace fine : log.errored = false := by simpa using fine
    split at executed
    · rename_i native
      obtain rfl := Except.ok.inj executed
      exact .called kind fine native
    · rename_i id emits
      obtain ⟨v, flushed, executed⟩ := Outcome.bind_ok executed
      obtain ⟨⟨decoded, skipped⟩, decodes, executed⟩ := Outcome.bind_ok executed
      obtain ⟨id', p, emits', found, rfl⟩ := flushSlice_ok flushed
      obtain rfl : id = id' := Option.some.inj (emits.symm.trans emits')
      obtain ⟨unskipped, isCall⟩ := decodeStructLog_call kind decodes
      dsimp only at executed unskipped isCall
      subst unskipped
      rw [if_neg (by simp)] at executed
      split at executed
      · rename_i index c handed
        obtain rfl := Except.ok.inj executed
        obtain ⟨c', same, callee⟩ := isCall _ rfl
        obtain rfl := StateUpdate.call.inj same
        exact .opened kind fine emits found decodes callee handed
      · rename_i update stays
        obtain rfl := Except.ok.inj executed
        obtain ⟨c, rfl, callee⟩ := isCall _ rfl
        refine .emitted kind fine emits found decodes callee ?_
        cases handed : elig.frameIndex (candidates.get n) log.callee with
        | none => rfl
        | some index => exact absurd rfl (stays index c handed)
      · cases executed

theorem execCreate_executed (kind : log.op.isCreate = true) (executed : execCreate n log w = .ok w') :
    Executed H elig candidates n log w w' := by
  unfold execCreate at executed
  split at executed
  · rename_i errored
    obtain rfl := Except.ok.inj executed
    exact .quiet (silent_of_errored errored)
  · rename_i fine
    replace fine : log.errored = false := by simpa using fine
    split at executed
    · rename_i native
      obtain rfl := Except.ok.inj executed
      exact .creates kind fine native
    · rename_i id emits
      obtain ⟨v, flushed, executed⟩ := Outcome.bind_ok executed
      obtain ⟨⟨out, skipped⟩, appended, executed⟩ := Outcome.bind_ok executed
      obtain ⟨id', p, emits', found, rfl⟩ := flushSlice_ok flushed
      obtain rfl : id = id' := Option.some.inj (emits.symm.trans emits')
      obtain ⟨update, decoded, rfl⟩ := append_ok appended
      have unskipped : skipped = none := ((decodeStructLog_upheld log).of_ok decoded).create kind
      subst unskipped
      dsimp only at executed
      rw [if_neg (by simp)] at executed
      obtain rfl := Except.ok.inj executed
      exact .deployed kind fine emits found decoded

theorem exec_executed (executed : exec H elig candidates n log w = .ok w') :
    Executed H elig candidates n log w w' := by
  unfold exec at executed
  cases op : log.op with
  | sstore =>
    rw [op] at executed
    exact execStore_executed op executed
  | tstore | selfdestruct =>
    rw [op] at executed
    obtain rfl := Except.ok.inj executed
    unfold execUnsupported
    split <;> exact .quiet (by simp [StructLog.silent, op, Opcode.opensFrame, Opcode.isLog])
  | delegatecall | callcode =>
    rw [op] at executed
    obtain rfl := Except.ok.inj executed
    exact execDelegate_executed (by rw [op]; rfl)
  | staticcall =>
    rw [op] at executed
    exact execStaticcall_executed op executed
  | call =>
    rw [op] at executed
    exact execCall_executed op executed
  | create | create2 =>
    rw [op] at executed
    exact execCreate_executed (by rw [op]; rfl) executed
  | log0 | log1 | log2 | log3 | log4 =>
    rw [op] at executed
    exact execLog_executed (by rw [op]; rfl) executed
  | other name =>
    rw [op] at executed
    obtain rfl := Except.ok.inj executed
    exact .quiet (by simp [StructLog.silent, op, Opcode.opensFrame, Opcode.isLog])

/-- A step changes only the frame it runs in, and not its place. -/
structure SamePlace (f f' : WalkFrame) : Prop where
  depth : f'.depth = f.depth
  program : f'.program = f.program
  nestedStartGas : f'.nestedStartGas = f.nestedStartGas
  storageCtx : f'.storageCtx = f.storageCtx

theorem SamePlace.refl (f : WalkFrame) : SamePlace f f := ⟨rfl, rfl, rfl, rfl⟩

theorem SamePlace.trans {f f' f'' : WalkFrame} (first : SamePlace f f') (second : SamePlace f' f'') :
    SamePlace f f'' :=
  ⟨second.depth.trans first.depth, second.program.trans first.program,
    second.nestedStartGas.trans first.nestedStartGas, second.storageCtx.trans first.storageCtx⟩

theorem Kept.samePlace {f f' : WalkFrame} (kept : Kept f f') : SamePlace f f' :=
  ⟨kept.depth, kept.program, kept.nestedStartGas, kept.storageCtx⟩

theorem Returned.samePlace {flag : U256} {f g g' : WalkFrame} (returned : Returned flag f g g') :
    SamePlace g g' := by
  obtain ⟨program, context, nested⟩ := returned.program
  exact ⟨returned.depth, program, nested, context⟩

theorem Executed.place (executed : Executed H elig candidates n log w w') :
    w'.below = w.below ∧ SamePlace w.top w'.top := by
  cases executed with
  | stored =>
    rw [Walk.stored_top, Walk.stored_below]
    exact ⟨rfl, rfl, rfl, rfl, rfl⟩
  | _ => exact ⟨rfl, rfl, rfl, rfl, rfl⟩

/-- Only a step that can open a frame leaves one pending. -/
theorem Executed.pending (executed : Executed H elig candidates n log w w') (free : w.pending = none) :
    w'.pending.isSome = true ↔ log.errored = false ∧ log.op.opensFrame = true := by
  cases executed with
  | quiet silent =>
    simp only [free, Option.isSome_none, Bool.false_eq_true, false_iff, not_and]
    intro fine opens
    cases op : log.op <;> simp_all [StructLog.silent, Opcode.opensFrame, Opcode.isLog]
  | unowned kind => simp [free, kind, Opcode.opensFrame]
  | stored kind =>
    simp [free, kind, Opcode.opensFrame]
  | logged kind =>
    have opens : log.op.opensFrame = false := by
      cases op : log.op <;> simp_all [Opcode.opensFrame, Opcode.isLog]
    simp [modifyProgram, modifyTop, free, opens]
  | delegated kind fine | creates kind fine | deployed kind fine =>
    have opens : log.op.opensFrame = true := by
      cases op : log.op <;> simp_all [Opcode.opensFrame, Opcode.isDelegate, Opcode.isCreate]
    simp [fine, opens]
  | observed kind fine | called kind fine | emitted kind fine | opened kind fine =>
    simp [openNested, fine, kind, Opcode.opensFrame]

theorem Executed.waits (executed : Executed H elig candidates n log w w') (free : w.pending = none)
    {p : PendingFrame} (waits : w'.pending = some p) : p.parentDepth = log.depth := by
  cases executed with
  | quiet | unowned =>
    rw [free] at waits
    cases waits
  | stored =>
    rw [Walk.stored_pending, free] at waits
    cases waits
  | logged =>
    have waits : w.pending = some p := waits
    rw [free] at waits
    cases waits
  | _ =>
    obtain rfl := Option.some.inj waits
    rfl

/-- Whose program the frame a step opens emits into: its caller's, none, or one of its own. -/
inductive Role (elig : Eligibility) (candidates : OrdMap Nat Candidate) (n : Nat) (log : StructLog)
    (program : Option Nat) (p : PendingFrame) : Prop where
  | delegate (kind : log.op.isDelegate = true) (plain : p.nestedStartGas = none) (same : p.program = program)
  | native (kind : log.op.isDelegate = false) (plain : p.nestedStartGas = none) (none : p.program = none)
      (stays : log.op = .call → program ≠ Option.none →
        elig.frameIndex (candidates.get n) log.callee = Option.none)
  | own (kind : log.op = .call) (nested : p.nestedStartGas.isSome = true) (emits : program ≠ Option.none)
      (handed : (elig.frameIndex (candidates.get n) log.callee).isSome = true)

theorem Executed.role (executed : Executed H elig candidates n log w w') (free : w.pending = none)
    {p : PendingFrame} (waits : w'.pending = some p) : Role elig candidates n log w.top.program p := by
  cases executed with
  | quiet | unowned =>
    rw [free] at waits
    cases waits
  | stored =>
    rw [Walk.stored_pending, free] at waits
    cases waits
  | logged =>
    have waits : w.pending = some p := waits
    rw [free] at waits
    cases waits
  | delegated kind =>
    obtain rfl := Option.some.inj waits
    exact .delegate kind rfl rfl
  | observed kind | creates kind | deployed kind =>
    obtain rfl := Option.some.inj waits
    refine .native ?_ rfl rfl ?_
    · cases op : log.op <;> simp_all [Opcode.isDelegate, Opcode.isCreate]
    · intro call
      rw [call] at kind
      cases kind
  | called kind fine native =>
    obtain rfl := Option.some.inj waits
    exact .native (by rw [kind]; rfl) rfl rfl (fun _ emits => absurd native emits)
  | emitted kind fine emits found decoded callee stays =>
    obtain rfl := Option.some.inj waits
    exact .native (by rw [kind]; rfl) rfl rfl (fun _ _ => stays)
  | opened kind fine emits found decoded callee handed =>
    obtain rfl := Option.some.inj waits
    exact .own kind rfl (by rw [emits]; exact Option.some_ne_none _) (by rw [handed]; rfl)

end GasAnalyzer
