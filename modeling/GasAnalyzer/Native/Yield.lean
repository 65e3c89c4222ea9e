import GasAnalyzer.Effects.Decoding
import GasAnalyzer.Native.Closure
import GasAnalyzer.Native.Programs

/-!
# What the walk yields with nothing nested

The ops, gas figures and skipped opcodes that a step adds to the program it emits into when no callee is given
a frame of its own, up to the next step of its frame.
-/

namespace GasAnalyzer

open CallTree (Record)

/-- No callee is given a frame of its own. -/
def Unhanded (elig : Eligibility) (candidates : OrdMap Nat Candidate) : Prop :=
  ∀ n callee, elig.frameIndex (candidates.get n) callee = none

/-- The ops of a program but its stores. -/
def nonStores (ops : List Op) : List Op := ops.filter (fun op => !op.update.isStore)

@[simp] theorem nonStores_append (xs ys : List Op) : nonStores (xs ++ ys) = nonStores xs ++ nonStores ys := by
  simp [nonStores]

/-- The opcodes a program replays as they are. -/
def Opcode.emitted : Opcode → Bool
  | call | create | create2 | log0 | log1 | log2 | log3 | log4 => true
  | _ => false

/-- The opcodes the walk reports as skipped. -/
def Opcode.unsupported (op : Opcode) : Bool := op == .tstore || op == .selfdestruct

/-- What a part of the walk adds to the program it emits into. -/
@[ext] structure Yield where
  ops : List Op := []
  callGas : UInt64 := 0
  calleeGas : UInt64 := 0
  createGas : UInt64 := 0
  skipped : Finset Opcode := ∅

def Yield.add (a b : Yield) : Yield where
  ops := a.ops ++ b.ops
  callGas := a.callGas + b.callGas
  calleeGas := a.calleeGas + b.calleeGas
  createGas := a.createGas + b.createGas
  skipped := a.skipped ∪ b.skipped

theorem Yield.nothing_add (a : Yield) : Yield.add {} a = a := by
  ext <;> simp [Yield.add]

theorem Yield.add_nothing (a : Yield) : a.add {} = a := by
  ext <;> simp [Yield.add]

theorem Yield.add_assoc (a b c : Yield) : (a.add b).add c = a.add (b.add c) := by
  ext <;> simp [Yield.add, UInt64.add_assoc]

/-- The ops a step adds, but for the stores of its slice. -/
def stepOps (n : Nat) (log : StructLog) : List Op :=
  if !log.errored && log.op.emitted then log.update?.toList.map (Op.mk · n) else []

def stepSkips (log : StructLog) : Finset Opcode := if log.op.unsupported then {log.op} else ∅

/-- What a step adds, once the frame it opened, if any, is over. -/
def stepYield (n : Nat) (r : Record) : Yield where
  ops := stepOps n r.log
  callGas := if !r.log.errored && r.log.op == .call then r.gasUsed else 0
  calleeGas := if !r.log.errored && r.log.op == .call then r.calleeGas else 0
  createGas := if !r.log.errored && r.log.op.isCreate then r.gasUsed else 0
  skipped := stepSkips r.log

/-- What a frame and its delegate frames add; a delegate frame that fails leaves only what it skipped. -/
def CallTree.yield : Nat → CallTree → Yield
  | _, .done => {}
  | n, .step log rest => (stepYield n ⟨log, none, rest.startGas.getD 0⟩).add (rest.yield (n + 1))
  | n, .enter call body rest => (stepYield n ⟨call, body.startGas, rest.startGas.getD 0⟩).add
      ((if call.op.isDelegate then
          if rest.succeeds then body.yield (n + 1) else { skipped := (body.yield (n + 1)).skipped }
        else {}).add (rest.yield (n + 1 + body.size)))

/-! ### Frames -/

/-- What a frame was opened with. -/
structure Fixed (f f' : WalkFrame) : Prop where
  depth : f'.depth = f.depth
  storageCtx : f'.storageCtx = f.storageCtx
  program : f'.program = f.program
  entryGas : f'.entryGas = f.entryGas
  callGasCost : f'.callGasCost = f.callGasCost
  emittedCallGas : f'.emittedCallGas = f.emittedCallGas
  emittedCreate : f'.emittedCreate = f.emittedCreate
  nestedStartGas : f'.nestedStartGas = f.nestedStartGas
  firstProgram : f'.firstProgram = f.firstProgram

theorem Fixed.refl (f : WalkFrame) : Fixed f f := ⟨rfl, rfl, rfl, rfl, rfl, rfl, rfl, rfl, rfl⟩

theorem Fixed.trans {f f' f'' : WalkFrame} (first : Fixed f f') (second : Fixed f' f'') : Fixed f f'' where
  depth := second.depth.trans first.depth
  storageCtx := second.storageCtx.trans first.storageCtx
  program := second.program.trans first.program
  entryGas := second.entryGas.trans first.entryGas
  callGasCost := second.callGasCost.trans first.callGasCost
  emittedCallGas := second.emittedCallGas.trans first.emittedCallGas
  emittedCreate := second.emittedCreate.trans first.emittedCreate
  nestedStartGas := second.nestedStartGas.trans first.nestedStartGas
  firstProgram := second.firstProgram.trans first.firstProgram

/-- `f'` is `f` but for its view. -/
def Held (f f' : WalkFrame) : Prop := f' = { f with emittedView := f'.emittedView }

theorem held_refl (f : WalkFrame) : Held f f := rfl

theorem Held.trans {f f' f'' : WalkFrame} (first : Held f f') (second : Held f' f'') : Held f f'' := by
  unfold Held at first second ⊢
  rw [second, first]

theorem held_forget (programs : List ProgramState) (journal : Journal) (f : WalkFrame) :
    Held f (forgetSlots programs journal f) := by
  unfold Held
  rw [forgetSlots_eq]

theorem forall₂_held_refl (fs : List WalkFrame) : List.Forall₂ Held fs fs :=
  List.forall₂_same.mpr fun f _ => held_refl f

theorem forall₂_held_trans {fs fs' fs'' : List WalkFrame} (first : List.Forall₂ Held fs fs')
    (second : List.Forall₂ Held fs' fs'') : List.Forall₂ Held fs fs'' := by
  induction first generalizing fs'' with
  | nil => exact second
  | cons held _ ih =>
    cases second with
    | cons held' rest => exact .cons (held.trans held') (ih rest)

theorem forall₂_held_forget (programs : List ProgramState) (journal : Journal) (fs : List WalkFrame) :
    List.Forall₂ Held fs (fs.map (forgetSlots programs journal)) :=
  List.forall₂_map_right_iff.mpr (List.forall₂_same.mpr fun f _ => held_forget programs journal f)

/-- A program without what charging it changes. -/
def ProgramState.costless (p : ProgramState) : ProgramState := { p with effectGas := 0, childCallGas := 0 }

/-- What running code with nothing nested leaves. -/
structure Yields (y : Yield) (w w' : Walk) : Prop where
  free : w'.pending = none
  top : Fixed w.top w'.top
  ops : nonStores w'.top.out = nonStores w.top.out ++ y.ops
  callGas : w'.top.callGas = w.top.callGas + y.callGas
  calleeGas : w'.top.calleeGas = w.top.calleeGas + y.calleeGas
  createGas : w'.top.createGas = w.top.createGas + y.createGas
  below : List.Forall₂ Held w.below w'.below
  programs : w'.programs.map ProgramState.costless = w.programs.map ProgramState.costless
  skipped : w'.skippedOpcodes = w.skippedOpcodes ∪ y.skipped

theorem Yields.nothing {w : Walk} (free : w.pending = none) : Yields {} w w := by
  refine ⟨free, Fixed.refl _, ?_, ?_, ?_, ?_, forall₂_held_refl _, rfl, ?_⟩ <;> simp

theorem Yields.trans {a b : Yield} {w w' w'' : Walk} (first : Yields a w w') (second : Yields b w' w'') :
    Yields (a.add b) w w'' where
  free := second.free
  top := first.top.trans second.top
  ops := by rw [second.ops, first.ops, List.append_assoc]; rfl
  callGas := by rw [second.callGas, first.callGas, UInt64.add_assoc]; rfl
  calleeGas := by rw [second.calleeGas, first.calleeGas, UInt64.add_assoc]; rfl
  createGas := by rw [second.createGas, first.createGas, UInt64.add_assoc]; rfl
  below := forall₂_held_trans first.below second.below
  programs := second.programs.trans first.programs
  skipped := by rw [second.skipped, first.skipped, Finset.union_assoc]; rfl

/-! ### One step -/

section

variable {H : Hashes} {elig : Eligibility} {candidates : OrdMap Nat Candidate} {n : Nat} {log next : StructLog}
variable {w w₁ w' : Walk}

/-- The frame a step is about to open, the top frame being `f`. -/
def opening (log : StructLog) (f : WalkFrame) : PendingFrame where
  parentDepth := log.depth
  storageCtx := if log.op.isDelegate then f.storageCtx else if log.op.isCreate then none else log.callee
  program := if log.op.isDelegate then f.program else none
  emittedView := if log.op.isDelegate && f.program.isSome then f.emittedView else OrdMap.empty
  emittedCallGas := if f.program.isSome && (log.op == .call || log.op.isCreate) then some log.gas else none
  emittedCreate := f.program.isSome && log.op.isCreate
  callGasCost := if log.op = .call then log.gasCost else 0

/-- What executing a step leaves. -/
structure Stepped (n : Nat) (log : StructLog) (w w₁ : Walk) : Prop where
  top : Fixed w.top w₁.top
  gas : w₁.top.callGas = w.top.callGas ∧ w₁.top.calleeGas = w.top.calleeGas ∧ w₁.top.createGas = w.top.createGas
  ops : nonStores w₁.top.out = nonStores w.top.out ++ if w.top.program.isSome then stepOps n log else []
  below : w₁.below = w.below
  programs : w₁.programs.map ProgramState.costless = w.programs.map ProgramState.costless
  skipped : w₁.skippedOpcodes = w.skippedOpcodes ∪ if w.top.program.isSome then stepSkips log else ∅
  pending : w₁.pending = if !log.errored && log.op.opensFrame then some (opening log w.top) else none

/-- What the walk needs of a step to execute it in a frame that emits or not. -/
structure Executable (emits : Bool) (log : StructLog) : Prop where
  stack : log.stack.isSome = true
  memory : log.memory.isSome = true
  stores : log.op = .sstore → log.errored = false → 2 ≤ (log.stack.getD []).length
  decodes : emits = true → log.op.emitted = true → log.errored = false → log.Decodes

theorem decoded_of_executable (executable : Executable true log) (kind : log.op.emitted = true)
    (fine : log.errored = false) :
    ∃ u, decodeStructLog log = .ok (some u, none) ∧ log.update? = some u ∧ u.isStore = false := by
  obtain ⟨r, decoded⟩ := executable.decodes rfl kind fine
  obtain ⟨words, memory⟩ := Option.isSome_iff_exists.mp executable.memory
  have effect : effectful log.op = true := by
    cases op : log.op <;> simp_all [Opcode.emitted, effectful, Opcode.isLog, Opcode.isCreate]
  obtain ⟨u, rfl, opcode, -⟩ := decodeStructLog_effect decoded effect memory
  refine ⟨u, decoded, by simp [StructLog.update?, decoded], ?_⟩
  cases u with
  | store s =>
    rw [← opcode] at kind
    cases kind
  | _ => rfl

theorem exec_answers (unhanded : Unhanded elig candidates)
    (exists' : ∀ id, w.top.program = some id → id < w.programs.length)
    (executable : Executable w.top.program.isSome log) : ∃ w₁, exec H elig candidates n log w = .ok w₁ := by
  obtain ⟨stack, hasStack⟩ := Option.isSome_iff_exists.mp executable.stack
  have flushes : ∀ id, w.top.program = some id → ∃ v, flushSlice n w = .ok v := by
    intro id emits
    exact ⟨_, flushSlice_eq emits (List.getElem?_eq_getElem (exists' id emits))⟩
  unfold exec
  cases op : log.op with
  | tstore | selfdestruct | delegatecall | callcode | other => exact ⟨_, rfl⟩
  | sstore =>
    show ∃ w₁, execStore log w = .ok w₁
    unfold execStore
    split
    · split
      · exact ⟨_, rfl⟩
      · rename_i fine
        have long := executable.stores op (by simpa using fine)
        rw [hasStack] at long ⊢
        replace long : 2 ≤ stack.reverse.length := by simpa using long
        have first : stack.reverse[0]? = some _ := List.getElem?_eq_getElem (by omega)
        have second : stack.reverse[1]? = some _ := List.getElem?_eq_getElem (by omega)
        simp only [okOr, index, first, second, Outcome.ok_bind]
        split <;> exact ⟨_, rfl⟩
    · exact ⟨_, rfl⟩
  | staticcall =>
    show ∃ w₁, execStaticcall log w = .ok w₁
    unfold execStaticcall
    rw [hasStack]
    split <;> exact ⟨_, rfl⟩
  | call =>
    show ∃ w₁, execCall H elig candidates n log w = .ok w₁
    unfold execCall
    rw [hasStack]
    simp only [okOr, Outcome.ok_bind]
    split
    · exact ⟨_, rfl⟩
    · rename_i fine
      cases emits : w.top.program with
      | none => exact ⟨_, rfl⟩
      | some id =>
        rw [emits] at executable
        obtain ⟨v, flushed⟩ := flushes id emits
        obtain ⟨u, decoded, -, -⟩ := decoded_of_executable executable (by rw [op]; rfl) (by simpa using fine)
        obtain ⟨-, isCall⟩ := decodeStructLog_call op decoded
        obtain ⟨c, rfl, -⟩ := isCall u rfl
        simp [flushed, decoded, unhanded n log.callee]
  | create | create2 =>
    show ∃ w₁, execCreate n log w = .ok w₁
    unfold execCreate
    split
    · exact ⟨_, rfl⟩
    · rename_i fine
      cases emits : w.top.program with
      | none => exact ⟨_, rfl⟩
      | some id =>
        rw [emits] at executable
        obtain ⟨v, flushed⟩ := flushes id emits
        obtain ⟨u, decoded, -, -⟩ := decoded_of_executable executable (by rw [op]; rfl) (by simpa using fine)
        simp [flushed, appendStateUpdateFromStructLog, decoded]
  | log0 | log1 | log2 | log3 | log4 =>
    show ∃ w₁, execLog n log w = .ok w₁
    unfold execLog
    cases emits : w.top.program with
    | none => exact ⟨_, rfl⟩
    | some id =>
      simp only
      split
      · exact ⟨_, rfl⟩
      · rename_i fine
        rw [emits] at executable
        obtain ⟨u, decoded, -, -⟩ := decoded_of_executable executable (by rw [op]; rfl) (by simpa using fine)
        simp [appendStateUpdateFromStructLog, decoded]

/-- A step with nothing to record leaves the walk as it is, but for the opcode it skips. -/
theorem exec_silent (silent : log.silent w.top.program.isSome = true) (kind : log.op.unsupported = false)
    (executed : exec H elig candidates n log w = .ok w₁) : w₁ = w := by
  have stays : ∀ {x : Result Walk}, x = .ok w → x = .ok w₁ → w₁ = w := by
    intro x same answer
    rw [same] at answer
    exact (Except.ok.inj answer).symm
  unfold exec at executed
  cases op : log.op with
  | tstore | selfdestruct =>
    rw [op] at kind
    cases kind
  | other =>
    rw [op] at executed
    exact (Except.ok.inj executed).symm
  | sstore =>
    have errored : log.errored = true := by simpa [StructLog.silent, op, Opcode.opensFrame] using silent
    rw [op] at executed
    refine stays ?_ executed
    simp only [execStore, errored, if_true]
    split <;> rfl
  | delegatecall | callcode =>
    have errored : log.errored = true := by simpa [StructLog.silent, op, Opcode.opensFrame] using silent
    rw [op] at executed
    exact stays (by simp [execDelegate, errored]) executed
  | staticcall =>
    have errored : log.errored = true := by simpa [StructLog.silent, op, Opcode.opensFrame] using silent
    rw [op] at executed
    exact stays (by simp [execStaticcall, errored]) executed
  | call =>
    have errored : log.errored = true := by simpa [StructLog.silent, op, Opcode.opensFrame] using silent
    rw [op] at executed
    obtain ⟨stack, -, executed⟩ := Outcome.bind_ok executed
    simp only [errored, if_true] at executed
    exact (Except.ok.inj executed).symm
  | create | create2 =>
    have errored : log.errored = true := by simpa [StructLog.silent, op, Opcode.opensFrame] using silent
    rw [op] at executed
    exact stays (by simp [execCreate, errored]) executed
  | log0 | log1 | log2 | log3 | log4 =>
    rw [op] at executed
    refine stays ?_ executed
    unfold execLog
    cases emits : w.top.program with
    | none => rfl
    | some id =>
      have errored : log.errored = true := by
        simpa [StructLog.silent, op, Opcode.opensFrame, Opcode.isLog, emits] using silent
      simp [errored]

theorem exec_skipped (executed : exec H elig candidates n log w = .ok w₁) :
    w₁.skippedOpcodes = w.skippedOpcodes ∪ if w.top.program.isSome then stepSkips log else ∅ := by
  by_cases kind : log.op.unsupported = true
  · have same : w₁ = execUnsupported log w := by
      unfold exec at executed
      cases op : log.op with
      | tstore | selfdestruct =>
        rw [op] at executed
        exact (Except.ok.inj executed).symm
      | _ =>
        rw [op] at kind
        cases kind
    rw [same, stepSkips, if_pos kind]
    unfold execUnsupported
    split
    · rw [Finset.union_comm]
      rfl
    · simp
  · have kind : log.op.unsupported = false := by simpa using kind
    have nothing : (if w.top.program.isSome then stepSkips log else ∅) = ∅ := by simp [stepSkips, kind]
    rw [nothing, Finset.union_empty]
    have step := exec_executed executed
    cases step with
    | quiet silent => rw [exec_silent silent kind executed]
    | stored =>
      unfold Walk.stored
      split <;> rfl
    | _ => rfl

theorem nonStores_slice (n : Nat) (target : Address) (w : Walk) : nonStores (w.slice n target) = [] := by
  unfold nonStores Walk.slice staleStores
  rw [List.filter_eq_nil_iff]
  intro op member
  obtain ⟨e, -, rfl⟩ := List.mem_map.mp member
  simp [storeOp, StateUpdate.isStore]

theorem costless_modify {f : ProgramState → ProgramState} (same : ∀ p, (f p).costless = p.costless)
    (programs : List ProgramState) (id : Nat) :
    (programs.modify id f).map ProgramState.costless = programs.map ProgramState.costless :=
  map_modify same programs id

/-- Executing a step, with nothing nested. -/
theorem exec_stepped (unhanded : Unhanded elig candidates) (free : w.pending = none)
    (memory : log.memory.isSome = true) (executed : exec H elig candidates n log w = .ok w₁) :
    Stepped n log w w₁ := by
  have skipped := exec_skipped executed
  obtain ⟨words, hasMemory⟩ := Option.isSome_iff_exists.mp memory
  have decodedOps : ∀ {update : Option StateUpdate} {skipped : Option Opcode}, log.op.emitted = true →
      log.errored = false → decodeStructLog log = .ok (update, skipped) →
      nonStores (update.toList.map (Op.mk · n)) = stepOps n log := by
    intro update skipped kind fine decoded
    have effect : effectful log.op = true := by
      cases op : log.op <;> simp_all [Opcode.emitted, effectful, Opcode.isLog, Opcode.isCreate]
    obtain ⟨u, same, opcode, -⟩ := decodeStructLog_effect decoded effect hasMemory
    obtain ⟨rfl, rfl⟩ := Prod.mk.inj same
    have notStore : u.isStore = false := by
      cases u with
      | store s =>
        rw [← opcode] at kind
        cases kind
      | _ => rfl
    simp [stepOps, fine, kind, StructLog.update?, decoded, nonStores, notStore]
  have step := exec_executed executed
  cases step with
  | quiet silent =>
    have ops : (if w.top.program.isSome then stepOps n log else []) = [] := by
      by_cases emits : w.top.program.isSome = true
      · rw [if_pos emits]
        unfold stepOps
        rw [if_neg]
        rw [emits] at silent
        cases op : log.op <;> simp_all [StructLog.silent, Opcode.emitted, Opcode.opensFrame, Opcode.isLog]
      · rw [if_neg emits]
    refine ⟨Fixed.refl _, ⟨rfl, rfl, rfl⟩, ?_, rfl, rfl, skipped, ?_⟩
    · rw [ops, List.append_nil]
    · show w.pending = _
      rw [free, if_neg]
      cases op : log.op <;> simp_all [StructLog.silent, Opcode.opensFrame]
  | unowned kind fine context =>
    have ops : stepOps n log = [] := by simp [stepOps, kind, Opcode.emitted]
    refine ⟨Fixed.refl _, ⟨rfl, rfl, rfl⟩, ?_, rfl, rfl, skipped, ?_⟩
    · simp [ops]
    · simp [free, kind, Opcode.opensFrame]
  | stored kind fine context first second =>
    have ops : stepOps n log = [] := by simp [stepOps, kind, Opcode.emitted]
    refine ⟨?_, ?_, ?_, ?_, ?_, skipped, ?_⟩
    · rw [Walk.stored_top]
      constructor <;> rfl
    · rw [Walk.stored_top]
      exact ⟨rfl, rfl, rfl⟩
    · rw [Walk.stored_top]
      simp [ops, WalkFrame.write]
    · exact Walk.stored_below _ _ _ _ _
    · unfold Walk.stored
      split
      · apply costless_modify
        intro p
        unfold ProgramState.chargeStore
        split <;> rfl
      · rfl
    · simp [free, kind, Opcode.opensFrame]
  | @logged id update skipped' kind fine emits decoded =>
    have emitted : log.op.emitted = true := by
      cases op : log.op <;> simp_all [Opcode.emitted, Opcode.isLog]
    have opens : log.op.opensFrame = false := by
      cases op : log.op <;> simp_all [Opcode.opensFrame, Opcode.isLog]
    refine ⟨by constructor <;> rfl, ⟨rfl, rfl, rfl⟩, ?_, rfl, ?_, skipped, ?_⟩
    · show nonStores (w.top.out ++ _) = _
      rw [nonStores_append, decodedOps emitted fine decoded]
      simp [emits]
    · apply costless_modify
      intro p
      rfl
    · show w.pending = _
      simp [free, opens]
  | delegated kind fine =>
    have opens : log.op.opensFrame = true := by
      cases op : log.op <;> simp_all [Opcode.opensFrame, Opcode.isDelegate]
    have silent : log.op.emitted = false ∧ log.op.isCreate = false ∧ log.op ≠ .call := by
      cases op : log.op <;> simp_all [Opcode.emitted, Opcode.isDelegate, Opcode.isCreate]
    obtain ⟨quiet, notCreate, notCall⟩ := silent
    refine ⟨Fixed.refl _, ⟨rfl, rfl, rfl⟩, ?_, rfl, rfl, skipped, ?_⟩
    · simp [stepOps, quiet]
    · simp [fine, opens, opening, kind, notCreate, notCall]
  | observed kind fine =>
    refine ⟨Fixed.refl _, ⟨rfl, rfl, rfl⟩, ?_, rfl, rfl, skipped, ?_⟩
    · simp [stepOps, kind, Opcode.emitted]
    · simp [fine, opening, kind, Opcode.isDelegate, Opcode.isCreate, Opcode.opensFrame]
  | called kind fine native =>
    refine ⟨Fixed.refl _, ⟨rfl, rfl, rfl⟩, ?_, rfl, rfl, skipped, ?_⟩
    · simp [native]
    · simp [fine, opening, kind, native, Opcode.isDelegate, Opcode.isCreate, Opcode.opensFrame]
  | @emitted id p c kind fine emits found decoded callee stays =>
    refine ⟨by constructor <;> rfl, ⟨rfl, rfl, rfl⟩, ?_, rfl, rfl, skipped, ?_⟩
    · have one := decodedOps (by rw [kind]; rfl) fine decoded
      show nonStores ((w.sliced n p.target).out ++ [⟨.call c, n⟩]) = _
      rw [Walk.sliced_out, nonStores_append, nonStores_append, nonStores_slice, List.append_nil, emits]
      simpa using one
    · simp [fine, opening, kind, emits, Opcode.isDelegate, Opcode.isCreate, Opcode.opensFrame]
  | opened kind fine emits found decoded callee handed =>
    rw [unhanded] at handed
    cases handed
  | creates kind fine native =>
    have opens : log.op.opensFrame = true ∧ log.op.isDelegate = false ∧ log.op ≠ .call := by
      cases op : log.op <;> simp_all [Opcode.opensFrame, Opcode.isDelegate, Opcode.isCreate]
    obtain ⟨opens, notDelegate, notCall⟩ := opens
    refine ⟨Fixed.refl _, ⟨rfl, rfl, rfl⟩, ?_, rfl, rfl, skipped, ?_⟩
    · simp [native]
    · simp [fine, opening, kind, native, opens, notDelegate, notCall]
  | @deployed id p update kind fine emits found decoded =>
    have opens : log.op.opensFrame = true ∧ log.op.isDelegate = false ∧ log.op ≠ .call := by
      cases op : log.op <;> simp_all [Opcode.opensFrame, Opcode.isDelegate, Opcode.isCreate]
    obtain ⟨opens, notDelegate, notCall⟩ := opens
    have emitted : log.op.emitted = true := by
      cases op : log.op <;> simp_all [Opcode.emitted, Opcode.isCreate]
    refine ⟨by constructor <;> rfl, ⟨rfl, rfl, rfl⟩, ?_, rfl, rfl, skipped, ?_⟩
    · have one := decodedOps emitted fine decoded
      show nonStores ((w.sliced n p.target).out ++ _) = _
      rw [Walk.sliced_out, nonStores_append, nonStores_append, nonStores_slice, List.append_nil, one, emits]
      rfl
    · simp [fine, opening, kind, emits, opens, notDelegate, notCall]

/-! ### Calls that open no frame -/

/-- What a step yields in the frame it runs in. -/
def Yield.when (emits : Bool) (y : Yield) : Yield := if emits then y else {}

theorem costless_chargeCall (create : Bool) (gas callee : UInt64) (w : Walk) :
    (chargeCall create gas callee w).programs.map ProgramState.costless = w.programs.map ProgramState.costless := by
  unfold chargeCall chargeProgram
  split
  · apply costless_modify
    intro p
    rfl
  · rfl

theorem chargeCall_top (create : Bool) (gas callee : UInt64) (w : Walk) :
    (chargeCall create gas callee w).top = w.top.charge create gas callee :=
  (chargeProgram_frames gas (modifyTop (WalkFrame.charge create gas callee) w)).1

theorem chargeCall_skipped (create : Bool) (gas callee : UInt64) (w : Walk) :
    (chargeCall create gas callee w).skippedOpcodes = w.skippedOpcodes := by
  unfold chargeCall chargeProgram
  split <;> rfl

theorem fixed_charge (create : Bool) (gas callee : UInt64) (f : WalkFrame) :
    Fixed f (f.charge create gas callee) := by
  unfold WalkFrame.charge
  split <;> constructor <;> rfl

/-- What charging a finished call or create yields. -/
def chargeYield (create : Bool) (gas callee : UInt64) : Yield where
  callGas := if create then 0 else gas
  calleeGas := if create then 0 else callee
  createGas := if create then gas else 0

theorem yields_chargeCall (create : Bool) (gas callee : UInt64) {w : Walk} (free : w.pending = none) :
    Yields (chargeYield create gas callee) w (chargeCall create gas callee w) := by
  obtain ⟨kept, below, pending⟩ := chargeCall_frames create gas callee w
  refine ⟨pending.trans free, ?_, ?_, ?_, ?_, ?_, ?_, costless_chargeCall _ _ _ _, ?_⟩
  · rw [chargeCall_top]
    exact fixed_charge _ _ _ _
  · rw [kept.out]
    simp [chargeYield]
  · rw [chargeCall_top]
    cases create <;> simp [WalkFrame.charge, chargeYield]
  · rw [chargeCall_top]
    cases create <;> simp [WalkFrame.charge, chargeYield]
  · rw [chargeCall_top]
    cases create <;> simp [WalkFrame.charge, chargeYield]
  · rw [below]
    exact forall₂_held_refl _
  · rw [chargeCall_skipped]
    simp [chargeYield]

/-- What a step yields before the frame it opens, if any, is over. -/
theorem Stepped.yields (stepped : Stepped n log w w₁) :
    Yields (Yield.when w.top.program.isSome { ops := stepOps n log, skipped := stepSkips log }) w
      { w₁ with pending := none } := by
  obtain ⟨callGas, calleeGas, createGas⟩ := stepped.gas
  have ops := stepped.ops
  have skipped := stepped.skipped
  refine ⟨rfl, stepped.top, ?_, ?_, ?_, ?_, ?_, stepped.programs, ?_⟩
  · rw [show nonStores _ = _ from ops]
    cases w.top.program.isSome <;> rfl
  · rw [show _ = _ from callGas]
    cases w.top.program.isSome <;> simp [Yield.when]
  · rw [show _ = _ from calleeGas]
    cases w.top.program.isSome <;> simp [Yield.when]
  · rw [show _ = _ from createGas]
    cases w.top.program.isSome <;> simp [Yield.when]
  · rw [show _ = _ from stepped.below]
    exact forall₂_held_refl _
  · rw [show _ = _ from skipped]
    cases w.top.program.isSome <;> rfl

theorem enterPending_waits {p : PendingFrame} (waits : w₁.pending = some p)
    (elsewhere : next.depth ≠ p.parentDepth + 1) (plain : p.nestedStartGas = none)
    (deployed : p.emittedCreate = true → next.deployedNothing = false) :
    enterPending next w₁ = .ok (match p.emittedCallGas with
      | none => { w₁ with pending := none }
      | some gas => chargeCall p.emittedCreate (satSub gas next.gas) 0 { w₁ with pending := none }) := by
  have created : ¬(p.emittedCreate && next.deployedNothing) = true := by
    intro both
    obtain ⟨create, nothing⟩ := Bool.and_eq_true_iff.mp both
    rw [deployed create] at nothing
    cases nothing
  unfold enterPending
  rw [waits]
  simp only [if_neg elsewhere, plain, Option.isSome_none, Bool.false_eq_true, if_false, if_neg created]
  split <;> simp_all

/-- What the step that opens a charged frame yields, with the frame's gas. -/
theorem stepYield_charged {r : Record} (fine : r.log.errored = false)
    (kind : r.log.op = .call ∨ r.log.op.isCreate = true) :
    Yield.add { ops := stepOps n r.log, skipped := stepSkips r.log }
      (chargeYield r.log.op.isCreate r.gasUsed r.calleeGas) = stepYield n r := by
  rcases kind with call | create
  · ext <;> simp [Yield.add, chargeYield, stepYield, call, fine, Opcode.isCreate]
  · have notCall : r.log.op ≠ .call := by
      intro call
      rw [call] at create
      cases create
    ext <;> simp [Yield.add, chargeYield, stepYield, create, fine, notCall]

theorem stepYield_plain {r : Record}
    (kind : r.log.errored = true ∨ (r.log.op ≠ .call ∧ r.log.op.isCreate = false)) :
    stepYield n r = { ops := stepOps n r.log, skipped := stepSkips r.log } := by
  rcases kind with errored | ⟨notCall, notCreate⟩
  · ext <;> simp [stepYield, errored]
  · ext <;> simp [stepYield, notCall, notCreate]

/-- A step whose call, if it is one, completes inline. -/
theorem enterPending_inline (stepped : Stepped n log w w₁) (level : next.depth = log.depth)
    (deploys : w.top.program.isSome = true → log.op.isCreate = true → log.errored = false →
      next.deployedNothing = false) :
    ∃ w₂, enterPending next w₁ = .ok w₂ ∧
      Yields ((stepYield n ⟨log, none, next.gas⟩).when w.top.program.isSome) w w₂ := by
  have base := stepped.yields
  have pending := stepped.pending
  by_cases opens : (!log.errored && log.op.opensFrame) = true
  · rw [if_pos opens] at pending
    have fine : log.errored = false := by simpa using (Bool.and_eq_true_iff.mp opens).1
    have elsewhere : next.depth ≠ (opening log w.top).parentDepth + 1 := by
      show next.depth ≠ log.depth + 1
      rw [level]
      simp
    have entered := enterPending_waits pending elsewhere rfl (by
      intro create
      obtain ⟨emits, create⟩ := Bool.and_eq_true_iff.mp create
      exact deploys emits create fine)
    by_cases charged : w.top.program.isSome = true ∧ (log.op = .call ∨ log.op.isCreate = true)
    · obtain ⟨emits, kind⟩ := charged
      have gas : (opening log w.top).emittedCallGas = some log.gas := by simp [opening, emits, kind]
      have create : (opening log w.top).emittedCreate = log.op.isCreate := by simp [opening, emits]
      rw [gas, create] at entered
      refine ⟨_, entered, ?_⟩
      rw [emits] at base ⊢
      have whole := base.trans (yields_chargeCall log.op.isCreate (satSub log.gas next.gas) 0 rfl)
      exact stepYield_charged (r := ⟨log, none, next.gas⟩) fine kind ▸ whole
    · have gas : (opening log w.top).emittedCallGas = none := by
        unfold opening
        simp only
        rw [if_neg]
        simpa using charged
      rw [gas] at entered
      refine ⟨_, entered, ?_⟩
      cases emits : w.top.program.isSome with
      | false =>
        rw [emits] at base
        exact base
      | true =>
        rw [emits] at base charged
        have notCharged : log.op ≠ .call ∧ log.op.isCreate = false := by simpa using charged
        rw [stepYield_plain (Or.inr notCharged)]
        exact base
  · rw [if_neg opens] at pending
    have silent : log.errored = true ∨ (log.op ≠ .call ∧ log.op.isCreate = false) := by
      cases op : log.op <;> simp_all [Opcode.opensFrame, Opcode.isCreate]
    rw [stepYield_plain silent]
    have same : ({ w₁ with pending := none } : Walk) = w₁ := by rw [← pending]
    rw [same] at base
    refine ⟨w₁, ?_, base⟩
    unfold enterPending
    rw [pending]

end

end GasAnalyzer
