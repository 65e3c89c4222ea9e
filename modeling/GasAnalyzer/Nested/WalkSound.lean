import GasAnalyzer.Nested.Slices
import GasAnalyzer.Nested.Transitions

/-!
# The walk keeps its outline sound

Over any list of struct logs, well formed or not: every step of the walk either fails for a reason
found in the trace or moves from a sound outline to a sound outline. The failures that would mean a
broken invariant of the split itself (`Failure.internal`) are never reached.
-/

namespace GasAnalyzer

/-- The failures that blame the split and not the trace. -/
def Failure.internal : Failure → Bool
  | openedNoFrame _ | nestedNotLast _ | notAmongChildren | noParentProgram | noNestedOp
  | neverReturned => true
  | _ => false

/-- A computation that never fails for an internal reason. -/
abbrev Upheld {α : Type} (post : α → Prop) (x : Result α) : Prop :=
  Outcome.Sat (fun failure => failure.internal = false) post x

open Outcome (Sat sat_okOr)

variable {root : Node}

/-! ### Decoding -/

theorem index_upheld {α : Type} (xs : List α) (i : Nat) :
    Upheld (fun x => xs[i]? = some x) (index xs i) :=
  sat_okOr (fun _ => rfl)

theorem toUsize_upheld (what : String) (v : U256) : Upheld (fun _ => True) (toUsize what v) := by
  unfold toUsize
  split
  · trivial
  · rfl

theorem copyMemory_upheld (memory : Bytes) (offset length : Nat) :
    Upheld (fun _ => True) (copyMemory memory offset length) := by
  unfold copyMemory
  repeat' split
  all_goals trivial

theorem readRange_upheld (stack : List U256) (memory : Bytes) (i : Nat) (what : String) :
    Upheld (fun _ => True) (readRange stack memory i what) := by
  unfold readRange
  refine Sat.bind (index_upheld _ _) fun _ _ => ?_
  refine Sat.bind (toUsize_upheld _ _) fun _ _ => ?_
  refine Sat.bind (index_upheld _ _) fun _ _ => ?_
  exact Sat.bind (toUsize_upheld _ _) fun _ _ => copyMemory_upheld _ _ _

theorem parseTraceMemory_upheld (words : List String) :
    Upheld (fun _ => True) (parseTraceMemory words) := by
  induction words with
  | nil => trivial
  | cons word rest ih =>
    unfold parseTraceMemory
    refine Sat.bind (sat_okOr (fun _ => rfl)) fun _ _ => ?_
    exact Sat.bind ih fun _ _ => trivial

/-- What a step decodes to is never a `NESTED` op, and a `CALL` decodes to a call of its callee. -/
structure Decoded (op : Opcode) (stack : List U256) (r : Option StateUpdate × Option Opcode) : Prop where
  plain : ∀ u, r.1 = some u → u.isNested = false
  call : op = .call → r.2 = none ∧
    ∀ u, r.1 = some u → ∃ c, u = .call c ∧ stack[1]?.map Address.fromWord = some c.target
  create : op.isCreate = true → r.2 = none

theorem decodeOp_upheld (op : Opcode) (stack : List U256) (memory : Bytes) :
    Upheld (Decoded op stack) (decodeOp op stack memory) := by
  have plain : ∀ {r : Option StateUpdate × Option Opcode}, op ≠ .call → op.isCreate = false →
      (∀ u, r.1 = some u → u.isNested = false) → Decoded op stack r := by
    intro r notCall notCreate isPlain
    exact ⟨isPlain, fun isCall => absurd isCall notCall, fun isCreate => by simp [notCreate] at isCreate⟩
  have logged : ∀ (i : Nat) (f : U256 → Result (Option StateUpdate × Option Opcode)),
      (∀ v, Upheld (Decoded op stack) (f v)) → Upheld (Decoded op stack) (index stack i >>= f) :=
    fun i f rest => Sat.bind (index_upheld stack i) fun v _ => rest v
  have data : ∀ (f : Bytes → Result (Option StateUpdate × Option Opcode)),
      (∀ bytes, Upheld (Decoded op stack) (f bytes)) →
      Upheld (Decoded op stack) (logData stack memory >>= f) :=
    fun f rest => Sat.bind (readRange_upheld stack memory 0 "data") fun bytes _ => rest bytes
  cases op with
  | sstore =>
    refine logged _ _ fun _ => logged _ _ fun _ => plain (by decide) (by decide) ?_
    rintro u ⟨⟩
    rfl
  | tstore => exact plain (by decide) (by decide) (by simp)
  | selfdestruct => exact plain (by decide) (by decide) (by simp)
  | call =>
    refine Sat.bind (readRange_upheld _ _ _ _) fun callargs _ => ?_
    refine Sat.bind (index_upheld _ _) fun target atTarget => ?_
    refine Sat.bind (index_upheld _ _) fun value _ => ?_
    refine ⟨?_, ?_, fun _ => rfl⟩
    · rintro u ⟨⟩
      rfl
    · intro _
      refine ⟨rfl, ?_⟩
      rintro u ⟨⟩
      exact ⟨_, rfl, by simp [atTarget]⟩
  | staticcall => exact plain (by decide) (by decide) (by simp)
  | delegatecall => exact rfl
  | callcode => exact rfl
  | create =>
    refine Sat.bind (index_upheld _ _) fun _ _ => ?_
    refine Sat.bind (readRange_upheld _ _ _ _) fun _ _ => ?_
    refine ⟨?_, nofun, fun _ => rfl⟩
    rintro u ⟨⟩
    rfl
  | create2 =>
    refine Sat.bind (index_upheld _ _) fun _ _ => ?_
    refine Sat.bind (readRange_upheld _ _ _ _) fun _ _ => ?_
    refine Sat.bind (index_upheld _ _) fun _ _ => ?_
    refine ⟨?_, nofun, fun _ => rfl⟩
    rintro u ⟨⟩
    rfl
  | log0 =>
    refine data _ fun _ => plain (by decide) (by decide) ?_
    rintro u ⟨⟩
    rfl
  | log1 =>
    refine data _ fun _ => logged _ _ fun _ => plain (by decide) (by decide) ?_
    rintro u ⟨⟩
    rfl
  | log2 =>
    refine data _ fun _ => logged _ _ fun _ => logged _ _ fun _ => plain (by decide) (by decide) ?_
    rintro u ⟨⟩
    rfl
  | log3 =>
    refine data _ fun _ => logged _ _ fun _ => logged _ _ fun _ => logged _ _ fun _ =>
      plain (by decide) (by decide) ?_
    rintro u ⟨⟩
    rfl
  | log4 =>
    refine data _ fun _ => logged _ _ fun _ => logged _ _ fun _ => logged _ _ fun _ =>
      logged _ _ fun _ => plain (by decide) (by decide) ?_
    rintro u ⟨⟩
    rfl
  | other name => exact plain (by simp) (by rfl) (by simp)

theorem decodeStructLog_upheld (log : StructLog) :
    Upheld (Decoded log.op (log.stack.getD []).reverse) (decodeStructLog log) := by
  unfold decodeStructLog
  refine Sat.bind (sat_okOr (fun _ => rfl)) fun stack found => ?_
  split
  · split
    · rfl
    · exact ⟨by simp, fun _ => ⟨rfl, by simp⟩, fun _ => rfl⟩
  · refine Sat.bind (parseTraceMemory_upheld _) fun memory _ => ?_
    rw [found]
    exact decodeOp_upheld log.op stack.reverse memory

/-! ### Changes the outline does not see -/

theorem ledgers_modify {f : ProgramState → ProgramState} (same : ∀ p, (f p).ledger = p.ledger)
    (programs : List ProgramState) (id : Nat) :
    (programs.modify id f).map ProgramState.ledger = programs.map ProgramState.ledger := by
  apply List.ext_getElem?
  intro i
  rw [List.getElem?_map, List.getElem?_modify, List.getElem?_map]
  cases programs[i]? with
  | none => rfl
  | some p =>
    by_cases here : id = i
    · simp [here, same p]
    · simp [here]

theorem outline_modifyProgram {f : ProgramState → ProgramState} (same : ∀ p, (f p).ledger = p.ledger)
    (id : Nat) (w : Walk) : (modifyProgram id f w).outline = w.outline := by
  simp [Walk.outline, modifyProgram, ledgers_modify same]

theorem outline_modifyTop {f : WalkFrame → WalkFrame} (same : ∀ t, (f t).shape = t.shape) (w : Walk) :
    (modifyTop f w).outline = w.outline := by
  simp [Walk.outline, modifyTop, same]

theorem outline_chargeProgram (gas : UInt64) (w : Walk) :
    (chargeProgram gas w).outline = w.outline := by
  unfold chargeProgram
  split
  · exact outline_modifyProgram (f := ProgramState.chargeChild gas) (fun _ => rfl) _ _
  · rfl

theorem shape_charge (create : Bool) (gas callee : UInt64) (f : WalkFrame) :
    (f.charge create gas callee).shape = f.shape := by
  unfold WalkFrame.charge
  split <;> rfl

theorem outline_chargeCall (create : Bool) (gas callee : UInt64) (w : Walk) :
    (chargeCall create gas callee w).outline = w.outline := by
  unfold chargeCall
  rw [outline_chargeProgram, outline_modifyTop (shape_charge create gas callee)]

theorem outline_chargeReturn (log : StructLog) (frame : WalkFrame) (w : Walk) :
    (chargeReturn log frame w).outline = w.outline := by
  unfold chargeReturn
  split
  · rfl
  · exact outline_chargeCall _ _ _ _

theorem shape_forgetSlots (programs : List ProgramState) (journal : Journal) (f : WalkFrame) :
    (forgetSlots programs journal f).shape = f.shape := by
  rw [forgetSlots_eq]
  rfl

theorem outline_forgetOverwritten (journal : Journal) (w : Walk) :
    (forgetOverwritten journal w).outline = w.outline := by
  simp [Walk.outline, forgetOverwritten, shape_forgetSlots, Function.comp_def]

theorem nestedOps_staleStores (step : Nat) (view image : Slots) :
    nestedOps (staleStores step view image) = [] := by
  unfold nestedOps staleStores
  apply List.filter_eq_nil_iff.mpr
  intro op member
  obtain ⟨entry, -, rfl⟩ := List.mem_map.mp member
  exact Bool.false_ne_true

/-- A slice leaves the `NESTED` ops as they are. -/
theorem outline_flushed (step : Nat) (image : Slots) (w : Walk) :
    { w with top := w.top.flushed step image }.outline =
      { w.outline with
        top := { w.outline.top with last := endsNested (w.top.flushed step image).out } } := by
  simp [Walk.outline, WalkFrame.flushed, WalkFrame.shape, nestedOps_staleStores]

theorem flushSlice_upheld {w : Walk} (sound : w.outline.Sound root) (free : w.pending = none)
    (emits : w.top.program.isSome = true) (step : Nat) :
    Upheld (fun w' => w'.outline.Sound root ∧ ∃ image, w' = { w with top := w.top.flushed step image })
      (flushSlice step w) := by
  obtain ⟨id, program⟩ := Option.isSome_iff_exists.mp emits
  obtain ⟨-, ⟨m, found, -⟩, -⟩ := sound.stack.fits.emits id program
  have bound : id < w.programs.length := by
    simpa [Walk.outline] using (List.getElem?_eq_some_iff.mp found).1
  rw [flushSlice_eq program (List.getElem?_eq_getElem bound)]
  refine ⟨?_, _, rfl⟩
  rw [outline_flushed]
  exact sound.retop free rfl rfl rfl rfl rfl

/-! ### Arriving -/

/-- A call that opened a program is followed by a step of its frame. -/
def Walk.Follows (w : Walk) (next : Option StructLog) : Prop :=
  ∀ p log, w.pending = some p → p.nestedStartGas.isSome = true → next = some log →
    log.depth = p.parentDepth + 1

theorem enterPending_upheld {w : Walk} {log : StructLog} (sound : w.outline.Sound root)
    (follows : w.Follows (some log)) :
    Upheld (fun w' => w'.outline.Sound root ∧ w'.pending = none) (enterPending log w) := by
  unfold enterPending
  cases waits : w.pending with
  | none => exact ⟨sound, waits⟩
  | some p =>
    dsimp only
    split
    · have pushed := sound.push (p := p) waits
      refine ⟨?_, rfl⟩
      rw [show w.outline.ledgers.length = w.programs.length by simp [Walk.outline]] at pushed
      exact pushed
    · rename_i elsewhere
      split
      · rename_i nested
        exact absurd (follows p log waits nested rfl) elsewhere
      · rename_i plain
        have cleared := sound.unwait (p := p) waits (by simpa using plain)
        split
        · rfl
        · split
          · exact ⟨cleared, rfl⟩
          · have same := outline_chargeCall p.emittedCreate
              (satSub ‹UInt64› log.gas) 0 { w with pending := none }
            refine ⟨same ▸ cleared, ?_⟩
            exact congrArg Outline.pending same

/-! ### Returning -/

theorem ledgers_dropFrom (first : Nat) (programs : List ProgramState) :
    (dropFrom first programs).map ProgramState.ledger =
      Books.dropLedgers first (programs.map ProgramState.ledger) := by
  simp [dropFrom, Books.dropLedgers, List.map_take, List.map_drop, Function.comp_def,
    ProgramState.ledger, ProgramState.node]

theorem ledgers_finish (programs : List ProgramState) (id : Nat) (gas : UInt64) (frame : WalkFrame) :
    (programs.modify id (ProgramState.finish gas frame)).map ProgramState.ledger =
      (programs.map ProgramState.ledger).modify id (Books.closeLedger frame.out gas) := by
  apply List.ext_getElem?
  intro i
  rw [List.getElem?_map, List.getElem?_modify, List.getElem?_modify, List.getElem?_map]
  cases programs[i]? with
  | none => rfl
  | some p =>
    by_cases here : id = i
    · simp [here, ProgramState.finish, ProgramState.ledger, Books.closeLedger, ProgramState.node]
    · simp [here]

theorem nestedOps_dropLast {out : List Op} (ends : endsNested out = true) :
    nestedOps out.dropLast = (nestedOps out).dropLast := by
  rcases List.eq_nil_or_concat out with rfl | ⟨front, op, rfl⟩
  · rfl
  · have last : op.update.isNested = true := by simpa [endsNested] using ends
    simp [nestedOps, last]

/-- A frame of its own that returned. -/
theorem closeNested_success {frame : WalkFrame} {id : Nat} (program : frame.program = some id)
    (start : UInt64) (log : StructLog) (v : Walk) :
    ∃ v', closeNested start true log frame v = .ok v' ∧
      v'.outline = { v.outline with
        ledgers := v.outline.ledgers.modify id (Books.closeLedger frame.out (satSub start log.gas)) } := by
  unfold closeNested
  rw [program]
  refine ⟨_, rfl, ?_⟩
  rw [outline_modifyTop (f := WalkFrame.mergeJournal frame.journal) (fun _ => rfl),
    outline_forgetOverwritten, outline_chargeProgram]
  simp [Walk.outline, modifyProgram, ledgers_finish]

/-- A frame of its own that reverted takes its parent's last op with it. -/
theorem closeNested_failure {frame : WalkFrame} {id : Nat} (program : frame.program = some id)
    {v : Walk} (ends : endsNested v.top.out = true) (start : UInt64) (log : StructLog) :
    closeNested start false log frame v = .ok (modifyTop WalkFrame.dropLastOp v) ∧
      (modifyTop WalkFrame.dropLastOp v).outline = { v.outline with
        top := { v.outline.top with
          ops := v.outline.top.ops.dropLast, last := endsNested v.top.out.dropLast } } := by
  refine ⟨?_, ?_⟩
  · unfold closeNested
    rw [program]
    unfold endsNested at ends
    obtain ⟨⟨update, at'⟩, last, isNested⟩ := (Option.any_eq_true _ _).mp ends
    cases update with
    | nested n => simp [okOr, last]
    | _ => cases isNested
  · simp [Walk.outline, modifyTop, WalkFrame.dropLastOp, WalkFrame.shape, nestedOps_dropLast ends]

/-- A frame that is not its own program hands its ops over. -/
theorem outline_absorb (frame : WalkFrame) (v : Walk) :
    (closeFrame true frame v).outline = { v.outline with
      top := { v.outline.top with
        ops := v.outline.top.ops ++ nestedOps frame.out
        last := endsNested (v.top.out ++ frame.out) } } := by
  have absorbed : ∀ u : Walk, (modifyTop frame.absorb u).outline = { u.outline with
      top := { u.outline.top with
        ops := u.outline.top.ops ++ nestedOps frame.out
        last := endsNested (u.top.out ++ frame.out) } } := by
    intro u
    simp [Walk.outline, modifyTop, WalkFrame.absorb, WalkFrame.shape]
  unfold closeFrame
  rw [if_pos rfl, absorbed]
  split
  · rfl
  · have out : (forgetOverwritten frame.journal v).top.out = v.top.out := by
      simp only [forgetOverwritten]
      rw [forgetSlots_eq]
    rw [outline_forgetOverwritten, out]

theorem outline_dropOpened (first : Nat) (w : Walk) :
    (dropOpened first w).outline =
      { w.outline with ledgers := Books.dropLedgers first w.outline.ledgers } := by
  simp [Walk.outline, dropOpened, ledgers_dropFrom]

theorem returnFrame_upheld {w : Walk} {parent : WalkFrame} {rest : List WalkFrame} (success : Bool)
    (sound : w.outline.Sound root) (free : w.pending = none) (below : w.below = parent :: rest)
    (log : StructLog) :
    Upheld (fun w' => w'.outline.Sound root ∧ w'.pending = none)
      (returnFrame success log w.top (w.leave parent rest)) := by
  have stacked : w.outline.below = parent.shape :: rest.map WalkFrame.shape := by
    simp [Walk.outline, below]
  have post : ∀ {v : Walk}, v.outline.Sound root → v.outline.pending = none →
      Upheld (fun w' => w'.outline.Sound root ∧ w'.pending = none) (.ok v) :=
    fun sound free => ⟨sound, free⟩
  have charged := outline_chargeReturn log w.top
  unfold returnFrame
  split
  · rfl
  · cases nested : w.top.nestedStartGas with
    | some start =>
      have isNested : w.outline.top.nested = true := by simp [Walk.outline, WalkFrame.shape, nested]
      have link := sound.stack
      rw [stacked] at link
      obtain ⟨own, ends, -⟩ := link.2.1.nested isNested
      have own : w.top.program = some w.top.firstProgram := own
      cases success with
      | true =>
        obtain ⟨v', closed, outline⟩ := closeNested_success own start log
          (chargeReturn log w.top (w.leave parent rest))
        have popped := sound.popNested free stacked isNested own
          (show nestedOps w.top.out = w.outline.top.ops from rfl) (satSub start log.gas)
        rw [charged] at outline
        dsimp only
        rw [if_pos rfl, closed]
        exact post (outline ▸ popped) (outline ▸ free)
      | false =>
        have same := charged (dropOpened w.top.firstProgram (w.leave parent rest))
        rw [outline_dropOpened] at same
        have last := (congrArg (fun o => o.top.last) same).trans ends
        obtain ⟨closed, outline⟩ := closeNested_failure own last start log
        have reverted := sound.revertNested free stacked isNested (endsNested
          (chargeReturn log w.top (dropOpened w.top.firstProgram (w.leave parent rest))).top.out.dropLast)
        rw [same] at outline
        dsimp only
        rw [if_neg Bool.false_ne_true, closed]
        exact post (outline ▸ reverted) (outline ▸ free)
    | none =>
      have isPlain : w.outline.top.nested = false := by simp [Walk.outline, WalkFrame.shape, nested]
      cases success with
      | true =>
        have outline := outline_absorb w.top (chargeReturn log w.top (w.leave parent rest))
        have popped := sound.popPlain free stacked isPlain
          (endsNested ((chargeReturn log w.top (w.leave parent rest)).top.out ++ w.top.out))
        rw [charged] at outline
        dsimp only
        rw [if_pos rfl]
        exact post (outline ▸ popped) (outline ▸ free)
      | false =>
        have outline := charged (dropOpened w.top.firstProgram (w.leave parent rest))
        rw [outline_dropOpened] at outline
        have reverted := sound.revertPlain free stacked isPlain
        dsimp only
        rw [if_neg Bool.false_ne_true]
        exact post (outline ▸ reverted) (outline ▸ free)

theorem lastSlice_upheld {w : Walk} (sound : w.outline.Sound root) (free : w.pending = none) (step : Nat)
    (success : Bool) :
    Upheld (fun w' => w'.outline.Sound root ∧ w'.pending = none) (lastSlice step success w) := by
  unfold lastSlice
  split
  · rename_i flushes
    have nested : w.outline.top.nested = true := (Bool.and_eq_true_iff.mp flushes).2
    have emits : w.top.program.isSome = true := by
      by_contra silent
      have := (sound.stack.fits.silent (by simpa [Walk.outline, WalkFrame.shape] using silent)).2.2
      rw [nested] at this
      cases this
    refine (flushSlice_upheld sound free emits step).imp ?_
    rintro w' ⟨sound', image, rfl⟩
    exact ⟨sound', free⟩
  · exact ⟨sound, free⟩

theorem popFrame_upheld {w : Walk} (sound : w.outline.Sound root) (free : w.pending = none) (step : Nat)
    (log : StructLog) :
    Upheld (fun w' => w'.outline.Sound root ∧ w'.pending = none) (popFrame step log w) := by
  unfold popFrame
  split
  · rfl
  · refine Sat.bind (sat_okOr (fun _ => rfl)) fun stack _ => ?_
    refine Sat.bind (sat_okOr (fun _ => rfl)) fun flag _ => ?_
    refine Sat.bind (lastSlice_upheld sound free step _) ?_
    rintro v ⟨sound', free'⟩
    split
    · rfl
    · rename_i parent rest below
      exact returnFrame_upheld _ sound' free' below log

theorem popFrames_upheld (step : Nat) (log : StructLog) (fuel : Nat) {w : Walk}
    (sound : w.outline.Sound root) (free : w.pending = none) :
    Upheld (fun w' => w'.outline.Sound root ∧ w'.pending = none) (popFrames step log fuel w) := by
  induction fuel generalizing w with
  | zero => exact ⟨sound, free⟩
  | succ fuel ih =>
    unfold popFrames
    split
    · exact Sat.bind (popFrame_upheld sound free step log) fun w' ⟨sound', free'⟩ => ih sound' free'
    · exact ⟨sound, free⟩

theorem arrive_upheld {w : Walk} {log : StructLog} (sound : w.outline.Sound root)
    (follows : w.Follows (some log)) (step : Nat) :
    Upheld (fun w' => w'.outline.Sound root ∧ w'.pending = none) (arrive step log w) := by
  unfold arrive
  exact Sat.bind (enterPending_upheld sound follows) fun w' ⟨sound', free⟩ =>
    popFrames_upheld step log _ sound' free

/-! ### Executing -/

theorem follows_of_plain {w : Walk} (plain : ∀ p, w.pending = some p → p.nestedStartGas = none)
    (next : Option StructLog) : w.Follows next := by
  intro p log waits nested _
  rw [plain p waits] at nested
  cases nested

theorem follows_of_free {w : Walk} (free : w.pending = none) (next : Option StructLog) :
    w.Follows next :=
  follows_of_plain (by simp [free]) next

/-- A change the outline does not see. -/
theorem upheld_same {w w' : Walk} (sound : w.outline.Sound root) (free : w.pending = none)
    (same : w'.outline = w.outline) (next : Option StructLog) :
    Upheld (fun v => v.outline.Sound root ∧ v.Follows next) (.ok w') := by
  refine ⟨same ▸ sound, follows_of_free ?_ next⟩
  exact (congrArg Outline.pending same).trans free

/-- A call that opens native code, or continues the top's program. -/
theorem upheld_wait {w w' : Walk} {p : PendingFrame} (sound : w.outline.Sound root)
    (free : w.pending = none) (same : w'.outline = { w.outline with pending := some p })
    (plain : p.nestedStartGas = none)
    (program : p.program = none ∨ p.program = w.top.program ∧ p.storageCtx = w.top.storageCtx)
    (next : Option StructLog) :
    Upheld (fun v => v.outline.Sound root ∧ v.Follows next) (.ok w') := by
  refine ⟨same ▸ sound.wait free plain program, follows_of_plain ?_ next⟩
  intro p' waits
  have here : w'.pending = some p := congrArg Outline.pending same
  rw [← Option.some.inj (here.symm.trans waits), plain]

/-- The top frame after emitting ops that are not `NESTED`. -/
theorem outline_emitted {ops : List Op} (plain : nestedOps ops = []) (w : Walk) :
    (modifyTop (fun f => { f with out := f.out ++ ops }) w).outline =
      { w.outline with
        top := { w.outline.top with last := endsNested (w.top.out ++ ops) } } := by
  simp [Walk.outline, modifyTop, WalkFrame.shape, plain]

theorem nestedOps_decoded {update : Option StateUpdate}
    (plain : ∀ u, update = some u → u.isNested = false) (step : Nat) :
    nestedOps (update.toList.map (Op.mk · step)) = [] := by
  cases update with
  | none => rfl
  | some u => simp [nestedOps, plain u rfl]

theorem append_upheld (updates : List Op) (step : Nat) (log : StructLog) :
    Upheld (fun r => (∃ ops, nestedOps ops = [] ∧ r.1 = updates ++ ops) ∧
        (log.op.isCreate = true → r.2 = none))
      (appendStateUpdateFromStructLog updates step log) := by
  unfold appendStateUpdateFromStructLog
  refine Sat.bind (decodeStructLog_upheld log) ?_
  rintro ⟨update, skipped⟩ decoded
  exact ⟨⟨_, nestedOps_decoded decoded.plain step, rfl⟩, decoded.create⟩

theorem outline_openNested (H : Hashes) (step parent : Nat) (index : U256) (call : Call)
    (log : StructLog) (w : Walk) :
    (openNested H step parent index call log w).outline = { w.outline with
      ledgers := (w.outline.ledgers ++ [Books.newLedger
        (nestedProgram H w.top.storageCtx step parent index call).node]).modify parent
          (Books.addChild w.outline.ledgers.length)
      top := { w.outline.top with
        ops := w.outline.top.ops ++ [(nestedProgram H w.top.storageCtx step parent index call).node.op]
        last := true }
      pending := some {
        parentDepth := log.depth
        storageCtx := log.callee
        program := some w.programs.length
        nestedStartGas := some log.gas
        callGasCost := log.gasCost } } := by
  have ledgers : ((w.programs ++ [nestedProgram H w.top.storageCtx step parent index call]).modify parent
      (fun p => { p with children := p.children ++ [w.programs.length] })).map ProgramState.ledger =
      (w.programs.map ProgramState.ledger ++ [Books.newLedger
        (nestedProgram H w.top.storageCtx step parent index call).node]).modify parent
          (Books.addChild (w.programs.map ProgramState.ledger).length) := by
    apply List.ext_getElem?
    intro i
    rw [List.getElem?_map, List.getElem?_modify, List.getElem?_modify,
      show w.programs.map ProgramState.ledger ++
          [Books.newLedger (nestedProgram H w.top.storageCtx step parent index call).node] =
        (w.programs ++ [nestedProgram H w.top.storageCtx step parent index call]).map
          ProgramState.ledger by rw [List.map_append]; rfl, List.getElem?_map]
    cases (w.programs ++ [nestedProgram H w.top.storageCtx step parent index call])[i]? with
    | none => rfl
    | some p =>
      by_cases here : parent = i
      · simp [here, ProgramState.ledger, Books.addChild, ProgramState.node]
      · simp [here]
  unfold Walk.outline openNested
  simp only [ledgers]
  simp [WalkFrame.emit, WalkFrame.shape, nestedOps, endsNested, nestedProgram, Node.op,
    ProgramState.node, StateUpdate.isNested]

theorem frameIndex_candidate {elig : Eligibility} {candidate : Option Candidate}
    {callee : Option Address} {index : U256}
    (eligible : elig.frameIndex candidate callee = some index) : ∃ c, candidate = some c := by
  cases candidate with
  | none => cases eligible
  | some c => exact ⟨c, rfl⟩

/-- A call that becomes a frame opens a program below the top's. -/
theorem openNested_upheld {w : Walk} {parent step : Nat} {call : Call} {log : StructLog}
    {next : Option StructLog} {index : U256} (sound : w.outline.Sound root) (free : w.pending = none)
    (H : Hashes) (emits : w.top.program = some parent)
    (target : (log.stack.getD []).reverse[1]?.map Address.fromWord = some call.target)
    (entered : ∀ log', next = some log' → log'.depth = log.depth + 1) :
    Upheld (fun v => v.outline.Sound root ∧ v.Follows next)
      (.ok (openNested H step parent index call log w)) := by
  obtain ⟨-, ⟨m, found, -, context⟩, -⟩ := sound.stack.fits.emits parent emits
  have caller : (nestedProgram H w.top.storageCtx step parent index call).node.caller = m.target := by
    rw [show w.top.storageCtx = some m.target from context]
    rfl
  refine ⟨?_, ?_⟩
  · rw [outline_openNested]
    exact sound.openProgram free emits ⟨rfl, call, rfl, rfl, rfl⟩ rfl rfl found caller
      (by simp [Walk.outline]) rfl target
  · intro p log' waits _ next'
    have same : p.parentDepth = log.depth := by
      have waits : some _ = some p := waits
      rw [← Option.some.inj waits]
    rw [same]
    exact entered log' next'

section

variable {w : Walk} (sound : w.outline.Sound root) (free : w.pending = none) (step : Nat)
  (log : StructLog) (next : Option StructLog)

include sound free

theorem execStore_upheld :
    Upheld (fun v => v.outline.Sound root ∧ v.Follows next) (execStore log w) := by
  unfold execStore
  split
  · split
    · exact upheld_same sound free rfl next
    · rename_i ctx _ _
      refine Sat.bind (sat_okOr (fun _ => rfl)) fun stack _ => ?_
      refine Sat.bind (index_upheld _ _) fun slot _ => ?_
      refine Sat.bind (index_upheld _ _) fun value _ => ?_
      have written : (modifyTop (WalkFrame.write ctx slot value) w).outline = w.outline :=
        outline_modifyTop (f := WalkFrame.write ctx slot value) (fun _ => rfl) w
      have charged : ∀ p : ProgramState,
          (p.chargeStore ctx log.gasCost).ledger = p.ledger := by
        intro p
        unfold ProgramState.chargeStore
        split <;> rfl
      dsimp only
      split
      · refine upheld_same sound free ?_ next
        rw [outline_modifyProgram charged, written]
      · exact upheld_same sound free written next
  · exact upheld_same sound free rfl next

theorem execDelegate_upheld :
    Upheld (fun v => v.outline.Sound root ∧ v.Follows next) (.ok (execDelegate log w)) := by
  unfold execDelegate
  split
  · exact upheld_same sound free rfl next
  · exact upheld_wait sound free rfl rfl (Or.inr ⟨rfl, rfl⟩) next

theorem execStaticcall_upheld :
    Upheld (fun v => v.outline.Sound root ∧ v.Follows next) (execStaticcall log w) := by
  unfold execStaticcall
  split
  · exact upheld_same sound free rfl next
  · refine Sat.bind (sat_okOr (fun _ => rfl)) fun stack _ => ?_
    exact upheld_wait sound free rfl rfl (Or.inl rfl) next

theorem execLog_upheld :
    Upheld (fun v => v.outline.Sound root ∧ v.Follows next) (execLog step log w) := by
  unfold execLog
  split
  · exact upheld_same sound free rfl next
  · split
    · exact upheld_same sound free rfl next
    · refine Sat.bind (append_upheld _ _ _) ?_
      rintro ⟨out, skipped⟩ ⟨⟨ops, plain, rfl⟩, -⟩
      refine ⟨?_, follows_of_free free next⟩
      rw [outline_modifyProgram (f := ProgramState.chargeEffect log.gasCost) (fun _ => rfl)]
      have emitted := outline_emitted plain w
      have retopped := sound.retop (t := { w.outline.top with last := endsNested (w.top.out ++ ops) })
        free rfl rfl rfl rfl rfl
      exact emitted ▸ retopped

/-- A slice followed by ops that are not `NESTED`. -/
theorem flushed_emitted (image : Slots) {ops : List Op} (plain : nestedOps ops = []) :
    (modifyTop (fun f => { f with out := f.out ++ ops })
      { w with top := w.top.flushed step image }).outline.Sound root := by
  rw [outline_emitted plain, outline_flushed]
  exact (sound.retop free rfl rfl rfl rfl rfl).retop free rfl rfl rfl rfl rfl

theorem execCreate_upheld (creates : log.op.isCreate = true) :
    Upheld (fun v => v.outline.Sound root ∧ v.Follows next) (execCreate step log w) := by
  unfold execCreate
  split
  · exact upheld_same sound free rfl next
  · split
    · exact upheld_wait sound free rfl rfl (Or.inl rfl) next
    · rename_i emits
      refine Sat.bind (flushSlice_upheld sound free (by simp [emits]) step) ?_
      rintro v ⟨-, image, rfl⟩
      refine Sat.bind (append_upheld _ _ _) ?_
      rintro ⟨out, skipped⟩ ⟨⟨ops, plain, rfl⟩, never⟩
      have never : skipped = none := never creates
      subst never
      have emitted := flushed_emitted sound free step image plain
      exact upheld_wait emitted free rfl rfl (Or.inl rfl) next

theorem execCall_upheld (H : Hashes) (elig : Eligibility) (candidates : OrdMap Nat Candidate)
    (calls : log.op = .call)
    (entered : ∀ c log', candidates.get step = some c → next = some log' →
      log'.depth = log.depth + 1) :
    Upheld (fun v => v.outline.Sound root ∧ v.Follows next)
      (execCall H elig candidates step log w) := by
  unfold execCall
  refine Sat.bind (sat_okOr (fun _ => rfl)) fun stack found => ?_
  dsimp only
  split
  · exact upheld_same sound free rfl next
  · split
    · exact upheld_wait sound free rfl rfl (Or.inl rfl) next
    · rename_i parent emits
      refine Sat.bind (flushSlice_upheld sound free (by simp [emits]) step) ?_
      rintro v ⟨soundV, image, rfl⟩
      refine Sat.bind (decodeStructLog_upheld log) ?_
      rintro ⟨decoded, skipped⟩ spec
      obtain ⟨never, isCall⟩ := spec.call calls
      have never : skipped = none := never
      subst never
      cases decoded with
      | none =>
        simp only [Option.isSome_none, Bool.false_eq_true, ↓reduceIte]
        rfl
      | some update =>
        obtain ⟨call, rfl, target⟩ := isCall update rfl
        cases eligible : elig.frameIndex (candidates.get step) log.callee with
        | none =>
          have emitted := flushed_emitted sound free step image
            (show nestedOps [⟨.call call, step⟩] = [] from rfl)
          exact upheld_wait emitted free rfl rfl (Or.inl rfl) next
        | some index =>
          obtain ⟨c, candidate⟩ := frameIndex_candidate eligible
          exact openNested_upheld soundV free H emits target
            (fun log' next' => entered c log' candidate next')

theorem exec_upheld (H : Hashes) (elig : Eligibility) (candidates : OrdMap Nat Candidate)
    (entered : ∀ c log', candidates.get step = some c → next = some log' →
      log'.depth = log.depth + 1) :
    Upheld (fun v => v.outline.Sound root ∧ v.Follows next) (exec H elig candidates step log w) := by
  have unsupported : Upheld (fun v => v.outline.Sound root ∧ v.Follows next)
      (.ok (execUnsupported log w)) := by
    unfold execUnsupported
    split <;> exact upheld_same sound free rfl next
  unfold exec
  cases op : log.op with
  | sstore => exact execStore_upheld sound free log next
  | tstore => exact unsupported
  | selfdestruct => exact unsupported
  | delegatecall => exact execDelegate_upheld sound free log next
  | callcode => exact execDelegate_upheld sound free log next
  | staticcall => exact execStaticcall_upheld sound free log next
  | call => exact execCall_upheld sound free step log next H elig candidates op entered
  | create => exact execCreate_upheld sound free step log next (by rw [op]; rfl)
  | create2 => exact execCreate_upheld sound free step log next (by rw [op]; rfl)
  | other name => exact upheld_same sound free rfl next
  | _ => exact execLog_upheld sound free step log next

end

theorem walkStep_upheld {w : Walk} {log : StructLog} {next : Option StructLog} {step : Nat}
    {candidates : OrdMap Nat Candidate} (H : Hashes) (elig : Eligibility) (sound : w.outline.Sound root)
    (follows : w.Follows (some log))
    (entered : ∀ c log', candidates.get step = some c → next = some log' →
      log'.depth = log.depth + 1) :
    Upheld (fun v => v.outline.Sound root ∧ v.Follows next) (walkStep H elig candidates step log w) := by
  unfold walkStep
  refine Sat.bind (arrive_upheld sound follows step) ?_
  rintro v ⟨soundV, free⟩
  exact exec_upheld soundV free step log next H elig candidates entered

/-! ### Walking -/

/-- Whatever the scan kept as a candidate opened a frame, unless the trace ends there. -/
def Enters (candidates : OrdMap Nat Candidate) (logs : List StructLog) : Prop :=
  ∀ k c log log', candidates.get k = some c → logs[k]? = some log → logs[k + 1]? = some log' →
    log'.depth = log.depth + 1

theorem walk_upheld (H : Hashes) (elig : Eligibility) (candidates : OrdMap Nat Candidate)
    (logs : List StructLog) (enters : Enters candidates logs) (rest : List StructLog) :
    ∀ (step : Nat) (w : Walk), logs.drop step = rest → w.outline.Sound root → w.Follows rest.head? →
      Upheld (fun w' => w'.outline.Sound root) (walk H elig candidates rest step w) := by
  induction rest with
  | nil => intro step w _ sound _; exact sound
  | cons log rest ih =>
    intro step w suffix sound follows
    have here : logs[step]? = some log := by
      rw [← List.head?_drop, suffix]
      rfl
    have after : logs.drop (step + 1) = rest := by
      rw [← List.tail_drop, suffix]
      rfl
    have next : ∀ log', rest.head? = some log' → logs[step + 1]? = some log' := by
      intro log' isNext
      rw [← List.head?_drop, after, isNext]
    unfold walk
    have entered : ∀ c log', candidates.get step = some c → rest.head? = some log' →
        log'.depth = log.depth + 1 :=
      fun c log' candidate isNext => enters step c log log' candidate here (next log' isNext)
    refine Sat.bind (walkStep_upheld H elig sound follows entered) ?_
    rintro v ⟨soundV, followsV⟩
    exact ih (step + 1) v after soundV followsV

def rootNode (target : Address) (rootIndex : Option U256) : Node where
  target := target
  value := 0
  caller := 0
  parent := none
  step := 0
  transitionIndex := rootIndex
  fallback := none
  dropped := false

theorem initialWalk_sound (target : Address) (rootIndex : Option U256) :
    (initialWalk target rootIndex).outline.Sound (rootNode target rootIndex) := by
  have only : ∀ {id : Nat} {l : Ledger}, (initialWalk target rootIndex).outline.ledgers[id]? = some l →
      id = 0 ∧ l.node.parent = none ∧ l.updates = none ∧ l.children = [] ∧ l.nativeGas = 0 := by
    intro id l found
    cases id with
    | zero =>
      have same : _ = l := Option.some.inj found
      subst same
      exact ⟨rfl, rfl, rfl, rfl, rfl⟩
    | succ id => cases found
  have orphan : ∀ q id, isChild (ledgerNodes (initialWalk target rootIndex).outline.ledgers) q id = false := by
    intro q id
    cases id <;> rfl
  refine ⟨⟨⟨⟨_, rfl, rfl⟩, ?_, ⟨?_, ?_⟩⟩, ⟨_, rfl, rfl⟩, ?_, ?_, ?_, ?_⟩, ⟨⟨?_, ?_, ?_, ?_⟩, rfl, rfl, rfl⟩, ?_⟩
  · intro id m found pos
    cases id with
    | zero => omega
    | succ id => cases found
  · intro c pos inside
    have : c < 1 := inside
    omega
  · intro x c inside below le
    have : c < 1 := inside
    omega
  · intro q l found
    obtain ⟨rfl, -, -, noChildren, -⟩ := only found
    rw [noChildren]
    rfl
  · intro q l ops found _ done
    rw [(only found).2.2.1] at done
    cases done
  · intro q l found _ _
    obtain ⟨rfl, -, -, -, zero⟩ := only found
    exact ⟨zero, Or.inl ⟨_, List.mem_cons_self, rfl⟩⟩
  · intro q l _ found
    exact (only found).2.2.1
  · exact Nat.zero_le _
  · intro silent
    cases silent
  · intro p emits
    have here : 0 = p := Option.some.inj emits
    subst here
    refine ⟨Nat.one_pos, ⟨_, rfl, rfl, rfl⟩, ?_⟩
    rw [childOps_none (fun id _ _ => orphan 0 id)]
    rfl
  · intro id _ _
    exact Or.inr (Nat.zero_le _)
  · intro p waits
    cases waits

end GasAnalyzer
