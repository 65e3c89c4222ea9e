import GasAnalyzer.Native.Calls
import GasAnalyzer.Native.Single
import GasAnalyzer.Net.Execution

/-!
# The canonical program of a plain execution

An execution that makes no `CALL` and no `CREATE` in the consumer's name gives the walk no boundary to flush at: the
root's program is the events it emitted, then one slice with its journal.
-/

namespace GasAnalyzer

/-! ### Events -/

theorem getElem?_readMemory (memory : Bytes) (offset length i : Nat) :
    (readMemory memory offset length)[i]? = if i < length then some (memory.getD (offset + i) 0) else none := by
  unfold readMemory
  rw [List.getElem?_map]
  by_cases inside : i < length
  · rw [List.getElem?_range inside, if_pos inside]
    rfl
  · rw [List.getElem?_eq_none (by rw [List.length_range]; omega), if_neg inside]
    rfl

theorem copyMemory_eq {memory bytes : Bytes} {offset length : Nat} (copied : copyMemory memory offset length = .ok bytes) :
    bytes = readMemory memory offset length := by
  apply List.ext_getElem?
  intro i
  rw [getElem?_readMemory, List.getD_eq_getElem?_getD]
  unfold copyMemory at copied
  split at copied
  · cases copied
  · split at copied
    · rename_i covered
      obtain rfl := Except.ok.inj copied
      rw [List.getElem?_take, List.getElem?_drop]
      split
      · rename_i inside
        rw [List.getElem?_eq_getElem (by omega)]
        rfl
      · rfl
    · rename_i short
      split at copied
      · -- The range starts inside memory and runs past its end.
        rename_i starts
        obtain rfl := Except.ok.inj copied
        have length' : (List.take (min (memory.length - offset) length) (memory.drop offset)).length =
            memory.length - offset := by
          rw [List.length_take, List.length_drop]
          omega
        rw [List.getElem?_append, length', List.getElem?_take, List.getElem?_drop, List.getElem?_replicate]
        by_cases known : i < memory.length - offset
        · rw [if_pos known, if_pos (by omega), if_pos (by omega), List.getElem?_eq_getElem (by omega)]
          rfl
        · rw [if_neg known, List.getElem?_eq_none (by omega : memory.length ≤ offset + i)]
          by_cases inside : i < length
          · rw [if_pos inside, if_pos (by omega)]
            rfl
          · rw [if_neg inside, if_neg (by omega)]
      · rename_i beyond
        obtain rfl := Except.ok.inj copied
        rw [List.getElem?_replicate, List.getElem?_eq_none (by omega : memory.length ≤ offset + i)]
        rfl

/-- The operation that emits an event. -/
def Event.update (e : Event) : StateUpdate := logToUpdate { data := some e.data, topics := some e.topics }

theorem take_drop_succ {α : Type} {xs : List α} {i : Nat} {a : α} (here : xs[i]? = some a) (k : Nat) :
    (xs.drop i).take (k + 1) = a :: (xs.drop (i + 1)).take k := by
  obtain ⟨lt, rfl⟩ := List.getElem?_eq_some_iff.mp here
  rw [List.drop_eq_getElem_cons lt, List.take_succ_cons]

/-- A `LOG` step decodes to the operation that emits its event. -/
theorem decodeStructLog_event {log : StructLog} {r : Option StateUpdate × Option Opcode} (kind : log.op.isLog = true)
    (memory : log.memory.isSome = true) (decoded : decodeStructLog log = .ok r) : r.1 = some log.event.update := by
  obtain ⟨words, hasMemory⟩ := Option.isSome_iff_exists.mp memory
  unfold decodeStructLog at decoded
  obtain ⟨stack, hasStack, decoded⟩ := Outcome.bind_ok decoded
  rw [Outcome.okOr_ok] at hasStack
  rw [hasMemory] at decoded
  obtain ⟨bytes, parsed, decoded⟩ := Outcome.bind_ok decoded
  have isBytes : log.bytes = bytes := by
    unfold StructLog.bytes
    rw [hasMemory, Option.getD_some, parsed]
    rfl
  have data : ∀ {d : Bytes}, logData stack.reverse bytes = .ok d → d = log.event.data := by
    intro d read
    unfold logData readRange at read
    obtain ⟨o, first, read⟩ := Outcome.bind_ok read
    obtain ⟨offset, isOffset, read⟩ := Outcome.bind_ok read
    obtain ⟨l, second, read⟩ := Outcome.bind_ok read
    obtain ⟨length, isLength, read⟩ := Outcome.bind_ok read
    have top0 : log.top 0 = some o := by
      rw [index, Outcome.okOr_ok] at first
      rw [StructLog.top, hasStack]
      exact first
    have top1 : log.top 1 = some l := by
      rw [index, Outcome.okOr_ok] at second
      rw [StructLog.top, hasStack]
      exact second
    have atOffset : o.val = offset := by
      unfold toUsize at isOffset
      split at isOffset
      · exact Except.ok.inj isOffset
      · cases isOffset
    have atLength : l.val = length := by
      unfold toUsize at isLength
      split at isLength
      · exact Except.ok.inj isLength
      · cases isLength
    rw [copyMemory_eq read, StructLog.event]
    simp only [isBytes, top0, top1, Option.getD_some, atOffset, atLength]
  have topics : log.event.topics = (stack.reverse.drop 2).take log.op.topicCount := by
    rw [StructLog.event, hasStack]
    rfl
  have reads : ∀ {i : Nat} {topic : U256}, index stack.reverse i = .ok topic → stack.reverse[i]? = some topic := by
    intro i topic read
    rwa [index, Outcome.okOr_ok] at read
  unfold Event.update
  rw [topics]
  unfold decodeOp at decoded
  cases op : log.op with
  | log0 =>
    rw [op] at decoded
    obtain ⟨d, read, decoded⟩ := Outcome.bind_ok decoded
    obtain rfl := Except.ok.inj decoded
    rw [data read]
    rfl
  | log1 =>
    rw [op] at decoded
    obtain ⟨d, read, decoded⟩ := Outcome.bind_ok decoded
    obtain ⟨topic1, read1, decoded⟩ := Outcome.bind_ok decoded
    obtain rfl := Except.ok.inj decoded
    rw [data read, Opcode.topicCount, take_drop_succ (reads read1)]
    rfl
  | log2 =>
    rw [op] at decoded
    obtain ⟨d, read, decoded⟩ := Outcome.bind_ok decoded
    obtain ⟨topic1, read1, decoded⟩ := Outcome.bind_ok decoded
    obtain ⟨topic2, read2, decoded⟩ := Outcome.bind_ok decoded
    obtain rfl := Except.ok.inj decoded
    rw [data read, Opcode.topicCount, take_drop_succ (reads read1), take_drop_succ (reads read2)]
    rfl
  | log3 =>
    rw [op] at decoded
    obtain ⟨d, read, decoded⟩ := Outcome.bind_ok decoded
    obtain ⟨topic1, read1, decoded⟩ := Outcome.bind_ok decoded
    obtain ⟨topic2, read2, decoded⟩ := Outcome.bind_ok decoded
    obtain ⟨topic3, read3, decoded⟩ := Outcome.bind_ok decoded
    obtain rfl := Except.ok.inj decoded
    rw [data read, Opcode.topicCount, take_drop_succ (reads read1), take_drop_succ (reads read2),
      take_drop_succ (reads read3)]
    rfl
  | log4 =>
    rw [op] at decoded
    obtain ⟨d, read, decoded⟩ := Outcome.bind_ok decoded
    obtain ⟨topic1, read1, decoded⟩ := Outcome.bind_ok decoded
    obtain ⟨topic2, read2, decoded⟩ := Outcome.bind_ok decoded
    obtain ⟨topic3, read3, decoded⟩ := Outcome.bind_ok decoded
    obtain ⟨topic4, read4, decoded⟩ := Outcome.bind_ok decoded
    obtain rfl := Except.ok.inj decoded
    rw [data read, Opcode.topicCount, take_drop_succ (reads read1), take_drop_succ (reads read2),
      take_drop_succ (reads read3), take_drop_succ (reads read4)]
    rfl
  | _ =>
    rw [op] at kind
    cases kind

/-! ### Plain executions -/

/-- Not a `CALL` or a `CREATE` that runs. -/
def StructLog.Plain (log : StructLog) : Prop := log.errored = false → log.op ≠ .call ∧ log.op.isCreate = false

namespace CallTree

/-- A frame and its delegate frames, failed ones too, make no `CALL` and no `CREATE`. -/
def Plain : CallTree → Prop
  | done => True
  | step log rest => log.Plain ∧ rest.Plain
  | enter call body rest => call.Plain ∧ (call.op.isDelegate = true → body.Plain) ∧ rest.Plain

theorem emissions_step (n : Nat) (log : StructLog) (rest : CallTree) :
    emissions n (.step log rest) = (if log.emits then [(n, log)] else []) ++ emissions (n + 1) rest := by
  unfold emissions
  rw [closure, List.filter_cons]
  split <;> rfl

theorem emissions_enter (n : Nat) {call : StructLog} (body rest : CallTree) (opens : call.op.opensFrame = true) :
    emissions n (.enter call body rest) =
      (if call.op.isDelegate && rest.succeeds then emissions (n + 1) body else []) ++
        emissions (n + 1 + body.size) rest := by
  have quiet : call.emits = false := by
    unfold StructLog.emits
    cases op : call.op <;> simp_all [Opcode.opensFrame, Opcode.isLog]
  unfold emissions
  rw [closure, List.filter_cons, quiet, if_neg Bool.false_ne_true, List.filter_append]
  split <;> rfl

/-- The operations that emit the events of a frame and its delegate frames. -/
def logOps (n : Nat) (t : CallTree) : List Op := (t.emissions n).map (fun p => ⟨p.2.event.update, p.1⟩)

end CallTree

section

variable {H : Hashes} {elig : Eligibility} {candidates : OrdMap Nat Candidate} {n : Nat} {log : StructLog}
variable {w w' : Walk}

/-- Nothing of what the frame's program stored is in view. -/
def WalkFrame.Unflushed (f : WalkFrame) : Prop := ∀ s, f.emittedView.get s = none

theorem Kept.unflushed {f f' : WalkFrame} (kept : Kept f f') (unflushed : f.Unflushed) : f'.Unflushed := by
  intro s
  cases held : f'.emittedView.get s with
  | none => rfl
  | some v =>
    have before := kept.view s v held
    rw [unflushed s] at before
    cases before

/-- A step that makes no call emits its event, if any, and stores nothing. -/
theorem Executed.plain_out (executed : Executed H elig candidates n log w w') (memory : log.memory.isSome = true)
    (plain : w.top.program ≠ none → log.Plain) :
    w'.top.emittedView = w.top.emittedView ∧ w'.texts = w.texts ∧
      w'.top.out = w.top.out ++ if w.top.program.isSome && log.emits then [⟨log.event.update, n⟩] else [] := by
  have nothing : log.emits = false → w.top.out =
      w.top.out ++ if w.top.program.isSome && log.emits then [⟨log.event.update, n⟩] else [] := by
    intro quiet
    rw [quiet, Bool.and_false, if_neg Bool.false_ne_true, List.append_nil]
  have other : log.op.isLog = false → log.emits = false := by
    intro kind
    rw [StructLog.emits, kind, Bool.false_and]
  have calls : ∀ {id : Nat}, w.top.program = some id → log.Plain := by
    intro id emits
    exact plain (by rw [emits]; exact Option.some_ne_none id)
  cases executed with
  | quiet silent =>
    refine ⟨rfl, rfl, ?_⟩
    rw [if_neg, List.append_nil]
    intro both
    obtain ⟨emits, logs⟩ := Bool.and_eq_true_iff.mp both
    obtain ⟨kind, fine⟩ := Bool.and_eq_true_iff.mp logs
    simp [StructLog.silent, kind, emits, show log.errored = false by simpa using fine] at silent
  | unowned kind => exact ⟨rfl, rfl, nothing (other (by rw [kind]; rfl))⟩
  | stored kind =>
    rw [Walk.stored_top]
    refine ⟨rfl, ?_, nothing (other (by rw [kind]; rfl))⟩
    unfold Walk.stored
    split
    · exact texts_modifyProgram (fun p => by unfold ProgramState.chargeStore; split <;> rfl) _ _
    · rfl
  | @logged id update skipped kind fine emits decoded =>
    refine ⟨rfl, ?_, ?_⟩
    · apply texts_modifyProgram
      intro p
      rfl
    · have isEvent := decodeStructLog_event kind memory decoded
      show w.top.out ++ update.toList.map (Op.mk · n) = _
      rw [show update = some log.event.update from isEvent, emits, StructLog.emits, kind, fine]
      rfl
  | delegated kind | creates kind =>
    refine ⟨rfl, rfl, nothing (other ?_)⟩
    cases op : log.op <;> simp_all [Opcode.isLog, Opcode.isDelegate, Opcode.isCreate]
  | observed kind | called kind => exact ⟨rfl, rfl, nothing (other (by rw [kind]; rfl))⟩
  | emitted kind fine emits | opened kind fine emits => exact absurd kind (calls emits fine).1
  | deployed kind fine emits =>
    have none := (calls emits fine).2
    rw [kind] at none
    cases none

/-- The frame a plain step opens has nothing in view, and is no program of its own. -/
theorem Executed.plain_opens (executed : Executed H elig candidates n log w w') (free : w.pending = none)
    (plain : w.top.program ≠ none → log.Plain) (unflushed : w.top.Unflushed) {p : PendingFrame}
    (waits : w'.pending = some p) :
    (∀ s, p.emittedView.get s = none) ∧ p.nestedStartGas = none ∧
      p.program = if log.op.isDelegate then w.top.program else none := by
  have calls : ∀ {id : Nat}, w.top.program = some id → log.Plain := by
    intro id emits
    exact plain (by rw [emits]; exact Option.some_ne_none id)
  cases executed with
  | quiet | unowned =>
    rw [free] at waits
    cases waits
  | stored =>
    rw [Walk.stored_pending, free] at waits
    cases waits
  | logged =>
    have waits : w.pending = some p := waits
    rw [free] at waits
    cases waits
  | delegated kind =>
    cases waits
    rw [kind]
    refine ⟨?_, rfl, rfl⟩
    intro s
    show (if w.top.program.isSome = true then w.top.emittedView else OrdMap.empty).get s = none
    split
    · exact unflushed s
    · rfl
  | observed kind | called kind =>
    cases waits
    rw [kind]
    exact ⟨fun _ => rfl, rfl, rfl⟩
  | creates kind =>
    cases waits
    have plain : log.op.isDelegate = false := by
      cases op : log.op <;> simp_all [Opcode.isCreate, Opcode.isDelegate]
    rw [plain]
    exact ⟨fun _ => rfl, rfl, rfl⟩
  | emitted kind fine emits | opened kind fine emits => exact absurd kind (calls emits fine).1
  | deployed kind fine emits =>
    have none := (calls emits fine).2
    rw [kind] at none
    cases none

/-- A plain frame emits its events and stores nothing before it returns. -/
theorem Walked.plain_out {d : Nat} {t : CallTree} (walked : Walked H elig candidates n t w w') (wf : t.WellFormed d)
    (free : w.pending = none) (plain : w.top.program ≠ none → t.Plain) (unflushed : w.top.Unflushed) :
    w'.top.Unflushed ∧ w'.texts = w.texts ∧
      w'.top.out = w.top.out ++ if w.top.program.isSome then t.logOps n else [] := by
  induction walked generalizing d with
  | done =>
    refine ⟨unflushed, rfl, ?_⟩
    split <;> exact (List.append_nil _).symm
  | @last n log w w' executed _ =>
    obtain ⟨view, texts, out⟩ := (exec_executed executed).plain_out wf.1.memory (fun emits => (plain emits).1)
    refine ⟨by unfold WalkFrame.Unflushed; rw [view]; exact unflushed, texts, ?_⟩
    rw [out, CallTree.logOps, CallTree.emissions_step]
    cases w.top.program <;> cases log.emits <;> simp [CallTree.emissions, CallTree.closure]
  | @step n log next rest w w₁ w₂ w' executed head level entered tail ih =>
    have step := exec_executed executed
    have inline := frames_inline free executed level entered
    obtain ⟨view, texts, out⟩ := step.plain_out wf.1.memory (fun emits => (plain emits).1)
    have between : Kept w₁.top w₂.top := (entered_kept free step level entered).1
    have unflushed₂ : w₂.top.Unflushed := by
      apply between.unflushed
      unfold WalkFrame.Unflushed
      rw [view]
      exact unflushed
    obtain ⟨unflushed', texts', out'⟩ := ih wf.2.2 inline.free
      (fun emits => (plain (by rwa [inline.top.program] at emits)).2) unflushed₂
    refine ⟨unflushed', ?_, ?_⟩
    · rw [texts', texts_enterPending entered, texts]
    · rw [out', between.out, out, inline.top.program, CallTree.logOps, CallTree.logOps, CallTree.emissions_step,
        List.append_assoc]
      cases w.top.program <;> cases log.emits <;> simp
  | @enter n call first next body rest p w w₁ w₂ w₃ w' executed waits head inner resumes popped tail
      ihInner ihTail =>
    obtain ⟨carries, fine, opens, -, innerWf, -, tailWf⟩ := wf
    have step := exec_executed executed
    obtain ⟨view, texts, out⟩ := step.plain_out carries.memory (fun emits => (plain emits).1)
    obtain ⟨bare, own, program⟩ := step.plain_opens free (fun emits => (plain emits).1) unflushed waits
    obtain ⟨below, place⟩ := step.place
    have ran := inner.frames rfl
    obtain ⟨unflushed₂, texts₂, out₂⟩ := ihInner innerWf rfl (by
      intro emits
      change p.program ≠ none at emits
      rw [program] at emits
      split at emits
      · rename_i delegates
        exact (plain emits).2.1 delegates
      · exact absurd rfl emits) bare
    obtain ⟨g, others, flag, flagged, caller, outer, pop⟩ := popped_of_frames ran popped
    have success := CallTree.succeeds_of_flag resumes flagged
    have nested : w₂.top.nestedStartGas = none := ran.top.nestedStartGas.trans own
    have program₃ : w₃.top.program = w.top.program := (program_of_frames ran popped).trans place.program
    have unflushedG : g.Unflushed := by
      apply caller.unflushed
      unfold WalkFrame.Unflushed
      rw [view]
      exact unflushed
    have quiet : call.emits = false := by
      unfold StructLog.emits
      cases op : call.op <;> simp_all [Opcode.opensFrame, Opcode.isLog]
    have outG : g.out = w.top.out := by
      rw [caller.out, out, quiet, Bool.and_false, if_neg Bool.false_ne_true, List.append_nil]
    have texts₃ : w₃.texts = w.texts := by
      obtain ⟨flag', -, same⟩ := texts_popFrame popped
      rw [if_neg (by rw [nested]; rintro ⟨-, isNested⟩; cases isNested)] at same
      rw [same, texts₂]
      exact texts
    have inner₃ : w₃.top.Unflushed ∧ w₃.top.out = w.top.out ++
        if w.top.program.isSome && call.op.isDelegate && rest.succeeds then body.logOps (n + 1) else [] := by
      have emits : p.program.isSome = (w.top.program.isSome && call.op.isDelegate) := by
        rw [program]
        cases call.op.isDelegate <;> simp
      have returned := pop.returned
      generalize w₃.top = g'' at returned
      cases returned with
      | absorbed kept succ _ =>
        refine ⟨?_, ?_⟩
        · intro s
          show (if w₂.top.program.isSome = true then _ else _ : Slots).get s = none
          split
          · exact unflushed₂ s
          · exact kept.unflushed unflushedG s
        · rw [success, decide_eq_true succ, Bool.and_true, ← emits, ← outG, ← kept.out]
          show _ ++ w₂.top.out = _
          rw [out₂]
          rfl
      | discarded kept failure _ =>
        refine ⟨kept.unflushed unflushedG, ?_⟩
        rw [success, decide_eq_false (not_not.mpr failure), Bool.and_false, if_neg Bool.false_ne_true,
          List.append_nil, kept.out, outG]
      | merged _ _ isNested | retracted _ _ isNested =>
        rw [nested] at isNested
        cases isNested
    obtain ⟨unflushed', texts', out'⟩ := ihTail tailWf (pop.pending.trans ran.free)
      (fun emits => (plain (by rwa [program₃] at emits)).2.2) inner₃.1
    refine ⟨unflushed', texts'.trans texts₃, ?_⟩
    rw [out', inner₃.2, program₃, CallTree.logOps, CallTree.logOps, CallTree.logOps,
      CallTree.emissions_enter n body rest opens, List.append_assoc]
    cases w.top.program <;> cases call.op.isDelegate <;> cases rest.succeeds <;> simp

end

/-! ### The split -/

/-- With nothing in view a slice stores the whole image. -/
theorem slice_unflushed {w : Walk} (unflushed : w.top.Unflushed) (n : Nat) (target : Address) :
    w.slice n target = (visibleImage (w.top :: w.below) target).entries.map (storeOp n) := by
  unfold Walk.slice staleStores
  rw [List.filter_eq_self.mpr]
  intro e _
  rw [unflushed e.1]
  rfl

def storeUpdate (e : B256 × B256) : StateUpdate := .store ⟨e.1, e.2⟩

/-- The split of a plain execution: one frame, with the events of the call and then the slots it committed. -/
structure PlainSplit (root : Address) (t : CallTree) (rootIndex : Option U256) (image : Slots)
    (tree : FrameTreeExtract) : Prop where
  frame : ∃ frame, tree.frames = [frame] ∧ frame.transitionIndex = rootIndex ∧
    frame.updates = (t.logOps 0).map Op.update ++ image.entries.map storeUpdate
  committed : ∀ s, image.get s = wrote (t.writes CallTree.unborn (some root) 0) root s

theorem splitFrameTree_plain {H : Hashes} {trace : DefaultFrame} {root : Address} {elig : Eligibility}
    {cost : NestingCostModel} {tree : FrameTreeExtract} {t : CallTree} (wf : t.WellFormed 1)
    (flat : trace.structLogs = t.flatten) (plain : t.Plain) (answer : splitFrameTree H trace root elig cost = .ok tree) :
    ∃ candidates rootIndex image, scanCandidates trace.structLogs = .ok (candidates, rootIndex) ∧
      PlainSplit root t rootIndex image tree := by
  obtain ⟨run⟩ := splitFrameTree_run answer
  have walked := run.derivation wf flat
  obtain ⟨unflushed, texts, out⟩ := walked.plain_out wf rfl (fun _ => plain) (fun _ => rfl)
  obtain ⟨below, -, -, -, -, -, programs, -⟩ := closeRoot_ok run.closes
  obtain ⟨p, one⟩ : ∃ p, run.last.programs = [p] := by
    have lengths := congrArg List.length texts
    rw [length_texts, length_texts] at lengths
    exact List.length_eq_one_iff.mp lengths
  have placed : p.target = root ∧ p.transitionIndex = run.rootIndex := by
    unfold Walk.texts at texts
    rw [one] at texts
    have text := (List.cons.inj texts).1
    exact ⟨congrArg ProgramState.target text, congrArg ProgramState.transitionIndex text⟩
  have alive : p.dropped = false := by
    have found : run.closed.programs[0]? = some (p.finishRoot run.closed.top) := by
      rw [programs, one]
      rfl
    exact (run.isClosed.done _ found).2
  have emits : run.last.top.program = some 0 := (walked.frames rfl).top.program
  obtain ⟨tree', answer', split⟩ := @splitFrameTree_of_walk H trace root elig cost _ _ _ _ run.scanned run.walked below
    emits one alive
  obtain rfl : tree' = tree := Except.ok.inj (answer'.symm.trans answer)
  obtain ⟨frame, frames, updates, index⟩ := split.frame
  refine ⟨run.candidates, run.rootIndex, visibleImage [run.last.top] root, run.scanned, ⟨frame, frames, ?_, ?_⟩, ?_⟩
  · rw [index, placed.2]
  · rw [updates, Walk.sliced_out, out, placed.1, slice_unflushed unflushed, below, List.map_append, List.map_map]
    rfl
  · intro s
    rw [get_visibleImage_cons]
    show (run.last.top.journal.value root s).or none = _
    rw [Option.or_none, walked.journal rfl]
    exact Option.or_none

end GasAnalyzer
