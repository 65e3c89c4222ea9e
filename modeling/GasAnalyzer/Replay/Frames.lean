import GasAnalyzer.Native.Returns
import GasAnalyzer.Replay.Programs

/-!
# Every program replays its call

A program that a walk finishes takes the chain its call found to the chain the call left, whatever the frames it calls
do on the way.
-/

namespace GasAnalyzer

variable {H : Hashes} {elig : Eligibility} {candidates : OrdMap Nat Candidate} {n id : Nat} {log call first next : StructLog}
variable {w w' w₁ w₂ w₃ : Walk} {target : Address} {c : Chain} {ws : List Write} {t body rest : CallTree}
variable {sees : Nat → Chain} {does : Nat → Chain → Chain} {ctx : Option Address} {pending : PendingFrame}

/-- A program with its last slice takes the chain its frame found to the one the frame leaves. -/
theorem Placed.program {d : Nat} (placed : Placed sees does (some target) n t ws c w) (wf : t.WellFormed d)
    (walked : Walked H elig candidates n t w w') (free : w.pending = none) (emits : w.top.program = some id)
    (targets : w.Targets id target) (context : w.top.storageCtx = some target) (out : w.top.out = [])
    (view : w.top.emittedView = OrdMap.empty) (step : Nat) :
    Follows sees does target (w'.sliced step target).out c (t.run (some target) c) := by
  have start : InStep target w c c := by
    apply InStep.level
    intro s v held
    rw [view] at held
    cases held
  obtain ⟨ops, r, emitted, follows, inStep⟩ := walked.follows wf free emits targets context placed start
  have imaged : ∀ s, w'.image target s = wrote (ws ++ t.writes CallTree.unborn w.top.storageCtx n) target s := by
    intro s
    rw [walked.image free, placed.imaged, wrote_append]
  rw [Walk.sliced_out, emitted, out, List.nil_append]
  exact follows.append (inStep.slice imaged (placed.reflected.run placed.newborn placed.hosts))

theorem Walked.native_texts (walked : Walked H elig candidates n t w w') (free : w.pending = none)
    (native : w.top.program = none) : w'.texts = w.texts := by
  induction walked with
  | done => rfl
  | last executed _ =>
    rcases (exec_executed executed).texts with same | ⟨_, _, _, _, -, -, -, emits, -⟩
    · exact same
    · rw [native] at emits
      cases emits
  | @step n log next rest w w₁ w₂ w' executed head level entered tail ih =>
    have step := exec_executed executed
    have inline := frames_inline free executed level entered
    rw [ih inline.free (inline.top.program.trans native), texts_enterPending entered]
    rcases step.texts with same | ⟨_, _, _, _, -, -, -, emits, -⟩
    · exact same
    · rw [native] at emits
      cases emits
  | @enter n call first next body rest p w w₁ w₂ w₃ w' executed waits head inner resumes popped tail ihInner ihTail =>
    have step := exec_executed executed
    have ran := inner.frames rfl
    obtain ⟨g, others, flag, -, -, -, pop⟩ := popFrame_popped popped
    have program₁ : w₁.top.program = none := step.place.2.program.trans native
    have same : w₁.texts = w.texts := by
      rcases step.texts with same | ⟨_, _, _, _, -, -, -, emits, -⟩
      · exact same
      · rw [native] at emits
        cases emits
    have plain := step.plain free same waits
    have isNone : p.program = none := by
      cases step.role free waits with
      | delegate _ _ own => rw [own, native]
      | native _ _ none => exact none
      | own _ nested =>
        rw [plain] at nested
        cases nested
    rw [ihTail (pop.pending.trans ran.free) ((program_of_frames ran popped).trans program₁)]
    obtain ⟨flag', -, returns⟩ := texts_popFrame popped
    rw [if_neg (by simp [ran.top.nestedStartGas.trans plain])] at returns
    rw [returns, ihInner rfl isNone]
    exact same

/-- A finished program takes the chain its call found to the chain the call left. -/
def ProgramState.Replays (sees : Nat → Chain) (does : Nat → Chain → Chain) (p : ProgramState) : Prop :=
  ∀ ops, p.updates = some ops → Follows sees does p.target ops (sees p.step) (does p.step (sees p.step))

theorem Walked.replays {d : Nat} (walked : Walked H elig candidates n t w w') (wf : t.WellFormed d)
    (free : w.pending = none) (placed : Placed sees does ctx n t ws c w) :
    w.top.program.isSome = true → ∀ i q, w.texts.length ≤ i → w'.texts[i]? = some q → q.Replays sees does := by
  induction walked generalizing d ctx ws c with
  | done =>
    intro _ i q outside found
    rw [List.getElem?_eq_none outside] at found
    cases found
  | last executed free' =>
    intro _ i q outside found
    rcases (exec_executed executed).texts with same | ⟨_, _, _, _, -, -, -, -, -, rfl, -⟩
    · rw [same, List.getElem?_eq_none outside] at found
      cases found
    · cases free'
  | @step n log next rest w w₁ w₂ w' executed head level entered tail ih =>
    intro emits i q outside found
    have step := exec_executed executed
    have inline := frames_inline free executed level entered
    have same : w₂.texts = w.texts := by
      rw [texts_enterPending entered]
      rcases step.texts with same | ⟨_, _, _, _, -, -, -, -, -, rfl, -⟩
      · exact same
      · cases plain_inline step free level entered rfl
    refine ih wf.2.2 inline.free (placed.step free executed level entered) ?_ i q (by rwa [same]) found
    rw [inline.top.program]
    exact emits
  | @enter n call first next body rest pending w w₁ w₂ w₃ w' executed waits head inner resumes popped tail
      ihInner ihTail =>
    intro emits i q outside found
    obtain ⟨-, -, opens, -, innerWf, -, tailWf⟩ := wf
    have step := exec_executed executed
    have ran := inner.frames rfl
    obtain ⟨g, others, flag, -, caller, -, pop⟩ := popped_of_frames ran popped
    have free₃ : w₃.pending = none := pop.pending.trans ran.free
    have program₃ : w₃.top.program = w.top.program := (program_of_frames ran popped).trans step.place.2.program
    -- Only a frame that emits opens programs, and it is no constructor.
    have placed₂ : pending.program.isSome = true →
        Placed sees does (CallTree.context CallTree.deployed ctx call rest) (n + 1) body ws c
          (pushFrame pending first { w₁ with pending := none }) := by
      intro emitting
      refine placed.inside free step opens waits ?_
      intro create
      cases step.role free waits with
      | delegate kind => cases op : call.op <;> simp_all [Opcode.isCreate, Opcode.isDelegate]
      | native _ _ none =>
        rw [none] at emitting
        cases emitting
      | own kind =>
        rw [kind] at create
        cases create
    have during : w₁.texts.length ≤ i → w₂.texts[i]? = some q → q.Replays sees does := by
      intro outside found
      cases program : pending.program with
      | none =>
        have same : w₂.texts = w₁.texts := inner.native_texts rfl program
        rw [same, List.getElem?_eq_none outside] at found
        cases found
      | some own =>
        have emitting : pending.program.isSome = true := by rw [program]; rfl
        exact ihInner innerWf rfl (placed₂ emitting) emitting i q outside found
    rcases Nat.lt_or_ge i w₃.texts.length with there | beyond
    · rw [(tail.opened free₃).old i there] at found
      obtain ⟨flag', flagged, returns⟩ := texts_popFrame popped
      rcases step.texts with same | ⟨parent, parentState, k, index, kind, callee, handed, -, -, rfl, texts⟩
      · have plain := step.plain free same waits
        rw [if_neg (by simp [ran.top.nestedStartGas.trans plain])] at returns
        rw [returns] at found
        exact during (by rwa [same]) found
      · have isPending : pending.program = some w.texts.length ∧ pending.nestedStartGas.isSome = true ∧
            pending.storageCtx = some k.target ∧ pending.emittedView = OrdMap.empty := by
          obtain rfl := Option.some.inj waits
          exact ⟨by rw [length_texts], rfl, callee, rfl⟩
        obtain ⟨isProgram, -, isContext, isView⟩ := isPending
        have program : w₂.top.program = some w.texts.length := ran.top.program.trans isProgram
        rcases Nat.eq_or_lt_of_le outside with rfl | further
        · -- The program of the call's own frame.
          have added := List.getElem?_concat_length (l := w.texts)
            (a := (nestedProgram H w.top.storageCtx n parent index k).text)
          rw [← texts] at added
          have own : w₂.texts[w.texts.length]? = some (nestedProgram H w.top.storageCtx n parent index k).text :=
            ((inner.opened rfl).old w.texts.length (List.getElem?_eq_some_iff.mp added).1).trans added
          split at returns
          · rename_i success
            obtain ⟨id', q', start, emits', foundQ, -, closes⟩ := returns
            obtain rfl := Option.some.inj (program.symm.trans emits')
            have target : q'.target = k.target := by
              rw [getElem?_texts, foundQ] at own
              exact congrArg ProgramState.target (Option.some.inj own)
            rw [closes, List.getElem?_modify, own] at found
            obtain rfl : (ProgramState.finish _ _ _) = q := by simpa using found
            intro ops updates
            obtain rfl := Option.some.inj updates
            have contextD : CallTree.context CallTree.deployed ctx call rest = some k.target := by
              rw [CallTree.context, if_neg (by rw [kind]; decide), if_neg (by rw [kind]; decide), callee]
            have placed₂ := placed₂ (by rw [isProgram]; rfl)
            rw [contextD] at placed₂
            have succeeds : rest.succeeds = true := by
              rw [CallTree.succeeds_of_flag resumes flagged]
              exact decide_eq_true success.1
            show Follows sees does k.target (w₂.sliced (n + 1 + body.size) q'.target).out (sees n) (does n (sees n))
            rw [target, placed.shows.1, placed.shows.2.1, if_pos succeeds, contextD]
            exact placed₂.program innerWf inner rfl isProgram ⟨_, added, rfl⟩ isContext rfl isView _
          · rw [returns, own] at found
            obtain rfl := Option.some.inj found
            intro ops updates
            cases updates
        · have others : w₃.texts[i]? = w₂.texts[i]? := by
            split at returns
            · obtain ⟨id', q', start, emits', -, -, closes⟩ := returns
              obtain rfl := Option.some.inj (program.symm.trans emits')
              rw [closes, List.getElem?_modify]
              simp [Nat.ne_of_lt further]
            · rw [returns]
          rw [others] at found
          refine during ?_ found
          rw [texts, List.length_append]
          exact further
    · exact ihTail tailWf free₃ (placed.after free step opens waits inner resumes popped) (by rw [program₃]; exact emits)
        i q beyond found

end GasAnalyzer
