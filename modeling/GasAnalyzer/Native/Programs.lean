import GasAnalyzer.Native.Walked
import GasAnalyzer.Nested.Pruning

/-!
# Programs of a walked trace

A program belongs to the `CALL` that opened it: on a well-formed trace the walk of that call's body is the
walk of the program, and what it holds at the end is what the body emitted and its last slice.
-/

namespace GasAnalyzer

/-- A program without its children, its drop mark and what its replay is charged. -/
def ProgramState.text (p : ProgramState) : ProgramState :=
  { p with children := [], dropped := false, effectGas := 0, childCallGas := 0 }

def Walk.texts (w : Walk) : List ProgramState := w.programs.map ProgramState.text

variable {H : Hashes} {elig : Eligibility} {candidates : OrdMap Nat Candidate} {n : Nat} {log : StructLog}
variable {w w' : Walk}

theorem texts_modifyProgram {f : ProgramState → ProgramState} (same : ∀ p, (f p).text = p.text) (id : Nat)
    (w : Walk) : (modifyProgram id f w).texts = w.texts :=
  map_modify same w.programs id

theorem texts_chargeProgram (gas : UInt64) (w : Walk) : (chargeProgram gas w).texts = w.texts := by
  unfold chargeProgram
  split
  · apply texts_modifyProgram
    intro p
    rfl
  · rfl

theorem texts_chargeCall (create : Bool) (gas callee : UInt64) (w : Walk) :
    (chargeCall create gas callee w).texts = w.texts := by
  unfold chargeCall
  rw [texts_chargeProgram]
  rfl

theorem texts_chargeReturn (log : StructLog) (frame : WalkFrame) (w : Walk) :
    (chargeReturn log frame w).texts = w.texts := by
  unfold chargeReturn
  split
  · rfl
  · exact texts_chargeCall _ _ _ _

theorem texts_dropOpened (first : Nat) (w : Walk) : (dropOpened first w).texts = w.texts := by
  show (dropFrom first w.programs).map ProgramState.text = w.programs.map ProgramState.text
  unfold dropFrom
  rw [List.map_append, List.map_map]
  conv_rhs => rw [← List.take_append_drop first w.programs, List.map_append]
  rfl

theorem texts_enterPending (entered : enterPending log w = .ok w') : w'.texts = w.texts := by
  unfold enterPending at entered
  split at entered
  · obtain rfl := Except.ok.inj entered
    rfl
  · dsimp only at entered
    split at entered
    · obtain rfl := Except.ok.inj entered
      rfl
    · split at entered
      · cases entered
      · split at entered
        · cases entered
        · split at entered
          · obtain rfl := Except.ok.inj entered
            rfl
          · obtain rfl := Except.ok.inj entered
            exact texts_chargeCall _ _ _ _

/-- A step changes no program's text; it may add the program of the frame it opens. -/
theorem Executed.texts (executed : Executed H elig candidates n log w w') :
    w'.texts = w.texts ∨ ∃ id p c index, log.op = .call ∧ log.callee = some c.target ∧
      elig.frameIndex (candidates.get n) log.callee = some index ∧ w.top.program = some id ∧
      w.programs[id]? = some p ∧ w' = openNested H n id index c log { w with top := w.sliced n p.target } ∧
      w'.texts = w.texts ++ [(nestedProgram H w.top.storageCtx n id index c).text] := by
  cases executed with
  | stored =>
    left
    unfold Walk.stored
    split
    · exact texts_modifyProgram (fun p => by unfold ProgramState.chargeStore; split <;> rfl) _ _
    · rfl
  | logged =>
    left
    apply texts_modifyProgram
    intro p
    rfl
  | @opened id p c index kind fine emits found decoded callee handed =>
    right
    refine ⟨id, p, c, index, kind, callee, handed, emits, found, rfl, ?_⟩
    refine (map_modify ?_ (w.programs ++ [_]) id).trans ?_
    · intro p
      rfl
    · rw [List.map_append]
      rfl
  | _ => exact Or.inl rfl

/-! ### Returning -/

theorem texts_finish (id : Nat) (gas : UInt64) (frame : WalkFrame) (w : Walk) :
    (modifyProgram id (ProgramState.finish gas frame) w).texts = w.texts.modify id (ProgramState.finish gas frame) := by
  unfold Walk.texts modifyProgram
  apply List.ext_getElem?
  intro i
  simp only [List.getElem?_map, List.getElem?_modify]
  cases w.programs[i]? with
  | none => rfl
  | some p =>
    by_cases here : id = i
    · simp [here, ProgramState.finish, ProgramState.text]
    · simp [here]

theorem texts_returnFrame {success : Bool} {frame : WalkFrame}
    (returned : returnFrame success log frame w = .ok w') :
    if success && frame.nestedStartGas.isSome then
      ∃ id start, frame.program = some id ∧ frame.nestedStartGas = some start ∧
        w'.texts = w.texts.modify id (ProgramState.finish (satSub start log.gas) frame)
    else w'.texts = w.texts := by
  unfold returnFrame at returned
  split at returned
  · cases returned
  · have charged : (chargeReturn log frame (if success then w else dropOpened frame.firstProgram w)).texts =
        w.texts := by
      rw [texts_chargeReturn]
      split
      · rfl
      · exact texts_dropOpened _ _
    generalize chargeReturn log frame (if success then w else dropOpened frame.firstProgram w) = v at *
    split at returned
    · rename_i start nested
      unfold closeNested at returned
      obtain ⟨id, program, returned⟩ := Outcome.bind_ok returned
      rw [Outcome.okOr_ok] at program
      cases success with
      | true =>
        rw [if_pos (by simp [nested])]
        obtain rfl := Except.ok.inj returned
        refine ⟨id, start, program, nested, ?_⟩
        calc (chargeProgram (satSub start log.gas)
              (modifyProgram id (ProgramState.finish (satSub start log.gas) frame) v)).texts
            = v.texts.modify id (ProgramState.finish (satSub start log.gas) frame) := by
              rw [texts_chargeProgram, texts_finish]
          _ = w.texts.modify id (ProgramState.finish (satSub start log.gas) frame) := by rw [charged]
      | false =>
        rw [if_neg (by simp)]
        simp only [Bool.false_eq_true, if_false] at returned
        split at returned
        · obtain rfl := Except.ok.inj returned
          exact charged
        · cases returned
    · rename_i plain
      rw [if_neg (by simp [plain])]
      obtain rfl := Except.ok.inj returned
      unfold closeFrame
      split
      · split <;> exact charged
      · exact charged

/-- A frame of its own that succeeds finishes its program with its last slice; any other return leaves the programs. -/
theorem texts_popFrame (popped : popFrame n log w = .ok w') :
    ∃ flag, log.flag = some flag ∧
      if flag ≠ 0 ∧ w.top.nestedStartGas.isSome = true then
        ∃ id p start, w.top.program = some id ∧ w.programs[id]? = some p ∧ w.top.nestedStartGas = some start ∧
          w'.texts = w.texts.modify id (ProgramState.finish (satSub start log.gas) (w.sliced n p.target))
      else w'.texts = w.texts := by
  unfold popFrame at popped
  split at popped
  · cases popped
  · obtain ⟨stack, hasStack, popped⟩ := Outcome.bind_ok popped
    obtain ⟨flag, hasFlag, popped⟩ := Outcome.bind_ok popped
    obtain ⟨v, sliced, popped⟩ := Outcome.bind_ok popped
    rw [Outcome.okOr_ok] at hasStack hasFlag
    refine ⟨flag, by simp [StructLog.flag, hasStack, hasFlag], ?_⟩
    unfold lastSlice at sliced
    split at sliced
    · rename_i nested
      obtain ⟨id, p, emits, found, rfl⟩ := flushSlice_ok sliced
      dsimp only at popped
      split at popped
      · cases popped
      · have texts := texts_returnFrame popped
        have isNested : flag ≠ 0 ∧ w.top.nestedStartGas.isSome = true := by simpa using nested
        rw [if_pos isNested]
        rw [if_pos (by simpa [WalkFrame.flushed] using isNested)] at texts
        obtain ⟨id', start, program, starts, same⟩ := texts
        obtain rfl : id = id' := Option.some.inj (emits.symm.trans program)
        exact ⟨id, p, start, emits, found, starts, same⟩
    · rename_i plain
      obtain rfl := Except.ok.inj sliced
      split at popped
      · cases popped
      · have texts := texts_returnFrame popped
        have isPlain : ¬(flag ≠ 0 ∧ w.top.nestedStartGas.isSome = true) := by simpa using plain
        rw [if_neg isPlain]
        rwa [if_neg (by simpa using isPlain)] at texts

/-! ### Programs opened by a trace -/

section

variable (H : Hashes) (elig : Eligibility) (candidates : OrdMap Nat Candidate)

/-- A frame of its own before its first step. -/
structure Fresh (id : Nat) (target : Address) (w : Walk) : Prop where
  program : w.top.program = some id
  nested : w.top.nestedStartGas.isSome = true
  context : w.top.storageCtx = some target
  journal : w.top.journal = OrdMap.empty
  out : w.top.out = []
  view : w.top.emittedView = OrdMap.empty
  free : w.pending = none

/-- Program `id` of a walk of `t`: the call that opened it and the walk of that call's body. -/
structure Ran (n : Nat) (t : CallTree) (id : Nat) (p : ProgramState) : Prop where
  ran : ∃ call body rest w₀ w₁, CallTree.Opens n t p.step call body rest ∧ call.op = .call ∧
    call.callee = some p.target ∧ (elig.frameIndex (candidates.get p.step) call.callee).isSome = true ∧
    Fresh id p.target w₀ ∧ Walked H elig candidates (p.step + 1) body w₀ w₁ ∧
    ∀ ops, p.updates = some ops →
      rest.succeeds = true ∧ ops = (w₁.sliced (p.step + 1 + body.size) p.target).out

end

theorem Ran.mono {t t' : CallTree} {n' id : Nat} {p : ProgramState} (ran : Ran H elig candidates n t id p)
    (opens : ∀ {j call body rest}, CallTree.Opens n t j call body rest → CallTree.Opens n' t' j call body rest) :
    Ran H elig candidates n' t' id p := by
  obtain ⟨call, body, rest, w₀, w₁, here, others⟩ := ran.ran
  exact ⟨call, body, rest, w₀, w₁, opens here, others⟩

/-- What a walk does to the programs: those there are keep their text, new ones ran. -/
structure Opened (H : Hashes) (elig : Eligibility) (candidates : OrdMap Nat Candidate) (n : Nat) (t : CallTree)
    (ps ps' : List ProgramState) : Prop where
  more : ps.length ≤ ps'.length
  old : ∀ id, id < ps.length → ps'[id]? = ps[id]?
  new : ∀ id p, ps.length ≤ id → ps'[id]? = some p → Ran H elig candidates n t id p

theorem Opened.refl (t : CallTree) (ps : List ProgramState) : Opened H elig candidates n t ps ps := by
  refine ⟨Nat.le_refl _, fun _ _ => rfl, ?_⟩
  intro id p outside found
  rw [List.getElem?_eq_none outside] at found
  cases found

theorem Opened.mono {t t' : CallTree} {n' : Nat} {ps ps' : List ProgramState}
    (opened : Opened H elig candidates n t ps ps')
    (opens : ∀ {j call body rest}, CallTree.Opens n t j call body rest → CallTree.Opens n' t' j call body rest) :
    Opened H elig candidates n' t' ps ps' :=
  ⟨opened.more, opened.old, fun id p outside found => (opened.new id p outside found).mono opens⟩

theorem Opened.trans {t : CallTree} {ps ps' ps'' : List ProgramState}
    (first : Opened H elig candidates n t ps ps') (second : Opened H elig candidates n t ps' ps'') :
    Opened H elig candidates n t ps ps'' := by
  refine ⟨Nat.le_trans first.more second.more, ?_, ?_⟩
  · intro id inside
    rw [second.old id (Nat.lt_of_lt_of_le inside first.more), first.old id inside]
  · intro id p outside found
    rcases Nat.lt_or_ge id ps'.length with between | beyond
    · rw [second.old id between] at found
      exact first.new id p outside found
    · exact second.new id p beyond found

/-- A frame of its own: its program is added, runs, and is closed at most once. -/
theorem Opened.frame {t : CallTree} {ps ps₂ ps₃ : List ProgramState} {new : ProgramState}
    (during : Opened H elig candidates n t (ps ++ [new]) ps₂)
    (closed : ps₃ = ps₂ ∨ ∃ gas frame, ps₃ = ps₂.modify ps.length (ProgramState.finish gas frame))
    (own : ∀ p, ps₃[ps.length]? = some p → Ran H elig candidates n t ps.length p) :
    Opened H elig candidates n t ps ps₃ := by
  have longer : ps.length + 1 ≤ ps₂.length := by
    have := during.more
    rwa [List.length_append] at this
  have others : ps₃.length = ps₂.length ∧ ∀ id, id ≠ ps.length → ps₃[id]? = ps₂[id]? := by
    rcases closed with rfl | ⟨gas, frame, rfl⟩
    · exact ⟨rfl, fun _ _ => rfl⟩
    · refine ⟨List.length_modify _ _ _, ?_⟩
      intro id other
      rw [List.getElem?_modify]
      simp [Ne.symm other]
  refine ⟨by rw [others.1]; omega, ?_, ?_⟩
  · intro id inside
    rw [others.2 id (Nat.ne_of_lt inside), during.old id (by simp; omega),
      List.getElem?_append_left inside]
  · intro id p outside found
    rcases Nat.eq_or_lt_of_le outside with rfl | beyond
    · exact own p found
    · rw [others.2 id (Nat.ne_of_gt beyond)] at found
      exact during.new id p (by simp; omega) found

theorem getElem?_texts (w : Walk) (id : Nat) : w.texts[id]? = w.programs[id]?.map ProgramState.text :=
  List.getElem?_map

theorem length_texts (w : Walk) : w.texts.length = w.programs.length := List.length_map _

/-- The frame a step is about to open is its own exactly if the step opened a program for it. -/
theorem Executed.plain (executed : Executed H elig candidates n log w w') (free : w.pending = none)
    (same : w'.texts = w.texts) {p : PendingFrame} (waits : w'.pending = some p) : p.nestedStartGas = none := by
  cases executed with
  | quiet | unowned =>
    rw [free] at waits
    cases waits
  | stored =>
    rw [Walk.stored_pending, free] at waits
    cases waits
  | logged =>
    have waits : w.pending = some p := waits
    rw [free] at waits
    cases waits
  | opened =>
    have lengths := congrArg List.length same
    rw [length_texts, length_texts] at lengths
    simp [openNested] at lengths
  | _ =>
    obtain rfl := Option.some.inj waits
    rfl

/-- A call that opens no frame was not given one of its own. -/
theorem plain_inline {next : StructLog} {w₁ w₂ : Walk} (executed : Executed H elig candidates n log w w₁)
    (free : w.pending = none) (level : next.depth = log.depth) (entered : enterPending next w₁ = .ok w₂)
    {p : PendingFrame} (waits : w₁.pending = some p) : p.nestedStartGas = none := by
  cases enterPending_entered entered with
  | idle free' =>
    rw [free'] at waits
    cases waits
  | pushed waits' deeper =>
    rw [executed.waits free waits', level] at deeper
    exact absurd deeper.symm (by simp)
  | inline waits' _ plain =>
    obtain rfl := Option.some.inj (waits.symm.trans waits')
    exact plain

theorem Walked.opened {t : CallTree} (walked : Walked H elig candidates n t w w') (free : w.pending = none) :
    Opened H elig candidates n t w.texts w'.texts := by
  induction walked with
  | done => exact Opened.refl _ _
  | last executed free' =>
    rcases (exec_executed executed).texts with same | ⟨id, p, c, index, -, -, -, -, -, rfl, -⟩
    · rw [same]
      exact Opened.refl _ _
    · cases free'
  | @step n log next rest w w₁ w₂ w' executed head level entered tail ih =>
    have step := exec_executed executed
    have inline := frames_inline free executed level entered
    have same : w₁.texts = w.texts := by
      rcases step.texts with same | ⟨id, p, c, index, -, -, -, -, -, rfl, -⟩
      · exact same
      · cases plain_inline step free level entered rfl
    have opened := @Opened.mono _ _ _ _ _ (.step log rest) _ _ _ (ih inline.free) .later
    rwa [texts_enterPending entered, same] at opened
  | @enter n call first next body rest pending w w₁ w₂ w₃ w' executed waits head inner resumes popped tail
      ihInner ihTail =>
    have step := exec_executed executed
    have ran := inner.frames rfl
    obtain ⟨g, others, flag', -, -, -, pop⟩ := popFrame_popped popped
    have during := @Opened.mono _ _ _ _ _ (.enter call body rest) _ _ _ (ihInner rfl) .inside
    have later := @Opened.mono _ _ _ _ _ (.enter call body rest) _ _ _ (ihTail (pop.pending.trans ran.free)) .after
    obtain ⟨flag, flagged, returns⟩ := texts_popFrame popped
    rcases step.texts with same | ⟨id, p, c, index, kind, callee, handed, emits, found, rfl, texts⟩
    · have plain := step.plain free same waits
      have nested : w₂.top.nestedStartGas = none := ran.top.nestedStartGas.trans plain
      rw [if_neg (by simp [nested])] at returns
      have first : Opened H elig candidates n (.enter call body rest) w.texts w₂.texts := by
        rw [← same]
        exact during
      rw [returns] at later
      exact first.trans later
    · have isPending : pending.program = some w.texts.length ∧ pending.nestedStartGas.isSome = true ∧
          pending.storageCtx = some c.target ∧ pending.emittedView = OrdMap.empty := by
        obtain rfl := Option.some.inj waits
        exact ⟨by rw [length_texts], rfl, callee, rfl⟩
      obtain ⟨isProgram, isNested, isContext, isView⟩ := isPending
      have during : Opened H elig candidates n (.enter call body rest)
          (w.texts ++ [(nestedProgram H w.top.storageCtx n id index c).text]) w₂.texts := by
        rw [← texts]
        exact during
      have program : w₂.top.program = some w.texts.length := ran.top.program.trans isProgram
      have own := during.old w.texts.length (by simp)
      rw [List.getElem?_concat_length] at own
      have fresh : Fresh w.texts.length c.target (pushFrame pending first { openNested H n id index c call
          { w with top := w.sliced n p.target } with pending := none }) :=
        ⟨isProgram, isNested, isContext, rfl, rfl, isView, rfl⟩
      have here : ∀ {q : ProgramState}, q.step = n → q.target = c.target →
          (∀ ops, q.updates = some ops → rest.succeeds = true ∧
            ops = (w₂.sliced (n + 1 + body.size) c.target).out) →
          Ran H elig candidates n (.enter call body rest) w.texts.length q := by
        intro q isStep isTarget closes
        subst isStep
        rw [← isTarget] at callee fresh closes
        exact ⟨call, body, rest, _, w₂, .here, kind, callee, by rw [handed]; rfl, fresh, inner, closes⟩
      refine (during.frame ?_ ?_).trans later
      · split at returns
        · obtain ⟨id', q, start, emits', -, -, closes⟩ := returns
          obtain rfl := Option.some.inj (program.symm.trans emits')
          exact Or.inr ⟨_, _, closes⟩
        · exact Or.inl returns
      · intro q found'
        split at returns
        · rename_i success
          obtain ⟨id', q', start, emits', foundQ, -, closes⟩ := returns
          obtain rfl := Option.some.inj (program.symm.trans emits')
          have text : q'.text = (nestedProgram H w.top.storageCtx n id index c).text := by
            rw [getElem?_texts, foundQ] at own
            exact Option.some.inj own
          have target : q'.target = c.target := congrArg ProgramState.target text
          rw [closes, List.getElem?_modify, own] at found'
          obtain rfl : (ProgramState.finish _ _ _) = q := by simpa using found'
          refine here rfl rfl ?_
          intro ops updates
          refine ⟨?_, ?_⟩
          · rw [CallTree.succeeds_of_flag resumes flagged]
            exact decide_eq_true success.1
          · rw [← target]
            exact (Option.some.inj updates).symm
        · rw [returns, own] at found'
          obtain rfl := Option.some.inj found'
          refine here rfl rfl ?_
          intro ops updates
          cases updates

end GasAnalyzer
