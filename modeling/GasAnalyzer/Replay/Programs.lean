import GasAnalyzer.Replay.Following

/-!
# The programs of a walk follow the execution

Along the walk of a frame that emits, the program emitted so far follows the execution. A frame that other code ran
below forgets of its view what that code wrote, so its replay stays in step.
-/

namespace GasAnalyzer

/-! ### What a tree shows -/

namespace CallTree

section

variable (sees : Nat → Chain) (does : Nat → Chain → Chain)

/-- `sees` is what the steps of `t` find, and `does` what their calls do there. -/
def Shows : Option Address → Nat → CallTree → Chain → Prop
  | _, _, done, _ => True
  | ctx, n, step log rest, c => sees n = c ∧ does n c = c ∧ rest.Shows ctx (n + 1) (log.acts ctx c)
  | ctx, n, enter call body rest, c =>
    sees n = c ∧ does n c = (if rest.succeeds then body.run (context deployed ctx call rest) c else c) ∧
      body.Shows (context deployed ctx call rest) (n + 1) c ∧
      rest.Shows ctx (n + 1 + body.size) (if rest.succeeds then body.run (context deployed ctx call rest) c else c)

end

theorem shows_of_agree {sees : Nat → Chain} {does : Nat → Chain → Chain} {t : CallTree} {ctx : Option Address} {n : Nat}
    {c : Chain} (finds : ∀ j, n ≤ j → j < n + t.size → sees j = t.atStep ctx n c j)
    (acts : ∀ j, n ≤ j → j < n + t.size → ∀ c, does j c = t.perform ctx n j c) : t.Shows sees does ctx n c := by
  induction t generalizing ctx n c with
  | done => trivial
  | step log rest ih =>
    rw [size] at finds acts
    refine ⟨?_, ?_, ih ?_ ?_⟩
    · rw [finds n (Nat.le_refl n) (by omega), atStep, if_pos (Nat.le_refl n)]
    · rw [acts n (Nat.le_refl n) (by omega), perform, if_pos (Nat.le_refl n)]
    · intro j low high
      rw [finds j (by omega) (by omega), atStep, if_neg (by omega)]
    · intro j low high c
      rw [acts j (by omega) (by omega), perform, if_neg (by omega)]
  | enter call body rest ihBody ihRest =>
    rw [size] at finds acts
    refine ⟨?_, ?_, ihBody ?_ ?_, ihRest ?_ ?_⟩
    · rw [finds n (Nat.le_refl n) (by omega), atStep, if_pos (Nat.le_refl n)]
    · rw [acts n (Nat.le_refl n) (by omega), perform, if_pos (Nat.le_refl n)]
    · intro j low high
      rw [finds j (by omega) (by omega), atStep, if_neg (by omega), if_pos high]
    · intro j low high c
      rw [acts j (by omega) (by omega), perform, if_neg (by omega), if_pos high]
    · intro j low high
      rw [finds j (by omega) (by omega), atStep, if_neg (by omega), if_neg (by omega)]
    · intro j low high c
      rw [acts j (by omega) (by omega), perform, if_neg (by omega), if_neg (by omega)]

end CallTree

/-! ### Where a walk stands in its execution -/

variable {H : Hashes} {elig : Eligibility} {candidates : OrdMap Nat Candidate} {n id : Nat} {log call first next : StructLog}
variable {w w' w₁ w₂ w₃ : Walk} {target : Address} {c r : Chain} {ws : List Write} {t body rest : CallTree}
variable {sees : Nat → Chain} {does : Nat → Chain → Chain} {ctx : Option Address} {p : PendingFrame}

/-- The walk stands before `t`, whose frame runs on the storage of `ctx`; `ws` stand, and the chain holds `c`. -/
structure Placed (sees : Nat → Chain) (does : Nat → Chain → Chain) (ctx : Option Address) (n : Nat) (t : CallTree)
    (ws : List Write) (c : Chain) (w : Walk) : Prop where
  shows : t.Shows sees does ctx n c
  newborn : t.Newborn w.top.storageCtx n ws
  hosts : t.Hosts w.top.storageCtx ctx n ws
  imaged : ∀ a s, w.image a s = wrote ws a s
  reflected : CallTree.Reflected ws c
  readOnly : t.ReadOnly
  hushed : t.Hushed

theorem CallTree.Reflected.acts (reflected : Reflected ws c) {ctx' : Option Address}
    (hosts : (CallTree.step log rest).Hosts ctx' ctx n ws) : Reflected (ws ++ log.writes ctx' n) (log.acts ctx c) := by
  intro a s v held
  rw [hosts.acts_settled c (by rw [held]; rfl)]
  rw [wrote_append] at held
  cases own : wrote (log.writes ctx' n) a s with
  | some u =>
    rw [own] at held
    exact Option.some.inj held
  | none =>
    rw [own, Option.none_or] at held
    exact reflected a s v held

theorem Placed.step (placed : Placed sees does ctx n (.step log rest) ws c w) (free : w.pending = none)
    (executed : exec H elig candidates n log w = .ok w₁) (level : next.depth = log.depth)
    (entered : enterPending next w₁ = .ok w₂) :
    Placed sees does ctx (n + 1) rest (ws ++ log.writes w.top.storageCtx n) (log.acts ctx c) w₂ := by
  have step := exec_executed executed
  have inline := frames_inline free executed level entered
  obtain ⟨top, below, -⟩ := entered_kept free step level entered
  obtain ⟨shows, newborn, hosts, imaged, reflected, readOnly, hushed⟩ := placed
  refine ⟨shows.2.2, ?_, ?_, ?_, reflected.acts hosts, readOnly, hushed⟩
  · rw [inline.top.storageCtx]
    exact newborn.later
  · rw [inline.top.storageCtx]
    exact hosts.later
  · intro a s
    rw [Walk.image_kept top.journal (below ▸ forall₂_kept_refl _), step.image, imaged, wrote_append]

/-- A call writes nothing itself. -/
theorem writes_of_opens (opens : call.op.opensFrame = true) (ctx : Option Address) (n : Nat) : call.writes ctx n = [] := by
  apply StructLog.writes_of_unstored
  unfold StructLog.stored?
  rw [if_neg]
  rintro ⟨kind, -⟩
  rw [kind] at opens
  cases opens

theorem Placed.called (placed : Placed sees does ctx n (.enter call body rest) ws c w)
    (executed : Executed H elig candidates n call w w₁) (opens : call.op.opensFrame = true) (a : Address) (s : B256) :
    w₁.image a s = wrote ws a s := by
  rw [executed.image, writes_of_opens opens, wrote_nil, Option.none_or, placed.imaged]

theorem Placed.inside (placed : Placed sees does ctx n (.enter call body rest) ws c w) (free : w.pending = none)
    (executed : Executed H elig candidates n call w w₁) (opens : call.op.opensFrame = true) (waits : w₁.pending = some p)
    (success : call.op.isCreate = true → rest.succeeds = true) :
    Placed sees does (CallTree.context CallTree.deployed ctx call rest) (n + 1) body ws c
      (pushFrame p first { w₁ with pending := none }) := by
  have context := executed.context free waits rest
  refine ⟨placed.shows.2.2.1, ?_, ?_, ?_, placed.reflected, placed.readOnly.2.1, placed.hushed.2.1⟩
  · show body.Newborn p.storageCtx (n + 1) ws
    rw [context]
    exact placed.newborn.inside
  · show body.Hosts p.storageCtx _ (n + 1) ws
    rw [context]
    exact placed.hosts.inside placed.newborn success
  · intro a s
    rw [image_pushed, placed.called executed opens]

/-- What the body of a call leaves on the chain where the journal holds a slot. -/
theorem Placed.settled (placed : Placed sees does ctx n (.enter call body rest) ws c w) (success : rest.succeeds = true)
    {a : Address} {s : B256}
    (held : (wrote (ws ++ body.writes CallTree.unborn (CallTree.context CallTree.unborn w.top.storageCtx call rest)
      (n + 1)) a s).isSome = true) :
    (body.run (CallTree.context CallTree.deployed ctx call rest) c).storage a s =
      (wrote (body.writes CallTree.unborn (CallTree.context CallTree.unborn w.top.storageCtx call rest) (n + 1)) a
        s).getD (c.storage a s) :=
  body.run_settled c placed.newborn.inside (placed.hosts.inside placed.newborn (fun _ => success)) held

theorem Placed.after (placed : Placed sees does ctx n (.enter call body rest) ws c w) (free : w.pending = none)
    (executed : Executed H elig candidates n call w w₁) (opens : call.op.opensFrame = true) (waits : w₁.pending = some p)
    (inner : Walked H elig candidates (n + 1) body (pushFrame p first { w₁ with pending := none }) w₂)
    (resumes : rest.head? = some next) (popped : popFrame (n + 1 + body.size) next w₂ = .ok w₃) :
    Placed sees does ctx (n + 1 + body.size) rest
      (ws ++ if rest.succeeds then body.writes CallTree.unborn
        (CallTree.context CallTree.unborn w.top.storageCtx call rest) (n + 1) else [])
      (if rest.succeeds then body.run (CallTree.context CallTree.deployed ctx call rest) c else c) w₃ := by
  have ran := inner.frames rfl
  obtain ⟨g, others, flag, -, caller, -, pop⟩ := popped_of_frames ran popped
  have context₃ : w₃.top.storageCtx = w.top.storageCtx := by
    rw [pop.returned.samePlace.storageCtx, caller.storageCtx, executed.place.2.storageCtx]
  refine ⟨placed.shows.2.2.2, ?_, ?_, ?_, ?_, placed.readOnly.2.2, placed.hushed.2.2⟩
  · rw [context₃]
    exact placed.newborn.after
  · rw [context₃]
    exact placed.hosts.after
  · intro a s
    rw [image_popped ran resumes popped, placed.called executed opens, wrote_append, inner.journal rfl a s]
    show (if _ then (wrote (body.writes _ p.storageCtx _) a s).or none else none).or _ = _
    rw [Option.or_none, executed.context free waits rest]
    split <;> rfl
  · split
    · rename_i success
      exact placed.reflected.run placed.newborn.inside (placed.hosts.inside placed.newborn (fun _ => success))
    · rw [List.append_nil]
      exact placed.reflected

/-! ### Forgetting -/

theorem Walk.Targets.found (targets : w.Targets id target) : ∃ q, w.programs[id]? = some q ∧ q.target = target := by
  obtain ⟨q, found, isTarget⟩ := targets
  rw [getElem?_texts] at found
  obtain ⟨q', found', rfl⟩ := Option.map_eq_some_iff.mp found
  exact ⟨q', found', isTarget⟩

/-- A frame forgets every slot of its target that the journal holds. -/
theorem forgotten (id : Nat) (target : Address) (emits : w.top.program = some id) (targets : w.Targets id target) {journal : Journal} {s : B256}
    (written : (journal.value target s).isSome = true) : (forgetOverwritten journal w).top.emittedView.get s = none := by
  obtain ⟨q, found, rfl⟩ := targets.found
  show (forgetSlots w.programs journal w.top).emittedView.get s = none
  rw [get_forgetSlots emits found]
  exact if_pos written

theorem targets_of_texts (same : w'.texts = w.texts) (targets : w.Targets id target) : w'.Targets id target := by
  unfold Walk.Targets
  rw [same]
  exact targets

/-- The caller of a frame that runs other code and succeeds forgets what that code wrote. -/
theorem popFrame_forgets {step : Nat} {flag : U256} {g : WalkFrame} {others : List WalkFrame}
    (popped : popFrame step next w = .ok w') (flagged : next.flag = some flag) (success : flag ≠ 0)
    (apart : w.top.nestedStartGas = none → w.top.program = none) (below : w.below = g :: others)
    (emits : g.program = some id) (targets : w.Targets id target) {s : B256}
    (written : (w.top.journal.value target s).isSome = true) : w'.top.emittedView.get s = none := by
  unfold popFrame at popped
  split at popped
  · cases popped
  · obtain ⟨stack, hasStack, popped⟩ := Outcome.bind_ok popped
    obtain ⟨flag', hasFlag, popped⟩ := Outcome.bind_ok popped
    obtain ⟨v, sliced, popped⟩ := Outcome.bind_ok popped
    rw [Outcome.okOr_ok] at hasStack hasFlag
    obtain rfl : flag' = flag := by
      rw [StructLog.flag, hasStack, Option.bind_some, hasFlag] at flagged
      exact Option.some.inj flagged
    have fine : decide (flag' ≠ 0) = true := decide_eq_true success
    -- The last slice of a frame of its own changes neither its journal nor the frames below.
    have same : v.top.journal = w.top.journal ∧ v.top.nestedStartGas = w.top.nestedStartGas ∧
        v.top.program = w.top.program ∧ v.below = w.below ∧ v.programs = w.programs := by
      unfold lastSlice at sliced
      split at sliced
      · obtain ⟨_, _, -, -, rfl⟩ := flushSlice_ok sliced
        exact ⟨rfl, rfl, rfl, rfl, rfl⟩
      · obtain rfl := Except.ok.inj sliced
        exact ⟨rfl, rfl, rfl, rfl, rfl⟩
    obtain ⟨journal, nested, program, stack', programs⟩ := same
    rw [← journal] at written
    rw [← nested, ← program] at apart
    rw [stack', below] at popped
    dsimp only at popped
    have targets' : (v.leave g others).Targets id target := by
      obtain ⟨q, found, isTarget⟩ := targets
      refine ⟨q, ?_, isTarget⟩
      rw [getElem?_texts] at found ⊢
      show v.programs[id]?.map _ = _
      rw [programs, found]
    unfold returnFrame at popped
    rw [fine] at popped
    rw [if_neg (by simp)] at popped
    dsimp only at popped
    rw [if_pos rfl] at popped
    obtain ⟨kept, -, -⟩ := chargeReturn_frames next v.top (v.leave g others)
    have emits₁ : (chargeReturn next v.top (v.leave g others)).top.program = some id := kept.program.trans emits
    have targets₁ := targets_of_texts (texts_chargeReturn next v.top (v.leave g others)) targets'
    generalize chargeReturn next v.top (v.leave g others) = u at popped emits₁ targets₁
    split at popped
    · rename_i start isNested
      unfold closeNested at popped
      obtain ⟨own, -, popped⟩ := Outcome.bind_ok popped
      rw [if_pos rfl] at popped
      obtain rfl := Except.ok.inj popped
      show (forgetOverwritten v.top.journal _).top.emittedView.get s = none
      refine forgotten id target ?_ ?_ written
      · obtain ⟨top, -, -⟩ := chargeProgram_frames (satSub start next.gas)
          (modifyProgram own (ProgramState.finish (satSub start next.gas) v.top) u)
        rw [top]
        exact emits₁
      · obtain ⟨q, found, isTarget⟩ := targets₁
        unfold Walk.Targets
        rw [texts_chargeProgram, texts_finish, List.getElem?_modify, found]
        refine ⟨_, rfl, ?_⟩
        dsimp only
        split <;> exact isTarget
    · rename_i plain
      have native := apart plain
      obtain rfl := Except.ok.inj popped
      unfold closeFrame
      rw [if_pos rfl, if_neg (by simp [native])]
      show (if v.top.program.isSome then _ else (forgetOverwritten v.top.journal u).top.emittedView).get s = none
      rw [native]
      exact forgotten id target emits₁ targets₁ written

/-- What the caller of a frame that runs other code finds when it returns. -/
theorem popped_caller {step : Nat} (ran : Frames (pushFrame p first { w₁ with pending := none }) w₂)
    (resumes : rest.head? = some next) (popped : popFrame step next w₂ = .ok w₃)
    (apart : p.nestedStartGas = none → p.program = none) (silent : p.program = none → w₂.top.out = []) :
    (∀ s v, w₃.top.emittedView.get s = some v → w₁.top.emittedView.get s = some v) ∧
      (w₃.top.out = w₁.top.out ∨
        p.nestedStartGas.isSome = true ∧ rest.succeeds = false ∧ ∃ op, w₁.top.out = w₃.top.out ++ [op]) := by
  obtain ⟨g, others, flag, flagged, caller, -, pop⟩ := popped_of_frames ran popped
  have outcome := CallTree.succeeds_of_flag resumes flagged
  have returned := pop.returned
  generalize top : w₃.top = g' at returned
  cases returned with
  | discarded kept _ _ =>
    refine ⟨fun s v held => (caller.trans kept).view s v held, Or.inl ?_⟩
    exact (caller.trans kept).out
  | merged kept _ _ =>
    refine ⟨fun s v held => (caller.trans kept).view s v held, Or.inl ?_⟩
    exact (caller.trans kept).out
  | @retracted g₁ ops x st kept failure nested last =>
    refine ⟨fun s v held => (caller.trans kept).view s v held, Or.inr ⟨?_, ?_, ⟨.nested x, st⟩, ?_⟩⟩
    · rw [← nested]
      exact congrArg Option.isSome ran.top.nestedStartGas.symm
    · rw [outcome, failure]
      rfl
    · rw [← caller.out]
      exact last
  | @absorbed g₁ kept _ plain =>
    have program : w₂.top.program = none := ran.top.program.trans (apart (ran.top.nestedStartGas.symm.trans plain))
    have quiet := silent (ran.top.program.symm.trans program)
    refine ⟨fun s v held => ?_, Or.inl ?_⟩
    · unfold WalkFrame.absorb at held
      rw [program] at held
      exact (caller.trans kept).view s v held
    · show g₁.out ++ w₂.top.out = _
      rw [quiet, List.append_nil]
      exact (caller.trans kept).out

/-! ### Calls -/

/-- What a frame that emits does when it calls: it marks a boundary, or the code it runs is its own or only looks. -/
inductive Handing (target : Address) (n : Nat) (log : StructLog) (p : PendingFrame) (w w' : Walk) : Prop where
  | boundary {u : StateUpdate} (hands : u.isBoundary = true) (delegates : log.op.isDelegate = false)
      (apart : p.nestedStartGas = none → p.program = none)
      (view : w'.top.emittedView = (w.sliced n target).emittedView)
      (out : w'.top.out = (w.top.out ++ w.slice n target) ++ [⟨u, n⟩])
  | observes (static : log.op = .staticcall) (plain : p.nestedStartGas = none) (apart : p.program = none)
      (same : w'.top = w.top)
  | delegates (kind : log.op.isDelegate = true) (plain : p.nestedStartGas = none) (own : p.program = w.top.program)
      (view : p.emittedView = w.top.emittedView) (same : w'.top = w.top)

theorem Executed.handing (executed : Executed H elig candidates n log w w') (free : w.pending = none)
    (emits : w.top.program = some id) (targets : w.Targets id target) (memory : log.memory.isSome = true)
    (waits : w'.pending = some p) : Handing target n log p w w' := by
  cases executed with
  | quiet | unowned =>
    rw [free] at waits
    cases waits
  | stored =>
    rw [Walk.stored_pending, free] at waits
    cases waits
  | logged =>
    change w.pending = some p at waits
    rw [free] at waits
    cases waits
  | delegated kind =>
    obtain rfl := Option.some.inj waits
    exact .delegates kind rfl rfl (if_pos (by rw [emits]; rfl)) rfl
  | observed kind =>
    obtain rfl := Option.some.inj waits
    exact .observes kind rfl rfl rfl
  | called _ _ native | creates _ _ native =>
    rw [emits] at native
    cases native
  | @emitted id' q c kind fine emits' found =>
    obtain rfl := Option.some.inj (emits.symm.trans emits')
    obtain rfl := targets.program q found
    obtain rfl := Option.some.inj waits
    exact .boundary (u := .call c) rfl (by rw [kind]; rfl) (fun _ => rfl) rfl rfl
  | @opened id' q c index kind fine emits' found =>
    obtain rfl := Option.some.inj (emits.symm.trans emits')
    obtain rfl := targets.program q found
    obtain rfl := Option.some.inj waits
    exact .boundary (u := .nested ⟨c.target, c.value, 0⟩) rfl (by rw [kind]; rfl) (fun none => by cases none) rfl rfl
  | @deployed id' q update kind fine emits' found decoded =>
    obtain rfl := Option.some.inj (emits.symm.trans emits')
    obtain rfl := targets.program q found
    obtain rfl := Option.some.inj waits
    obtain ⟨words, hasMemory⟩ := Option.isSome_iff_exists.mp memory
    obtain ⟨u, same, opcode, -⟩ := decodeStructLog_effect decoded (by simp [effectful, kind]) hasMemory
    injection same with same _
    subst same
    refine .boundary (u := u) ?_ (by cases op : log.op <;> simp_all [Opcode.isCreate, Opcode.isDelegate]) (fun _ => rfl)
      rfl rfl
    rw [← opcode] at kind
    cases u <;> first | rfl | cases kind

/-- Resuming from a call at a boundary, the program has done what the call did. -/
theorem Placed.boundary {u : StateUpdate}
    (placed : Placed sees does (some target) n (.enter call body rest) ws c w) (free : w.pending = none)
    (emits : w.top.program = some id) (targets : w.Targets id target)
    (executed : Executed H elig candidates n call w w₁) (opens : call.op.opensFrame = true) (waits : w₁.pending = some p)
    (inner : Walked H elig candidates (n + 1) body (pushFrame p first { w₁ with pending := none }) w₂)
    (silent : p.program = none → w₂.top.out = []) (resumes : rest.head? = some next)
    (popped : popFrame (n + 1 + body.size) next w₂ = .ok w₃) (hands : u.isBoundary = true)
    (apart : p.nestedStartGas = none → p.program = none)
    (view : w₁.top.emittedView = (w.sliced n target).emittedView)
    (out : w₁.top.out = (w.top.out ++ w.slice n target) ++ [⟨u, n⟩]) (inStep : InStep target w c r) :
    ∃ ops r', w₃.top.out = w.top.out ++ ops ∧ Follows sees does target ops r r' ∧ InStep target w₃
      (if rest.succeeds then body.run (CallTree.context CallTree.deployed (some target) call rest) c else c) r' := by
  have ran := inner.frames rfl
  obtain ⟨below, place⟩ := executed.place
  obtain ⟨shows, does', -, -⟩ := placed.shows
  obtain ⟨lesser, outs⟩ := popped_caller ran resumes popped apart silent
  have image₁ : ∀ s, w₁.image target s = w.image target s := by
    intro s
    rw [placed.called executed opens, placed.imaged]
  have level : InStep target w₁ c c :=
    inStep.sliced (fun s => placed.imaged target s) placed.reflected view image₁
  have slice : Follows sees does target (w.slice n target) r c :=
    inStep.slice (fun s => placed.imaged target s) placed.reflected
  have called : Follows sees does target (w.slice n target ++ [⟨u, n⟩]) r
      (if rest.succeeds then body.run (CallTree.context CallTree.deployed (some target) call rest) c else c) := by
    refine slice.append (.boundary hands shows.symm ?_)
    rw [does']
    exact .done
  have image₃ := fun s => image_popped ran resumes popped target s
  have still : InStep target w₃
      (if rest.succeeds then body.run (CallTree.context CallTree.deployed (some target) call rest) c else c)
      (if rest.succeeds then body.run (CallTree.context CallTree.deployed (some target) call rest) c else c) := by
    apply InStep.level
    intro s v held
    obtain ⟨value, there⟩ := level.viewed s v (lesser s v held)
    refine ⟨?_, by rw [image₃, Option.isSome_or, there, Bool.or_true]⟩
    by_cases success : rest.succeeds = true
    · rw [if_pos success]
      -- What the call wrote in the target is no longer in view.
      obtain ⟨g, others, flag, flagged, caller, -, pop⟩ := popped_of_frames ran popped
      have fine : flag ≠ 0 := by
        rw [CallTree.succeeds_of_flag resumes flagged] at success
        exact of_decide_eq_true success
      have unwritten : w₂.top.journal.value target s = none := by
        rw [← Option.not_isSome_iff_eq_none]
        intro written
        have gone := popFrame_forgets popped flagged fine
          (fun plain => ran.top.program.trans (apart (ran.top.nestedStartGas.symm.trans plain))) pop.below
          (caller.program.trans (place.program.trans emits)) (inner.targets rfl (executed.targets targets)) written
        rw [gone] at held
        cases held
      have quiet : wrote (body.writes CallTree.unborn (CallTree.context CallTree.unborn w.top.storageCtx call rest)
          (n + 1)) target s = none := by
        rw [inner.journal rfl] at unwritten
        rw [← executed.context free waits rest]
        exact (Option.or_eq_none_iff.mp unwritten).1
      rw [placed.settled success, quiet]
      · exact value
      · rw [wrote_append, quiet, Option.none_or, ← placed.called executed opens]
        exact there
    · rw [if_neg success]
      exact value
  rcases outs with same | ⟨-, failed, op, last⟩
  · refine ⟨w.slice n target ++ [⟨u, n⟩], _, ?_, called, still⟩
    rw [same, out, List.append_assoc]
  · refine ⟨w.slice n target, c, ?_, slice, ?_⟩
    · rw [out] at last
      exact (List.append_inj' last rfl).1.symm
    · rwa [failed, if_neg Bool.false_ne_true] at still ⊢

/-- What the caller of a delegate frame finds when it returns. -/
theorem popped_delegate {step : Nat} (ran : Frames (pushFrame p first { w₁ with pending := none }) w₂)
    (resumes : rest.head? = some next) (popped : popFrame step next w₂ = .ok w₃) (plain : p.nestedStartGas = none)
    (emits : p.program.isSome = true) :
    if rest.succeeds then w₃.top.emittedView = w₂.top.emittedView ∧ w₃.top.out = w₁.top.out ++ w₂.top.out ∧
      ∀ a s, w₃.image a s = w₂.image a s
    else (∀ s v, w₃.top.emittedView.get s = some v → w₁.top.emittedView.get s = some v) ∧
      w₃.top.out = w₁.top.out ∧ ∀ a s, w₃.image a s = w₁.image a s := by
  obtain ⟨g, others, flag, flagged, caller, -, pop⟩ := popped_of_frames ran popped
  have outcome := CallTree.succeeds_of_flag resumes flagged
  have image := image_popped ran resumes popped
  have isPlain : w₂.top.nestedStartGas = none := ran.top.nestedStartGas.trans plain
  have returned := pop.returned
  generalize top : w₃.top = g' at returned
  cases returned with
  | discarded kept failure _ =>
    rw [outcome, if_neg (by simpa using failure)]
    refine ⟨fun s v held => (caller.trans kept).view s v held, (caller.trans kept).out, ?_⟩
    intro a s
    rw [image, outcome, if_neg (by simpa using failure), Option.none_or]
  | merged _ _ nested | retracted _ _ nested =>
    rw [isPlain] at nested
    cases nested
  | @absorbed g₁ kept success _ =>
    have program : w₂.top.program.isSome = true := by
      rw [ran.top.program]
      exact emits
    rw [outcome, if_pos (decide_eq_true success)]
    refine ⟨if_pos program, ?_, ?_⟩
    · show g₁.out ++ w₂.top.out = _
      rw [(caller.trans kept).out]
    · intro a s
      rw [image, outcome, if_pos (decide_eq_true success), Walk.image_eq w₂, visibleImage_kept ran.below]
      rfl

/-! ### Running a frame -/

theorem InStep.entered (inStep : InStep target w₁ c r) (top : Kept w₁.top w₂.top) (below : w₂.below = w₁.below) :
    InStep target w₂ c r :=
  inStep.same top.view (fun s => Walk.image_kept top.journal (below ▸ forall₂_kept_refl _) target s)

/-- A step that opens no frame, from where the walk stands before it. -/
theorem Placed.stepped (placed : Placed sees does (some target) n (.step log rest) ws c w) (free : w.pending = none)
    (emits : w.top.program = some id) (targets : w.Targets id target) (context : w.top.storageCtx = some target)
    (executed : Executed H elig candidates n log w w₁) (memory : log.memory.isSome = true) (inStep : InStep target w c r) :
    ∃ ops r₁, w₁.top.out = w.top.out ++ ops ∧ Follows sees does target ops r r₁ ∧
      InStep target w₁ (log.acts (some target) c) r₁ := by
  by_cases opening : log.errored = false ∧ log.op.opensFrame = true
  · -- A call that runs no code: the chain stays as it is.
    obtain ⟨p, waits⟩ := Option.isSome_iff_exists.mp ((executed.pending free).mpr opening)
    have image : ∀ s, w₁.image target s = w.image target s := by
      intro s
      rw [executed.image, writes_of_opens opening.2, wrote_nil, Option.none_or]
    rw [CallTree.acts_of_opens (some target) c opening.2]
    cases executed.handing free emits targets memory waits with
    | boundary hands _ _ view out =>
      refine ⟨_, c, out.trans (List.append_assoc _ _ _), ?_, ?_⟩
      · refine (inStep.slice (fun s => placed.imaged target s) placed.reflected).append ?_
        refine .boundary hands placed.shows.1.symm ?_
        rw [placed.shows.2.1]
        exact .done
      · exact inStep.sliced (fun s => placed.imaged target s) placed.reflected view image
    | observes _ _ _ same | delegates _ _ _ _ same =>
      refine ⟨[], r, by rw [same, List.append_nil], .done, ?_⟩
      exact inStep.same (fun s v held => by rwa [same] at held) image
  · exact executed.follows opening memory emits context inStep

/-- Code that only looks leaves the chain and the image as they were. -/
theorem Placed.observed (placed : Placed sees does (some target) n (.enter call body rest) ws c w)
    (executed : Executed H elig candidates n call w w₁) (opens : call.op.opensFrame = true)
    (inner : Walked H elig candidates (n + 1) body (pushFrame p first { w₁ with pending := none }) w₂)
    (silent : p.program = none → w₂.top.out = []) (resumes : rest.head? = some next)
    (popped : popFrame (n + 1 + body.size) next w₂ = .ok w₃) (static : call.op = .staticcall)
    (plain : p.nestedStartGas = none) (apart : p.program = none) (same : w₁.top = w.top) (inStep : InStep target w c r) :
    w₃.top.out = w.top.out ∧ InStep target w₃
      (if rest.succeeds then body.run (CallTree.context CallTree.deployed (some target) call rest) c else c) r := by
  have ran := inner.frames rfl
  obtain ⟨lesser, outs⟩ := popped_caller ran resumes popped (fun _ => apart) silent
  constructor
  · rcases outs with out | ⟨nested, -⟩
    · rw [out, same]
    · rw [plain] at nested
      cases nested
  · rw [CallTree.run_silent (CallTree.context CallTree.deployed (some target) call rest) c
      (placed.readOnly.1 static) (placed.hushed.1 static), ite_self]
    refine inStep.same (fun s v held => ?_) (fun s => ?_)
    · have held := lesser s v held
      rwa [same] at held
    · rw [image_popped ran resumes popped, inner.journal rfl,
        writes_of_stores_nothing _ _ _ (placed.readOnly.1 static), placed.called executed opens, placed.imaged]
      show (if _ then none else none).or _ = _
      rw [ite_self, Option.none_or]

/-- A delegate frame that succeeds adds its ops to its caller's; one that fails leaves nothing. -/
theorem Placed.delegated {ops : List Op} {r₂ : Chain}
    (placed : Placed sees does (some target) n (.enter call body rest) ws c w)
    (executed : Executed H elig candidates n call w w₁) (opens : call.op.opensFrame = true)
    (ran : Frames (pushFrame p first { w₁ with pending := none }) w₂) (resumes : rest.head? = some next)
    (popped : popFrame (n + 1 + body.size) next w₂ = .ok w₃) (kind : call.op.isDelegate = true)
    (plain : p.nestedStartGas = none) (program : p.program = some id) (same : w₁.top = w.top) (out : w₂.top.out = ops)
    (follows : Follows sees does target ops r r₂) (inStep : InStep target w c r)
    (inner : InStep target w₂ (body.run (some target) c) r₂) :
    ∃ ops r₃, w₃.top.out = w.top.out ++ ops ∧ Follows sees does target ops r r₃ ∧ InStep target w₃
      (if rest.succeeds then body.run (CallTree.context CallTree.deployed (some target) call rest) c else c) r₃ := by
  have left := popped_delegate ran resumes popped plain (by rw [program]; rfl)
  by_cases success : rest.succeeds = true
  · rw [if_pos success] at left
    obtain ⟨view₃, out₃, image₃⟩ := left
    refine ⟨ops, r₂, by rw [out₃, out, same], follows, ?_⟩
    rw [if_pos success, show CallTree.context CallTree.deployed (some target) call rest = some target from if_pos kind]
    exact inner.same (fun s v held => by rwa [view₃] at held) (fun s => image₃ target s)
  · rw [if_neg success] at left
    obtain ⟨lesser, out₃, image₃⟩ := left
    refine ⟨[], r, by rw [out₃, same, List.append_nil], .done, ?_⟩
    rw [if_neg success]
    refine inStep.same (fun s v held => ?_) (fun s => by rw [image₃, placed.called executed opens, placed.imaged])
    have held := lesser s v held
    rwa [same] at held

/-- Along the walk of a frame that emits, what it emits follows the execution. -/
theorem Walked.follows {d : Nat} (walked : Walked H elig candidates n t w w') (wf : t.WellFormed d)
    (free : w.pending = none) (emits : w.top.program = some id) (targets : w.Targets id target)
    (context : w.top.storageCtx = some target) (placed : Placed sees does (some target) n t ws c w)
    (inStep : InStep target w c r) :
    ∃ ops r', w'.top.out = w.top.out ++ ops ∧ Follows sees does target ops r r' ∧
      InStep target w' (t.run (some target) c) r' := by
  induction walked generalizing d ws c r with
  | done => exact ⟨[], r, (List.append_nil _).symm, .done, inStep⟩
  | @last n log w w' executed free' =>
    have step := exec_executed executed
    refine step.follows ?_ wf.1.memory emits context inStep
    rw [← step.pending free, free']
    simp
  | @step n log next rest w w₁ w₂ w' executed head level entered tail ih =>
    have step := exec_executed executed
    have inline := frames_inline free executed level entered
    obtain ⟨top, below, -⟩ := entered_kept free step level entered
    obtain ⟨ops, r₁, out, follows, inStep₁⟩ :=
      placed.stepped free emits targets context step wf.1.memory inStep
    obtain ⟨more, r', out', follows', inStep'⟩ := ih wf.2.2 inline.free (inline.top.program.trans emits)
      (targets_of_texts (texts_enterPending entered) (step.targets targets)) (inline.top.storageCtx.trans context)
      (placed.step free executed level entered) (inStep₁.entered top below)
    refine ⟨ops ++ more, r', ?_, follows.append follows', inStep'⟩
    rw [out', top.out, out, List.append_assoc]
  | @enter n call first next body rest p w w₁ w₂ w₃ w' executed waits head inner resumes popped tail ihInner ihTail =>
    obtain ⟨carries, -, opens, -, innerWf, -, tailWf⟩ := wf
    have step := exec_executed executed
    have ran := inner.frames rfl
    obtain ⟨-, place⟩ := step.place
    obtain ⟨g, others, flag, -, caller, -, pop⟩ := popped_of_frames ran popped
    have targets₁ := step.targets targets
    have silent : p.program = none → w₂.top.out = [] := by
      intro none
      obtain ⟨ops, out, emission⟩ := inner.emission innerWf rfl
      rw [out, emission.native none]
      rfl
    have returned : ∃ ops r₃, w₃.top.out = w.top.out ++ ops ∧ Follows sees does target ops r r₃ ∧ InStep target w₃
        (if rest.succeeds then body.run (CallTree.context CallTree.deployed (some target) call rest) c else c) r₃ := by
      cases step.handing free emits targets carries.memory waits with
      | boundary hands delegates apart view out =>
        exact placed.boundary free emits targets step opens waits inner silent resumes popped hands apart view out inStep
      | observes static plain apart same =>
        obtain ⟨out, inStep₃⟩ :=
          placed.observed step opens inner silent resumes popped static plain apart same inStep
        exact ⟨[], r, by rw [out, List.append_nil], .done, inStep₃⟩
      | delegates kind plain own view same =>
        have program : p.program = some id := own.trans emits
        have contextD : CallTree.context CallTree.deployed (some target) call rest = some target := if_pos kind
        have contextU : p.storageCtx = some target := by
          rw [step.context free waits rest, CallTree.context, if_pos kind, context]
        have notCreate : call.op.isCreate = true → rest.succeeds = true := by
          intro create
          cases op : call.op <;> simp_all [Opcode.isCreate, Opcode.isDelegate]
        have placed₂ : Placed sees does (CallTree.context CallTree.deployed (some target) call rest) (n + 1) body ws c
            (pushFrame p first { w₁ with pending := none }) := placed.inside free step opens waits notCreate
        rw [contextD] at placed₂
        have level : ∀ s, (pushFrame p first { w₁ with pending := none }).image target s = w.image target s := by
          intro s
          rw [image_pushed, placed.called step opens, placed.imaged]
        obtain ⟨ops, r₂, out₂, follows, inStep₂⟩ := ihInner innerWf rfl program targets₁ contextU placed₂
          (inStep.same (fun s v held => by rwa [← view]) level)
        exact placed.delegated step opens ran resumes popped kind plain program same out₂ follows inStep inStep₂
    obtain ⟨ops, r₃, out, follows, inStep₃⟩ := returned
    have context₃ : w₃.top.storageCtx = some target := by
      rw [pop.returned.samePlace.storageCtx, caller.storageCtx, place.storageCtx, context]
    obtain ⟨more, r', out', follows', inStep'⟩ := ihTail tailWf (pop.pending.trans ran.free)
      ((program_of_frames ran popped).trans (place.program.trans emits)) (targets_popFrame popped (inner.targets rfl targets₁))
      context₃ (placed.after free step opens waits inner resumes popped) inStep₃
    refine ⟨ops ++ more, r', ?_, follows.append follows', inStep'⟩
    rw [out', out, List.append_assoc]

end GasAnalyzer
