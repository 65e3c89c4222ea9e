import GasAnalyzer.Native.Counters
import GasAnalyzer.Native.Stored

/-!
# What a frame believes its program stored

A frame's view holds, for some slots, the value its program last stored there, and every slot the program stored is in
the image of its target. So after its last slice a program leaves the image in every slot of its target.
-/

namespace GasAnalyzer

variable {H : Hashes} {elig : Eligibility} {candidates : OrdMap Nat Candidate} {n : Nat} {log : StructLog}
variable {w w' : Walk} {a : Address} {s : B256}

/-! ### The image -/

/-- What the top frame finds in a slot of `a` that was written. -/
def Walk.image (w : Walk) (a : Address) (s : B256) : Option B256 := (visibleImage (w.top :: w.below) a).get s

theorem Walk.image_eq (w : Walk) (a : Address) (s : B256) :
    w.image a s = (w.top.journal.value a s).or ((visibleImage w.below a).get s) :=
  get_visibleImage_cons w.top w.below a s

theorem visibleImage_kept {fs fs' : List WalkFrame} (kept : List.Forall₂ Kept fs fs') (a : Address) :
    visibleImage fs' a = visibleImage fs a := by
  induction kept with
  | nil => rfl
  | cons first _ ih => rw [visibleImage_cons, visibleImage_cons, ih, first.journal]

theorem Walk.image_kept (top : w'.top.journal = w.top.journal) (below : List.Forall₂ Kept w.below w'.below)
    (a : Address) (s : B256) : w'.image a s = w.image a s := by
  rw [image_eq, image_eq, top, visibleImage_kept below]

theorem Executed.image (executed : Executed H elig candidates n log w w') (a : Address) (s : B256) :
    w'.image a s = (wrote (log.writes w.top.storageCtx n) a s).or (w.image a s) := by
  rw [Walk.image_eq, Walk.image_eq, executed.journal, executed.place.1, Option.or_assoc]

/-- A frame that was just pushed has written nothing. -/
theorem image_pushed (p : PendingFrame) (first : StructLog) (w : Walk) (a : Address) (s : B256) :
    (pushFrame p first { w with pending := none }).image a s = w.image a s := by
  rw [Walk.image_eq]
  rfl

/-- Back in its caller, what a frame wrote is there exactly if it succeeded. -/
theorem image_popped {p : PendingFrame} {first next : StructLog} {rest : CallTree} {step : Nat} {w₁ w₂ w₃ : Walk}
    (ran : Frames (pushFrame p first { w₁ with pending := none }) w₂) (resumes : rest.head? = some next)
    (popped : popFrame step next w₂ = .ok w₃) (a : Address) (s : B256) :
    w₃.image a s = (if rest.succeeds then w₂.top.journal.value a s else none).or (w₁.image a s) := by
  obtain ⟨g, others, flag, flagged, caller, outer, pop⟩ := popped_of_frames ran popped
  rw [Walk.image_eq, Walk.image_eq, pop.returned.journal, caller.journal, visibleImage_kept pop.others,
    visibleImage_kept outer, CallTree.succeeds_of_flag resumes flagged, Option.or_assoc]
  simp only [decide_eq_true_eq]

theorem Walked.image {t : CallTree} (walked : Walked H elig candidates n t w w') (free : w.pending = none)
    (a : Address) (s : B256) :
    w'.image a s = (wrote (t.writes CallTree.unborn w.top.storageCtx n) a s).or (w.image a s) := by
  rw [Walk.image_eq, Walk.image_eq, walked.journal free, visibleImage_kept (walked.frames free).below, Option.or_assoc]

/-! ### Views -/

/-- What the top frame believes is true of its program, which held `prior` before the frame. -/
structure Truthful (prior : List Op) (target : Address) (w : Walk) : Prop where
  recalls : ∀ s v, w.top.emittedView.get s = some v → leftBy (prior ++ w.top.out) s = some v
  images : ∀ s, (leftBy w.top.out s).isSome = true → (w.image target s).isSome = true

namespace Truthful

variable {prior : List Op} {target : Address}

/-- A step that stores nothing and forgets or writes slots keeps the view true. -/
theorem same (truthful : Truthful prior target w)
    (view : ∀ s v, w'.top.emittedView.get s = some v → w.top.emittedView.get s = some v)
    (out : ∀ s, leftBy w'.top.out s = leftBy w.top.out s)
    (image : ∀ s, (w.image target s).isSome = true → (w'.image target s).isSome = true) :
    Truthful prior target w' := by
  constructor
  · intro s v held
    have recalled := truthful.recalls s v (view s v held)
    rw [leftBy_append] at recalled ⊢
    rwa [out]
  · intro s stored
    rw [out] at stored
    exact image s (truthful.images s stored)

/-- A slice stores what the view did not hold. -/
theorem sliced (truthful : Truthful prior target w) (step : Nat) :
    Truthful prior target { w with top := w.sliced step target } := by
  have left : ∀ ops : List Op, ∀ s, leftBy (ops ++ (w.sliced step target).out) s =
      (if w.top.emittedView.get s = w.image target s then none else w.image target s).or
        (leftBy (ops ++ w.top.out) s) := by
    intro ops s
    rw [Walk.sliced_out, ← List.append_assoc, leftBy_append, Walk.slice, leftBy_stale]
    rfl
  constructor
  · intro s v held
    have held : (w.image target s).or (w.top.emittedView.get s) = some v := by
      rw [← held]
      exact (OrdMap.get_extend _ _ _).symm
    show leftBy (prior ++ (w.sliced step target).out) s = some v
    rw [left]
    by_cases same : w.top.emittedView.get s = w.image target s
    · rw [if_pos same, Option.none_or]
      rw [← same, Option.or_self] at held
      exact truthful.recalls s v held
    · rw [if_neg same]
      cases imaged : w.image target s with
      | some u =>
        rw [imaged] at held
        exact held
      | none =>
        rw [imaged, Option.none_or] at held
        exact truthful.recalls s v held
  · intro s stored
    show (w.image target s).isSome = true
    have stored : (leftBy ([] ++ (w.sliced step target).out) s).isSome = true := stored
    rw [left, Option.isSome_or, Bool.or_eq_true] at stored
    rcases stored with now | before
    · split at now
      · cases now
      · exact now
    · exact truthful.images s before

/-- After its last slice a program leaves the image of its target. -/
theorem closed (truthful : Truthful [] target w) (step : Nat) (s : B256) :
    leftBy (w.sliced step target).out s = w.image target s := by
  rw [Walk.sliced_out, leftBy_append, Walk.slice, leftBy_stale]
  show (if w.top.emittedView.get s = w.image target s then none else w.image target s).or (leftBy w.top.out s) = _
  cases imaged : w.image target s with
  | none =>
    have nothing : leftBy w.top.out s = none := by
      rw [← Option.not_isSome_iff_eq_none]
      intro stored
      have image := truthful.images s stored
      rw [imaged] at image
      cases image
    rw [nothing, ite_self]
    rfl
  | some v =>
    by_cases same : w.top.emittedView.get s = some v
    · rw [if_pos same, Option.none_or]
      exact truthful.recalls s v same
    · rw [if_neg same]
      rfl

theorem emit (truthful : Truthful prior target w) (image : ∀ s, w'.image target s = w.image target s) {ops : List Op}
    (view : w'.top.emittedView = w.top.emittedView) (out : w'.top.out = w.top.out ++ ops)
    (storeless : ∀ op ∈ ops, op.update.isStore = false) : Truthful prior target w' := by
  refine truthful.same (fun s v held => ?_) (fun s => ?_) (fun s written => ?_)
  · rwa [view] at held
  · rw [out, leftBy_append, leftBy_storeless storeless, Option.none_or]
  · rwa [image]

end Truthful

/-- A step decodes to an update of its own kind. -/
theorem storeless_decoded {update : Option StateUpdate} {skipped : Option Opcode}
    (decoded : decodeStructLog log = .ok (update, skipped)) (effect : effectful log.op = true) (kind : log.op ≠ .sstore) :
    ∀ op ∈ update.toList.map (Op.mk · n), op.update.isStore = false := by
  intro op member
  obtain ⟨u, inside, rfl⟩ := List.mem_map.mp member
  obtain rfl : update = some u := by simpa using inside
  cases memory : log.memory with
  | none => cases decodeStructLog_noMemory decoded memory
  | some words =>
    obtain ⟨u', same, opcode, -⟩ := decodeStructLog_effect decoded effect memory
    obtain rfl := Option.some.inj (Prod.mk.inj same).1
    cases u with
    | store => exact absurd opcode.symm kind
    | _ => rfl

/-- Executing a step keeps the view of a frame of its program true. -/
theorem Executed.truthful (executed : Executed H elig candidates n log w w') {prior : List Op} {target : Address}
    {id : Nat} (emits : w.top.program = some id) (targets : ∀ p, w.programs[id]? = some p → p.target = target)
    (truthful : Truthful prior target w) : Truthful prior target w' := by
  have written : ∀ s, (w.image target s).isSome = true → (w'.image target s).isSome = true := by
    intro s there
    rw [executed.image, Option.isSome_or, there, Bool.or_true]
  have quiet : w'.top.emittedView = w.top.emittedView → w'.top.out = w.top.out → Truthful prior target w' := by
    intro view out
    exact truthful.same (fun s v held => view ▸ held) (fun s => by rw [out]) written
  cases executed with
  | quiet | unowned | delegated | observed | called | creates => exact quiet rfl rfl
  | stored => exact quiet (by rw [Walk.stored_top]; rfl) (by rw [Walk.stored_top]; rfl)
  | logged kind fine _ decoded =>
    refine truthful.emit (fun _ => rfl) rfl rfl (storeless_decoded decoded ?_ ?_)
    · cases op : log.op <;> simp_all [effectful, Opcode.isLog]
    · intro store
      rw [store] at kind
      cases kind
  | @emitted id' p c _ _ emits' found =>
    obtain rfl := Option.some.inj (emits.symm.trans emits')
    obtain rfl := targets p found
    refine (truthful.sliced n).emit (fun _ => rfl) rfl rfl ?_
    intro op member
    rw [List.mem_singleton.mp member]
    rfl
  | @opened id' p c index _ _ emits' found =>
    obtain rfl := Option.some.inj (emits.symm.trans emits')
    obtain rfl := targets p found
    refine (truthful.sliced n).emit (fun _ => rfl) rfl rfl ?_
    intro op member
    rw [List.mem_singleton.mp member]
    rfl
  | @deployed id' p update kind fine emits' found decoded =>
    obtain rfl := Option.some.inj (emits.symm.trans emits')
    obtain rfl := targets p found
    refine (truthful.sliced n).emit (fun _ => rfl) rfl rfl (storeless_decoded decoded ?_ ?_)
    · cases op : log.op <;> simp_all [effectful, Opcode.isCreate]
    · intro store
      rw [store] at kind
      cases kind

/-! ### Targets -/

/-- Program `id` is one for `target`. -/
def Walk.Targets (id : Nat) (target : Address) (w : Walk) : Prop := ∃ p, w.texts[id]? = some p ∧ p.target = target

variable {id : Nat} {target : Address}

theorem Walk.Targets.program (targets : w.Targets id target) : ∀ p, w.programs[id]? = some p → p.target = target := by
  obtain ⟨q, found, isTarget⟩ := targets
  intro p here
  rw [getElem?_texts, here] at found
  rw [← isTarget, ← Option.some.inj found]
  rfl

theorem Executed.targets (executed : Executed H elig candidates n log w w') (targets : w.Targets id target) :
    w'.Targets id target := by
  obtain ⟨p, found, isTarget⟩ := targets
  refine ⟨p, ?_, isTarget⟩
  rcases executed.texts with same | ⟨_, _, _, _, _, _, _, _, _, _, more⟩
  · rw [same, found]
  · rw [more, List.getElem?_append_left (List.getElem?_eq_some_iff.mp found).1, found]

theorem targets_popFrame (popped : popFrame n log w = .ok w') (targets : w.Targets id target) :
    w'.Targets id target := by
  obtain ⟨p, found, isTarget⟩ := targets
  obtain ⟨flag, -, returns⟩ := texts_popFrame popped
  split at returns
  · obtain ⟨own, q, start, -, -, -, closes⟩ := returns
    rw [Walk.Targets, closes, List.getElem?_modify, found]
    refine ⟨_, rfl, ?_⟩
    dsimp only
    split <;> exact isTarget
  · exact ⟨p, by rw [returns, found], isTarget⟩

theorem Walked.targets {t : CallTree} (walked : Walked H elig candidates n t w w') (free : w.pending = none)
    (targets : w.Targets id target) : w'.Targets id target := by
  obtain ⟨p, found, isTarget⟩ := targets
  refine ⟨p, ?_, isTarget⟩
  rw [(walked.opened free).old id (List.getElem?_eq_some_iff.mp found).1, found]

/-! ### Running a frame -/

/-- A delegate frame starts with its caller's view. -/
theorem Executed.hands (executed : Executed H elig candidates n log w w') (delegates : log.op.isDelegate = true)
    (free : w.pending = none) (emits : w.top.program.isSome = true) {p : PendingFrame} (waits : w'.pending = some p) :
    p.emittedView = w'.top.emittedView := by
  cases executed with
  | quiet | unowned =>
    rw [free] at waits
    cases waits
  | stored =>
    rw [Walk.stored_pending, free] at waits
    cases waits
  | logged =>
    have waits : w.pending = some p := waits
    rw [free] at waits
    cases waits
  | delegated =>
    obtain rfl := Option.some.inj waits
    exact if_pos emits
  | observed kind | called kind | emitted kind | opened kind =>
    rw [kind] at delegates
    cases delegates
  | creates kind | deployed kind => cases op : log.op <;> simp_all [Opcode.isDelegate, Opcode.isCreate]

/-- Back in its caller, what a frame below it did keeps the caller's view true. -/
theorem Truthful.popped {prior : List Op} {call first next : StructLog} {rest : CallTree} {p : PendingFrame}
    {step : Nat} {w₁ w₂ w₃ : Walk} (truthful : Truthful prior target w₁)
    (ran : Frames (pushFrame p first { w₁ with pending := none }) w₂) (resumes : rest.head? = some next)
    (popped : popFrame step next w₂ = .ok w₃) (role : Role elig candidates n call w₁.top.program p)
    (native : p.program = none → w₂.top.out = [])
    (inner : call.op.isDelegate = true → Truthful (prior ++ w₁.top.out) target w₂) : Truthful prior target w₃ := by
  obtain ⟨g, others, flag, flagged, caller, outer, pop⟩ := popped_of_frames ran popped
  have success := CallTree.succeeds_of_flag resumes flagged
  have image := image_popped ran resumes popped target
  have nested : w₂.top.nestedStartGas = p.nestedStartGas := ran.top.nestedStartGas
  have program : w₂.top.program = p.program := ran.top.program
  have grows : ∀ s, (w₁.image target s).isSome = true → (w₃.image target s).isSome = true := by
    intro s there
    rw [image, Option.isSome_or, there, Bool.or_true]
  -- The caller as its callee left it: its ops are untouched and its view at most shrank.
  have untouched : ∀ {g₁ : WalkFrame}, Kept g g₁ → w₃.top.emittedView = g₁.emittedView →
      (∀ s, leftBy w₃.top.out s = leftBy g.out s) → Truthful prior target w₃ := by
    intro g₁ kept view out
    refine truthful.same (fun s v held => ?_) (fun s => ?_) grows
    · rw [view] at held
      exact (caller.trans kept).view s v held
    · rw [out, caller.out]
  have returned := pop.returned
  generalize top : w₃.top = g' at returned
  cases returned with
  | discarded kept _ _ => exact untouched kept (by rw [top]) (fun s => by rw [top, kept.out])
  | merged kept _ _ =>
    refine untouched kept (by rw [top]; rfl) (fun s => ?_)
    rw [top, ← kept.out]
    rfl
  | @retracted g₁ ops x st kept _ _ last =>
    refine untouched kept (by rw [top]) (fun s => ?_)
    have plain : leftBy [⟨.nested x, st⟩] s = none := rfl
    rw [top, last, leftBy_append, plain, Option.none_or]
  | @absorbed g₁ kept succ plain =>
    by_cases emits : p.program = none
    · refine untouched kept ?_ (fun s => ?_)
      · rw [top, WalkFrame.absorb, program, emits]
        rfl
      · rw [top]
        show leftBy (g₁.out ++ w₂.top.out) s = _
        rw [native emits, List.append_nil, kept.out]
    · have delegates : call.op.isDelegate = true := by
        cases role with
        | delegate kind => exact kind
        | native _ _ none => exact absurd none emits
        | own _ isNested =>
          rw [nested] at plain
          rw [plain] at isNested
          cases isNested
      obtain ⟨recalls, images⟩ := inner delegates
      have view : w₃.top.emittedView = w₂.top.emittedView := by
        rw [top, WalkFrame.absorb, program, if_pos (Option.isSome_iff_ne_none.mpr emits)]
      have out : w₃.top.out = w₁.top.out ++ w₂.top.out := by
        rw [top, ← caller.out, ← kept.out]
        rfl
      have same : ∀ s, w₃.image target s = w₂.image target s := by
        intro s
        rw [image, success, if_pos (decide_eq_true succ), Walk.image_eq w₂, visibleImage_kept ran.below]
        rfl
      constructor
      · intro s v held
        rw [view] at held
        rw [out, ← List.append_assoc]
        exact recalls s v held
      · intro s stored
        rw [out, leftBy_append, Option.isSome_or, Bool.or_eq_true] at stored
        rcases stored with inside | before
        · rw [same]
          exact images s inside
        · exact grows s (truthful.images s before)

/-- Running a frame keeps its view true. -/
theorem Walked.truthful {d : Nat} {t : CallTree} (walked : Walked H elig candidates n t w w') (wf : t.WellFormed d)
    (free : w.pending = none) (emits : w.top.program = some id) (targets : w.Targets id target) {prior : List Op}
    (truthful : Truthful prior target w) : Truthful prior target w' := by
  induction walked generalizing d prior with
  | done => exact truthful
  | last executed _ => exact (exec_executed executed).truthful emits targets.program truthful
  | @step n log next rest w w₁ w₂ w' executed head level entered tail ih =>
    have step := exec_executed executed
    have inline := frames_inline free executed level entered
    obtain ⟨top, below, -⟩ := entered_kept free step level entered
    have targets₂ : w₂.Targets id target := by
      rw [Walk.Targets, texts_enterPending entered]
      exact step.targets targets
    refine ih wf.2.2 inline.free (inline.top.program.trans emits) targets₂ ?_
    refine (step.truthful emits targets.program truthful).same top.view (fun s => by rw [top.out]) ?_
    intro s there
    rwa [Walk.image_kept top.journal (below ▸ forall₂_kept_refl _)]
  | @enter n call first next body rest p w w₁ w₂ w₃ w' executed waits head inner resumes popped tail
      ihInner ihTail =>
    obtain ⟨-, -, -, -, innerWf, -, tailWf⟩ := wf
    have step := exec_executed executed
    have ran := inner.frames rfl
    obtain ⟨below, place⟩ := step.place
    obtain ⟨g, others, flag, -, -, -, pop⟩ := popFrame_popped popped
    obtain ⟨ops, out, emission⟩ := inner.emission innerWf rfl
    have targets₁ := step.targets targets
    have truthful₁ := step.truthful emits targets.program truthful
    have role := step.role free waits
    rw [← place.program] at role
    have targets₃ := targets_popFrame popped (inner.targets rfl targets₁)
    refine ihTail tailWf (pop.pending.trans ran.free) ?_ targets₃ ?_
    · exact (program_of_frames ran popped).trans (place.program.trans emits)
    · refine truthful₁.popped ran resumes popped role ?_ ?_
      · intro none
        rw [out, emission.native none]
        rfl
      · intro delegates
        -- A delegate frame goes on with its caller's program and view.
        have program : p.program = some id := by
          cases role with
          | delegate _ _ same => rw [same, place.program, emits]
          | native kind =>
            rw [kind] at delegates
            cases delegates
          | own kind =>
            rw [kind] at delegates
            cases delegates
        refine ihInner innerWf rfl program targets₁ ⟨?_, ?_⟩
        · intro s v held
          show leftBy ((prior ++ w₁.top.out) ++ []) s = some v
          rw [List.append_nil]
          apply truthful₁.recalls
          rw [← step.hands delegates free (by rw [emits]; rfl) waits]
          exact held
        · intro s stored
          cases stored

end GasAnalyzer
