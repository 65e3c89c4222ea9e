import GasAnalyzer.Native.Views

/-!
# What a returned program leaves

A program that is kept leaves, in every slot of its target, the value last written there before its frame returned: no
frame around it fails, so what its target's slots held then are writes the trace commits.
-/

namespace GasAnalyzer

/-! ### Frames that last -/

namespace CallTree

/-- The writes that `t` commits made before step `e`. -/
def writesBefore (born : CallTree → Option Address) (ctx : Option Address) (n : Nat) (t : CallTree) (e : Nat) :
    List Write :=
  (t.writes born ctx n).filter (fun x => x.step < e)

/-- Step `j` opens `body`, which succeeds, as does every frame around it. -/
inductive Lasts : Nat → CallTree → Nat → StructLog → CallTree → CallTree → Prop where
  | here {n : Nat} {call : StructLog} {body rest : CallTree} (success : rest.succeeds = true) :
      Lasts n (.enter call body rest) n call body rest
  | later {n j : Nat} {log call : StructLog} {t body rest : CallTree} (lasts : Lasts (n + 1) t j call body rest) :
      Lasts n (.step log t) j call body rest
  | inside {n j : Nat} {outer call : StructLog} {t t' body rest : CallTree} (success : t'.succeeds = true)
      (lasts : Lasts (n + 1) t j call body rest) : Lasts n (.enter outer t t') j call body rest
  | after {n j : Nat} {outer call : StructLog} {t t' body rest : CallTree}
      (lasts : Lasts (n + 1 + t.size) t' j call body rest) : Lasts n (.enter outer t t') j call body rest

variable {born : CallTree → Option Address} {ctx : Option Address} {n j : Nat} {call : StructLog} {t body rest : CallTree}

theorem Lasts.opens (lasts : Lasts n t j call body rest) : Opens n t j call body rest := by
  induction lasts with
  | here => exact .here
  | later _ ih => exact .later ih
  | inside _ _ ih => exact .inside ih
  | after _ ih => exact .after ih

theorem Lasts.trans {outer : StructLog} {mid above : CallTree} {k : Nat} (first : Lasts n t j outer mid above)
    (second : Lasts (j + 1) mid k call body rest) : Lasts n t k call body rest := by
  induction first with
  | here success => exact .inside success second
  | later _ ih => exact .later (ih second)
  | inside success _ ih => exact .inside success (ih second)
  | after _ ih => exact .after (ih second)

/-- A call with a frame of its own that succeeds lasts in the frame that makes it. -/
theorem lasts_of_nestSteps {handed : Nat → StructLog → Bool} (member : j ∈ t.nestSteps handed n) :
    ∃ call body rest, Lasts n t j call body rest := by
  induction t generalizing n with
  | done => cases member
  | step log rest ih =>
    obtain ⟨call, body, rest', lasts⟩ := ih member
    exact ⟨call, body, rest', .later lasts⟩
  | enter call body rest ihBody ihRest =>
    rcases List.mem_append.mp member with first | second
    · split at first
      · split at first
        · rename_i both
          obtain rfl := List.mem_singleton.mp first
          exact ⟨call, body, rest, .here (Bool.and_eq_true_iff.mp both).2⟩
        · cases first
      · split at first
        · rename_i both
          obtain ⟨call', body', rest', lasts⟩ := ihBody first
          exact ⟨call', body', rest', .inside (Bool.and_eq_true_iff.mp both).2 lasts⟩
        · cases first
    · obtain ⟨call', body', rest', lasts⟩ := ihRest second
      exact ⟨call', body', rest', .after lasts⟩

theorem writesBefore_all {e : Nat} (late : n + t.size ≤ e) : t.writesBefore born ctx n e = t.writes born ctx n := by
  apply List.filter_eq_self.mpr
  intro w member
  have := (writes_bounds member).2
  simp only [decide_eq_true_eq]
  omega

theorem writesBefore_none {e : Nat} (early : e ≤ n) : t.writesBefore born ctx n e = [] := by
  apply List.filter_eq_nil_iff.mpr
  intro w member
  have := (writes_bounds member).1
  simp only [decide_eq_true_eq]
  omega

theorem writesBefore_step {log : StructLog} {e : Nat} (later : n < e) :
    (step log rest).writesBefore born ctx n e = log.writes ctx n ++ rest.writesBefore born ctx (n + 1) e := by
  unfold writesBefore
  rw [writes, List.filter_append]
  congr 1
  apply List.filter_eq_self.mpr
  intro w member
  rw [(StructLog.mem_writes.mp member).1]
  exact decide_eq_true later

theorem writesBefore_inside {e : Nat} (success : rest.succeeds = true) (within : e ≤ n + 1 + body.size) :
    (enter call body rest).writesBefore born ctx n e =
      body.writesBefore born (context born ctx call rest) (n + 1) e := by
  have none : rest.writesBefore born ctx (n + 1 + body.size) e = [] := writesBefore_none within
  unfold writesBefore at none ⊢
  rw [writes, List.filter_append, none, List.append_nil, if_pos success]

theorem writesBefore_after {e : Nat} (later : n + 1 + body.size ≤ e) :
    (enter call body rest).writesBefore born ctx n e =
      (if rest.succeeds then body.writes born (context born ctx call rest) (n + 1) else []) ++
        rest.writesBefore born ctx (n + 1 + body.size) e := by
  have all : body.writesBefore born (context born ctx call rest) (n + 1) e = body.writes born _ (n + 1) :=
    writesBefore_all later
  unfold writesBefore at all ⊢
  rw [writes, List.filter_append]
  congr 1
  split
  · exact all
  · rfl

theorem writesBefore_mono {e e' : Nat} (le : e ≤ e') {w : Write} (member : w ∈ t.writesBefore born ctx n e) :
    w ∈ t.writesBefore born ctx n e' := by
  obtain ⟨inside, before⟩ := List.mem_filter.mp member
  refine List.mem_filter.mpr ⟨inside, ?_⟩
  simp only [decide_eq_true_eq] at before ⊢
  omega

end CallTree

/-! ### What a walk's programs leave -/

/-- A finished program of a frame that lasts leaves what its target held at the frame's end: `t`'s writes up to then, on
what was there before. -/
def LeavesEnd (n : Nat) (t : CallTree) (ctx : Option Address) (image : Address → B256 → Option B256)
    (p : ProgramState) : Prop :=
  ∀ ops call body rest, p.updates = some ops → CallTree.Lasts n t p.step call body rest → ∀ s, leftBy ops s =
    (wrote (t.writesBefore CallTree.unborn ctx n (p.step + 1 + body.size)) p.target s).or (image p.target s)

variable {H : Hashes} {elig : Eligibility} {candidates : OrdMap Nat Candidate} {n : Nat} {w w' : Walk}
variable {ctx : Option Address} {before image : Address → B256 → Option B256} {p : ProgramState}

theorem LeavesEnd.later {log : StructLog} {rest : CallTree} (leaves : LeavesEnd (n + 1) rest ctx image p)
    (images : ∀ a s, image a s = (wrote (log.writes ctx n) a s).or (before a s)) :
    LeavesEnd n (.step log rest) ctx before p := by
  intro ops call body rest' updates lasts s
  cases lasts with
  | later lasts =>
    have := lasts.opens.bounds
    rw [leaves ops call body rest' updates lasts s, images, CallTree.writesBefore_step (by omega), wrote_append,
      Option.or_assoc]

theorem LeavesEnd.inside {outer : StructLog} {mid above : CallTree}
    (leaves : LeavesEnd (n + 1) mid (CallTree.context CallTree.unborn ctx outer above) before p)
    (low : n < p.step) (high : p.step < n + 1 + mid.size) : LeavesEnd n (.enter outer mid above) ctx before p := by
  intro ops call body rest updates lasts s
  cases lasts with
  | here => omega
  | inside success lasts =>
    have := lasts.opens.body_bounds
    rw [leaves ops call body rest updates lasts s, CallTree.writesBefore_inside success (by omega)]
  | after lasts =>
    have := lasts.opens.bounds
    omega

theorem LeavesEnd.after {outer : StructLog} {mid above : CallTree}
    (leaves : LeavesEnd (n + 1 + mid.size) above ctx image p) (low : n + 1 + mid.size ≤ p.step)
    (images : ∀ a s, image a s = (wrote (if above.succeeds then
      mid.writes CallTree.unborn (CallTree.context CallTree.unborn ctx outer above) (n + 1) else []) a s).or
        (before a s)) : LeavesEnd n (.enter outer mid above) ctx before p := by
  intro ops call body rest updates lasts s
  cases lasts with
  | here => omega
  | inside success lasts =>
    have := lasts.opens.bounds
    omega
  | after lasts =>
    have := lasts.opens.bounds
    rw [leaves ops call body rest updates lasts s, images, CallTree.writesBefore_after (by omega), wrote_append,
      Option.or_assoc]

/-- A frame of its own ends at its target's image. -/
theorem Fresh.leaves {id : Nat} {target : Address} {d step : Nat} {body : CallTree} (fresh : Fresh id target w)
    (targets : w.Targets id target) (walked : Walked H elig candidates n body w w') (wf : body.WellFormed d) (s : B256) :
    leftBy (w'.sliced step target).out s =
      (wrote (body.writes CallTree.unborn (some target) n) target s).or (w.image target s) := by
  have start : Truthful [] target w := by
    constructor
    · intro s v held
      rw [fresh.view] at held
      cases held
    · intro s stored
      rw [fresh.out] at stored
      cases stored
  rw [(walked.truthful wf fresh.free fresh.program targets start).closed, walked.image fresh.free, fresh.context]

/-! ### One call -/

section

variable {call first next : StructLog} {body rest : CallTree} {pending : PendingFrame} {w₁ w₂ w₃ : Walk} {d id : Nat}

/-- A call writes nothing itself. -/
theorem Executed.image_called (executed : Executed H elig candidates n call w w₁) (opens : call.op.opensFrame = true)
    (a : Address) (s : B256) : w₁.image a s = w.image a s := by
  have silent : call.writes w.top.storageCtx n = [] := by
    unfold StructLog.writes StructLog.stored?
    rw [if_neg]
    · cases w.top.storageCtx <;> rfl
    · rintro ⟨kind, -⟩
      rw [kind] at opens
      cases opens
  rw [executed.image, silent, wrote_nil, Option.none_or]

/-- Back in its caller, what a body that succeeded wrote is on top of what was there before. -/
theorem image_returned (executed : Executed H elig candidates n call w w₁) (opens : call.op.opensFrame = true)
    (free : w.pending = none) (waits : w₁.pending = some pending)
    (inner : Walked H elig candidates (n + 1) body (pushFrame pending first { w₁ with pending := none }) w₂)
    (resumes : rest.head? = some next) (popped : popFrame (n + 1 + body.size) next w₂ = .ok w₃) (a : Address) (s : B256) :
    w₃.image a s = (wrote (if rest.succeeds then
      body.writes CallTree.unborn (CallTree.context CallTree.unborn w.top.storageCtx call rest) (n + 1) else []) a
        s).or (w.image a s) := by
  have journal := inner.journal rfl a s
  rw [image_popped (inner.frames rfl) resumes popped, executed.image_called opens, journal,
    ← executed.context free waits rest]
  show (if _ then (wrote (body.writes _ pending.storageCtx _) a s).or none else none).or _ = _
  rw [Option.or_none]
  split <;> rfl

theorem context_returned (executed : Executed H elig candidates n call w w₁)
    (ran : Frames (pushFrame pending first { w₁ with pending := none }) w₂)
    (popped : popFrame (n + 1 + body.size) next w₂ = .ok w₃) : w₃.top.storageCtx = w.top.storageCtx := by
  obtain ⟨g, others, flag, -, caller, -, pop⟩ := popped_of_frames ran popped
  rw [pop.returned.samePlace.storageCtx, caller.storageCtx, executed.place.2.storageCtx]

/-- Returning finishes at most the program of the call's own frame. -/
theorem texts_inside (executed : Executed H elig candidates n call w w₁) (free : w.pending = none)
    (waits : w₁.pending = some pending) (ran : Frames (pushFrame pending first { w₁ with pending := none }) w₂)
    (popped : popFrame (n + 1 + body.size) next w₂ = .ok w₃) (inside : w₁.texts.length ≤ id) :
    w₃.texts[id]? = w₂.texts[id]? := by
  obtain ⟨flag, -, returns⟩ := texts_popFrame popped
  rcases executed.texts with same | ⟨parent, q, c, index, -, -, -, -, -, rfl, texts⟩
  · have plain := executed.plain free same waits
    rw [if_neg (by simp [ran.top.nestedStartGas.trans plain])] at returns
    rw [returns]
  · split at returns
    · obtain ⟨id', q', start, emits, -, -, closes⟩ := returns
      have own : pending.program = some w.texts.length := by
        obtain rfl := Option.some.inj waits
        rw [length_texts]
      obtain rfl := Option.some.inj ((ran.top.program.trans own).symm.trans emits)
      rw [texts, List.length_append] at inside
      rw [closes, List.getElem?_modify]
      simp [Nat.ne_of_lt (show w.texts.length < id from inside)]
    · rw [returns]

/-- The program of a call's own frame leaves what its target held when the frame returned. -/
theorem leavesEnd_own {parent : Nat} {index : U256} {c : Call} {q : ProgramState}
    (executed : Executed H elig candidates n call w (openNested H n parent index c call { w with top := w.sliced n q.target }))
    (opens : call.op.opensFrame = true) (callee : call.callee = some c.target)
    (texts : (openNested H n parent index c call { w with top := w.sliced n q.target }).texts =
      w.texts ++ [(nestedProgram H w.top.storageCtx n parent index c).text])
    (free : w.pending = none) (wf : body.WellFormed d)
    (waits : (openNested H n parent index c call { w with top := w.sliced n q.target }).pending = some pending)
    (inner : Walked H elig candidates (n + 1) body (pushFrame pending first
      { openNested H n parent index c call { w with top := w.sliced n q.target } with pending := none }) w₂)
    (popped : popFrame (n + 1 + body.size) next w₂ = .ok w₃) (found : w₃.texts[w.texts.length]? = some p) :
    LeavesEnd n (.enter call body rest) w.top.storageCtx w.image p := by
  have ran := inner.frames rfl
  have context := executed.context free waits rest
  obtain ⟨isProgram, isContext, isView⟩ : pending.program = some w.texts.length ∧
      pending.storageCtx = some c.target ∧ pending.emittedView = OrdMap.empty := by
    obtain rfl := Option.some.inj waits
    exact ⟨by rw [length_texts], callee, rfl⟩
  have isNested : pending.nestedStartGas.isSome = true := by
    obtain rfl := Option.some.inj waits
    rfl
  have added := List.getElem?_concat_length (l := w.texts)
    (a := (nestedProgram H w.top.storageCtx n parent index c).text)
  rw [← texts] at added
  have own : w₂.texts[w.texts.length]? = some (nestedProgram H w.top.storageCtx n parent index c).text :=
    ((inner.opened rfl).old w.texts.length (List.getElem?_eq_some_iff.mp added).1).trans added
  obtain ⟨flag, -, returns⟩ := texts_popFrame popped
  split at returns
  · obtain ⟨id', q', start, emits, foundQ, -, closes⟩ := returns
    obtain rfl := Option.some.inj ((ran.top.program.trans isProgram).symm.trans emits)
    have target : q'.target = c.target := by
      rw [getElem?_texts, foundQ] at own
      exact congrArg ProgramState.target (Option.some.inj own)
    rw [closes, List.getElem?_modify, own] at found
    obtain rfl : (ProgramState.finish _ _ _) = p := by simpa using found
    intro ops call' body' rest' updates lasts s
    obtain rfl := Option.some.inj updates
    have fresh : Fresh w.texts.length c.target (pushFrame pending first { openNested H n parent index c call
        { w with top := w.sliced n q.target } with pending := none }) :=
      ⟨isProgram, isNested, isContext, rfl, rfl, isView, rfl⟩
    have images := image_pushed pending first (openNested H n parent index c call
      { w with top := w.sliced n q.target })
    have lasts : CallTree.Lasts n (.enter call body rest) n call' body' rest' := lasts
    cases lasts with
    | here success =>
      show leftBy (w₂.sliced (n + 1 + body.size) q'.target).out s =
        (wrote (CallTree.writesBefore _ _ n _ (n + 1 + body.size)) c.target s).or (w.image c.target s)
      rw [target, fresh.leaves ⟨_, added, rfl⟩ inner wf, images, executed.image_called opens,
        CallTree.writesBefore_inside success (Nat.le_refl _), CallTree.writesBefore_all (Nat.le_refl _),
        ← context, isContext]
    | inside success lasts =>
      have := lasts.opens.bounds
      omega
    | after lasts =>
      have := lasts.opens.bounds
      omega
  · rw [returns, own] at found
    obtain rfl := Option.some.inj found
    intro ops call' body' rest' updates
    cases updates

end

/-- Every program that a walk opens leaves what its target held at its frame's end. -/
theorem Walked.leavesEnd {d : Nat} {t : CallTree} (walked : Walked H elig candidates n t w w') (wf : t.WellFormed d)
    (free : w.pending = none) : ∀ id p, w.texts.length ≤ id → w'.texts[id]? = some p →
      LeavesEnd n t w.top.storageCtx w.image p := by
  induction walked generalizing d with
  | done =>
    intro id p outside found
    rw [List.getElem?_eq_none outside] at found
    cases found
  | last executed free' =>
    intro id p outside found
    rcases (exec_executed executed).texts with same | ⟨_, _, _, _, -, -, -, -, -, rfl, -⟩
    · rw [same, List.getElem?_eq_none outside] at found
      cases found
    · cases free'
  | @step n log next rest w w₁ w₂ w' executed head level entered tail ih =>
    intro id p outside found
    have step := exec_executed executed
    have inline := frames_inline free executed level entered
    obtain ⟨top, below, -⟩ := entered_kept free step level entered
    have same : w₂.texts = w.texts := by
      rw [texts_enterPending entered]
      rcases step.texts with same | ⟨_, _, _, _, -, -, -, -, -, rfl, -⟩
      · exact same
      · cases plain_inline step free level entered rfl
    have leaves := ih wf.2.2 inline.free id p (by rwa [same]) found
    rw [inline.top.storageCtx] at leaves
    refine leaves.later (fun a s => ?_)
    rw [Walk.image_kept top.journal (below ▸ forall₂_kept_refl _), step.image]
  | @enter n call first next body rest pending w w₁ w₂ w₃ w' executed waits head inner resumes popped tail
      ihInner ihTail =>
    intro id p outside found
    obtain ⟨-, fine, opens, -, innerWf, -, tailWf⟩ := wf
    have step := exec_executed executed
    have ran := inner.frames rfl
    obtain ⟨g, others, flag, -, -, -, pop⟩ := popped_of_frames ran popped
    have free₃ : w₃.pending = none := pop.pending.trans ran.free
    rcases Nat.lt_or_ge id w₃.texts.length with there | beyond
    · rw [(tail.opened free₃).old id there] at found
      rcases Nat.lt_or_ge id w₁.texts.length with own | inside
      · -- The program of the call's own frame.
        rcases step.texts with same | ⟨parent, q, c, index, -, callee, -, -, -, rfl, texts⟩
        · rw [same] at own
          omega
        · obtain rfl : w.texts.length = id := by
            rw [texts, List.length_append, List.length_singleton] at own
            omega
          exact leavesEnd_own step opens callee texts free innerWf waits inner popped found
      · -- A program opened in the body.
        rw [texts_inside step free waits ran popped inside] at found
        obtain ⟨_, _, _, _, _, opened, -⟩ := ((inner.opened rfl).new id p inside found).ran
        have bounds := opened.bounds
        have leaves := ihInner innerWf rfl id p inside found
        have images : (pushFrame pending first { w₁ with pending := none }).image = w.image := by
          funext a s
          rw [image_pushed, step.image_called opens]
        rw [images] at leaves
        refine LeavesEnd.inside ?_ (by omega) bounds.2
        rw [← step.context free waits rest]
        exact leaves
    · -- A program opened after the call returned.
      obtain ⟨_, _, _, _, _, opened, -⟩ := ((tail.opened free₃).new id p beyond found).ran
      have leaves := ihTail tailWf free₃ id p beyond found
      rw [context_returned step ran popped] at leaves
      exact leaves.after opened.bounds.1 (image_returned step opens free waits inner resumes popped)

end GasAnalyzer
