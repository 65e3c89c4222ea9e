import GasAnalyzer.Native.Yield

/-!
# The walk with nothing nested

When no callee is given a frame of its own the walk is a recursion over the call tree. It answers for every
well-formed trace whose steps it can read and whose emitted creates deploy, and its one program, its gas
figures and the opcodes it skips are those of the root's closure.
-/

namespace GasAnalyzer

variable {H : Hashes} {elig : Eligibility} {candidates : OrdMap Nat Candidate} {n : Nat} {log next : StructLog}
variable {w w₁ w' : Walk}

/-! ### Frames that return -/

theorem Held.fixed {f f' : WalkFrame} (held : Held f f') : Fixed f f' := by
  unfold Held at held
  rw [held]
  constructor <;> rfl

/-- Leaving a frame's body: only what it skipped is seen outside. -/
theorem Yields.leave {y : Yield} {p : PendingFrame} {first : StructLog} {v w₂ : Walk}
    (inner : Yields y (pushFrame p first v) w₂) :
    ∃ g rest, w₂.below = g :: rest ∧ Yields { skipped := y.skipped } v (w₂.leave g rest) := by
  have below : List.Forall₂ Held (v.top :: v.below) w₂.below := inner.below
  generalize frames : w₂.below = fs at below
  cases below with
  | @cons _ g _ rest held others =>
    refine ⟨g, rest, rfl, inner.free, held.fixed, ?_, ?_, ?_, ?_, others, inner.programs, inner.skipped⟩
    · show nonStores g.out = _
      rw [held]
      simp
    · show g.callGas = _
      rw [held]
      simp
    · show g.calleeGas = _
      rw [held]
      simp
    · show g.createGas = _
      rw [held]
      simp

/-- A frame that returns with success hands on what it emitted. -/
theorem yields_closeFrame {y : Yield} {p : PendingFrame} {first : StructLog} {v w₂ x : Walk}
    (inner : Yields y (pushFrame p first v) w₂) (free : x.pending = none) :
    Yields { y with skipped := ∅ } x (closeFrame true w₂.top x) := by
  have fixed : ∀ g : WalkFrame, Fixed g (w₂.top.absorb g) := by
    intro g
    constructor <;> rfl
  have ops : nonStores w₂.top.out = y.ops := inner.ops
  have callGas : w₂.top.callGas = y.callGas := inner.callGas.trans (UInt64.zero_add _)
  have calleeGas : w₂.top.calleeGas = y.calleeGas := inner.calleeGas.trans (UInt64.zero_add _)
  have createGas : w₂.top.createGas = y.createGas := inner.createGas.trans (UInt64.zero_add _)
  have absorbs : ∀ u : Walk, Held x.top u.top → List.Forall₂ Held x.below u.below → u.pending = none →
      u.programs = x.programs → u.skippedOpcodes = x.skippedOpcodes →
      Yields { y with skipped := ∅ } x (modifyTop w₂.top.absorb u) := by
    intro u top below free programs skipped
    refine ⟨free, top.fixed.trans (fixed _), ?_, ?_, ?_, ?_, below, ?_, ?_⟩
    · show nonStores (u.top.out ++ w₂.top.out) = _
      rw [nonStores_append, ops, top]
    · show u.top.callGas + w₂.top.callGas = _
      rw [callGas, top]
    · show u.top.calleeGas + w₂.top.calleeGas = _
      rw [calleeGas, top]
    · show u.top.createGas + w₂.top.createGas = _
      rw [createGas, top]
    · show u.programs.map _ = _
      rw [programs]
    · show u.skippedOpcodes = _
      rw [skipped]
      simp
  unfold closeFrame
  rw [if_pos rfl]
  split
  · exact absorbs x (held_refl _) (forall₂_held_refl _) free rfl rfl
  · exact absorbs (forgetOverwritten w₂.top.journal x) (held_forget _ _ _) (forall₂_held_forget _ _ _) free rfl rfl

theorem dropOpened_all {first : Nat} (all : first = w.programs.length) : dropOpened first w = w := by
  unfold dropOpened dropFrom
  rw [all]
  simp

/-- What a frame skipped may be counted before or after the gas of its call. -/
theorem Yield.skip_first (a c y : Yield) :
    (a.add (Yield.add { skipped := y.skipped } c)).add { y with skipped := ∅ } = (a.add c).add y := by
  ext x
  · simp [Yield.add]
  · simp [Yield.add]
  · simp [Yield.add]
  · simp [Yield.add]
  · simp only [Yield.add, Finset.mem_union, Finset.notMem_empty]
    tauto

/-- Popping the frame a step opened. -/
theorem popFrame_returns {m : Nat} {call first : StructLog} {flag : U256} {y : Yield} {w₂ : Walk}
    (stepped : Stepped n call w w₁) (fine : call.errored = false)
    (inner : Yields y (pushFrame (opening call w.top) first { w₁ with pending := none }) w₂)
    (deeper : first.depth = next.depth + 1) (flagged : next.flag = some flag)
    (deploys : w.top.program.isSome = true → call.op.isCreate = true → flag ≠ 0) :
    ∃ w₃, popFrame m next w₂ = .ok w₃ ∧
      Yields (((stepYield n ⟨call, some first.gas, next.gas⟩).when w.top.program.isSome).add
        (if flag ≠ 0 then y else { skipped := y.skipped })) w w₃ := by
  obtain ⟨stack, hasStack, last⟩ := Option.bind_eq_some_iff.mp flagged
  obtain ⟨g, rest, below, left⟩ := inner.leave
  have created : ¬(w₂.top.emittedCreate && !decide (flag ≠ 0)) = true := by
    rw [inner.top.emittedCreate]
    intro both
    obtain ⟨create, failure⟩ := Bool.and_eq_true_iff.mp both
    obtain ⟨emits, create⟩ := Bool.and_eq_true_iff.mp create
    exact absurd (deploys emits create) (by simpa using failure)
  have nested : w₂.top.nestedStartGas = none := inner.top.nestedStartGas
  have sameCount : w₂.programs.length = w₁.programs.length := by
    have lengths := congrArg List.length inner.programs
    simpa [pushFrame] using lengths
  have nothingDropped : dropOpened w₂.top.firstProgram (w₂.leave g rest) = w₂.leave g rest := by
    apply dropOpened_all
    rw [inner.top.firstProgram]
    exact sameCount.symm
  have popped : popFrame m next w₂ =
      .ok (closeFrame (decide (flag ≠ 0)) w₂.top (chargeReturn next w₂.top (w₂.leave g rest))) := by
    unfold popFrame
    rw [if_neg (by rw [inner.top.depth]; exact not_not.mpr deeper)]
    simp only [okOr, hasStack, last, Outcome.ok_bind, lastSlice, nested, Option.isSome_none, Bool.and_false,
      Bool.false_eq_true, if_false, below]
    unfold returnFrame
    rw [if_neg created]
    simp only [nothingDropped, ite_self, nested]
  refine ⟨_, popped, ?_⟩
  have base := stepped.yields
  -- The call's gas, if its op was emitted.
  have charged : ∃ c, Yields c (w₂.leave g rest) (chargeReturn next w₂.top (w₂.leave g rest)) ∧
      Yield.add ((Yield.when w.top.program.isSome { ops := stepOps n call, skipped := stepSkips call })) c =
        (stepYield n ⟨call, some first.gas, next.gas⟩).when w.top.program.isSome := by
    unfold chargeReturn
    rw [inner.top.emittedCallGas]
    by_cases kind : w.top.program.isSome = true ∧ (call.op = .call ∨ call.op.isCreate = true)
    · obtain ⟨emits, kind⟩ := kind
      have gas : (opening call w.top).emittedCallGas = some call.gas := by simp [opening, emits, kind]
      rw [show (pushFrame (opening call w.top) first { w₁ with pending := none }).top.emittedCallGas = _ from gas]
      refine ⟨_, yields_chargeCall _ _ _ left.free, ?_⟩
      have create : w₂.top.emittedCreate = call.op.isCreate := by
        rw [inner.top.emittedCreate]
        simp [opening, pushFrame, emits]
      rw [emits, create, inner.top.callGasCost, inner.top.entryGas]
      have whole := stepYield_charged (n := n) (r := ⟨call, some first.gas, next.gas⟩) fine kind
      rcases kind with isCall | isCreate
      · have cost : (opening call w.top).callGasCost = call.gasCost := by simp [opening, isCall]
        rw [show (pushFrame (opening call w.top) first { w₁ with pending := none }).top.callGasCost = _ from cost]
        exact whole
      · rw [isCreate] at whole ⊢
        exact whole
    · have gas : (opening call w.top).emittedCallGas = none := by
        unfold opening
        simp only
        rw [if_neg]
        simpa using kind
      rw [show (pushFrame (opening call w.top) first { w₁ with pending := none }).top.emittedCallGas = _ from gas]
      refine ⟨_, Yields.nothing left.free, ?_⟩
      rw [Yield.add_nothing]
      cases emits : w.top.program.isSome with
      | false => rfl
      | true =>
        rw [emits] at kind
        rw [stepYield_plain (Or.inr (by simpa using kind))]
  obtain ⟨c, charged, sum⟩ := charged
  have before := (base.trans (left.trans charged))
  by_cases success : flag ≠ 0
  · rw [decide_eq_true success, if_pos success]
    have whole := before.trans (yields_closeFrame inner charged.free)
    rw [← sum]
    rw [Yield.skip_first] at whole
    exact whole
  · rw [decide_eq_false success, if_neg success, ← sum]
    have same := Yield.skip_first (Yield.when w.top.program.isSome
      { ops := stepOps n call, skipped := stepSkips call }) c { skipped := y.skipped }
    rw [Yield.add_nothing] at same
    rw [← same]
    exact before

/-! ### Whole trees -/

/-- What the walk needs of a tree to follow it, in a frame that emits or not. -/
def CallTree.Walkable : Bool → CallTree → Prop
  | _, .done => True
  | emits, .step log rest => Executable emits log ∧
      (emits = true → log.op.isCreate = true → log.errored = false → rest.succeeds = true) ∧ rest.Walkable emits
  | emits, .enter call body rest => Executable emits call ∧
      (emits = true → call.op.isCreate = true → rest.succeeds = true) ∧
      body.Walkable (emits && call.op.isDelegate) ∧ rest.Walkable emits

/-- Walking `t` from `w`, its first step finds the state `w₀`. -/
structure Finds (n d : Nat) (t : CallTree) (w w₀ : Walk) : Prop where
  arrived : ∀ log, t.head? = some log → arrive n log w = .ok w₀
  ended : t.head? = none → w₀ = w
  free : w₀.pending = none
  depth : w₀.top.depth.toNat = d
  program : ∀ id, w₀.top.program = some id → id < w₀.programs.length

theorem finds_some {d : Nat} {t : CallTree} {y : Yield} {w₀ w₁ w₂ : Walk} (head : t.head? = some next)
    (arrived : arrive n next w₁ = .ok w₂) (yields : Yields y w₀ w₂) (depth : w₀.top.depth.toNat = d)
    (program : ∀ id, w₀.top.program = some id → id < w₀.programs.length) : Finds n d t w₁ w₂ := by
  refine ⟨?_, ?_, yields.free, ?_, ?_⟩
  · intro log found
    rw [head] at found
    cases found
    exact arrived
  · intro none
    rw [head] at none
    cases none
  · rw [yields.top.depth, depth]
  · intro id emits
    rw [yields.top.program] at emits
    have lengths := congrArg List.length yields.programs
    rw [List.length_map, List.length_map] at lengths
    rw [lengths]
    exact program id emits

theorem arrive_pops {m : Nat} {w₂ w₃ : Walk} (free : w₂.pending = none) (above : next.depth < w₂.top.depth)
    (popped : popFrame m next w₂ = .ok w₃) (low : w₃.top.depth ≤ next.depth) : arrive m next w₂ = .ok w₃ := by
  unfold arrive enterPending
  rw [free]
  unfold popFrames
  simp only [Outcome.ok_bind, if_pos above, popped]
  exact popFrames_stays low

theorem walk_cons {w₀ : Walk} {rest : List StructLog} (arrived : arrive n log w = .ok w₀)
    (executed : exec H elig candidates n log w₀ = .ok w₁) :
    walk H elig candidates (log :: rest) n w = walk H elig candidates rest (n + 1) w₁ := by
  show (walkStep H elig candidates n log w >>= _) = _
  unfold walkStep
  rw [arrived, Outcome.ok_bind, executed, Outcome.ok_bind]

theorem Yield.when_add (emits : Bool) (a b : Yield) : (a.when emits).add (b.when emits) = (a.add b).when emits := by
  cases emits
  · exact Yield.nothing_add {}
  · rfl

/-- A step of a frame and the walk's arrival at the next. -/
theorem step_finds {d : Nat} {rest : CallTree} {w₀ : Walk} (wf : (CallTree.step log rest).WellFormed d)
    (finds : Finds n d (.step log rest) w w₀) (stepped : Stepped n log w₀ w₁)
    (deploys : w₀.top.program.isSome = true → log.op.isCreate = true → log.errored = false → rest.succeeds = true) :
    ∃ w₂, Finds (n + 1) d rest w₁ w₂ ∧
      Yields ((stepYield n ⟨log, none, rest.startGas.getD 0⟩).when w₀.top.program.isSome) w₀ w₂ := by
  obtain ⟨carries, resumes, tail⟩ := wf
  cases head : rest.head? with
  | none =>
    have plain : (!log.errored && log.op.opensFrame) = false := by
      by_contra opens
      obtain ⟨fine, opens⟩ : log.errored = false ∧ log.op.opensFrame = true := by simpa using opens
      obtain ⟨next, -, found, -⟩ := CallTree.head?_of_outcome (resumes fine opens)
      rw [head] at found
      cases found
    have free : w₁.pending = none := by rw [stepped.pending, plain]; rfl
    have silent : log.errored = true ∨ (log.op ≠ .call ∧ log.op.isCreate = false) := by
      cases op : log.op <;> simp_all [Opcode.opensFrame, Opcode.isCreate]
    have base := stepped.yields
    rw [show ({ w₁ with pending := none } : Walk) = w₁ by rw [← free]] at base
    rw [stepYield_plain silent]
    refine ⟨w₁, ⟨by simp [head], fun _ => rfl, free, ?_, ?_⟩, base⟩
    · rw [base.top.depth, finds.depth]
    · intro id emits
      rw [base.top.program] at emits
      have lengths := congrArg List.length base.programs
      rw [List.length_map, List.length_map] at lengths
      rw [lengths]
      exact finds.program id emits
  | some next =>
    have level : next.depth = log.depth := by
      apply UInt64.toNat_inj.mp
      rw [(tail.head head).depth, carries.depth]
    have gas : rest.startGas.getD 0 = next.gas := by simp [CallTree.startGas, head]
    obtain ⟨w₂, entered, yields⟩ := enterPending_inline stepped level (fun emits create fine =>
      CallTree.succeeds_deployed (deploys emits create fine) head)
    rw [gas]
    refine ⟨w₂, finds_some head ?_ yields finds.depth finds.program, yields⟩
    unfold arrive
    rw [entered, Outcome.ok_bind]
    apply popFrames_stays
    apply UInt64.le_iff_toNat_le.mpr
    rw [yields.top.depth, finds.depth, (tail.head head).depth]

/-- The frame a call opened, walked and popped. -/
theorem enter_finds {d : Nat} {call first : StructLog} {body rest : CallTree} {w₀ w₂ : Walk} {y : Yield}
    (wf : (CallTree.enter call body rest).WellFormed d) (finds : Finds n d (.enter call body rest) w w₀)
    (stepped : Stepped n call w₀ w₁) (small : d + 1 < 2 ^ 64) (head : body.head? = some first)
    (deploys : w₀.top.program.isSome = true → call.op.isCreate = true → rest.succeeds = true)
    (inner : Yields y (pushFrame (opening call w₀.top) first { w₁ with pending := none }) w₂) :
    ∃ w₃, Finds (n + 1 + body.size) d rest w₂ w₃ ∧
      Yields (((stepYield n ⟨call, body.startGas, rest.startGas.getD 0⟩).when w₀.top.program.isSome).add
        (if rest.succeeds then y else { skipped := y.skipped })) w₀ w₃ := by
  obtain ⟨carries, fine, opens, -, bodyWf, resumes, tail⟩ := wf
  obtain ⟨next, flag, resumeHead, flagged⟩ := CallTree.head?_of_outcome resumes
  have success := CallTree.succeeds_of_flag resumeHead flagged
  have nextDepth := (tail.head resumeHead).depth
  have firstDepth := (bodyWf.head head).depth
  have deeper : first.depth = next.depth + 1 := by
    apply UInt64.toNat_inj.mp
    rw [UInt64.toNat_add, firstDepth, nextDepth]
    exact (Nat.mod_eq_of_lt small).symm
  have entryGas : body.startGas = some first.gas := by simp [CallTree.startGas, head]
  have gas : rest.startGas.getD 0 = next.gas := by simp [CallTree.startGas, resumeHead]
  obtain ⟨w₃, popped, yields⟩ := popFrame_returns (m := n + 1 + body.size) stepped fine inner deeper flagged
    (fun emits create => by simpa [success] using deploys emits create)
  have shape : (if rest.succeeds then y else { skipped := y.skipped }) =
      if flag ≠ 0 then y else { skipped := y.skipped } := by
    rw [success]
    simp
  rw [entryGas, gas, shape]
  refine ⟨w₃, finds_some resumeHead ?_ yields finds.depth finds.program, yields⟩
  have above : next.depth < w₂.top.depth := by
    apply UInt64.lt_iff_toNat_lt.mpr
    rw [inner.top.depth]
    show _ < first.depth.toNat
    rw [firstDepth, nextDepth]
    exact Nat.lt_succ_self d
  refine arrive_pops inner.free above popped ?_
  apply UInt64.le_iff_toNat_le.mpr
  rw [yields.top.depth, finds.depth, nextDepth]

/-- With nothing nested the walk follows every tree it can read, and yields the tree's closure. -/
theorem walk_unnested (unhanded : Unhanded elig candidates) (t : CallTree) : ∀ (d n : Nat) (w w₀ : Walk),
    t.WellFormed d → d + t.size < 2 ^ 64 → t.Walkable w₀.top.program.isSome → Finds n d t w w₀ →
    ∃ w', walk H elig candidates t.flatten n w = .ok w' ∧
      Yields ((t.yield n).when w₀.top.program.isSome) w₀ w' := by
  induction t with
  | done =>
    intro d n w w₀ _ _ _ finds
    obtain rfl := finds.ended rfl
    refine ⟨w₀, rfl, ?_⟩
    have same : (CallTree.yield n .done).when w₀.top.program.isSome = {} := by
      unfold Yield.when
      split <;> rfl
    rw [same]
    exact Yields.nothing finds.free
  | step log rest ih =>
    intro d n w w₀ wf small walkable finds
    rw [CallTree.size] at small
    obtain ⟨executable, deploys, more⟩ := walkable
    obtain ⟨w₁, executed⟩ := exec_answers (H := H) (n := n) unhanded finds.program executable
    have stepped := exec_stepped unhanded finds.free executable.memory executed
    obtain ⟨w₂, finds', yields⟩ := step_finds wf finds stepped deploys
    obtain ⟨w', walked, after⟩ := ih d (n + 1) w₁ w₂ wf.2.2 (by omega)
      (by rw [yields.top.program]; exact more) finds'
    refine ⟨w', ?_, ?_⟩
    · rw [CallTree.flatten, walk_cons (finds.arrived log rfl) executed]
      exact walked
    · rw [yields.top.program] at after
      have whole := yields.trans after
      rw [Yield.when_add] at whole
      exact whole
  | enter call body rest ihBody ihRest =>
    intro d n w w₀ wf small walkable finds
    rw [CallTree.size] at small
    obtain ⟨executable, deploys, inside, more⟩ := walkable
    obtain ⟨w₁, executed⟩ := exec_answers (H := H) (n := n) unhanded finds.program executable
    have stepped := exec_stepped unhanded finds.free executable.memory executed
    have wf' := wf
    obtain ⟨carries, fine, opens, inhabited, bodyWf, resumes, tail⟩ := wf'
    obtain ⟨first, head⟩ := Option.isSome_iff_exists.mp inhabited
    have pending : w₁.pending = some (opening call w₀.top) := by
      rw [stepped.pending, fine, opens]
      rfl
    have firstDepth := (bodyWf.head head).depth
    have deeper : first.depth = (opening call w₀.top).parentDepth + 1 := by
      apply UInt64.toNat_inj.mp
      show first.depth.toNat = (call.depth + 1).toNat
      rw [UInt64.toNat_add, firstDepth, carries.depth]
      exact (Nat.mod_eq_of_lt (by omega : d + 1 < 2 ^ 64)).symm
    have emitsBody : (opening call w₀.top).program.isSome = (w₀.top.program.isSome && call.op.isDelegate) := by
      unfold opening
      cases call.op.isDelegate <;> simp
    -- The body is walked in the frame the call opens.
    have findsBody : Finds (n + 1) (d + 1) body w₁
        (pushFrame (opening call w₀.top) first { w₁ with pending := none }) := by
      refine ⟨?_, ?_, rfl, firstDepth, ?_⟩
      · intro log found
        rw [head] at found
        cases found
        exact arrive_push pending deeper
      · intro none
        rw [head] at none
        cases none
      · intro id emits
        have lengths := congrArg List.length stepped.programs
        rw [List.length_map, List.length_map] at lengths
        show id < w₁.programs.length
        rw [lengths]
        apply finds.program
        change (opening call w₀.top).program = some id at emits
        unfold opening at emits
        simp only at emits
        split at emits
        · exact emits
        · cases emits
    obtain ⟨w₂, walkedBody, inner⟩ := ihBody (d + 1) (n + 1) w₁ _ bodyWf (by omega)
      (by show body.Walkable (opening call w₀.top).program.isSome; rw [emitsBody]; exact inside) findsBody
    obtain ⟨w₃, findsRest, yields⟩ := enter_finds wf finds stepped (by omega) head deploys inner
    obtain ⟨w', walkedRest, after⟩ := ihRest d (n + 1 + body.size) w₂ w₃ tail (by omega)
      (by rw [yields.top.program]; exact more) findsRest
    refine ⟨w', ?_, ?_⟩
    · rw [CallTree.flatten, walk_cons (finds.arrived call rfl) executed, walk_append, walkedBody,
        Outcome.ok_bind, CallTree.length_flatten]
      exact walkedRest
    · rw [yields.top.program] at after
      have whole := yields.trans after
      have same : Yield.add (((stepYield n ⟨call, body.startGas, rest.startGas.getD 0⟩).when
            w₀.top.program.isSome).add
          (if rest.succeeds then (body.yield (n + 1)).when (opening call w₀.top).program.isSome
            else { skipped := ((body.yield (n + 1)).when (opening call w₀.top).program.isSome).skipped }))
          ((rest.yield (n + 1 + body.size)).when w₀.top.program.isSome) =
          (CallTree.yield n (.enter call body rest)).when w₀.top.program.isSome := by
        rw [emitsBody]
        cases w₀.top.program.isSome with
        | false =>
          have nothing : (if rest.succeeds then ({} : Yield) else { skipped := ∅ }) = {} := by split <;> rfl
          show Yield.add (Yield.add {} (if rest.succeeds then ({} : Yield) else { skipped := ∅ })) {} = {}
          rw [nothing]
          rfl
        | true =>
          rw [CallTree.yield]
          cases call.op.isDelegate with
          | false =>
            have nothing : (if rest.succeeds then ({} : Yield) else { skipped := ∅ }) = {} := by split <;> rfl
            show Yield.add (Yield.add _ (if rest.succeeds then ({} : Yield) else { skipped := ∅ })) _ = _
            rw [nothing, Yield.add_nothing]
            show _ = Yield.add _ (Yield.add {} _)
            rw [Yield.nothing_add]
            rfl
          | true => exact Yield.add_assoc _ _ _
      exact same ▸ whole

end GasAnalyzer
