import GasAnalyzer.Nested.Slices

/-!
# What a step does to the open frames

Charging gas and forgetting views leave a frame otherwise as it was (`Kept`). A returning frame is
absorbed by its caller, discarded, merged as a frame of its own, or has its `NESTED` op retracted
(`Returned`); these are all the ways the stack shrinks.
-/

namespace GasAnalyzer

/-- `f'` is `f` with other gas figures and a smaller view. -/
structure Kept (f f' : WalkFrame) : Prop where
  same : f' = { f with
    callGas := f'.callGas, calleeGas := f'.calleeGas, createGas := f'.createGas
    emittedView := f'.emittedView }
  view : ∀ s v, f'.emittedView.get s = some v → f.emittedView.get s = some v

namespace Kept

variable {f f' f'' : WalkFrame}

theorem refl (f : WalkFrame) : Kept f f := ⟨rfl, fun _ _ held => held⟩

theorem trans (first : Kept f f') (second : Kept f' f'') : Kept f f'' := by
  refine ⟨?_, fun s v held => first.view s v (second.view s v held)⟩
  rw [second.same, first.same]

theorem depth (kept : Kept f f') : f'.depth = f.depth := by rw [kept.same]

theorem storageCtx (kept : Kept f f') : f'.storageCtx = f.storageCtx := by rw [kept.same]

theorem program (kept : Kept f f') : f'.program = f.program := by rw [kept.same]

theorem out (kept : Kept f f') : f'.out = f.out := by rw [kept.same]

theorem journal (kept : Kept f f') : f'.journal = f.journal := by rw [kept.same]

theorem nestedStartGas (kept : Kept f f') : f'.nestedStartGas = f.nestedStartGas := by rw [kept.same]

theorem emittedCreate (kept : Kept f f') : f'.emittedCreate = f.emittedCreate := by rw [kept.same]

theorem emittedCallGas (kept : Kept f f') : f'.emittedCallGas = f.emittedCallGas := by rw [kept.same]

theorem charge (create : Bool) (gas callee : UInt64) (f : WalkFrame) : Kept f (f.charge create gas callee) := by
  unfold WalkFrame.charge
  split <;> exact ⟨rfl, fun _ _ held => held⟩

theorem forget (programs : List ProgramState) (journal : Journal) (f : WalkFrame) :
    Kept f (forgetSlots programs journal f) := by
  refine ⟨by rw [forgetSlots_eq], ?_⟩
  intro s v held
  cases target : f.program.bind (fun i => programs[i]?) with
  | none =>
    unfold forgetSlots at held
    rwa [target] at held
  | some p =>
    obtain ⟨id, emits, found⟩ := Option.bind_eq_some_iff.mp target
    rw [get_forgetSlots emits found] at held
    split at held
    · cases held
    · exact held

end Kept

theorem forall₂_kept_refl (fs : List WalkFrame) : List.Forall₂ Kept fs fs :=
  List.forall₂_same.mpr fun f _ => Kept.refl f

theorem forall₂_kept_trans {fs fs' fs'' : List WalkFrame} (first : List.Forall₂ Kept fs fs')
    (second : List.Forall₂ Kept fs' fs'') : List.Forall₂ Kept fs fs'' := by
  induction first generalizing fs'' with
  | nil => exact second
  | cons kept _ ih =>
    cases second with
    | cons kept' rest => exact .cons (kept.trans kept') (ih rest)

theorem mem_kept {fs fs' : List WalkFrame} (kept : List.Forall₂ Kept fs fs') {f : WalkFrame} (member : f ∈ fs) :
    ∃ f' ∈ fs', Kept f f' := by
  induction kept with
  | nil => cases member
  | @cons a b _ _ keptA _ ih =>
    rcases List.mem_cons.mp member with rfl | further
    · exact ⟨b, List.mem_cons_self, keptA⟩
    · obtain ⟨f', member', kept'⟩ := ih further
      exact ⟨f', List.mem_cons_of_mem _ member', kept'⟩

theorem forall₂_kept_forget (programs : List ProgramState) (journal : Journal) (fs : List WalkFrame) :
    List.Forall₂ Kept fs (fs.map (forgetSlots programs journal)) :=
  List.forall₂_map_right_iff.mpr (List.forall₂_same.mpr fun f _ => Kept.forget programs journal f)

/-! ### Charging -/

theorem chargeProgram_frames (gas : UInt64) (w : Walk) :
    (chargeProgram gas w).top = w.top ∧ (chargeProgram gas w).below = w.below ∧
      (chargeProgram gas w).pending = w.pending := by
  unfold chargeProgram
  split <;> exact ⟨rfl, rfl, rfl⟩

theorem chargeCall_frames (create : Bool) (gas callee : UInt64) (w : Walk) :
    Kept w.top (chargeCall create gas callee w).top ∧ (chargeCall create gas callee w).below = w.below ∧
      (chargeCall create gas callee w).pending = w.pending := by
  obtain ⟨top, below, pending⟩ :=
    chargeProgram_frames gas (modifyTop (WalkFrame.charge create gas callee) w)
  refine ⟨?_, below, pending⟩
  unfold chargeCall
  rw [top]
  exact Kept.charge create gas callee w.top

theorem chargeReturn_frames (log : StructLog) (frame : WalkFrame) (w : Walk) :
    Kept w.top (chargeReturn log frame w).top ∧ (chargeReturn log frame w).below = w.below ∧
      (chargeReturn log frame w).pending = w.pending := by
  unfold chargeReturn
  split
  · exact ⟨Kept.refl _, rfl, rfl⟩
  · exact chargeCall_frames _ _ _ _

/-! ### Returning -/

/-- What the frame `f` leaves of its caller `g` when it returns with `flag`. -/
inductive Returned (flag : U256) (f g : WalkFrame) : WalkFrame → Prop where
  | absorbed {g₁ : WalkFrame} (kept : Kept g g₁) (success : flag ≠ 0) (plain : f.nestedStartGas = none) :
      Returned flag f g (f.absorb g₁)
  | discarded {g₁ : WalkFrame} (kept : Kept g g₁) (failure : flag = 0) (plain : f.nestedStartGas = none) :
      Returned flag f g g₁
  | merged {g₁ : WalkFrame} (kept : Kept g g₁) (success : flag ≠ 0) (nested : f.nestedStartGas.isSome = true) :
      Returned flag f g (g₁.mergeJournal f.journal)
  | retracted {g₁ : WalkFrame} {ops : List Op} {n : Nested} {step : Nat} (kept : Kept g g₁)
      (failure : flag = 0) (nested : f.nestedStartGas.isSome = true)
      (last : g.out = ops ++ [⟨.nested n, step⟩]) : Returned flag f g { g₁ with out := ops }

theorem Returned.depth {flag : U256} {f g g' : WalkFrame} (returned : Returned flag f g g') :
    g'.depth = g.depth := by
  cases returned with
  | absorbed kept _ _ => exact kept.depth
  | discarded kept _ _ => exact kept.depth
  | merged kept _ _ => exact kept.depth
  | retracted kept _ _ _ => exact kept.depth

theorem Returned.program {flag : U256} {f g g' : WalkFrame} (returned : Returned flag f g g') :
    g'.program = g.program ∧ g'.storageCtx = g.storageCtx ∧ g'.nestedStartGas = g.nestedStartGas := by
  cases returned with
  | absorbed kept _ _ => exact ⟨kept.program, kept.storageCtx, kept.nestedStartGas⟩
  | discarded kept _ _ => exact ⟨kept.program, kept.storageCtx, kept.nestedStartGas⟩
  | merged kept _ _ => exact ⟨kept.program, kept.storageCtx, kept.nestedStartGas⟩
  | retracted kept _ _ _ => exact ⟨kept.program, kept.storageCtx, kept.nestedStartGas⟩

/-- The stack before and after the top frame returns. -/
structure PoppedWith (flag : U256) (w : Walk) (g : WalkFrame) (rest : List WalkFrame) (w' : Walk) : Prop where
  below : w.below = g :: rest
  returned : Returned flag w.top g w'.top
  others : List.Forall₂ Kept rest w'.below
  pending : w'.pending = w.pending

theorem closeFrame_popped {f g : WalkFrame} {rest : List WalkFrame} {flag : U256} {success : Bool}
    {w : Walk} (plain : f.nestedStartGas = none) (is : success = decide (flag ≠ 0)) (kept : Kept g w.top)
    (others : List.Forall₂ Kept rest w.below) :
    Returned flag f g (closeFrame success f w).top ∧
      List.Forall₂ Kept rest (closeFrame success f w).below ∧
      (closeFrame success f w).pending = w.pending := by
  unfold closeFrame
  by_cases success' : flag ≠ 0
  · rw [if_pos (by simpa [is] using success')]
    by_cases emits : f.program.isSome = true
    · rw [if_pos emits]
      exact ⟨.absorbed kept success' plain, others, rfl⟩
    · rw [if_neg emits]
      refine ⟨.absorbed (kept.trans (Kept.forget w.programs f.journal w.top)) success' plain, ?_, rfl⟩
      exact forall₂_kept_trans others (forall₂_kept_forget w.programs f.journal w.below)
  · rw [if_neg (by simpa [is] using success')]
    exact ⟨.discarded kept (not_not.mp success') plain, others, rfl⟩

theorem closeNested_popped {f g : WalkFrame} {rest : List WalkFrame} {flag : U256} {success : Bool}
    {start : UInt64} {log : StructLog} {w w' : Walk} (nested : f.nestedStartGas.isSome = true)
    (is : success = decide (flag ≠ 0)) (kept : Kept g w.top) (others : List.Forall₂ Kept rest w.below)
    (closed : closeNested start success log f w = .ok w') :
    Returned flag f g w'.top ∧ List.Forall₂ Kept rest w'.below ∧ w'.pending = w.pending := by
  unfold closeNested at closed
  obtain ⟨id, -, closed⟩ := Outcome.bind_ok closed
  by_cases success' : flag ≠ 0
  · rw [if_pos (by simpa [is] using success')] at closed
    obtain rfl := Except.ok.inj closed
    obtain ⟨top, below, pending⟩ := chargeProgram_frames (satSub start log.gas)
      (modifyProgram id (ProgramState.finish (satSub start log.gas) f) w)
    generalize chargeProgram (satSub start log.gas)
      (modifyProgram id (ProgramState.finish (satSub start log.gas) f) w) = v at top below pending ⊢
    replace top : v.top = w.top := top
    replace below : v.below = w.below := below
    refine ⟨.merged (kept.trans ?_) success' nested, ?_, pending⟩
    · rw [← top]
      exact Kept.forget v.programs f.journal v.top
    · rw [← below] at others
      exact forall₂_kept_trans others (forall₂_kept_forget v.programs f.journal v.below)
  · rw [if_neg (by simpa [is] using success')] at closed
    split at closed
    · rename_i n step last
      obtain rfl := Except.ok.inj closed
      have ends := List.dropLast_append_getLast? _ last
      rw [kept.out] at ends
      refine ⟨?_, others, rfl⟩
      have retracted := Returned.retracted kept (not_not.mp success') nested ends.symm
      simpa only [modifyTop, WalkFrame.dropLastOp, kept.out] using retracted
    · cases closed

theorem returnFrame_popped {f g : WalkFrame} {rest : List WalkFrame} {flag : U256} {success : Bool}
    {log : StructLog} {w w' : Walk} (is : success = decide (flag ≠ 0)) (top : w.top = g)
    (below : w.below = rest) (returned : returnFrame success log f w = .ok w') :
    (f.emittedCreate = true → flag ≠ 0) ∧
    Returned flag f g w'.top ∧ List.Forall₂ Kept rest w'.below ∧ w'.pending = w.pending := by
  unfold returnFrame at returned
  split at returned
  · cases returned
  · rename_i deployed
    refine ⟨?_, ?_⟩
    · intro create zero
      simp [create, is, zero] at deployed
    have charged : ∃ v, chargeReturn log f (if success then w else dropOpened f.firstProgram w) = v ∧
        Kept g v.top ∧ v.below = rest ∧ v.pending = w.pending := by
      refine ⟨_, rfl, ?_⟩
      obtain ⟨kept, same, pending⟩ :=
        chargeReturn_frames log f (if success then w else dropOpened f.firstProgram w)
      cases success
      · exact ⟨top ▸ kept, same.trans below, pending⟩
      · exact ⟨top ▸ kept, same.trans below, pending⟩
    obtain ⟨v, isV, kept, below', pending⟩ := charged
    rw [isV] at returned
    have others : List.Forall₂ Kept rest v.below := below' ▸ forall₂_kept_refl rest
    rw [← pending]
    split at returned
    · rename_i start nested
      exact closeNested_popped (by rw [nested]; rfl) is kept others returned
    · rename_i plain
      obtain rfl := Except.ok.inj returned
      exact closeFrame_popped plain is kept others

theorem returned_flushed {flag : U256} {f f' g g' : WalkFrame} (same : f'.journal = f.journal)
    (nested : f'.nestedStartGas = f.nestedStartGas) (isNested : f.nestedStartGas.isSome = true)
    (returned : Returned flag f' g g') : Returned flag f g g' := by
  cases returned with
  | absorbed _ _ plain =>
    rw [nested] at plain
    rw [plain] at isNested
    cases isNested
  | discarded _ _ plain =>
    rw [nested] at plain
    rw [plain] at isNested
    cases isNested
  | merged kept success _ =>
    rw [same]
    exact .merged kept success isNested
  | retracted kept failure _ last => exact .retracted kept failure isNested last

theorem popFrame_popped {step : Nat} {log : StructLog} {w w' : Walk} (popped : popFrame step log w = .ok w') :
    ∃ g rest flag, w.top.depth = log.depth + 1 ∧ log.stack.bind List.getLast? = some flag ∧
      (w.top.emittedCreate = true → flag ≠ 0) ∧ PoppedWith flag w g rest w' := by
  unfold popFrame at popped
  split at popped
  · cases popped
  · rename_i depth
    obtain ⟨stack, hasStack, popped⟩ := Outcome.bind_ok popped
    obtain ⟨flag, hasFlag, popped⟩ := Outcome.bind_ok popped
    obtain ⟨v, sliced, popped⟩ := Outcome.bind_ok popped
    rw [Outcome.okOr_ok] at hasStack hasFlag
    have flagged : log.stack.bind List.getLast? = some flag := by simp [hasStack, hasFlag]
    unfold lastSlice at sliced
    split at sliced
    · rename_i nested
      obtain ⟨id, p, -, -, rfl⟩ := flushSlice_ok sliced
      simp only at popped
      split at popped
      · cases popped
      · rename_i g rest below
        obtain ⟨create, returned, others, pending⟩ := returnFrame_popped rfl rfl rfl popped
        have isNested : w.top.nestedStartGas.isSome = true := (Bool.and_eq_true_iff.mp nested).2
        refine ⟨g, rest, flag, not_not.mp depth, flagged, create, below, ?_, others, pending⟩
        refine returned_flushed ?_ ?_ isNested returned
        · rfl
        · rfl
    · obtain rfl := Except.ok.inj sliced
      split at popped
      · cases popped
      · rename_i g rest below
        obtain ⟨create, returned, others, pending⟩ := returnFrame_popped rfl rfl rfl popped
        exact ⟨g, rest, flag, not_not.mp depth, flagged, create, below, returned, others, pending⟩

/-! ### Arriving -/

/-- What a step finds of the call made just before it. -/
inductive Entered (log : StructLog) (w : Walk) : Walk → Prop where
  | idle (free : w.pending = none) : Entered log w w
  | pushed {p : PendingFrame} (waits : w.pending = some p) (deeper : log.depth = p.parentDepth + 1) :
      Entered log w (pushFrame p log { w with pending := none })
  | inline {p : PendingFrame} {w' : Walk} (waits : w.pending = some p)
      (elsewhere : log.depth ≠ p.parentDepth + 1) (plain : p.nestedStartGas = none)
      (deployed : p.emittedCreate = true → log.deployedNothing = false) (top : Kept w.top w'.top)
      (below : w'.below = w.below) (free : w'.pending = none) : Entered log w w'

theorem enterPending_entered {log : StructLog} {w w' : Walk} (entered : enterPending log w = .ok w') :
    Entered log w w' := by
  unfold enterPending at entered
  cases waits : w.pending with
  | none =>
    rw [waits] at entered
    obtain rfl := Except.ok.inj entered
    exact .idle waits
  | some p =>
    rw [waits] at entered
    simp only at entered
    split at entered
    · rename_i deeper
      obtain rfl := Except.ok.inj entered
      exact .pushed waits deeper
    · rename_i elsewhere
      split at entered
      · cases entered
      · rename_i plain
        have plain : p.nestedStartGas = none := by simpa using plain
        split at entered
        · cases entered
        · rename_i deployed
          have deployed : p.emittedCreate = true → log.deployedNothing = false := by
            intro create
            simpa [create] using deployed
          split at entered
          · obtain rfl := Except.ok.inj entered
            exact .inline waits elsewhere plain deployed (Kept.refl _) rfl rfl
          · obtain rfl := Except.ok.inj entered
            obtain ⟨kept, below, free⟩ := chargeCall_frames p.emittedCreate
              (satSub _ log.gas) 0 { w with pending := none }
            exact .inline waits elsewhere plain deployed kept below free

theorem Entered.free {log : StructLog} {w w' : Walk} (entered : Entered log w w') : w'.pending = none := by
  cases entered with
  | idle free => exact free
  | pushed _ _ => rfl
  | inline _ _ _ _ _ _ free => exact free

/-- Between frames of increasing depth at most one returns at a step. -/
theorem popFrames_one {step fuel : Nat} {log : StructLog} {w w' : Walk}
    (deeper : ∀ g rest, w.below = g :: rest → g.depth < w.top.depth)
    (popped : popFrames step log (fuel + 1) w = .ok w') :
    (w' = w ∧ w.top.depth ≤ log.depth) ∨
      (log.depth < w.top.depth ∧ popFrame step log w = .ok w' ∧ w'.top.depth ≤ log.depth) := by
  unfold popFrames at popped
  split at popped
  · rename_i above
    right
    obtain ⟨v, first, rest⟩ := Outcome.bind_ok popped
    obtain ⟨g, others, flag, depth, -, -, stack⟩ := popFrame_popped first
    have top := stack.returned.depth
    have low : v.top.depth ≤ log.depth := by
      have lt := UInt64.lt_iff_toNat_lt.mp (deeper g others stack.below)
      have sum : w.top.depth.toNat = (log.depth.toNat + 1) % 2 ^ 64 := by
        rw [depth, UInt64.toNat_add]
        rfl
      apply UInt64.le_iff_toNat_le.mpr
      rw [top]
      omega
    have stops : popFrames step log fuel v = .ok v := by
      cases fuel with
      | zero => rfl
      | succ fuel =>
        unfold popFrames
        rw [if_neg (UInt64.not_lt.mpr low)]
    rw [stops] at rest
    obtain rfl := Except.ok.inj rest
    exact ⟨above, first, low⟩
  · rename_i notAbove
    left
    exact ⟨(Except.ok.inj popped).symm, UInt64.not_lt.mp notAbove⟩

end GasAnalyzer
