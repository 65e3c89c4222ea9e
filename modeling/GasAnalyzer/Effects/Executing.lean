import GasAnalyzer.Effects.Tracking

/-!
# Executing a step of the root's closure

A step only adds to the frame it runs in. If that frame emits into the root's program, the step's slot or
op is in it afterwards; an op other than a store comes from a step that carries its memory.
-/

namespace GasAnalyzer

variable {root : Address} {elig : Eligibility} {candidates : OrdMap Nat Candidate}
variable {n : Nat} {log : StructLog} {w w' : Walk}

/-- What executing a step may do to the frame it runs in. -/
structure Grew (root : Address) (f f' : WalkFrame) : Prop where
  depth : f'.depth = f.depth
  program : f'.program = f.program
  plain : f'.nestedStartGas = f.nestedStartGas
  context : f'.storageCtx = f.storageCtx
  journal : ∀ s, (f.journal.value root s).isSome = true → (f'.journal.value root s).isSome = true
  out : ∀ o ∈ f.out, o ∈ f'.out
  view : ∀ s v, f'.emittedView.get s = some v → f.emittedView.get s = some v ∨ StoresSlot f'.out s

namespace Grew

variable {f f' f'' : WalkFrame}

theorem refl (f : WalkFrame) : Grew root f f :=
  ⟨rfl, rfl, rfl, rfl, fun _ some => some, fun _ member => member, fun _ _ held => Or.inl held⟩

theorem trans (first : Grew root f f') (second : Grew root f' f'') : Grew root f f'' := by
  refine ⟨second.depth.trans first.depth, second.program.trans first.program, second.plain.trans first.plain,
    second.context.trans first.context, fun s some => second.journal s (first.journal s some),
    fun o member => second.out o (first.out o member), ?_⟩
  intro s v held
  rcases second.view s v held with before | stores
  · rcases first.view s v before with old | ⟨u, st, inside⟩
    · exact Or.inl old
    · exact Or.inr ⟨u, st, second.out _ inside⟩
  · exact Or.inr stores

theorem flush (step : Nat) (image : Slots) (f : WalkFrame) : Grew root f (f.flushed step image) := by
  refine ⟨rfl, rfl, rfl, rfl, fun _ some => some, fun o member => List.mem_append_left _ member, ?_⟩
  intro s v held
  by_cases before : f.emittedView.get s = some v
  · exact Or.inl before
  · right
    have extended : (image.get s).or (f.emittedView.get s) = some v := by
      rw [← OrdMap.get_extend]
      exact held
    cases imaged : image.get s with
    | none =>
      rw [imaged] at extended
      exact absurd extended before
    | some u =>
      rw [imaged] at extended
      obtain rfl : u = v := Option.some.inj extended
      refine ⟨u, step, List.mem_append_right _ (List.mem_map.mpr ⟨(s, u), ?_, rfl⟩)⟩
      exact List.mem_filter.mpr ⟨OrdMap.mem_entries.mpr imaged, by simpa using before⟩

theorem append (ops : List Op) (f : WalkFrame) : Grew root f { f with out := f.out ++ ops } :=
  ⟨rfl, rfl, rfl, rfl, fun _ some => some, fun _ member => List.mem_append_left _ member,
    fun _ _ held => Or.inl held⟩

theorem write (ctx : Address) (slot value : B256) (f : WalkFrame) : Grew root f (f.write ctx slot value) := by
  refine ⟨rfl, rfl, rfl, rfl, ?_, fun _ member => member, fun _ _ held => Or.inl held⟩
  intro s some
  show ((f.journal.write ctx slot value).value root s).isSome = true
  rw [Journal.value_write]
  split
  · rfl
  · exact some

theorem stored {rest : List WalkFrame} (grew : Grew root f f') (stored : Stored f rest) : Stored f' rest := by
  intro program s v held
  rw [grew.program] at program
  rcases grew.view s v held with before | stores
  · obtain ⟨h, member, u, st, inside⟩ := stored program s v before
    rcases List.mem_cons.mp member with rfl | below
    · exact ⟨f', List.mem_cons_self, u, st, grew.out _ inside⟩
    · exact ⟨h, List.mem_cons_of_mem _ below, u, st, inside⟩
  · exact ⟨f', List.mem_cons_self, stores⟩

end Grew

/-- What executing step `n` does to the walk. -/
structure Executes (root : Address) (elig : Eligibility) (candidates : OrdMap Nat Candidate) (n : Nat)
    (log : StructLog) (w w' : Walk) : Prop where
  below : w'.below = w.below
  grew : Grew root w.top w'.top
  waiting : ∀ p, w'.pending = some p → p.parentDepth = log.depth ∧
    (p.nestedStartGas.isSome = true → ∃ x ops, w'.top.out = ops ++ [⟨.nested x, n⟩] ∧
      Handed elig candidates n log) ∧
    ∀ s v, p.emittedView.get s = some v → w'.top.emittedView.get s = some v
  delegated : RootFrame root w.top → log.op.isDelegate = true → log.errored = false →
    ∃ p, w'.pending = some p ∧ p.program = some 0 ∧ p.nestedStartGas = none ∧ p.storageCtx = some root
  held : RootFrame root w.top → log.errored = false → effectful log.op = true →
    log.op = .sstore ∨ log.memory ≠ none → HeldIn root w'.top n log
  own : ∀ o ∈ w'.top.out, o ∈ w.top.out ∨ o.update.isStore = true ∨ o.step = n ∧ log.memory ≠ none

theorem executes_same (free : w.pending = none) (quiet : log.op.isDelegate = true → log.errored = true)
    (silent : effectful log.op = true → log.errored = true ∨ w.top.program = none) :
    Executes root elig candidates n log w w := by
  refine ⟨rfl, Grew.refl _, ?_, ?_, ?_, fun o member => Or.inl member⟩
  · intro p waits
    rw [free] at waits
    cases waits
  · intro _ delegates fine
    rw [quiet delegates] at fine
    cases fine
  · intro isRoot fine effect _
    rcases silent effect with errored | native
    · rw [errored] at fine
      cases fine
    · rw [isRoot.program] at native
      cases native

theorem execStore_executes (kind : log.op = .sstore) (free : w.pending = none)
    (executed : execStore log w = .ok w') : Executes root elig candidates n log w w' := by
  have plain : log.op.isDelegate = true → log.errored = true := by
    intro delegates
    rw [kind] at delegates
    cases delegates
  unfold execStore at executed
  split at executed
  · rename_i ctx context
    split at executed
    · rename_i errored
      obtain rfl := Except.ok.inj executed
      exact executes_same free plain fun _ => Or.inl errored
    · obtain ⟨stack, hasStack, executed⟩ := Outcome.bind_ok executed
      obtain ⟨slot, first, executed⟩ := Outcome.bind_ok executed
      obtain ⟨value, -, executed⟩ := Outcome.bind_ok executed
      simp only [Outcome.okOr_ok, index] at hasStack first
      have shape : w'.top = w.top.write ctx slot value ∧ w'.below = w.below ∧ w'.pending = w.pending := by
        dsimp only at executed
        split at executed
        · obtain rfl := Except.ok.inj executed
          exact ⟨rfl, rfl, rfl⟩
        · obtain rfl := Except.ok.inj executed
          exact ⟨rfl, rfl, rfl⟩
      obtain ⟨top, below, pending⟩ := shape
      refine ⟨below, top ▸ Grew.write ctx slot value w.top, ?_, ?_, ?_, ?_⟩
      · intro p waits
        rw [pending, free] at waits
        cases waits
      · intro _ delegates fine
        rw [plain delegates] at fine
        cases fine
      · intro isRoot _ _ _
        unfold HeldIn
        rw [if_pos kind, top]
        refine ⟨slot, by simp [StructLog.top, hasStack, first], ?_⟩
        have same : ctx = root := Option.some.inj (context.symm.trans isRoot.context)
        show ((w.top.journal.write ctx slot value).value root slot).isSome = true
        rw [Journal.value_write, if_pos ⟨same.symm, rfl⟩]
        rfl
      · intro o member
        rw [top] at member
        exact Or.inl member
  · rename_i native
    obtain rfl := Except.ok.inj executed
    refine ⟨rfl, Grew.refl _, ?_, ?_, ?_, fun o member => Or.inl member⟩
    · intro p waits
      rw [free] at waits
      cases waits
    · intro _ delegates fine
      rw [plain delegates] at fine
      cases fine
    · intro isRoot
      rw [isRoot.context] at native
      cases native

theorem execDelegate_executes (kind : log.op.isDelegate = true) (free : w.pending = none) :
    Executes root elig candidates n log w (execDelegate log w) := by
  have silent : effectful log.op = false := by
    cases op : log.op <;> first | rfl | (rw [op] at kind; cases kind)
  unfold execDelegate
  split
  · rename_i errored
    exact executes_same free (fun _ => errored) (fun effect => by rw [silent] at effect; cases effect)
  · refine ⟨rfl, Grew.refl _, ?_, ?_, ?_, fun o member => Or.inl member⟩
    · rintro p waits
      obtain rfl := Option.some.inj waits
      refine ⟨rfl, (fun nested => by cases nested), ?_⟩
      intro s v held
      dsimp only at held
      split at held
      · exact held
      · cases held
    · intro isRoot _ _
      exact ⟨_, rfl, isRoot.program, rfl, isRoot.context⟩
    · intro _ _ effect
      rw [silent] at effect
      cases effect

theorem execStaticcall_executes (kind : log.op = .staticcall) (free : w.pending = none)
    (executed : execStaticcall log w = .ok w') : Executes root elig candidates n log w w' := by
  have plain : log.op.isDelegate = false := by rw [kind]; rfl
  have silent : effectful log.op = false := by rw [kind]; rfl
  unfold execStaticcall at executed
  split at executed
  · rename_i errored
    obtain rfl := Except.ok.inj executed
    exact executes_same free (fun _ => errored) (fun _ => Or.inl errored)
  · obtain ⟨stack, -, executed⟩ := Outcome.bind_ok executed
    obtain rfl := Except.ok.inj executed
    refine ⟨rfl, Grew.refl _, ?_, ?_, ?_, fun o member => Or.inl member⟩
    · intro p waits
      obtain rfl := Option.some.inj waits
      exact ⟨rfl, (fun nested => by cases nested), fun s v held => by cases held⟩
    · intro _ delegates
      rw [plain] at delegates
      cases delegates
    · intro _ _ effect
      rw [silent] at effect
      cases effect

theorem heldIn_appended {f : WalkFrame} {ops : List Op} {update : StateUpdate} (opcode : update.opcode = log.op)
    (kind : log.op ≠ .sstore) : HeldIn root { f with out := ops ++ [⟨update, n⟩] } n log := by
  unfold HeldIn
  rw [if_neg kind]
  exact ⟨⟨update, n⟩, List.mem_append_right _ (List.mem_singleton.mpr rfl), rfl, opcode⟩

theorem own_appended {update : Option StateUpdate} {skipped : Option Opcode} {out : List Op}
    (decoded : decodeStructLog log = .ok (update, skipped)) :
    ∀ o ∈ out ++ update.toList.map (Op.mk · n), o ∈ out ∨ o.step = n ∧ log.memory ≠ none := by
  intro o member
  rcases List.mem_append.mp member with old | new
  · exact Or.inl old
  · right
    obtain ⟨u, isUpdate, rfl⟩ := List.mem_map.mp new
    refine ⟨rfl, fun missing => ?_⟩
    obtain ⟨rfl, -⟩ := Prod.mk.inj (decodeStructLog_noMemory decoded missing)
    cases isUpdate

theorem own_flushed {f : WalkFrame} {step : Nat} {image : Slots} :
    ∀ o ∈ (f.flushed step image).out, o ∈ f.out ∨ o.update.isStore = true := by
  intro o member
  rcases List.mem_append.mp member with old | new
  · exact Or.inl old
  · obtain ⟨e, -, rfl⟩ := List.mem_map.mp new
    exact Or.inr rfl

theorem execLog_executes (kind : log.op.isLog = true) (free : w.pending = none)
    (executed : execLog n log w = .ok w') : Executes root elig candidates n log w w' := by
  have plain : log.op.isDelegate = false := by
    cases op : log.op <;> first | rfl | (rw [op] at kind; cases kind)
  have quiet : log.op.isDelegate = true → log.errored = true := by
    intro delegates
    rw [plain] at delegates
    cases delegates
  have notStore : log.op ≠ .sstore := by
    rintro store
    rw [store] at kind
    cases kind
  unfold execLog at executed
  split at executed
  · rename_i native
    obtain rfl := Except.ok.inj executed
    exact executes_same free quiet fun _ => Or.inr native
  · split at executed
    · rename_i errored
      obtain rfl := Except.ok.inj executed
      exact executes_same free quiet fun _ => Or.inl errored
    · obtain ⟨⟨out, skipped⟩, appended, executed⟩ := Outcome.bind_ok executed
      obtain rfl := Except.ok.inj executed
      obtain ⟨update, decoded, rfl⟩ := append_ok appended
      refine ⟨rfl, Grew.append _ w.top, ?_, ?_, ?_, ?_⟩
      · intro p waits
        have waits : w.pending = some p := waits
        rw [free] at waits
        cases waits
      · intro _ delegates fine
        rw [quiet delegates] at fine
        cases fine
      · intro _ _ effect memory
        obtain ⟨words, hasMemory⟩ := Option.ne_none_iff_exists'.mp (memory.resolve_left notStore)
        obtain ⟨u, same, opcode, -⟩ := decodeStructLog_effect decoded effect hasMemory
        obtain ⟨rfl, -⟩ := Prod.mk.inj same
        exact heldIn_appended opcode notStore
      · intro o member
        rcases own_appended decoded o member with old | new
        · exact Or.inl old
        · exact Or.inr (Or.inr new)

theorem execCreate_executes (kind : log.op.isCreate = true) (free : w.pending = none)
    (executed : execCreate n log w = .ok w') : Executes root elig candidates n log w w' := by
  have plain : log.op.isDelegate = false := by
    cases op : log.op <;> first | rfl | (rw [op] at kind; cases kind)
  have quiet : log.op.isDelegate = true → log.errored = true := by
    intro delegates
    rw [plain] at delegates
    cases delegates
  have notStore : log.op ≠ .sstore := by
    rintro store
    rw [store] at kind
    cases kind
  unfold execCreate at executed
  split at executed
  · rename_i errored
    obtain rfl := Except.ok.inj executed
    exact executes_same free quiet fun _ => Or.inl errored
  · split at executed
    · rename_i native
      obtain rfl := Except.ok.inj executed
      refine ⟨rfl, Grew.refl _, ?_, ?_, ?_, fun o member => Or.inl member⟩
      · intro p waits
        obtain rfl := Option.some.inj waits
        exact ⟨rfl, (fun nested => by cases nested), fun s v held => by cases held⟩
      · intro _ delegates fine
        rw [quiet delegates] at fine
        cases fine
      · intro isRoot
        rw [isRoot.program] at native
        cases native
    · obtain ⟨v, flushed, executed⟩ := Outcome.bind_ok executed
      obtain ⟨⟨out, skipped⟩, appended, executed⟩ := Outcome.bind_ok executed
      obtain ⟨id, program, -, -, rfl⟩ := flushSlice_ok flushed
      dsimp only at executed
      split at executed
      · cases executed
      · obtain rfl := Except.ok.inj executed
        obtain ⟨update, decoded, rfl⟩ := append_ok appended
        refine ⟨rfl, (Grew.flush n _ w.top).trans (Grew.append _ _), ?_, ?_, ?_, ?_⟩
        · intro p waits
          obtain rfl := Option.some.inj waits
          exact ⟨rfl, (fun nested => by cases nested), fun s v held => by cases held⟩
        · intro _ delegates fine
          rw [quiet delegates] at fine
          cases fine
        · intro _ _ effect memory
          obtain ⟨words, hasMemory⟩ := Option.ne_none_iff_exists'.mp (memory.resolve_left notStore)
          obtain ⟨u, same, opcode, -⟩ := decodeStructLog_effect decoded effect hasMemory
          obtain ⟨rfl, -⟩ := Prod.mk.inj same
          exact heldIn_appended opcode notStore
        · intro o member
          rcases own_appended decoded o member with old | new
          · rcases own_flushed o old with older | store
            · exact Or.inl older
            · exact Or.inr (Or.inl store)
          · exact Or.inr (Or.inr new)

theorem execCall_executes {H : Hashes} (kind : log.op = .call) (free : w.pending = none)
    (executed : execCall H elig candidates n log w = .ok w') :
    Executes root elig candidates n log w w' ∧
      (log.errored = false → w.top.program ≠ none → log.memory ≠ none) := by
  have quiet : log.op.isDelegate = true → log.errored = true := by
    intro delegates
    rw [kind] at delegates
    cases delegates
  have notStore : log.op ≠ .sstore := by
    rw [kind]
    intro other
    cases other
  unfold execCall at executed
  obtain ⟨stack, -, executed⟩ := Outcome.bind_ok executed
  dsimp only at executed
  split at executed
  · rename_i errored
    obtain rfl := Except.ok.inj executed
    refine ⟨executes_same free quiet fun _ => Or.inl errored, ?_⟩
    intro fine
    rw [errored] at fine
    cases fine
  · split at executed
    · rename_i native
      obtain rfl := Except.ok.inj executed
      refine ⟨⟨rfl, Grew.refl _, ?_, ?_, ?_, fun o member => Or.inl member⟩,
        fun _ emits => absurd native emits⟩
      · intro p waits
        obtain rfl := Option.some.inj waits
        exact ⟨rfl, (fun nested => by cases nested), fun s v held => by cases held⟩
      · intro _ delegates fine
        rw [quiet delegates] at fine
        cases fine
      · intro isRoot
        rw [isRoot.program] at native
        cases native
    · obtain ⟨v, flushed, executed⟩ := Outcome.bind_ok executed
      obtain ⟨⟨decoded, skipped⟩, decodes, executed⟩ := Outcome.bind_ok executed
      obtain ⟨id, program, -, -, rfl⟩ := flushSlice_ok flushed
      dsimp only at executed
      have remembers : decoded ≠ none → log.memory ≠ none := by
        intro some missing
        exact some (Prod.mk.inj (decodeStructLog_noMemory decodes missing)).1
      have effect : effectful log.op = true := by rw [kind]; rfl
      have opcode : ∀ u, decoded = some u → u.opcode = log.op := by
        intro u same
        have hasMemory := remembers (by rw [same]; exact Option.some_ne_none u)
        obtain ⟨words, memory⟩ := Option.ne_none_iff_exists'.mp hasMemory
        obtain ⟨u', same', opcode, -⟩ := decodeStructLog_effect decodes effect memory
        obtain ⟨decodedIs, -⟩ := Prod.mk.inj same'
        rw [Option.some.inj (same.symm.trans decodedIs)]
        exact opcode
      have own : ∀ {update : StateUpdate}, log.memory ≠ none →
          ∀ o ∈ (w.top.flushed n (visibleImage (w.top :: w.below) program.target)).out ++ [⟨update, n⟩],
            o ∈ w.top.out ∨ o.update.isStore = true ∨ o.step = n ∧ log.memory ≠ none := by
        intro update hasMemory o member
        rcases List.mem_append.mp member with old | new
        · rcases own_flushed o old with older | store
          · exact Or.inl older
          · exact Or.inr (Or.inl store)
        · rw [List.mem_singleton.mp new]
          exact Or.inr (Or.inr ⟨rfl, hasMemory⟩)
      split at executed
      · cases executed
      · split at executed
        · rename_i nestedIndex call eligible
          obtain rfl := Except.ok.inj executed
          refine ⟨⟨rfl, (Grew.flush n _ w.top).trans (Grew.append _ _), ?_, ?_, ?_,
            own (remembers (Option.some_ne_none _))⟩, fun _ _ => remembers (Option.some_ne_none _)⟩
          · intro p waits
            obtain rfl := Option.some.inj waits
            exact ⟨rfl, fun _ => ⟨_, _, rfl, nestedIndex, eligible⟩, fun s v held => by cases held⟩
          · intro _ delegates fine
            rw [quiet delegates] at fine
            cases fine
          · intro _ _ _ _
            exact heldIn_appended (by rw [kind]; rfl) notStore
        · rename_i update _
          obtain rfl := Except.ok.inj executed
          refine ⟨⟨rfl, (Grew.flush n _ w.top).trans (Grew.append _ _), ?_, ?_, ?_,
            own (remembers (Option.some_ne_none _))⟩, fun _ _ => remembers (Option.some_ne_none _)⟩
          · intro p waits
            obtain rfl := Option.some.inj waits
            exact ⟨rfl, (fun nested => by cases nested), fun s v held => by cases held⟩
          · intro _ delegates fine
            rw [quiet delegates] at fine
            cases fine
          · intro _ _ _ _
            exact heldIn_appended (opcode update rfl) notStore
        · cases executed

theorem exec_executes {H : Hashes} (free : w.pending = none)
    (executed : exec H elig candidates n log w = .ok w') :
    Executes root elig candidates n log w w' ∧
      (log.op = .call → log.errored = false → w.top.program ≠ none → log.memory ≠ none) := by
  have other : ∀ {v : Walk}, v.below = w.below → v.top = w.top → v.pending = w.pending →
      log.op.isDelegate = false → effectful log.op = false → Executes root elig candidates n log w v := by
    intro v below top pending plain silent
    refine ⟨below, top ▸ Grew.refl _, ?_, ?_, ?_, fun o member => Or.inl (top ▸ member)⟩
    · intro p waits
      rw [pending, free] at waits
      cases waits
    · intro _ delegates
      rw [plain] at delegates
      cases delegates
    · intro _ _ effect
      rw [silent] at effect
      cases effect
  unfold exec at executed
  cases op : log.op with
  | sstore =>
    rw [op] at executed
    exact ⟨execStore_executes op free executed, fun call => by cases call⟩
  | tstore | selfdestruct =>
    rw [op] at executed
    obtain rfl := Except.ok.inj executed
    refine ⟨?_, fun call => by cases call⟩
    unfold execUnsupported
    split <;> exact other rfl rfl rfl (by rw [op]; rfl) (by rw [op]; rfl)
  | delegatecall | callcode =>
    rw [op] at executed
    obtain rfl := Except.ok.inj executed
    exact ⟨execDelegate_executes (by rw [op]; rfl) free, fun call => by cases call⟩
  | staticcall =>
    rw [op] at executed
    exact ⟨execStaticcall_executes op free executed, fun call => by cases call⟩
  | call =>
    rw [op] at executed
    obtain ⟨executes, memory⟩ := execCall_executes op free executed
    exact ⟨executes, fun _ => memory⟩
  | create | create2 =>
    rw [op] at executed
    exact ⟨execCreate_executes (by rw [op]; rfl) free executed, fun call => by cases call⟩
  | log0 | log1 | log2 | log3 | log4 =>
    rw [op] at executed
    exact ⟨execLog_executes (by rw [op]; rfl) free executed, fun call => by cases call⟩
  | other name =>
    rw [op] at executed
    obtain rfl := Except.ok.inj executed
    exact ⟨other rfl rfl rfl (by rw [op]; rfl) (by rw [op]; rfl), fun call => by cases call⟩

end GasAnalyzer
