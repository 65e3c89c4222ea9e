import GasAnalyzer.Effects.Positions
import GasAnalyzer.Nested.Steps

/-!
# Open frames by position

The open frames of the walk, tied to the steps of the list that opened them. Depths strictly grow up
the stack, so a frame is known by its depth; a frame of its own sits right above the `NESTED` op of the
step that opened it; what a frame of the root's program believes stored is stored at or below it.
-/

namespace GasAnalyzer

section

variable (root : Address) (elig : Eligibility) (candidates : OrdMap Nat Candidate) (logs : List StructLog)

/-- A frame that emits into the root's program. -/
structure RootFrame (f : WalkFrame) : Prop where
  program : f.program = some 0
  plain : f.nestedStartGas = none
  context : f.storageCtx = some root

/-- Step `j` opened a frame of depth `d` that no step before `n` left. -/
structure OpenedBy (n j : Nat) (call : StructLog) (d : UInt64) : Prop where
  calls : logs[j]? = some call
  enters : ∃ first, logs[j + 1]? = some first ∧ first.depth.toNat = call.depth.toNat + 1
  depth : d.toNat = call.depth.toNat + 1
  inside : ∀ (m : Nat) (log : StructLog), j < m → m < n → logs[m]? = some log → call.depth < log.depth

/-- The split gives the callee of step `j` a frame of its own. -/
def Handed (j : Nat) (call : StructLog) : Prop :=
  ∃ index, elig.frameIndex (candidates.get j) call.callee = some index

structure Above (n : Nat) (f g : WalkFrame) : Prop where
  depth : g.depth < f.depth
  nested : f.nestedStartGas.isSome = true → ∃ j call x ops, g.out = ops ++ [⟨.nested x, j⟩] ∧
    OpenedBy logs n j call f.depth ∧ Handed elig candidates j call

def StoresSlot (ops : List Op) (s : B256) : Prop := ∃ v step, ⟨.store ⟨s, v⟩, step⟩ ∈ ops

def Stored (f : WalkFrame) (rest : List WalkFrame) : Prop :=
  f.program = some 0 → ∀ s v, f.emittedView.get s = some v → ∃ h ∈ f :: rest, StoresSlot h.out s

def Layers (n : Nat) : WalkFrame → List WalkFrame → Prop
  | f, [] => f.depth = 1 ∧ RootFrame root f ∧ Stored f []
  | f, g :: rest => Above elig candidates logs n f g ∧ Stored f (g :: rest) ∧ Layers n g rest

end

variable {root : Address} {elig : Eligibility} {candidates : OrdMap Nat Candidate} {logs : List StructLog}
variable {n : Nat} {f g f' g' : WalkFrame} {rest rest' : List WalkFrame}

theorem RootFrame.congr (program : f'.program = f.program) (plain : f'.nestedStartGas = f.nestedStartGas)
    (context : f'.storageCtx = f.storageCtx) (isRoot : RootFrame root f) : RootFrame root f' :=
  ⟨program.trans isRoot.program, plain.trans isRoot.plain, context.trans isRoot.context⟩

theorem RootFrame.kept (kept : Kept f f') (isRoot : RootFrame root f) : RootFrame root f' :=
  isRoot.congr kept.program kept.nestedStartGas kept.storageCtx

theorem Stored.kept (stored : Stored f rest) (kept : Kept f f') (others : List.Forall₂ Kept rest rest') :
    Stored f' rest' := by
  intro program s v held
  rw [kept.program] at program
  obtain ⟨h, member, stores⟩ := stored program s v (kept.view s v held)
  rcases List.mem_cons.mp member with rfl | below
  · exact ⟨f', List.mem_cons_self, kept.out ▸ stores⟩
  · obtain ⟨h', member', kept'⟩ := mem_kept others below
    exact ⟨h', List.mem_cons_of_mem _ member', kept'.out ▸ stores⟩

namespace Layers

theorem stored (layers : Layers root elig candidates logs n f rest) : Stored f rest := by
  cases rest with
  | nil => exact layers.2.2
  | cons g rest => exact layers.2.1

/-- Depths strictly grow up the stack. -/
theorem lt (layers : Layers root elig candidates logs n f rest) : ∀ g ∈ rest, g.depth < f.depth := by
  induction rest generalizing f with
  | nil => intro g member; cases member
  | cons h rest ih =>
    obtain ⟨above, -, below⟩ := layers
    intro g member
    rcases List.mem_cons.mp member with rfl | further
    · exact above.depth
    · exact UInt64.lt_trans (ih below g further) above.depth

theorem positive (layers : Layers root elig candidates logs n f rest) : 1 ≤ f.depth := by
  cases rest with
  | nil =>
    rw [layers.1]
    exact UInt64.le_refl 1
  | cons g rest =>
    have lt := UInt64.lt_iff_toNat_lt.mp layers.1.depth
    apply UInt64.le_iff_toNat_le.mpr
    show 1 ≤ f.depth.toNat
    omega

/-- A frame as deep as the top is the top. -/
theorem eq_top (layers : Layers root elig candidates logs n f rest) (member : g ∈ f :: rest)
    (deep : f.depth ≤ g.depth) : g = f := by
  rcases List.mem_cons.mp member with same | below
  · exact same
  · exact absurd (layers.lt g below) (UInt64.not_lt.mpr deep)

theorem unique (layers : Layers root elig candidates logs n f rest) {a b : WalkFrame}
    (memberA : a ∈ f :: rest) (memberB : b ∈ f :: rest) (same : a.depth = b.depth) : a = b := by
  induction rest generalizing f with
  | nil => rw [List.mem_singleton.mp memberA, List.mem_singleton.mp memberB]
  | cons g rest ih =>
    rcases List.mem_cons.mp memberA with rfl | belowA
    · rcases List.mem_cons.mp memberB with rfl | belowB
      · rfl
      · have := UInt64.lt_iff_toNat_lt.mp (layers.lt b belowB)
        rw [same] at this
        omega
    · rcases List.mem_cons.mp memberB with rfl | belowB
      · have := UInt64.lt_iff_toNat_lt.mp (layers.lt a belowA)
        rw [same] at this
        omega
      · exact ih layers.2.2 belowA belowB

/-- The top frame may change in all but its place, as long as what it believes stored is. -/
theorem replaceTop (layers : Layers root elig candidates logs n f rest) (depth : f'.depth = f.depth)
    (program : f'.program = f.program) (nested : f'.nestedStartGas = f.nestedStartGas)
    (context : f'.storageCtx = f.storageCtx) (stored : Stored f' rest) :
    Layers root elig candidates logs n f' rest := by
  cases rest with
  | nil => exact ⟨depth.trans layers.1, layers.2.1.congr program nested context, stored⟩
  | cons g rest =>
    obtain ⟨above, -, below⟩ := layers
    exact ⟨⟨by rw [depth]; exact above.depth, by rw [nested, depth]; exact above.nested⟩, stored, below⟩

theorem kept (layers : Layers root elig candidates logs n f rest) (kept : Kept f f')
    (others : List.Forall₂ Kept rest rest') : Layers root elig candidates logs n f' rest' := by
  induction others generalizing f f' with
  | nil =>
    exact layers.replaceTop kept.depth kept.program kept.nestedStartGas kept.storageCtx
      (layers.stored.kept kept .nil)
  | cons keptG others ih =>
    obtain ⟨above, stored, below⟩ := layers
    refine ⟨⟨?_, ?_⟩, stored.kept kept (.cons keptG others), ih below keptG⟩
    · rw [kept.depth, keptG.depth]
      exact above.depth
    · rw [kept.nestedStartGas, kept.depth, keptG.out]
      exact above.nested

/-- A step no shallower than the top frame leaves no frame. -/
theorem advance (layers : Layers root elig candidates logs n f rest) {log : StructLog}
    (found : logs[n]? = some log) (deep : f.depth ≤ log.depth) :
    Layers root elig candidates logs (n + 1) f rest := by
  induction rest generalizing f with
  | nil => exact layers
  | cons g rest ih =>
    obtain ⟨above, stored, below⟩ := layers
    have lower : g.depth ≤ log.depth := UInt64.le_of_lt (UInt64.lt_of_lt_of_le above.depth deep)
    refine ⟨⟨above.depth, ?_⟩, stored, ih below lower⟩
    intro nested
    obtain ⟨j, call, x, ops, last, opened, handed⟩ := above.nested nested
    refine ⟨j, call, x, ops, last, ⟨opened.calls, opened.enters, opened.depth, ?_⟩, handed⟩
    intro m log' after before found'
    rcases Nat.lt_or_ge m n with earlier | here
    · exact opened.inside m log' after earlier found'
    · obtain rfl : m = n := by omega
      obtain rfl : log = log' := Option.some.inj (found.symm.trans found')
      have := UInt64.le_iff_toNat_le.mp deep
      have := opened.depth
      apply UInt64.lt_iff_toNat_lt.mpr
      omega

/-- The caller a frame returns to keeps the layers. -/
theorem pop {flag : U256} (layers : Layers root elig candidates logs n f (g :: rest))
    (linked : f.nestedStartGas = none → f.program = none ∨ f.program = g.program)
    (returned : Returned flag f g g') (others : List.Forall₂ Kept rest rest') :
    Layers root elig candidates logs n g' rest' := by
  obtain ⟨-, stored, below⟩ := layers
  obtain ⟨program, context, nested⟩ := returned.program
  have lower := below.kept (Kept.refl g) others
  refine lower.replaceTop returned.depth program nested context ?_
  -- What the caller believes afterwards is stored by it, by the frame it absorbed, or below.
  have caller : ∀ {g₁ g₂ : WalkFrame}, Kept g g₁ → (∀ s v, g₂.emittedView.get s = some v →
      g₁.emittedView.get s = some v) → (∀ s, StoresSlot g.out s → StoresSlot g₂.out s) →
      g₂.program = g.program → Stored g₂ rest' := by
    intro g₁ g₂ kept view out program₂ emits s v held
    rw [program₂] at emits
    obtain ⟨h, member, stores⟩ := (below.stored.kept kept others) (kept.program.trans emits) s v (view s v held)
    rcases List.mem_cons.mp member with rfl | further
    · exact ⟨g₂, List.mem_cons_self, out s (kept.out ▸ stores)⟩
    · exact ⟨h, List.mem_cons_of_mem _ further, stores⟩
  cases returned with
  | @absorbed g₁ kept success plain =>
    by_cases emits : f.program.isSome = true
    · have same : f.program = g.program := by
        rcases linked plain with none | same
        · rw [none] at emits
          cases emits
        · exact same
      intro isRoot s v held
      have isRoot : g₁.program = some 0 := isRoot
      have held : f.emittedView.get s = some v := by
        simpa only [WalkFrame.absorb, emits, if_true] using held
      obtain ⟨h, member, stores⟩ :=
        (stored.kept (Kept.refl f) (.cons kept others)) (same.trans (kept.program ▸ isRoot)) s v held
      rcases List.mem_cons.mp member with rfl | further
      · refine ⟨_, List.mem_cons_self, ?_⟩
        obtain ⟨u, st, inside⟩ := stores
        exact ⟨u, st, List.mem_append_right _ inside⟩
      · rcases List.mem_cons.mp further with rfl | deeper
        · refine ⟨_, List.mem_cons_self, ?_⟩
          obtain ⟨u, st, inside⟩ := stores
          exact ⟨u, st, List.mem_append_left _ inside⟩
        · exact ⟨h, List.mem_cons_of_mem _ deeper, stores⟩
    · refine caller kept ?_ ?_ kept.program
      · intro s v held
        rwa [WalkFrame.absorb, if_neg emits] at held
      · rintro s ⟨u, st, inside⟩
        exact ⟨u, st, List.mem_append_left _ (by rw [kept.out]; exact inside)⟩
  | discarded kept _ _ =>
    exact caller kept (fun _ _ held => held) (fun s stores => kept.out ▸ stores) kept.program
  | merged kept _ _ =>
    refine caller kept (fun _ _ held => held) ?_ kept.program
    intro s stores
    rw [← kept.out] at stores
    exact stores
  | @retracted g₁ ops x step kept _ _ last =>
    refine caller kept (fun _ _ held => held) ?_ kept.program
    rintro s ⟨u, st, inside⟩
    rw [last, List.mem_append] at inside
    rcases inside with inside | isLast
    · exact ⟨u, st, inside⟩
    · cases List.mem_singleton.mp isLast

end Layers

end GasAnalyzer
