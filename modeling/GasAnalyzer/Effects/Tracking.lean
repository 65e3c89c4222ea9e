import GasAnalyzer.Effects.Layers

/-!
# Following the root's closure

Every step of `InRoot` runs in a frame of the root's program that is known by its depth, and what such a
step adds moves down with its frame until the root owns it. The one thing taken back is the `NESTED` op
of a callee that reverted.
-/

namespace GasAnalyzer

section

variable (root : Address) (elig : Eligibility) (candidates : OrdMap Nat Candidate) (logs : List StructLog)

/-- A step of the root's closure whose frame no step before `n` left. -/
structure Live (n i : Nat) (log : StructLog) : Prop where
  scope : InRoot logs i
  found : logs[i]? = some log
  before : i < n
  inside : ∀ (m : Nat) (log' : StructLog), i < m → m < n → logs[m]? = some log' → log.depth ≤ log'.depth

/-- An effect the walk can read: a store, or a step that carries its memory. -/
structure Readable (i : Nat) (log : StructLog) : Prop where
  scope : InRoot logs i
  found : logs[i]? = some log
  fine : log.errored = false
  effect : effectful log.op = true
  memory : log.op = .sstore ∨ log.memory ≠ none

/-- The callee of a `CALL` with a frame of its own reverted, so there is nothing to apply. -/
def Retracted (i : Nat) (log : StructLog) : Prop :=
  log.op = .call ∧ Handed elig candidates i log ∧
    ∃ k resume, FrameAt logs i k log resume ∧ resume.flag = some 0

/-- What frame `f` holds of step `i`: the slot of a store, or the op. -/
def HeldIn (f : WalkFrame) (i : Nat) (log : StructLog) : Prop :=
  if log.op = .sstore then ∃ slot, log.top 0 = some slot ∧ (f.journal.value root slot).isSome = true
  else ∃ o ∈ f.out, o.step = i ∧ o.update.opcode = log.op

/-- A step's effect is in a live frame of the root's closure. -/
def Carried (n : Nat) (frames : List WalkFrame) (i : Nat) (log : StructLog) : Prop :=
  Retracted elig candidates logs i log ∨
    ∃ i' log' f, Live logs n i' log' ∧ f ∈ frames ∧ f.depth = log'.depth ∧ HeldIn root f i log

structure Tracks (n : Nat) (w : Walk) : Prop where
  layers : Layers root elig candidates logs n w.top w.below
  waiting : ∀ p, w.pending = some p → ∃ m call, m + 1 = n ∧ logs[m]? = some call ∧
    p.parentDepth = call.depth ∧ w.top.depth ≤ call.depth ∧
    (p.nestedStartGas.isSome = true → ∃ x ops, w.top.out = ops ++ [⟨.nested x, m⟩] ∧
      Handed elig candidates m call) ∧
    (p.program = some 0 → ∀ s v, p.emittedView.get s = some v → w.top.emittedView.get s = some v)
  live : ∀ i log, Live logs n i log → ∃ f ∈ w.top :: w.below, f.depth = log.depth ∧ RootFrame root f
  delegated : ∀ (j : Nat) (call : StructLog), j + 1 = n → InRoot logs j → logs[j]? = some call →
    call.op.isDelegate = true → call.errored = false → ∃ p, w.pending = some p ∧ p.program = some 0 ∧
      p.nestedStartGas = none ∧ p.storageCtx = some root
  carried : ∀ i log, Readable logs i log → i < n →
    Carried root elig candidates logs n (w.top :: w.below) i log

/-- The walk before it executes step `n`. -/
structure Arrived (n : Nat) (log : StructLog) (w : Walk) : Prop where
  layers : Layers root elig candidates logs (n + 1) w.top w.below
  free : w.pending = none
  low : w.top.depth ≤ log.depth
  live : ∀ i log', i < n → Live logs (n + 1) i log' →
    ∃ f ∈ w.top :: w.below, f.depth = log'.depth ∧ RootFrame root f
  here : InRoot logs n → w.top.depth = log.depth ∧ RootFrame root w.top
  carried : ∀ i log', Readable logs i log' → i < n →
    Carried root elig candidates logs (n + 1) (w.top :: w.below) i log'

end

variable {root : Address} {elig : Eligibility} {candidates : OrdMap Nat Candidate} {logs : List StructLog}
variable {n : Nat} {log : StructLog} {w w' : Walk}

theorem Live.pred {i : Nat} {l : StructLog} (live : Live logs (n + 1) i l) (before : i < n) : Live logs n i l :=
  ⟨live.scope, live.found, before, fun m l' after lt => live.inside m l' after (by omega)⟩

theorem Live.succ {i : Nat} {l : StructLog} (live : Live logs n i l) (found : logs[n]? = some log)
    (deep : l.depth ≤ log.depth) : Live logs (n + 1) i l := by
  refine ⟨live.scope, live.found, Nat.lt_succ_of_lt live.before, ?_⟩
  intro m l' after before found'
  rcases Nat.lt_or_ge m n with earlier | here
  · exact live.inside m l' after earlier found'
  · obtain rfl : m = n := by omega
    obtain rfl : log = l' := Option.some.inj (found.symm.trans found')
    exact deep

theorem HeldIn.mono {f f' : WalkFrame} {i : Nat} {l : StructLog} (held : HeldIn root f i l)
    (journal : ∀ s, (f.journal.value root s).isSome = true → (f'.journal.value root s).isSome = true)
    (out : ∀ o ∈ f.out, o.step = i → o.update.opcode = l.op → o ∈ f'.out) : HeldIn root f' i l := by
  unfold HeldIn at held ⊢
  split at held
  · obtain ⟨slot, top, some⟩ := held
    rw [if_pos (by assumption)]
    exact ⟨slot, top, journal slot some⟩
  · obtain ⟨o, member, step, kind⟩ := held
    rw [if_neg (by assumption)]
    exact ⟨o, out o member step kind, step, kind⟩

theorem HeldIn.kept {f f' : WalkFrame} {i : Nat} {l : StructLog} (held : HeldIn root f i l) (kept : Kept f f') :
    HeldIn root f' i l :=
  held.mono (fun s some => by rw [kept.journal]; exact some) (fun o member _ _ => by rw [kept.out]; exact member)

theorem value_merge_isSome {j other : Journal} {a : Address} {s : B256}
    (some : (j.value a s).isSome = true ∨ (other.value a s).isSome = true) :
    ((j.merge other).value a s).isSome = true := by
  rw [Journal.value_merge, Option.isSome_or, Bool.or_eq_true]
  exact some.symm

/-! ### Entering -/

/-- The walk once the call of the previous step is settled. -/
structure Settles (root : Address) (elig : Eligibility) (candidates : OrdMap Nat Candidate)
    (logs : List StructLog) (n : Nat) (log : StructLog) (w : Walk) : Prop where
  layers : Layers root elig candidates logs n w.top w.below
  free : w.pending = none
  live : ∀ i l, Live logs n i l → ∃ f ∈ w.top :: w.below, f.depth = l.depth ∧ RootFrame root f
  here : InRoot logs n → ∃ f ∈ w.top :: w.below, f.depth = log.depth ∧ RootFrame root f
  carried : ∀ i l, Readable logs i l → i < n →
    Carried root elig candidates logs n (w.top :: w.below) i l

theorem root_frame_mem {f : WalkFrame} {rest : List WalkFrame} (layers : Layers root elig candidates logs n f rest) :
    ∃ g ∈ f :: rest, g.depth = 1 ∧ RootFrame root g := by
  induction rest generalizing f with
  | nil => exact ⟨f, List.mem_cons_self, layers.1, layers.2.1⟩
  | cons g rest ih =>
    obtain ⟨h, member, depth, isRoot⟩ := ih layers.2.2
    exact ⟨h, List.mem_cons_of_mem _ member, depth, isRoot⟩

theorem Tracks.settles (tracks : Tracks root elig candidates logs n w) (found : logs[n]? = some log)
    (positive : log.depth ≠ 0)
    (linked : ∀ p, w.pending = some p → p.program = some 0 → w.top.program = some 0)
    (entered : Entered log w w') : Settles root elig candidates logs n log w' := by
  -- The frame of a delegate step: opened by this very step, or live already.
  have isHere : InRoot logs n → (∃ f ∈ w.top :: w.below, f.depth = log.depth ∧ RootFrame root f) ∨
      ∃ p, w.pending = some p ∧ log.depth = p.parentDepth + 1 ∧ p.program = some 0 ∧
        p.nestedStartGas = none ∧ p.storageCtx = some root := by
    intro scope
    cases scope with
    | @root _ log' found' depth above =>
      obtain rfl : log = log' := Option.some.inj (found.symm.trans found')
      obtain ⟨g, member, depth', isRoot⟩ := root_frame_mem tracks.layers
      exact Or.inl ⟨g, member, depth'.trans depth.symm, isRoot⟩
    | @delegate _ j k log' call resume flag found' caller frame delegates fine success nonzero after before depth =>
      obtain rfl : log = log' := Option.some.inj (found.symm.trans found')
      obtain ⟨first, foundF, depthF⟩ := frame.enters
      rcases Nat.lt_or_ge (j + 1) n with later | now
      · left
        have same : first.depth = log.depth := UInt64.toNat_inj.mp (depthF.trans depth.symm)
        rw [← same]
        refine tracks.live (j + 1) first ⟨?_, foundF, later, ?_⟩
        · exact .delegate foundF caller frame delegates fine success nonzero (by omega) (by omega) depthF
        · intro m l after' before' foundM
          have := UInt64.lt_iff_toNat_lt.mp (frame.inside m l (by omega) (by omega) foundM)
          apply UInt64.le_iff_toNat_le.mpr
          omega
      · right
        have now : j + 1 = n := by omega
        obtain ⟨p, waits, program, plain, context⟩ :=
          tracks.delegated j call now caller frame.calls delegates fine
        obtain ⟨m, call', here, foundM, parent, -⟩ := tracks.waiting p waits
        obtain rfl : m = j := by omega
        obtain rfl : call = call' := Option.some.inj (frame.calls.symm.trans foundM)
        refine ⟨p, waits, ?_, program, plain, context⟩
        apply UInt64.toNat_inj.mp
        have bound := log.depth.toNat_lt
        rw [UInt64.toNat_add, parent, depth]
        show call.depth.toNat + 1 = (call.depth.toNat + 1) % 2 ^ 64
        omega
  cases entered with
  | idle free =>
    refine ⟨tracks.layers, free, tracks.live, ?_, tracks.carried⟩
    intro scope
    rcases isHere scope with live | ⟨p, waits, -⟩
    · exact live
    · rw [free] at waits
      cases waits
  | @pushed p waits deeper =>
    obtain ⟨m, call, here, foundM, parent, low, nested, view⟩ := tracks.waiting p waits
    have sum : log.depth.toNat = call.depth.toNat + 1 := by
      have wraps : log.depth.toNat = (call.depth.toNat + 1) % 2 ^ 64 := by
        rw [deeper, UInt64.toNat_add, parent]
        rfl
      have : log.depth.toNat ≠ 0 := fun zero => positive (UInt64.toNat_inj.mp zero)
      have := call.depth.toNat_lt
      omega
    refine ⟨⟨⟨?_, ?_⟩, ?_, tracks.layers⟩, rfl, ?_, ?_, ?_⟩
    · apply UInt64.lt_iff_toNat_lt.mpr
      have := UInt64.le_iff_toNat_le.mp low
      show w.top.depth.toNat < log.depth.toNat
      omega
    · intro isNested
      obtain ⟨x, ops, last, handed⟩ := nested isNested
      refine ⟨m, call, x, ops, last, ⟨foundM, ⟨log, by rw [here]; exact found, sum⟩, sum, ?_⟩, handed⟩
      intro k l after before
      omega
    · intro program s v held
      have program : p.program = some 0 := program
      obtain ⟨h, member, stores⟩ := tracks.layers.stored (linked p waits program) s v (view program s v held)
      exact ⟨h, List.mem_cons_of_mem _ member, stores⟩
    · intro i l live
      obtain ⟨f, member, depth, isRoot⟩ := tracks.live i l live
      exact ⟨f, List.mem_cons_of_mem _ member, depth, isRoot⟩
    · intro scope
      rcases isHere scope with ⟨f, member, depth, isRoot⟩ | ⟨p', waits', -, program, plain, context⟩
      · exact ⟨f, List.mem_cons_of_mem _ member, depth, isRoot⟩
      · obtain rfl : p = p' := Option.some.inj (waits.symm.trans waits')
        exact ⟨_, List.mem_cons_self, rfl, program, plain, context⟩
    · intro i l readable before
      rcases tracks.carried i l readable before with retracted | ⟨i', l', f, live, member, depth, held⟩
      · exact Or.inl retracted
      · exact Or.inr ⟨i', l', f, live, List.mem_cons_of_mem _ member, depth, held⟩
  | @inline p _ waits elsewhere plain deployed top below free =>
    have others : List.Forall₂ Kept (w.top :: w.below) (w'.top :: w'.below) :=
      .cons top (below ▸ forall₂_kept_refl w.below)
    refine ⟨?_, free, ?_, ?_, ?_⟩
    · rw [below]
      exact tracks.layers.kept top (forall₂_kept_refl _)
    · intro i l live
      obtain ⟨f, member, depth, isRoot⟩ := tracks.live i l live
      obtain ⟨f', member', kept⟩ := mem_kept others member
      exact ⟨f', member', kept.depth.trans depth, isRoot.kept kept⟩
    · intro scope
      rcases isHere scope with ⟨f, member, depth, isRoot⟩ | ⟨p', waits', deeper, -⟩
      · obtain ⟨f', member', kept⟩ := mem_kept others member
        exact ⟨f', member', kept.depth.trans depth, isRoot.kept kept⟩
      · obtain rfl : p = p' := Option.some.inj (waits.symm.trans waits')
        exact absurd deeper elsewhere
    · intro i l readable before
      rcases tracks.carried i l readable before with retracted | ⟨i', l', f, live, member, depth, held⟩
      · exact Or.inl retracted
      · obtain ⟨f', member', kept⟩ := mem_kept others member
        exact Or.inr ⟨i', l', f', live, member', kept.depth.trans depth, held.kept kept⟩

/-! ### Returning -/

/-- A caller keeps what it holds when a frame returns, unless that is the returning frame's own op. -/
theorem HeldIn.returned {flag : U256} {f g g' : WalkFrame} {rest : List WalkFrame} {i : Nat} {l : StructLog}
    (held : HeldIn root g i l) (layers : Layers root elig candidates logs n f (g :: rest))
    (returned : Returned flag f g g') (readable : Readable logs i l) (found : logs[n]? = some log)
    (depth : f.depth = log.depth + 1) (flagged : log.flag = some flag) :
    Retracted elig candidates logs i l ∨ HeldIn root g' i l := by
  cases returned with
  | absorbed kept _ _ =>
    refine Or.inr ((held.kept kept).mono ?_ ?_)
    · intro s some
      exact value_merge_isSome (Or.inl some)
    · intro o member _ _
      exact List.mem_append_left _ member
  | discarded kept _ _ => exact Or.inr (held.kept kept)
  | merged kept _ _ =>
    refine Or.inr ((held.kept kept).mono ?_ (fun o member _ _ => member))
    intro s some
    exact value_merge_isSome (Or.inl some)
  | @retracted g₁ ops x step kept failure nested last =>
    obtain ⟨j, call, x', ops', last', opened, handed⟩ := layers.1.nested nested
    obtain ⟨-, own⟩ := List.append_inj' (last.symm.trans last') rfl
    obtain ⟨rfl, rfl⟩ : x = x' ∧ step = j := by simpa using own
    by_cases mine : step = i ∧ l.op = .call
    · left
      obtain ⟨rfl, isCall⟩ := mine
      obtain rfl : call = l := Option.some.inj (opened.calls.symm.trans readable.found)
      refine ⟨isCall, handed, n, log, ⟨opened.calls, found, ?_, opened.enters, opened.inside⟩, failure ▸ flagged⟩
      apply UInt64.toNat_inj.mp
      have sum : (log.depth.toNat + 1) % 2 ^ 64 = call.depth.toNat + 1 := by
        have := opened.depth
        rw [depth, UInt64.toNat_add] at this
        exact this
      have := log.depth.toNat_lt
      omega
    · right
      refine held.mono ?_ ?_
      · intro s some
        show (g₁.journal.value root s).isSome = true
        rw [kept.journal]
        exact some
      · intro o member here kind
        rw [last, List.mem_append] at member
        rcases member with old | isLast
        · exact old
        · obtain rfl := List.mem_singleton.mp isLast
          exact absurd ⟨here, kind.symm⟩ mine

/-- The frame of a live step that this step leaves: its caller is live and it succeeded. -/
theorem Live.leaves {i : Nat} {l : StructLog} (live : Live logs n i l) (found : logs[n]? = some log)
    (positive : log.depth ≠ 0) (left : log.depth < l.depth) :
    ∃ j call flag, Live logs (n + 1) j call ∧ j < n ∧ l.depth.toNat = call.depth.toNat + 1 ∧
      (log.depth = call.depth → log.flag = some flag ∧ flag ≠ 0) := by
  have below := UInt64.lt_iff_toNat_lt.mp left
  obtain ⟨scope, foundL, before, inside⟩ := live
  cases scope with
  | @root _ l' found' depth above =>
    obtain rfl : l = l' := Option.some.inj (foundL.symm.trans found')
    rw [depth] at below
    have : log.depth.toNat ≠ 0 := fun zero => positive (UInt64.toNat_inj.mp zero)
    have : log.depth.toNat < 1 := below
    omega
  | @delegate _ j k l' call resume flag found' caller frame delegates fine success nonzero after before' depth =>
    obtain rfl : l = l' := Option.some.inj (foundL.symm.trans found')
    -- Every step before `n` inside the frame is deeper, so the frame is left at `n` or later.
    have late : n ≤ k := by
      by_contra early
      have := UInt64.le_iff_toNat_le.mp (inside k resume before' (by omega) frame.resumes)
      rw [frame.back] at this
      omega
    refine ⟨j, call, flag, ⟨caller, frame.calls, by omega, ?_⟩, by omega, depth, ?_⟩
    · intro m l'' afterM beforeM foundM
      rcases Nat.lt_or_ge m n with earlier | here
      · have := UInt64.lt_iff_toNat_lt.mp (frame.inside m l'' afterM (by omega) foundM)
        apply UInt64.le_iff_toNat_le.mpr
        omega
      · obtain rfl : m = n := by omega
        obtain rfl : log = l'' := Option.some.inj (found.symm.trans foundM)
        rcases Nat.lt_or_ge m k with inner | outer
        · have := UInt64.lt_iff_toNat_lt.mp (frame.inside m log afterM inner foundM)
          apply UInt64.le_iff_toNat_le.mpr
          omega
        · obtain rfl : m = k := by omega
          obtain rfl : log = resume := Option.some.inj (found.symm.trans frame.resumes)
          rw [frame.back]
          exact UInt64.le_refl _
    · intro same
      have here : n = k := by
        by_contra other
        have := UInt64.lt_iff_toNat_lt.mp (frame.inside n log (by omega) (by omega) found)
        rw [same] at this
        omega
      subst here
      obtain rfl : log = resume := Option.some.inj (found.symm.trans frame.resumes)
      exact ⟨success, nonzero⟩

theorem Settles.stays (settled : Settles root elig candidates logs n log w) (found : logs[n]? = some log)
    (low : w.top.depth ≤ log.depth) : Arrived root elig candidates logs n log w := by
  have shallow : ∀ f ∈ w.top :: w.below, f.depth ≤ log.depth := by
    intro f member
    rcases List.mem_cons.mp member with rfl | below
    · exact low
    · exact UInt64.le_of_lt (UInt64.lt_of_lt_of_le (settled.layers.lt f below) low)
  refine ⟨settled.layers.advance found low, settled.free, low, ?_, ?_, ?_⟩
  · intro i l before live
    exact settled.live i l (live.pred before)
  · intro scope
    obtain ⟨f, member, depth, isRoot⟩ := settled.here scope
    obtain rfl := settled.layers.eq_top member (by rw [depth]; exact low)
    exact ⟨depth, isRoot⟩
  · intro i l readable before
    rcases settled.carried i l readable before with retracted | ⟨i', l', f, live, member, depth, held⟩
    · exact Or.inl retracted
    · exact Or.inr ⟨i', l', f, live.succ found (depth ▸ shallow f member), member, depth, held⟩

theorem Settles.returns (settled : Settles root elig candidates logs n log w) (found : logs[n]? = some log)
    (positive : log.depth ≠ 0) {g : WalkFrame} {rest : List WalkFrame} {flag : U256}
    (linked : w.top.nestedStartGas = none → w.top.program = none ∨ w.top.program = g.program)
    (above : log.depth < w.top.depth) (depth : w.top.depth = log.depth + 1) (flagged : log.flag = some flag)
    (popped : PoppedWith flag w g rest w') (low : w'.top.depth ≤ log.depth) :
    Arrived root elig candidates logs n log w' := by
  have layers := settled.layers
  rw [popped.below] at layers
  have others : List.Forall₂ Kept rest w'.below := popped.others
  have popLayers := layers.pop linked popped.returned others
  obtain ⟨program, context, nested⟩ := popped.returned.program
  -- A frame of the old stack no deeper than the step is still there.
  have survives : ∀ f ∈ w.top :: w.below, f.depth ≤ log.depth → f = g ∨
      f ∈ rest ∧ ∃ f' ∈ w'.top :: w'.below, Kept f f' := by
    intro f member shallow
    rw [popped.below] at member
    rcases List.mem_cons.mp member with rfl | member
    · exact absurd above (UInt64.not_lt.mpr shallow)
    · rcases List.mem_cons.mp member with rfl | member
      · exact Or.inl rfl
      · obtain ⟨f', member', kept⟩ := mem_kept others member
        exact Or.inr ⟨member, f', List.mem_cons_of_mem _ member', kept⟩
  have rooted : ∀ f ∈ w.top :: w.below, f.depth ≤ log.depth → RootFrame root f →
      ∃ f' ∈ w'.top :: w'.below, f'.depth = f.depth ∧ RootFrame root f' := by
    intro f member shallow isRoot
    rcases survives f member shallow with rfl | ⟨-, f', member', kept⟩
    · exact ⟨w'.top, List.mem_cons_self, popped.returned.depth, isRoot.congr program nested context⟩
    · exact ⟨f', member', kept.depth, isRoot.kept kept⟩
  refine ⟨popLayers.advance found low, popped.pending.trans settled.free, low, ?_, ?_, ?_⟩
  · intro i l before live
    obtain ⟨f, member, depthF, isRoot⟩ := settled.live i l (live.pred before)
    have shallow : f.depth ≤ log.depth := by
      rw [depthF]
      exact live.inside n log before (by omega) found
    obtain ⟨f', member', depth', isRoot'⟩ := rooted f member shallow isRoot
    exact ⟨f', member', depth'.trans depthF, isRoot'⟩
  · intro scope
    obtain ⟨f, member, depthF, isRoot⟩ := settled.here scope
    obtain ⟨f', member', depth', isRoot'⟩ := rooted f member (by rw [depthF]; exact UInt64.le_refl _) isRoot
    obtain rfl := popLayers.eq_top member' (by rw [depth', depthF]; exact low)
    exact ⟨depth'.trans depthF, isRoot'⟩
  · intro i l readable before
    rcases settled.carried i l readable before with retracted | ⟨i', l', f, live, member, depthF, held⟩
    · exact Or.inl retracted
    · rcases UInt64.lt_or_le log.depth l'.depth with left | stays
      · -- The frame itself returns: it is the top, it succeeded, and its caller is live.
        obtain ⟨j, call, flag', liveJ, beforeJ, sum, outcome⟩ := live.leaves found positive left
        have isTop : f = w.top := by
          apply settled.layers.eq_top member
          rw [depthF, depth]
          apply UInt64.le_iff_toNat_le.mpr
          have := UInt64.lt_iff_toNat_lt.mp left
          rw [UInt64.toNat_add]
          have : (1 : UInt64).toNat = 1 := rfl
          have := l'.depth.toNat_lt
          omega
        subst isTop
        have same : log.depth = call.depth := by
          apply UInt64.toNat_inj.mp
          have total : l'.depth.toNat = (log.depth.toNat + 1) % 2 ^ 64 := by
            rw [← depthF, depth, UInt64.toNat_add]
            rfl
          have := UInt64.lt_iff_toNat_lt.mp left
          omega
        obtain ⟨flagged', nonzero⟩ := outcome same
        obtain rfl : flag = flag' := Option.some.inj (flagged.symm.trans flagged')
        obtain ⟨f', member', depth', isRoot'⟩ := settled.live i' l' live
        obtain rfl := settled.layers.unique member member' (depthF.trans depth'.symm)
        obtain ⟨h, memberH, depthH, -⟩ := settled.live j call (liveJ.pred beforeJ)
        have isCaller : h = g := by
          rcases survives h memberH (by rw [depthH, same]; exact UInt64.le_refl _) with rfl | ⟨deeper, -⟩
          · rfl
          · have lower := UInt64.lt_iff_toNat_lt.mp (layers.2.2.lt h deeper)
            have := UInt64.le_iff_toNat_le.mp low
            rw [popped.returned.depth] at this
            rw [depthH, ← same] at lower
            omega
        subst isCaller
        refine Or.inr ⟨j, call, w'.top, liveJ, List.mem_cons_self, popped.returned.depth.trans depthH, ?_⟩
        have returned := popped.returned
        generalize w'.top = g' at returned
        cases returned with
        | absorbed kept _ _ =>
          refine held.mono ?_ ?_
          · intro s some
            exact value_merge_isSome (Or.inr some)
          · intro o inside _ _
            exact List.mem_append_right _ inside
        | discarded _ failure _ => exact absurd failure nonzero
        | merged _ _ isNested =>
          rw [isRoot'.plain] at isNested
          cases isNested
        | retracted _ failure _ _ => exact absurd failure nonzero
      · have live' := live.succ found stays
        rcases survives f member (by rw [depthF]; exact stays) with rfl | ⟨-, f', member', kept⟩
        · rcases held.returned layers popped.returned readable found depth flagged with retracted | held'
          · exact Or.inl retracted
          · exact Or.inr ⟨i', l', w'.top, live', List.mem_cons_self,
              popped.returned.depth.trans depthF, held'⟩
        · exact Or.inr ⟨i', l', f', live', member', kept.depth.trans depthF, held.kept kept⟩

end GasAnalyzer
