import GasAnalyzer.Legacy.Stores
import GasAnalyzer.Native.Returns

/-!
# Seeded storage and the storage before a call

The seed of a slot that the call left unchanged is the value its programs leave there. The legacy program leaves what
the last `SSTORE` of the consumer's closure wrote, undone or not; the frames of a contract leave what was last written
to it before the last of them returned.
-/

namespace GasAnalyzer

/-! ### Frames in return order -/

section

variable {frames : List FrameProgram} {root : Address}

/-- On a tree of frames `visit` ends, and lists every frame after its children. -/
theorem PreOrderTree.returnVisit_eq (framed : PreOrderTree root frames) (fuel : Nat) : ∀ (id : Nat) (order : List Nat),
    id < frames.length → frames.length - id ≤ fuel →
      returnVisit frames fuel id order = some (order ++ PreOrder.visitLast (childrenOf frames) fuel id) := by
  induction fuel with
  | zero =>
    intro id order inside enough
    omega
  | succ fuel ih =>
    intro id order inside enough
    have found := List.getElem?_eq_getElem inside
    have children : childrenOf frames id = frames[id].children := by
      unfold childrenOf
      rw [found]
      rfl
    have each : ∀ (cs : List Nat) (order : List Nat), (∀ c ∈ cs, c ∈ childrenOf frames id) →
        cs.foldlM (fun order child => returnVisit frames fuel child order) order =
          some (order ++ cs.flatMap (PreOrder.visitLast (childrenOf frames) fuel)) := by
      intro cs
      induction cs with
      | nil =>
        intro order _
        rw [List.flatMap_nil, List.append_nil]
        rfl
      | cons c cs ihCs =>
        intro order below
        obtain ⟨later, inRange⟩ := framed.bounds id c (below c List.mem_cons_self)
        rw [List.foldlM_cons, ih c order inRange (by omega)]
        show List.foldlM _ _ cs = _
        rw [ihCs _ (fun c member => below c (List.mem_cons_of_mem _ member)), List.flatMap_cons, List.append_assoc]
    rw [returnVisit, found]
    show Option.bind (List.foldlM _ order frames[id].children) _ = _
    rw [each _ order (by rw [children]; exact fun _ member => member), PreOrder.visitLast, children,
      ← List.append_assoc]
    rfl

def runsFor (frames : List FrameProgram) (a : Address) (k : Nat) : Bool := frames[k]?.any (fun f => f.target = a)

def updatesOf (frames : List FrameProgram) (k : Nat) : List StateUpdate :=
  (frames[k]?.map FrameProgram.updates).getD []

theorem extendTargets (ids : List Nat) : ∀ m : OrdMap Address (List StateUpdate), (∀ k ∈ ids, k < frames.length) →
    ∃ m', ids.foldlM (extendTarget frames) m = some m' ∧ ∀ a,
      (m'.get a).getD [] = (m.get a).getD [] ++ (ids.filter (runsFor frames a)).flatMap (updatesOf frames) ∧
      ((m'.get a).isSome = true ↔ (m.get a).isSome = true ∨ ∃ k ∈ ids, runsFor frames a k = true) := by
  induction ids with
  | nil =>
    intro m _
    refine ⟨m, rfl, fun a => ⟨?_, ?_⟩⟩
    · rw [List.filter_nil, List.flatMap_nil, List.append_nil]
    · simp
  | cons k ids ih =>
    intro m inside
    obtain ⟨frame, found⟩ : ∃ frame, frames[k]? = some frame :=
      ⟨_, List.getElem?_eq_getElem (inside k List.mem_cons_self)⟩
    obtain ⟨m', extended, each⟩ := ih
      (m.insert frame.target ((m.get frame.target).getD [] ++ frame.updates))
      (fun k member => inside k (List.mem_cons_of_mem _ member))
    have first : extendTarget frames m k =
        some (m.insert frame.target ((m.get frame.target).getD [] ++ frame.updates)) := by
      unfold extendTarget
      rw [found]
      rfl
    refine ⟨m', ?_, fun a => ?_⟩
    · rw [List.foldlM_cons, first]
      exact extended
    · obtain ⟨updates, there⟩ := each a
      rw [updates, there, OrdMap.get_insert, List.filter_cons]
      have runs : runsFor frames a k = decide (frame.target = a) := by
        unfold runsFor
        rw [found]
        rfl
      by_cases here : a = frame.target
      · have runs : runsFor frames a k = true := by rw [runs, decide_eq_true here.symm]
        have own : updatesOf frames k = frame.updates := by
          unfold updatesOf
          rw [found]
          rfl
        rw [if_pos here, if_pos runs, List.flatMap_cons, own, Option.getD_some, here, List.append_assoc]
        exact ⟨rfl, fun _ => Or.inr ⟨k, List.mem_cons_self, here ▸ runs⟩, fun _ => Or.inl rfl⟩
      · have other : runsFor frames a k = false := by rw [runs, decide_eq_false (Ne.symm here)]
        rw [if_neg here, if_neg (by simp [other])]
        refine ⟨rfl, Or.imp_right fun ⟨k', member, own⟩ => ⟨k', List.mem_cons_of_mem _ member, own⟩,
          Or.imp_right ?_⟩
        rintro ⟨k', member, own⟩
        rcases List.mem_cons.mp member with rfl | later
        · cases own.symm.trans other
        · exact ⟨k', later, own⟩

/-- The updates of all frames of `a`, in the order they return. -/
def returned (frames : List FrameProgram) (a : Address) : List StateUpdate :=
  ((PreOrder.visitLast (childrenOf frames) frames.length 0).filter (runsFor frames a)).flatMap (updatesOf frames)

theorem PreOrderTree.mem_visitLast (framed : PreOrderTree root frames) {k : Nat} :
    k ∈ PreOrder.visitLast (childrenOf frames) frames.length 0 ↔ k < frames.length := by
  rw [(PreOrder.visitLast_perm _ _ _).mem_iff, framed.preOrder, List.mem_range]

theorem PreOrderTree.frameTreeSeeds_eq (framed : PreOrderTree root frames) (diff : DiffMode) :
    ∃ seeds, frameTreeSeeds (some diff) frames = some seeds ∧
      ∀ f ∈ frames, seeds.get f.target = some (originalStorage diff f.target (returned frames f.target)) := by
  obtain ⟨r, first, -⟩ := framed.root
  have some₀ := (List.getElem?_eq_some_iff.mp first).1
  have order : returnOrder frames = some (PreOrder.visitLast (childrenOf frames) frames.length 0) := by
    unfold returnOrder
    rw [if_neg (by simpa using List.ne_nil_of_length_pos some₀),
      framed.returnVisit_eq frames.length 0 [] some₀ (Nat.le_refl _), List.nil_append]
  obtain ⟨byTarget, extended, each⟩ := extendTargets (PreOrder.visitLast (childrenOf frames) frames.length 0)
    OrdMap.empty (fun k member => framed.mem_visitLast.mp member)
  refine ⟨byTarget.mapValues (originalStorage diff), ?_, ?_⟩
  · unfold frameTreeSeeds
    rw [order]
    show Option.bind (List.foldlM _ _ _) _ = _
    rw [extended]
    rfl
  · intro f member
    obtain ⟨k, found⟩ := List.mem_iff_getElem?.mp member
    obtain ⟨updates, there⟩ := each f.target
    have runs : runsFor frames f.target k = true := by
      unfold runsFor
      rw [found]
      exact decide_eq_true rfl
    have inside := framed.mem_visitLast.mpr (List.getElem?_eq_some_iff.mp found).1
    obtain ⟨us, held⟩ := Option.isSome_iff_exists.mp (there.mpr (Or.inr ⟨k, inside, runs⟩))
    rw [held, OrdMap.get_empty] at updates
    rw [OrdMap.get_mapValues, held, Option.map_some]
    congr 2

theorem PreOrderTree.store_returned (framed : PreOrderTree root frames) {a : Address} {s v : B256} :
    .store ⟨s, v⟩ ∈ returned frames a ↔ ∃ f ∈ frames, f.target = a ∧ .store ⟨s, v⟩ ∈ f.updates := by
  unfold returned
  rw [List.mem_flatMap]
  constructor
  · rintro ⟨k, member, stores⟩
    obtain ⟨inside, runs⟩ := List.mem_filter.mp member
    have found := List.getElem?_eq_getElem (framed.mem_visitLast.mp inside)
    unfold runsFor at runs
    unfold updatesOf at stores
    rw [found] at runs stores
    exact ⟨_, List.getElem_mem _, of_decide_eq_true runs, stores⟩
  · rintro ⟨f, member, rfl, stores⟩
    obtain ⟨k, found⟩ := List.mem_iff_getElem?.mp member
    refine ⟨k, List.mem_filter.mpr ⟨framed.mem_visitLast.mpr (List.getElem?_eq_some_iff.mp found).1, ?_⟩, ?_⟩
    · unfold runsFor
      rw [found]
      exact decide_eq_true rfl
    · unfold updatesOf
      rw [found]
      exact stores

end

/-- Where the last of several programs leaves what the others may only have left before it, together they leave what it
does. -/
theorem lastStored_flatMap {α : Type} (f : α → List StateUpdate) (left : α → Option B256) (s : B256) {xs : List α}
    {last : α} (leaves : ∀ a ∈ xs ++ [last], lastStored (f a) s = left a)
    (grows : ∀ a ∈ xs, (left a).isSome = true → (left last).isSome = true) :
    lastStored ((xs ++ [last]).flatMap f) s = left last := by
  rw [List.flatMap_append, List.flatMap_singleton, lastStored_append,
    leaves last (List.mem_append_right _ (List.mem_singleton_self last))]
  cases ends : left last with
  | some v => rfl
  | none =>
    rw [Option.none_or, ← Option.not_isSome_iff_eq_none]
    intro stores
    obtain ⟨v, member⟩ := lastStored_isSome_iff.mp stores
    obtain ⟨a, inside, stored⟩ := List.mem_flatMap.mp member
    have own := lastStored_isSome_iff.mpr ⟨v, stored⟩
    rw [leaves a (List.mem_append_left _ inside)] at own
    have := grows a inside own
    rw [ends] at this
    cases this

/-! ### The last return of a contract -/

/-- The last frame of `a` to return does so before step `e`. -/
structure LastReturn (t : CallTree) (tree : FrameTreeExtract) (a : Address) (e : Nat) : Prop where
  returns : ∃ k frame n body, tree.frames[k]? = some frame ∧ frame.target = a ∧ FrameScope t tree k n body ∧
    n + body.size = e
  latest : ∀ k frame n body, tree.frames[k]? = some frame → frame.target = a → FrameScope t tree k n body →
    n + body.size ≤ e

variable {H : Hashes} {trace : DefaultFrame} {root : Address} {elig : Eligibility} {cost : NestingCostModel}
variable {tree : FrameTreeExtract} {t : CallTree}

theorem LastReturn.unique {a : Address} {e e' : Nat} (last : LastReturn t tree a e) (last' : LastReturn t tree a e') :
    e = e' := by
  obtain ⟨k, frame, n, body, found, target, scope, rfl⟩ := last.returns
  obtain ⟨k', frame', n', body', found', target', scope', rfl⟩ := last'.returns
  exact Nat.le_antisymm (last'.latest k frame n body found target scope)
    (last.latest k' frame' n' body' found' target' scope')

theorem SplitRun.preOrderTree (run : SplitRun H trace root elig cost tree) : PreOrderTree root tree.frames := by
  rw [run.frames]
  exact run.final.settled.preOrderTree run.final.done run.final.first

/-- The frames of a contract leave what was last written there before the last of them returned. -/
theorem SplitRun.returned_leaves (run : SplitRun H trace root elig cost tree) (wf : t.WellFormed 1)
    (flat : trace.structLogs = t.flatten) {f : FrameProgram} (member : f ∈ tree.frames) :
    ∃ e, LastReturn t tree f.target e ∧ ∀ s, lastStored (returned tree.frames f.target) s =
      wrote (t.writesBefore CallTree.unborn (some root) 0 e) f.target s := by
  have framed := run.preOrderTree
  have spanned : ∀ k, ∃ n body, k < tree.frames.length → FrameScope t tree k n body := by
    intro k
    by_cases inside : k < tree.frames.length
    · obtain ⟨-, -, -, n, body, -, -, -, -, -, -, -, scope⟩ :=
        run.scoped_of_frame wf flat (List.getElem?_eq_getElem inside)
      exact ⟨n, body, fun _ => scope⟩
    · exact ⟨0, t, fun there => absurd there inside⟩
  choose starts bodies scope using spanned
  have spans : ∀ k n body, k < tree.frames.length → FrameScope t tree k n body →
      starts k = n ∧ starts k + (bodies k).size = n + body.size := by
    intro k n body inside own
    obtain ⟨start, same⟩ := (scope k inside).unique own
    exact ⟨start, by rw [start, same]⟩
  have sorted := ((run.intervals wf flat spans).visitLast_sorted tree.frames.length 0
    (List.length_pos_of_mem member)).1
  have own := sorted.filter (runsFor tree.frames f.target)
  have runs : ∀ k, k ∈ (PreOrder.visitLast (childrenOf tree.frames) tree.frames.length 0).filter
      (runsFor tree.frames f.target) ↔ ∃ frame, tree.frames[k]? = some frame ∧ frame.target = f.target := by
    intro k
    rw [List.mem_filter, framed.mem_visitLast]
    constructor
    · rintro ⟨inside, runs⟩
      have found := List.getElem?_eq_getElem inside
      unfold runsFor at runs
      rw [found] at runs
      exact ⟨_, found, of_decide_eq_true runs⟩
    · rintro ⟨frame, found, target⟩
      refine ⟨(List.getElem?_eq_some_iff.mp found).1, ?_⟩
      unfold runsFor
      rw [found]
      exact decide_eq_true target
  have leaves : ∀ k ∈ (PreOrder.visitLast (childrenOf tree.frames) tree.frames.length 0).filter
      (runsFor tree.frames f.target), ∀ s, lastStored (updatesOf tree.frames k) s =
        wrote (t.writesBefore CallTree.unborn (some root) 0 (starts k + (bodies k).size)) f.target s := by
    intro k inside s
    obtain ⟨frame, found, target⟩ := (runs k).mp inside
    unfold updatesOf
    rw [found, ← target]
    exact run.left wf flat found (scope k (List.getElem?_eq_some_iff.mp found).1) s
  have some₀ : (PreOrder.visitLast (childrenOf tree.frames) tree.frames.length 0).filter
      (runsFor tree.frames f.target) ≠ [] := by
    obtain ⟨k, found⟩ := List.mem_iff_getElem?.mp member
    exact List.ne_nil_of_mem ((runs k).mpr ⟨f, found, rfl⟩)
  unfold returned
  obtain ⟨xs, last, split⟩ := List.eq_nil_or_concat'  _ |>.resolve_left some₀
  rw [split] at own runs leaves ⊢
  have before : ∀ k ∈ xs, starts k + (bodies k).size < starts last + (bodies last).size := fun k inside =>
    (List.pairwise_append.mp own).2.2 k inside last (List.mem_singleton_self last)
  refine ⟨starts last + (bodies last).size, ⟨?_, ?_⟩, fun s => ?_⟩
  · obtain ⟨frame, found, target⟩ := (runs last).mp (List.mem_append_right _ (List.mem_singleton_self last))
    exact ⟨last, frame, _, _, found, target, scope last (List.getElem?_eq_some_iff.mp found).1, rfl⟩
  · intro k frame n body found target own
    rw [← (spans k n body (List.getElem?_eq_some_iff.mp found).1 own).2]
    rcases List.mem_append.mp ((runs k).mpr ⟨frame, found, target⟩) with earlier | here
    · exact Nat.le_of_lt (before k earlier)
    · rw [List.mem_singleton.mp here]
  · refine lastStored_flatMap _ (fun k =>
      wrote (t.writesBefore CallTree.unborn (some root) 0 (starts k + (bodies k).size)) f.target s) s
      (fun k inside => leaves k inside s) ?_
    intro k inside there
    obtain ⟨w, written, place⟩ := (wrote_isSome_iff _ _ _).mp there
    exact (wrote_isSome_iff _ _ _).mpr ⟨w, CallTree.writesBefore_mono (Nat.le_of_lt (before k inside)) written, place⟩

/-! ### Seeds and originals -/

namespace Execution

/-- In every slot of the consumer that the call leaves unchanged, the last `SSTORE` of the consumer's closure, undone or
not, writes the original. -/
def ClosureRestores (x : Execution) : Prop :=
  ∀ s v, x.tree.lastSstore s = some v → x.before x.consumer s = x.after x.consumer s → v = x.before x.consumer s

/-- Every slot of a contract with a frame that the call leaves unchanged, and writes before the last of its frames
returns, holds its original then. -/
def FramesRestore (x : Execution) (tree : FrameTreeExtract) : Prop :=
  ∀ a e, LastReturn x.tree tree a e → ∀ s v,
    wrote (x.tree.writesBefore CallTree.unborn (some x.consumer) 0 e) a s = some v → x.before a s = x.after a s →
      v = x.before a s

/-- Every slot that a frame stores is seeded with its original. -/
def FramesSeeded (x : Execution) (diff : DiffMode) (frames : List FrameProgram) : Prop :=
  ∃ seeds, frameTreeSeeds (some diff) frames = some seeds ∧
    ∀ f ∈ frames, ∃ slots, seeds.get f.target = some slots ∧ Seeded x.before f.target f.updates slots

end Execution

/-- The seeds of a program are the storage before the call exactly when it restores what the call leaves unchanged: the
legacy program with its last store, undone or not, a contract's frames when the last of them returns. -/
theorem seeds_original_iff (x : Execution) (diff : DiffMode) (diffs : x.Diffs diff) (H : Hashes)
    (owned : Finset Address) (cost : NestingCostModel) (origin : Option Address) :
    (∀ extract, computeStateUpdates x.trace origin = .ok extract →
      (Seeded x.before x.consumer extract.stateUpdates (originalStorage diff x.consumer extract.stateUpdates) ↔
        x.ClosureRestores)) ∧
    ∀ tree, computeFrameTreeHypothetical H x.trace x.consumer owned cost = .ok tree →
      (x.FramesSeeded diff tree.frames ↔ x.FramesRestore tree) := by
  constructor
  · intro extract answer
    rw [diffs.seeded_iff]
    unfold Execution.ClosureRestores
    simp only [lastStored_computeStateUpdates answer x.wellFormed rfl]
  · intro tree answer
    obtain ⟨run⟩ := splitFrameTree_run answer
    have framed := run.preOrderTree
    obtain ⟨seeds, seeded, each⟩ := framed.frameTreeSeeds_eq diff
    -- The frames of a contract are seeded together.
    have together : ∀ a, Seeded x.before a (returned tree.frames a) (originalStorage diff a (returned tree.frames a)) ↔
        ∀ f ∈ tree.frames, f.target = a →
          Seeded x.before a f.updates (originalStorage diff a (returned tree.frames a)) := by
      intro a
      constructor
      · intro all f member target s v stores
        exact all s v (framed.store_returned.mpr ⟨f, member, target, stores⟩)
      · intro all s v stores
        obtain ⟨f, member, target, stores⟩ := framed.store_returned.mp stores
        exact all f member target s v stores
    constructor
    · rintro ⟨seeds', seeded', own⟩ a e last s v written same
      obtain rfl := Option.some.inj (seeded.symm.trans seeded')
      obtain ⟨k, frame, n, body, found, rfl, -, -⟩ := last.returns
      obtain ⟨e', last', leaves⟩ := run.returned_leaves x.wellFormed rfl (List.mem_of_getElem? found)
      obtain rfl := last.unique last'
      refine (diffs.seeded_iff _ _).mp ((together frame.target).mpr ?_) s v ((leaves s).trans written) same
      intro f member target
      obtain ⟨slots, held, good⟩ := own f member
      rw [each f member] at held
      obtain rfl := Option.some.inj held
      rw [← target]
      exact good
    · intro restores
      refine ⟨seeds, seeded, fun f member => ⟨_, each f member, ?_⟩⟩
      obtain ⟨e, last, leaves⟩ := run.returned_leaves x.wellFormed rfl member
      refine (together f.target).mp ((diffs.seeded_iff _ _).mpr ?_) f member rfl
      intro s v left same
      exact restores f.target e last s v ((leaves s).symm.trans left) same

/-- The consumer `7` stores `v` in a delegate frame that reverts, then calls the owned `8`, which stores `v`, and `9`,
which calls `8` again: it stores zero. -/
def revisitingTree (v : U256) : CallTree :=
  .enter { op := .delegatecall, stack := some [0, 0, 0, 0, 6, 0] }
    (.step { op := .sstore, depth := 2, stack := some [v, 1] }
      (.step { op := .other "REVERT", depth := 2, stack := some [0, 0] } .done))
    (.step { op := .other "POP", stack := some [0] }
      (.enter { op := .call, gas := 50000000, stack := some [0, 0, 0, 0, 0, 8, 0] }
        (.step { op := .sstore, depth := 2, stack := some [v, 1] }
          (.step { op := .other "STOP", depth := 2, stack := some [] } .done))
        (.step { op := .other "POP", gas := 10000000, stack := some [1] }
          (.enter { op := .call, gas := 10000000, stack := some [0, 0, 0, 0, 0, 9, 0] }
            (.enter { op := .call, depth := 2, stack := some [0, 0, 0, 0, 0, 8, 0] }
              (.step { op := .sstore, depth := 3, stack := some [0, 1] }
                (.step { op := .other "STOP", depth := 3, stack := some [] } .done))
              (.step { op := .other "STOP", depth := 2, stack := some [1] } .done))
            (.step { op := .other "STOP", stack := some [1] } .done)))))

def revisiting (v : U256) : Execution where
  consumer := 7
  tree := revisitingTree v
  before := fun _ _ => 0
  wellFormed := by
    refine ⟨⟨rfl, rfl, rfl⟩, rfl, rfl, rfl, ⟨⟨rfl, rfl, rfl⟩, nofun, ⟨rfl, rfl, rfl⟩, nofun, trivial⟩, rfl,
      ⟨rfl, rfl, rfl⟩, nofun, ⟨rfl, rfl, rfl⟩, rfl, rfl, rfl,
      ⟨⟨rfl, rfl, rfl⟩, nofun, ⟨rfl, rfl, rfl⟩, nofun, trivial⟩, rfl, ⟨rfl, rfl, rfl⟩, nofun, ⟨rfl, rfl, rfl⟩, rfl,
      rfl, rfl, ⟨⟨rfl, rfl, rfl⟩, rfl, rfl, rfl, ⟨⟨rfl, rfl, rfl⟩, nofun, ⟨rfl, rfl, rfl⟩, nofun, trivial⟩, rfl,
      ⟨rfl, rfl, rfl⟩, nofun, trivial⟩, rfl, ⟨rfl, rfl, rfl⟩, nofun, trivial⟩
  readOnly := by simp [revisitingTree, CallTree.ReadOnly]
  bounded := by simp [revisitingTree, CallTree.size]

theorem revisiting_after (v : U256) (a : Address) (s : B256) : (revisiting v).after a s = 0 := by
  have writes : (revisiting v).writes = [⟨5, 8, 1, v⟩, ⟨10, 8, 1, 0⟩] := rfl
  unfold Execution.after
  rw [writes]
  by_cases here : (8, 1) = (a, s)
  · simp [wrote, Write.entry, WriteLog.last, here]
  · simp [wrote, Write.entry, WriteLog.last, here, revisiting]

/-- No slot changes. -/
theorem revisiting_diffs (v : U256) : (revisiting v).Diffs {} where
  unchanged _ _ _ := ⟨rfl, rfl⟩
  changed a s differ := absurd (revisiting_after v a s).symm differ

/-- Both programs store `v` in slot one, the legacy one of `7` and the frame of `8`, and both seed it with `v`. -/
def revisitingSeeds (v : U256) : Bool :=
  (computeStateUpdates (revisiting v).trace none).toOption.any (fun extract =>
    decide (.store ⟨1, v⟩ ∈ extract.stateUpdates) &&
      decide ((originalStorage {} 7 extract.stateUpdates).get 1 = some v)) &&
  (computeFrameTreeHypothetical ⟨fun _ => 0, fun _ => 0⟩ (revisiting v).trace 7 {8} nestingCostModelV1).toOption.any
    fun tree => tree.frames.any (fun f => decide (f.target = 8) && decide (.store ⟨1, v⟩ ∈ f.updates)) &&
      (frameTreeSeeds (some {}) tree.frames).any fun seeds => decide ((seeds.get 8).bind (OrdMap.get · 1) = some v)

theorem revisiting_seeds {v : U256} (seeds : revisitingSeeds v = true) :
    (∃ extract, computeStateUpdates (revisiting v).trace none = .ok extract ∧
      .store ⟨1, v⟩ ∈ extract.stateUpdates ∧ (originalStorage {} 7 extract.stateUpdates).get 1 = some v) ∧
    ∃ tree, computeFrameTreeHypothetical ⟨fun _ => 0, fun _ => 0⟩ (revisiting v).trace 7 {8} nestingCostModelV1 =
        .ok tree ∧ (∃ f ∈ tree.frames, f.target = 8 ∧ .store ⟨1, v⟩ ∈ f.updates) ∧
      ∃ seeds slots, frameTreeSeeds (some {}) tree.frames = some seeds ∧ seeds.get 8 = some slots ∧
        slots.get 1 = some v := by
  obtain ⟨legacy, framed⟩ := Bool.and_eq_true_iff.mp seeds
  constructor
  · obtain ⟨extract, answer, shape⟩ := Outcome.any_ok legacy
    obtain ⟨stores, seeded⟩ := Bool.and_eq_true_iff.mp shape
    exact ⟨extract, answer, of_decide_eq_true stores, of_decide_eq_true seeded⟩
  · obtain ⟨tree, answer, shape⟩ := Outcome.any_ok framed
    obtain ⟨stores, seeded⟩ := Bool.and_eq_true_iff.mp shape
    obtain ⟨f, member, own⟩ := List.any_eq_true.mp stores
    obtain ⟨target, stores⟩ := Bool.and_eq_true_iff.mp own
    obtain ⟨seeds, found, here⟩ := (Option.any_eq_true _ _).mp seeded
    obtain ⟨slots, held, value⟩ := Option.bind_eq_some_iff.mp (of_decide_eq_true here)
    exact ⟨tree, answer, ⟨f, member, of_decide_eq_true target, of_decide_eq_true stores⟩, seeds, slots, found, held, value⟩

/-- What is undone and what is written over was zero, as both slots were: the seeds are right. -/
theorem seeds_original_zero :
    (∃ extract, computeStateUpdates (revisiting 0).trace none = .ok extract ∧ .store ⟨1, 0⟩ ∈ extract.stateUpdates ∧
      Seeded (revisiting 0).before 7 extract.stateUpdates (originalStorage {} 7 extract.stateUpdates)) ∧
    ∃ tree, computeFrameTreeHypothetical ⟨fun _ => 0, fun _ => 0⟩ (revisiting 0).trace 7 {8} nestingCostModelV1 =
        .ok tree ∧ (∃ f ∈ tree.frames, f.target = 8 ∧ .store ⟨1, 0⟩ ∈ f.updates) ∧
      (revisiting 0).FramesSeeded {} tree.frames := by
  obtain ⟨⟨extract, extracted, stores, -⟩, tree, split, frame, -⟩ := revisiting_seeds (v := 0) (by decide +kernel)
  obtain ⟨legacy, framed⟩ := seeds_original_iff (revisiting 0) {} (revisiting_diffs 0) ⟨fun _ => 0, fun _ => 0⟩ {8}
    nestingCostModelV1 none
  refine ⟨⟨extract, extracted, stores, (legacy extract extracted).mpr ?_⟩, tree, split, frame,
    (framed tree split).mpr ?_⟩
  · intro s v last _
    have closure : (revisiting 0).tree.lastSstore s = WriteLog.last s [(1, 0)] := rfl
    rw [closure, WriteLog.last_singleton] at last
    split at last
    · exact (Option.some.inj last).symm
    · cases last
  · intro a e _ s v written _
    have writes : (revisiting 0).tree.writes CallTree.unborn (some 7) 0 = [⟨5, 8, 1, 0⟩, ⟨10, 8, 1, 0⟩] := rfl
    obtain ⟨w, member, same⟩ := List.mem_map.mp (WriteLog.mem_of_last written)
    have inside : w ∈ (revisiting 0).tree.writes CallTree.unborn (some 7) 0 := (List.mem_filter.mp member).1
    rw [writes, List.mem_pair] at inside
    rcases inside with rfl | rfl <;> exact (Prod.mk.inj same).2.symm

/-- Slot one was zero in both contracts, and both are seeded with five. -/
theorem seeds_original_revisited : (revisiting 5).Diffs {} ∧
    (∃ extract, computeStateUpdates (revisiting 5).trace none = .ok extract ∧
      ¬Seeded (revisiting 5).before 7 extract.stateUpdates (originalStorage {} 7 extract.stateUpdates)) ∧
    ∃ tree, computeFrameTreeHypothetical ⟨fun _ => 0, fun _ => 0⟩ (revisiting 5).trace 7 {8} nestingCostModelV1 =
        .ok tree ∧ ¬(revisiting 5).FramesSeeded {} tree.frames := by
  obtain ⟨⟨extract, extracted, stores, seed⟩, tree, split, ⟨f, member, target, storesF⟩, seeds, slots, found, held, seedF⟩ :=
    revisiting_seeds (v := 5) (by decide +kernel)
  refine ⟨revisiting_diffs 5, ⟨extract, extracted, fun seeded => ?_⟩, tree, split, ?_⟩
  · have zero := seeded 1 5 stores
    rw [seed] at zero
    cases zero
  · rintro ⟨seeds', found', own⟩
    obtain rfl := Option.some.inj (found.symm.trans found')
    obtain ⟨slots', held', seeded⟩ := own f member
    rw [target] at held'
    obtain rfl := Option.some.inj (held.symm.trans held')
    have zero := seeded 1 5 storesF
    rw [seedF] at zero
    cases zero

end GasAnalyzer
