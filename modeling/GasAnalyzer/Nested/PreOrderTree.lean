import Mathlib
import GasAnalyzer.Library.Rank
import GasAnalyzer.Nested.Encodable
import GasAnalyzer.Nested.Settling

/-!
# Compaction

Renumbering settled programs by how many kept ones precede them gives a pre-order tree of frames, and
such a tree encodes once its root has a transition index.
-/

namespace GasAnalyzer

open Outcome

def nestedUpdates (updates : List StateUpdate) : List Nested :=
  updates.filterMap fun
    | .nested n => some n
    | _ => none

theorem length_nestedUpdates (updates : List StateUpdate) :
    (nestedUpdates updates).length = (updates.filter StateUpdate.isNested).length := by
  induction updates with
  | nil => rfl
  | cons update rest ih =>
    cases update <;> simp_all [nestedUpdates, List.filter_cons, StateUpdate.isNested]

def childrenOf (frames : List FrameProgram) (i : Nat) : List Nat :=
  (frames[i]?.map FrameProgram.children).getD []

/-- The op that hands frame `c` its program. -/
def Names (frames : List FrameProgram) (n : Nested) (c : Nat) : Prop :=
  ∃ child, frames[c]? = some child ∧ n.target = child.target ∧ n.value = child.value

structure PreOrderTree (root : Address) (frames : List FrameProgram) : Prop where
  root : ∃ f, frames[0]? = some f ∧ f.target = root
  parent : ∀ i, 0 < i → i < frames.length → ∃! q, i ∈ childrenOf frames q
  once : ∀ q, (childrenOf frames q).Nodup
  bounds : ∀ q, ∀ c ∈ childrenOf frames q, q < c ∧ c < frames.length
  preOrder : PreOrder.visit (childrenOf frames) frames.length 0 = List.range frames.length
  nested : ∀ f ∈ frames, List.Forall₂ (Names frames) (nestedUpdates f.updates) f.children
  caller : ∀ f ∈ frames, ∀ c ∈ f.children, ∃ child, frames[c]? = some child ∧ child.caller = f.target
  indexed : ∀ (i : Nat) (f : FrameProgram), 0 < i → frames[i]? = some f → f.transitionIndex.isSome = true

def ProgramState.kept (p : ProgramState) : Bool := !p.dropped

def ProgramState.frame (ps : List ProgramState) (p : ProgramState) : FrameProgram where
  target := p.target
  caller := p.caller
  value := p.value
  calldataHash := p.calldataHash
  transitionIndex := p.transitionIndex
  updates := (p.updates.getD []).map Op.update
  children := p.children.map (remapId ps)

theorem compact_ok {ps : List ProgramState} (done : DoneFrom 0 ps) :
    compact ps = .ok ((keptPrograms ps).map (ProgramState.frame ps)) := by
  have each : ∀ p ∈ keptPrograms ps, compactProgram ps p = .ok (p.frame ps) := by
    intro p member
    obtain ⟨inside, alive⟩ := List.mem_filter.mp member
    obtain ⟨id, found⟩ := List.mem_iff_getElem?.mp inside
    obtain ⟨ops, updates⟩ := Option.isSome_iff_exists.mp (done id p (Nat.zero_le _) found (by simpa using alive))
    simp [compactProgram, ProgramState.frame, updates, okOr]
  unfold compact
  generalize keptPrograms ps = kept at each
  induction kept with
  | nil => rfl
  | cons p rest ih =>
    rw [List.mapM_cons, each p List.mem_cons_self, ih (fun q member => each q (List.mem_cons_of_mem _ member))]
    rfl

namespace Settled

variable {ps : List ProgramState}

theorem kept_alive {p : ProgramState} (alive : p.dropped = false) : p.kept = true := by
  simp [ProgramState.kept, alive]

theorem remapId_alive {id : Nat} {p : ProgramState} (found : ps[id]? = some p) (alive : p.dropped = false) :
    remapId ps id = rank ProgramState.kept ps id := by
  unfold remapId
  rw [if_pos (by simp [found, alive])]
  rfl

/-- A kept program's frame. -/
theorem frame_at {id : Nat} {p : ProgramState} (found : ps[id]? = some p) (alive : p.dropped = false) :
    ((keptPrograms ps).map (ProgramState.frame ps))[rank ProgramState.kept ps id]? = some (p.frame ps) := by
  have here : (keptPrograms ps)[rank ProgramState.kept ps id]? = some p :=
    getElem?_rank found (kept_alive alive)
  rw [List.getElem?_map, here]
  rfl

theorem of_frame {k : Nat} {f : FrameProgram}
    (found : ((keptPrograms ps).map (ProgramState.frame ps))[k]? = some f) :
    ∃ id p, ps[id]? = some p ∧ p.dropped = false ∧ rank ProgramState.kept ps id = k ∧ f = p.frame ps := by
  rw [List.getElem?_map] at found
  obtain ⟨p, foundP, rfl⟩ := Option.map_eq_some_iff.mp found
  have foundP : (ps.filter ProgramState.kept)[k]? = some p := foundP
  obtain ⟨id, here, alive, rank⟩ := exists_rank foundP
  exact ⟨id, p, here, by simpa [ProgramState.kept] using alive, rank, rfl⟩

/-- The parent of a kept program is kept. -/
theorem parent_kept (settled : Settled ps) {id q : Nat} {p : ProgramState} (found : ps[id]? = some p)
    (alive : p.dropped = false) (parent : p.parent = some q) :
    ∃ p', ps[q]? = some p' ∧ p'.dropped = false ∧ q < id ∧ p.caller = p'.target := by
  have lt := older_of_forest settled.forest id p q found parent
  obtain ⟨-, q', m, parent', -, foundM, caller⟩ :=
    settled.forest.child id p.node (by rw [getElem?_nodes, found]; rfl) (by omega)
  obtain rfl : q = q' := Option.some.inj (parent.symm.trans parent')
  rw [getElem?_nodes] at foundM
  obtain ⟨p', found', rfl⟩ := Option.map_eq_some_iff.mp foundM
  refine ⟨p', found', ?_, lt, caller⟩
  by_contra dropped
  have := settled.closed id p q found parent ⟨p', found', by simpa using dropped⟩
  rw [alive] at this
  cases this

theorem mem_children (settled : Settled ps) {q : Nat} {p : ProgramState} (found : ps[q]? = some p)
    (alive : p.dropped = false) {c : Nat} :
    c ∈ p.children ↔ ∃ child, ps[c]? = some child ∧ child.parent = some q ∧ child.dropped = false := by
  rw [settled.children q p found alive, List.mem_filter, isChild_nodes, List.mem_range]
  constructor
  · exact fun h => h.2
  · rintro ⟨child, foundC, rest⟩
    exact ⟨(List.getElem?_eq_some_iff.mp foundC).1, child, foundC, rest⟩

theorem frame_children (settled : Settled ps) {q : Nat} {p : ProgramState} (found : ps[q]? = some p)
    (alive : p.dropped = false) :
    (p.frame ps).children = p.children.map (rank ProgramState.kept ps) := by
  apply List.map_congr_left
  intro c member
  obtain ⟨child, foundC, -, aliveC⟩ := (settled.mem_children found alive).mp member
  exact remapId_alive foundC aliveC

/-- The parent of a frame, by way of the program it came from. -/
noncomputable def frameParent (ps : List ProgramState) (k : Nat) : Nat :=
  haveI := Classical.propDecidable
  if h : ∃ id p, ps[id]? = some p ∧ p.dropped = false ∧ rank ProgramState.kept ps id = k then
    rank ProgramState.kept ps (parentOf (nodes ps) h.choose)
  else 0

theorem frameParent_rank {id : Nat} {p : ProgramState} (found : ps[id]? = some p)
    (alive : p.dropped = false) :
    frameParent ps (rank ProgramState.kept ps id) = rank ProgramState.kept ps (parentOf (nodes ps) id) := by
  have here : ∃ id' p', ps[id']? = some p' ∧ p'.dropped = false ∧
      rank ProgramState.kept ps id' = rank ProgramState.kept ps id := ⟨id, p, found, alive, rfl⟩
  unfold frameParent
  rw [dif_pos here]
  obtain ⟨p', found', alive', same⟩ := here.choose_spec
  rw [rank_inj found' (kept_alive alive') found (kept_alive alive) same]

theorem origin {k : Nat} (inside : k < (keptPrograms ps).length) :
    ∃ id p, ps[id]? = some p ∧ p.dropped = false ∧ rank ProgramState.kept ps id = k := by
  have found := List.getElem?_eq_getElem (show k < ((keptPrograms ps).map (ProgramState.frame ps)).length by
    simpa using inside)
  obtain ⟨id, p, found, alive, same, -⟩ := of_frame found
  exact ⟨id, p, found, alive, same⟩

theorem frameParent_crossing (settled : Settled ps) :
    PreOrder.NonCrossing (frameParent ps) (keptPrograms ps).length := by
  constructor
  · intro c pos inside
    obtain ⟨id, p, found, alive, rfl⟩ := origin inside
    have notRoot : 0 < id := by
      rcases Nat.eq_zero_or_pos id with rfl | positive
      · rw [rank_zero] at pos
        omega
      · exact positive
    obtain ⟨-, q, -, parent, -⟩ := settled.forest.child id p.node (by rw [getElem?_nodes, found]; rfl) notRoot
    obtain ⟨p', found', alive', lt, -⟩ := settled.parent_kept found alive parent
    rw [frameParent_rank found alive, parentOf_eq (m := p.node) (by rw [getElem?_nodes, found]; rfl) parent]
    exact rank_lt found' (kept_alive alive') lt
  · intro x c inside after upto
    obtain ⟨idC, pC, foundC, aliveC, rfl⟩ := origin inside
    obtain ⟨idX, pX, foundX, aliveX, rfl⟩ := origin (Nat.lt_of_le_of_lt upto inside)
    rw [frameParent_rank foundC aliveC] at after ⊢
    rw [frameParent_rank foundX aliveX]
    have bound : idC < (nodes ps).length := by
      simpa using (List.getElem?_eq_some_iff.mp foundC).1
    have below : parentOf (nodes ps) idC < idX := by
      by_contra notBelow
      have := @rank_mono _ ProgramState.kept ps _ _ (Nat.le_of_not_lt notBelow)
      omega
    have le : idX ≤ idC := by
      by_contra notLe
      have := rank_lt foundC (kept_alive aliveC) (Nat.lt_of_not_le notLe)
      omega
    exact rank_mono (settled.forest.crossing.below idX idC bound below le)

theorem mem_frame_children (settled : Settled ps) {q : Nat} {p : ProgramState} (found : ps[q]? = some p)
    (alive : p.dropped = false) {k : Nat} :
    k ∈ (p.frame ps).children ↔ rank ProgramState.kept ps q < k ∧ k < (keptPrograms ps).length ∧
      frameParent ps k = rank ProgramState.kept ps q := by
  rw [settled.frame_children found alive, List.mem_map]
  constructor
  · rintro ⟨c, member, rfl⟩
    obtain ⟨child, foundC, parent, aliveC⟩ := (settled.mem_children found alive).mp member
    obtain ⟨-, -, -, lt, -⟩ := settled.parent_kept foundC aliveC parent
    refine ⟨rank_lt found (kept_alive alive) lt, ?_, ?_⟩
    · simpa using (List.getElem?_eq_some_iff.mp (frame_at foundC aliveC)).1
    · rw [frameParent_rank foundC aliveC,
        parentOf_eq (m := child.node) (by rw [getElem?_nodes, foundC]; rfl) parent]
  · rintro ⟨after, inside, hangs⟩
    obtain ⟨c, child, foundC, aliveC, rfl⟩ := origin inside
    have pos : 0 < c := by
      rcases Nat.eq_zero_or_pos c with rfl | positive
      · rw [rank_zero] at after
        omega
      · exact positive
    obtain ⟨-, q', -, parent, -⟩ :=
      settled.forest.child c child.node (by rw [getElem?_nodes, foundC]; rfl) pos
    obtain ⟨p', found', alive', -⟩ := settled.parent_kept foundC aliveC parent
    rw [frameParent_rank foundC aliveC,
      parentOf_eq (m := child.node) (by rw [getElem?_nodes, foundC]; rfl) parent] at hangs
    obtain rfl := rank_inj found' (kept_alive alive') found (kept_alive alive) hangs
    exact ⟨c, (settled.mem_children found alive).mpr ⟨child, foundC, parent, aliveC⟩, rfl⟩

theorem children_sorted (settled : Settled ps) {q : Nat} {p : ProgramState} (found : ps[q]? = some p)
    (alive : p.dropped = false) : (p.frame ps).children.Pairwise (· < ·) := by
  rw [settled.frame_children found alive, List.pairwise_map]
  have sorted : p.children.Pairwise (· < ·) := by
    rw [settled.children q p found alive]
    exact List.pairwise_lt_range.filter _
  refine sorted.imp_of_mem ?_
  intro c d memberC _ lt
  obtain ⟨child, foundC, -, aliveC⟩ := (settled.mem_children found alive).mp memberC
  exact rank_lt foundC (kept_alive aliveC) lt

/-- A frame's children are the frames whose parent it is, in order. -/
theorem frame_children_eq (settled : Settled ps) {q : Nat} {p : ProgramState} (found : ps[q]? = some p)
    (alive : p.dropped = false) :
    (p.frame ps).children =
      PreOrder.children (frameParent ps) (keptPrograms ps).length (rank ProgramState.kept ps q) := by
  refine (settled.children_sorted found alive).eq_of_mem_iff ?_ ?_
  · exact (List.pairwise_lt_range').filter _
  · intro k
    rw [settled.mem_frame_children found alive, PreOrder.children, List.mem_filter, List.mem_range'_1]
    simp only [decide_eq_true_eq]
    omega

theorem childrenOf_eq (settled : Settled ps) {k : Nat} (inside : k < (keptPrograms ps).length) :
    childrenOf ((keptPrograms ps).map (ProgramState.frame ps)) k =
      PreOrder.children (frameParent ps) (keptPrograms ps).length k := by
  obtain ⟨id, p, found, alive, rfl⟩ := origin inside
  unfold childrenOf
  rw [frame_at found alive]
  exact settled.frame_children_eq found alive

/-! ### The tree -/

theorem nestedUpdates_map (ops : List Op) :
    nestedUpdates (ops.map Op.update) = nestedUpdates ((nestedOps ops).map Op.update) := by
  induction ops with
  | nil => rfl
  | cons op rest ih =>
    cases h : op.update <;> simp_all [nestedUpdates, nestedOps, StateUpdate.isNested]

theorem names_children (settled : Settled ps) {q : Nat} {p : ProgramState} (found : ps[q]? = some p)
    (alive : p.dropped = false) (done : p.updates.isSome = true) :
    List.Forall₂ (Names ((keptPrograms ps).map (ProgramState.frame ps)))
      (nestedUpdates (p.frame ps).updates) (p.frame ps).children := by
  obtain ⟨ops, updates⟩ := Option.isSome_iff_exists.mp done
  have owed := settled.ops q p ops found alive updates
  rw [settled.frame_children found alive]
  show List.Forall₂ _ (nestedUpdates ((p.updates.getD []).map Op.update)) _
  rw [updates, Option.getD_some, nestedUpdates_map, owed]
  have all : ∀ c ∈ p.children, ∃ child, ps[c]? = some child ∧ child.dropped = false := by
    intro c member
    obtain ⟨child, foundC, -, aliveC⟩ := (settled.mem_children found alive).mp member
    exact ⟨child, foundC, aliveC⟩
  generalize p.children = children at all
  induction children with
  | nil => exact .nil
  | cons c rest ih =>
    obtain ⟨child, foundC, aliveC⟩ := all c List.mem_cons_self
    have here : (nodes ps)[c]? = some child.node := by rw [getElem?_nodes, foundC]; rfl
    rw [show opsOf (nodes ps) (c :: rest) = child.node.op :: opsOf (nodes ps) rest by
      simp [opsOf, here]]
    refine .cons ⟨_, frame_at foundC aliveC, rfl, rfl⟩ ?_
    exact ih fun c' member => all c' (List.mem_cons_of_mem _ member)

theorem preOrderTree (settled : Settled ps) (done : DoneFrom 0 ps) {root : Address}
    (first : ∃ r, ps[0]? = some r ∧ r.target = root) :
    PreOrderTree root ((keptPrograms ps).map (ProgramState.frame ps)) := by
  set frames := (keptPrograms ps).map (ProgramState.frame ps) with same
  have length : frames.length = (keptPrograms ps).length := by simp [same]
  have outside : ∀ {q}, (keptPrograms ps).length ≤ q → childrenOf frames q = [] := by
    intro q beyond
    simp [childrenOf, List.getElem?_eq_none (length ▸ beyond)]
  have at_ : ∀ {f}, f ∈ frames → ∃ (id : Nat) (p : ProgramState), ps[id]? = some p ∧ p.dropped = false ∧
      f = p.frame ps := by
    intro f member
    obtain ⟨k, found⟩ := List.mem_iff_getElem?.mp member
    obtain ⟨id, p, found, alive, -, isFrame⟩ := of_frame found
    exact ⟨id, p, found, alive, isFrame⟩
  have crossing := settled.frameParent_crossing
  have pos : 0 < (keptPrograms ps).length := by
    obtain ⟨r, found, alive, -⟩ := settled.root
    have := (List.getElem?_eq_some_iff.mp (frame_at found alive)).1
    rw [List.length_map] at this
    omega
  have mem : ∀ {q c}, c ∈ childrenOf frames q ↔
      q < c ∧ c < (keptPrograms ps).length ∧ frameParent ps c = q := by
    intro q c
    rcases Nat.lt_or_ge q (keptPrograms ps).length with inside | beyond
    · rw [settled.childrenOf_eq inside, PreOrder.children, List.mem_filter, List.mem_range'_1]
      simp only [decide_eq_true_eq]
      omega
    · rw [outside beyond]
      simp only [List.not_mem_nil, false_iff]
      omega
  refine ⟨?_, ?_, ?_, ?_, ?_, ?_, ?_, ?_⟩
  · obtain ⟨r, found, target⟩ := first
    obtain ⟨r', found', alive, -⟩ := settled.root
    obtain rfl : r = r' := Option.some.inj (found.symm.trans found')
    have here := frame_at found alive
    rw [rank_zero] at here
    exact ⟨_, here, target⟩
  · intro i after inside
    rw [length] at inside
    refine ⟨frameParent ps i, mem.mpr ⟨crossing.lt i after inside, inside, rfl⟩, ?_⟩
    intro q member
    exact (mem.mp member).2.2.symm
  · intro q
    rcases Nat.lt_or_ge q (keptPrograms ps).length with inside | beyond
    · rw [settled.childrenOf_eq inside]
      exact (List.nodup_range' 1 (by omega)).filter _
    · rw [outside beyond]
      exact List.nodup_nil
  · intro q c member
    obtain ⟨after, inside, -⟩ := mem.mp member
    exact ⟨after, length ▸ inside⟩
  · rw [length, ← PreOrder.visit_eq_range crossing pos]
    refine PreOrder.visit_congr (n := (keptPrograms ps).length) ?_ ?_ _ 0 pos
    · exact fun i inside => settled.childrenOf_eq inside
    · intro i inside c member
      rw [← settled.childrenOf_eq inside] at member
      exact (mem.mp member).2.1
  · intro f member
    obtain ⟨id, p, found, alive, rfl⟩ := at_ member
    exact settled.names_children found alive (done id p (Nat.zero_le _) found alive)
  · intro f member c child
    obtain ⟨id, p, found, alive, rfl⟩ := at_ member
    rw [settled.frame_children found alive] at child
    obtain ⟨c', inside, rfl⟩ := List.mem_map.mp child
    obtain ⟨p', found', parent, alive'⟩ := (settled.mem_children found alive).mp inside
    obtain ⟨p'', found'', -, -, caller⟩ := settled.parent_kept found' alive' parent
    obtain rfl : p = p'' := Option.some.inj (found.symm.trans found'')
    exact ⟨_, frame_at found' alive', caller⟩
  · intro i f after found
    obtain ⟨id, p, foundP, alive, here, rfl⟩ := of_frame found
    have notRoot : 0 < id := by
      rcases Nat.eq_zero_or_pos id with rfl | positive
      · rw [rank_zero] at here
        omega
      · exact positive
    exact (settled.forest.child id p.node (by rw [getElem?_nodes, foundP]; rfl) notRoot).1.index

end Settled

/-! ### Encoding the tree -/

theorem PreOrderTree.encodes {root : Address} {frames : List FrameProgram} (tree : PreOrderTree root frames)
    (H : Hashes) (t : TreeParams) :
    (∃ encoded, encodeFrameTree H frames t = .ok encoded) ↔
      ∃ f, frames[0]? = some f ∧ f.transitionIndex.isSome = true := by
  constructor
  · rintro ⟨encoded, answer⟩
    obtain ⟨f, first, -⟩ := tree.root
    obtain ⟨index, -, indexed, -⟩ := ((encodeFrameTree_frames answer).2.2 0 f first).leaf
    exact ⟨f, first, by rw [indexed]; rfl⟩
  · rintro ⟨f, first, indexed⟩
    apply encodeFrameTree_answers
    · rintro rfl
      cases first
    · intro i g found
      have member := List.mem_of_getElem? found
      refine ⟨?_, ?_, ?_⟩
      · rw [← (tree.nested g member).length_eq, length_nestedUpdates]
      · intro c child
        exact tree.bounds i c (by simpa [childrenOf, found] using child)
      · rcases Nat.eq_zero_or_pos i with rfl | after
        · obtain rfl : f = g := Option.some.inj (first.symm.trans found)
          exact indexed
        · exact tree.indexed i g after found

/-- Whatever the trace, the split fails only on the trace itself, and what it returns is a pre-order
tree that encodes exactly when its root has a transition index. -/
theorem splitFrameTree_preOrderTree (H : Hashes) (trace : DefaultFrame) (root : Address)
    (elig : Eligibility) (cost : NestingCostModel) :
    Upheld (fun tree => PreOrderTree root tree.frames ∧ ∀ t : TreeParams,
      ((∃ encoded, encodeFrameTree H tree.frames t = .ok encoded) ↔
        ∃ f, tree.frames[0]? = some f ∧ f.transitionIndex.isSome = true))
      (splitFrameTree H trace root elig cost) := by
  unfold splitFrameTree
  refine Sat.bind (scanCandidates_upheld trace.structLogs) ?_
  rintro ⟨candidates, rootIndex⟩ enters
  refine Sat.bind (walk_upheld H elig candidates trace.structLogs enters trace.structLogs 0 _ rfl
    (initialWalk_sound root rootIndex) ?_) ?_
  · intro p log waits
    cases waits
  intro w sound
  refine Sat.bind (closeRoot_upheld sound _) ?_
  intro w closed
  refine Sat.bind (settlePrograms_upheld closed cost) ?_
  intro ps final
  rw [compact_ok final.done, Outcome.ok_bind]
  have tree := final.settled.preOrderTree final.done final.first
  exact ⟨tree, tree.encodes H⟩

end GasAnalyzer
