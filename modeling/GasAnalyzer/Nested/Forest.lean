import GasAnalyzer.Library.PreOrder
import GasAnalyzer.Core.FrameTree

/-!
# The forest of programs

A walk opens programs and drops them, and never changes what opening one fixed. `Node` is that fixed
part; a list of nodes is a forest in pre-order (`Forest`), and `childOps` lists the `NESTED` ops a
program owes to its children.
-/

namespace GasAnalyzer

/-- What opening a program fixes, and whether it was dropped since. -/
structure Node where
  target : Address
  value : U256
  caller : Address
  parent : Option Nat
  step : Nat
  transitionIndex : Option U256
  fallback : Option Call
  dropped : Bool

namespace Node

/-- The op that runs this node's program from its parent's. -/
def op (m : Node) : Op := ⟨.nested ⟨m.target, m.value, 0⟩, m.step⟩

@[simp] theorem op_isNested (m : Node) : m.op.update.isNested = true := rfl

/-- A frame opened by a `CALL` keeps that call and takes a transition index. -/
structure OfCall (m : Node) : Prop where
  index : m.transitionIndex.isSome
  call : ∃ c, m.fallback = some c ∧ c.target = m.target ∧ c.value = m.value

end Node

def ProgramState.node (p : ProgramState) : Node where
  target := p.target
  value := p.value
  caller := p.caller
  parent := p.parent
  step := p.step
  transitionIndex := p.transitionIndex
  fallback := p.fallback
  dropped := p.dropped

def nodes (programs : List ProgramState) : List Node := programs.map ProgramState.node

@[simp] theorem length_nodes (programs : List ProgramState) :
    (nodes programs).length = programs.length := by
  simp [nodes]

theorem getElem?_nodes (programs : List ProgramState) (id : Nat) :
    (nodes programs)[id]? = programs[id]?.map ProgramState.node := by
  simp [nodes]

theorem found_modify {α : Type} {xs : List α} {id c : Nat} {f : α → α} {x' : α}
    (found : (xs.modify id f)[c]? = some x') : ∃ x, xs[c]? = some x ∧ (if id = c then f x else x) = x' := by
  rw [List.getElem?_modify] at found
  exact Option.map_eq_some_iff.mp found

/-! ### Parents and children -/

def parentOf (ns : List Node) (id : Nat) : Nat := (ns[id]?.bind Node.parent).getD 0

theorem parentOf_eq {ns : List Node} {id q : Nat} {m : Node} (found : ns[id]? = some m)
    (parent : m.parent = some q) : parentOf ns id = q := by
  simp [parentOf, found, parent]

/-- Whether a node is a live child of program `p`. -/
def Node.childOf (p : Nat) (m : Node) : Bool := m.parent == some p && !m.dropped

def isChild (ns : List Node) (p id : Nat) : Bool := ns[id]?.any (Node.childOf p)

theorem isChild_iff {ns : List Node} {p id : Nat} :
    isChild ns p id = true ↔ ∃ m, ns[id]? = some m ∧ m.parent = some p ∧ m.dropped = false := by
  simp [isChild, Option.any_eq_true, Node.childOf]

theorem isChild_parentOf {ns : List Node} {p id : Nat} (child : isChild ns p id = true) :
    parentOf ns id = p := by
  obtain ⟨m, found, parent, -⟩ := isChild_iff.mp child
  exact parentOf_eq found parent

/-- The `NESTED` op program `p` owes to program `id`. -/
def childOp (ns : List Node) (p id : Nat) : Option Op :=
  (ns[id]?.filter (Node.childOf p)).map Node.op

theorem childOp_eq_none {ns : List Node} {p id : Nat} (none : isChild ns p id = false) :
    childOp ns p id = Option.none := by
  unfold isChild at none
  unfold childOp
  cases found : ns[id]? with
  | none => rfl
  | some m => simpa [found, Option.filter] using none

theorem childOp_eq_some {ns : List Node} {p id : Nat} {op : Op} :
    childOp ns p id = some op ↔ ∃ m, ns[id]? = some m ∧ m.childOf p = true ∧ m.op = op := by
  simp [childOp, and_assoc]

/-- The `NESTED` ops program `p` owes to the children numbered `lo .. hi`. -/
def childOps (ns : List Node) (p lo hi : Nat) : List Op :=
  (List.range' lo (hi - lo)).filterMap (childOp ns p)

theorem childOps_self (ns : List Node) (p lo : Nat) : childOps ns p lo lo = [] := by
  simp [childOps]

theorem childOps_split {ns : List Node} {p lo hi : Nat} (mid : Nat) (left : lo ≤ mid) (right : mid ≤ hi) :
    childOps ns p lo hi = childOps ns p lo mid ++ childOps ns p mid hi := by
  unfold childOps
  rw [PreOrder.range'_split left right, List.filterMap_append]

theorem childOps_congr {ns ns' : List Node} {p lo hi : Nat}
    (same : ∀ id, lo ≤ id → id < hi → childOp ns p id = childOp ns' p id) :
    childOps ns p lo hi = childOps ns' p lo hi := by
  unfold childOps
  apply List.filterMap_congr
  intro id member
  rw [List.mem_range'_1] at member
  exact same id member.1 (by omega)

theorem childOps_none {ns : List Node} {p lo hi : Nat}
    (none : ∀ id, lo ≤ id → id < hi → isChild ns p id = false) : childOps ns p lo hi = [] := by
  unfold childOps
  apply List.filterMap_eq_nil_iff.mpr
  intro id member
  rw [List.mem_range'_1] at member
  exact childOp_eq_none (none id member.1 (by omega))

theorem childOps_one {ns : List Node} {p id : Nat} {m : Node} (found : ns[id]? = some m)
    (parent : m.parent = some p) (alive : m.dropped = false) :
    childOps ns p id (id + 1) = [m.op] := by
  have owed : childOp ns p id = some m.op :=
    childOp_eq_some.mpr ⟨m, found, by simp [Node.childOf, parent, alive], rfl⟩
  rw [childOps, show id + 1 - id = 1 by omega]
  simp [owed]

/-! ### Forests -/

/-- The nodes of a walk: a root, and frames opened by calls of the frames before them, in pre-order. -/
structure Forest (ns : List Node) : Prop where
  root : ∃ r, ns[0]? = some r ∧ r.parent = none
  child : ∀ id m, ns[id]? = some m → 0 < id →
    m.OfCall ∧ ∃ q p, m.parent = some q ∧ q < id ∧ ns[q]? = some p ∧ m.caller = p.target
  crossing : PreOrder.NonCrossing (parentOf ns) ns.length

namespace Forest

variable {ns : List Node}

theorem pos (forest : Forest ns) : 0 < ns.length := by
  obtain ⟨r, found, -⟩ := forest.root
  exact (List.getElem?_eq_some_iff.mp found).1

/-- A node comes after its parent. -/
theorem parent_lt (forest : Forest ns) {id q : Nat} {m : Node} (found : ns[id]? = some m)
    (parent : m.parent = some q) : q < id := by
  rcases Nat.eq_zero_or_pos id with rfl | pos
  · obtain ⟨r, root, orphan⟩ := forest.root
    have same : r = m := Option.some.inj (root.symm.trans found)
    rw [same, parent] at orphan
    cases orphan
  · obtain ⟨-, q', p', parent', lt, -⟩ := forest.child id m found pos
    have same : q = q' := Option.some.inj (parent.symm.trans parent')
    omega

theorem lt_of_isChild (forest : Forest ns) {p id : Nat} (child : isChild ns p id = true) : p < id := by
  obtain ⟨m, found, parent, -⟩ := isChild_iff.mp child
  exact forest.parent_lt found parent

theorem childOps_from_self (forest : Forest ns) {p hi : Nat} (le : p ≤ hi) :
    childOps ns p 0 hi = childOps ns p p hi := by
  have early : childOps ns p 0 p = [] := by
    apply childOps_none
    intro id _ lt
    by_contra child
    have later := forest.lt_of_isChild (Bool.not_eq_false _ ▸ child)
    omega
  rw [childOps_split p (Nat.zero_le p) le, early, List.nil_append]

end Forest

/-! ### What dropping does not change -/

/-- A node apart from its mark. -/
def Node.bare (m : Node) : Node := { m with dropped := false }

theorem getElem?_of_bare {ns ns' : List Node} (same : ns'.map Node.bare = ns.map Node.bare) {id : Nat}
    {m : Node} (found : ns[id]? = some m) :
    ∃ m', ns'[id]? = some m' ∧ m'.bare = m.bare := by
  have here : (ns'.map Node.bare)[id]? = (ns.map Node.bare)[id]? := by rw [same]
  rw [List.getElem?_map, List.getElem?_map, found] at here
  obtain ⟨m', found', bare⟩ := Option.map_eq_some_iff.mp here
  exact ⟨m', found', bare⟩

theorem Node.eq_of_bare {m m' : Node} (bare : m'.bare = m.bare) :
    m' = { m with dropped := m'.dropped } := by
  cases m
  cases m'
  simp only [Node.bare, Node.mk.injEq] at bare ⊢
  simp [bare]

theorem parentOf_congr {ns ns' : List Node} (same : ns'.map Node.bare = ns.map Node.bare) (id : Nat) :
    parentOf ns' id = parentOf ns id := by
  unfold parentOf
  cases found : ns[id]? with
  | some m =>
    obtain ⟨m', found', bare⟩ := getElem?_of_bare same found
    rw [found', Option.bind_some, Option.bind_some, Node.eq_of_bare bare]
  | none =>
    cases found' : ns'[id]? with
    | some m' =>
      obtain ⟨m, found₀, -⟩ := getElem?_of_bare same.symm found'
      rw [found] at found₀
      cases found₀
    | none => rfl

theorem Forest.congr {ns ns' : List Node} (forest : Forest ns)
    (same : ns'.map Node.bare = ns.map Node.bare) : Forest ns' := by
  have length : ns'.length = ns.length := by simpa using congrArg List.length same
  refine ⟨?_, ?_, ?_, ?_⟩
  · obtain ⟨r, root, orphan⟩ := forest.root
    obtain ⟨r', root', bare⟩ := getElem?_of_bare same root
    exact ⟨r', root', by rw [Node.eq_of_bare bare]; exact orphan⟩
  · intro id m' found' pos
    obtain ⟨m, found, bare⟩ := getElem?_of_bare same.symm found'
    obtain ⟨made, q, p, parent, lt, foundQ, caller⟩ := forest.child id m found pos
    obtain ⟨p', foundQ', bareQ⟩ := getElem?_of_bare same foundQ
    rw [Node.eq_of_bare bare.symm]
    refine ⟨⟨made.index, made.call⟩, q, p', parent, lt, foundQ', ?_⟩
    rw [Node.eq_of_bare bareQ]
    exact caller
  · intro c pos lt
    rw [parentOf_congr same]
    exact forest.crossing.lt c pos (length ▸ lt)
  · intro x c lt below le
    rw [parentOf_congr same] at below ⊢
    rw [parentOf_congr same]
    exact forest.crossing.below x c (length ▸ lt) below le

/-- Opening a program below `q` keeps the forest as long as everything numbered after `q` hangs
below `q`. -/
theorem Forest.append {ns : List Node} (forest : Forest ns) {m p : Node} {q : Nat} (ofCall : m.OfCall)
    (parent : m.parent = some q) (found : ns[q]? = some p) (caller : m.caller = p.target)
    (above : ∀ id, q < id → id < ns.length → q ≤ parentOf ns id) : Forest (ns ++ [m]) := by
  have bound : q < ns.length := (List.getElem?_eq_some_iff.mp found).1
  have old : ∀ id, id < ns.length → parentOf (ns ++ [m]) id = parentOf ns id := by
    intro id lt
    simp [parentOf, List.getElem?_append_left lt]
  have new : parentOf (ns ++ [m]) ns.length = q := parentOf_eq (by simp) parent
  refine ⟨?_, ?_, ?_, ?_⟩
  · obtain ⟨r, root, orphan⟩ := forest.root
    exact ⟨r, by rw [List.getElem?_append_left forest.pos, root], orphan⟩
  · intro id m' found' pos
    rcases Nat.lt_or_ge id ns.length with lt | ge
    · rw [List.getElem?_append_left lt] at found'
      obtain ⟨made, q', p', parent', lt', found'', caller'⟩ := forest.child id m' found' pos
      exact ⟨made, q', p', parent', lt', by rw [List.getElem?_append_left (by omega), found''], caller'⟩
    · have here : id = ns.length := by
        have := (List.getElem?_eq_some_iff.mp found').1
        simp only [List.length_append, List.length_singleton] at this
        omega
      subst here
      have same : m = m' := by simpa using found'
      subst same
      exact ⟨ofCall, q, p, parent, bound, by rw [List.getElem?_append_left bound, found], caller⟩
  · intro c pos lt
    rw [List.length_append, List.length_singleton] at lt
    rcases Nat.lt_or_ge c ns.length with old' | new'
    · rw [old c old']
      exact forest.crossing.lt c pos old'
    · have here : c = ns.length := by omega
      rw [here, new]
      exact bound
  · intro x c lt below le
    rw [List.length_append, List.length_singleton] at lt
    rcases Nat.lt_or_ge c ns.length with old' | new'
    · rw [old c old'] at below ⊢
      rw [old x (by omega)]
      exact forest.crossing.below x c old' below le
    · have here : c = ns.length := by omega
      subst here
      rw [new] at below ⊢
      rcases Nat.lt_or_ge x ns.length with before | last
      · rw [old x before]
        exact above x below before
      · rw [show x = ns.length by omega, new]

/-! ### Dropping -/

def dropNodes (first : Nat) (ns : List Node) : List Node :=
  ns.take first ++ (ns.drop first).map (fun m => { m with dropped := true })

@[simp] theorem length_dropNodes (first : Nat) (ns : List Node) :
    (dropNodes first ns).length = ns.length := by
  simp [dropNodes]
  omega

theorem getElem?_dropNodes (first : Nat) (ns : List Node) (id : Nat) :
    (dropNodes first ns)[id]? =
      if id < first then ns[id]? else ns[id]?.map (fun m => { m with dropped := true }) := by
  unfold dropNodes
  split
  · rename_i lt
    rcases Nat.lt_or_ge id ns.length with inside | outside
    · rw [List.getElem?_append_left (by simp; omega), List.getElem?_take_of_lt lt]
    · rw [List.getElem?_eq_none (by simp; omega), List.getElem?_eq_none outside]
  · rename_i ge
    rcases Nat.lt_or_ge first ns.length with inside | outside
    · rw [List.getElem?_append_right (by simp; omega), List.getElem?_map, List.getElem?_drop,
        List.length_take, Nat.min_eq_left (Nat.le_of_lt inside),
        show first + (id - first) = id by omega]
    · rw [List.getElem?_eq_none (by simp; omega), List.getElem?_eq_none (by omega)]
      rfl

theorem parentOf_dropNodes (first : Nat) (ns : List Node) (id : Nat) :
    parentOf (dropNodes first ns) id = parentOf ns id := by
  unfold parentOf
  rw [getElem?_dropNodes]
  split
  · rfl
  · cases ns[id]? <;> rfl

theorem isChild_dropNodes (first : Nat) (ns : List Node) (p id : Nat) :
    isChild (dropNodes first ns) p id = (decide (id < first) && isChild ns p id) := by
  unfold isChild
  rw [getElem?_dropNodes]
  split
  · rename_i lt
    simp [lt]
  · rename_i ge
    cases ns[id]? <;> simp [ge, Node.childOf]

theorem childOps_dropNodes_before {ns : List Node} {p lo hi first : Nat} (before : hi ≤ first) :
    childOps (dropNodes first ns) p lo hi = childOps ns p lo hi := by
  apply childOps_congr
  intro id _ lt
  have keep : id < first := by omega
  simp [childOp, getElem?_dropNodes, keep]

/-- What hangs below the drop is gone. -/
theorem childOps_dropNodes {ns : List Node} {p lo hi first : Nat} (left : lo ≤ first)
    (right : first ≤ hi) : childOps (dropNodes first ns) p lo hi = childOps ns p lo first := by
  have gone : childOps (dropNodes first ns) p first hi = [] := by
    apply childOps_none
    intro id ge _
    simp [isChild_dropNodes, Nat.not_lt.mpr ge]
  rw [childOps_split first left right, childOps_dropNodes_before (le_refl first), gone, List.append_nil]

theorem bare_dropNodes (first : Nat) (ns : List Node) :
    (dropNodes first ns).map Node.bare = ns.map Node.bare := by
  unfold dropNodes
  rw [List.map_append, List.map_map, show Node.bare ∘ (fun m => { m with dropped := true }) = Node.bare
    from rfl, ← List.map_append, List.take_append_drop]

theorem Forest.drop {ns : List Node} (forest : Forest ns) (first : Nat) :
    Forest (dropNodes first ns) :=
  forest.congr (bare_dropNodes first ns)

end GasAnalyzer
