import GasAnalyzer.Nested.Stack

/-!
# The outline of a walk

The outline keeps of a walk what decides the shape of the frame tree: for every program its node, its
`NESTED` ops and its children, and the shapes of the open frames. `Outline.Sound` is the invariant
behind the split; opening, closing and dropping programs keep it.
-/

namespace GasAnalyzer

structure Ledger where
  node : Node
  updates : Option (List Op)
  children : List Nat
  nativeGas : UInt64

def ProgramState.ledger (p : ProgramState) : Ledger where
  node := p.node
  updates := p.updates
  children := p.children
  nativeGas := p.nativeGas

/-- Every child a program was given, dropped or not. -/
def childIds (ns : List Node) (q : Nat) : List Nat :=
  (List.range ns.length).filter (fun id => ns[id]?.any (fun m => m.parent == some q))

abbrev ledgerNodes (ls : List Ledger) : List Node := ls.map Ledger.node

/-- The programs of a walk: `running` of them still emit, the others own their finished program. -/
structure Books (root : Node) (ls : List Ledger) (running : Nat → Prop) : Prop where
  forest : Forest (ledgerNodes ls)
  first : ∃ r, ls[0]? = some r ∧ r.node = root
  children : ∀ q l, ls[q]? = some l → l.children = childIds (ledgerNodes ls) q
  complete : ∀ q l ops, ls[q]? = some l → l.node.dropped = false → l.updates = some ops →
    nestedOps ops = childOps (ledgerNodes ls) q 0 ls.length
  unfinished : ∀ q l, ls[q]? = some l → l.node.dropped = false → l.updates = none →
    l.nativeGas = 0 ∧ running q
  silent : ∀ q l, running q → ls[q]? = some l → l.updates = none

namespace Books

variable {root : Node} {ls : List Ledger} {running running' : Nat → Prop}

theorem congr (books : Books root ls running) (same : ∀ q, running q ↔ running' q) : Books root ls running' where
  forest := books.forest
  first := books.first
  children := books.children
  complete := books.complete
  unfinished q l found alive none :=
    ⟨(books.unfinished q l found alive none).1, (same q).mp (books.unfinished q l found alive none).2⟩
  silent q l open' found := books.silent q l ((same q).mpr open') found

/-! ### Opening -/

def addChild (id : Nat) (l : Ledger) : Ledger := { l with children := l.children ++ [id] }

def newLedger (m : Node) : Ledger := ⟨m, none, [], 0⟩

theorem ledgerNodes_open (ls : List Ledger) (m : Node) (q id : Nat) :
    ledgerNodes ((ls ++ [newLedger m]).modify q (addChild id)) = ledgerNodes ls ++ [m] := by
  apply List.ext_getElem?
  intro i
  rw [List.getElem?_map, List.getElem?_modify, show ledgerNodes ls ++ [m] =
    ledgerNodes (ls ++ [newLedger m]) by simp [newLedger], List.getElem?_map]
  cases (ls ++ [newLedger m])[i]? with
  | none => rfl
  | some l =>
    by_cases here : q = i
    · simp [here, addChild]
    · simp [here]

theorem childIds_append (ns : List Node) (m : Node) (q : Nat) :
    childIds (ns ++ [m]) q = childIds ns q ++ if m.parent = some q then [ns.length] else [] := by
  unfold childIds
  rw [List.length_append, List.length_singleton, List.range_succ, List.filter_append]
  congr 1
  · apply List.filter_congr
    intro id member
    rw [List.getElem?_append_left (List.mem_range.mp member)]
  · by_cases child : m.parent = some q <;> simp [child]

theorem opening (books : Books root ls running) {m p : Node} {q : Nat} (made : m.OfCall)
    (parent : m.parent = some q) (found : (ledgerNodes ls)[q]? = some p)
    (caller : m.caller = p.target) (open' : running q)
    (above : ∀ id, q < id → id < ls.length → q ≤ parentOf (ledgerNodes ls) id) :
    Books root ((ls ++ [newLedger m]).modify q (addChild ls.length))
      (fun r => running r ∨ r = ls.length) := by
  have bound : q < ls.length := by simpa using (List.getElem?_eq_some_iff.mp found).1
  have nodes := ledgerNodes_open ls m q ls.length
  -- Looking a program up: an old one, its children extended if it is the parent, or the new one.
  have look : ∀ r l, ((ls ++ [newLedger m]).modify q (addChild ls.length))[r]? = some l →
      (∃ l₀, r < ls.length ∧ ls[r]? = some l₀ ∧
        l = if q = r then addChild ls.length l₀ else l₀) ∨
      (r = ls.length ∧ l = newLedger m) := by
    intro r l here
    rw [List.getElem?_modify] at here
    rcases Nat.lt_or_ge r ls.length with old | last
    · rw [List.getElem?_append_left old] at here
      obtain ⟨l₀, found₀, rfl⟩ := Option.map_eq_some_iff.mp here
      exact Or.inl ⟨l₀, old, found₀, rfl⟩
    · have inside := (Option.map_eq_some_iff.mp here).choose_spec.1
      have lt := (List.getElem?_eq_some_iff.mp inside).1
      rw [List.length_append, List.length_singleton] at lt
      have there : r = ls.length := by omega
      subst there
      have different : q ≠ ls.length := by omega
      right
      simpa [different, eq_comm] using here
  have same : ∀ r l, (if q = r then addChild ls.length l else l).node = l.node ∧
      (if q = r then addChild ls.length l else l).updates = l.updates ∧
      (if q = r then addChild ls.length l else l).nativeGas = l.nativeGas := by
    intro r l
    split <;> exact ⟨rfl, rfl, rfl⟩
  refine ⟨?_, ?_, ?_, ?_, ?_, ?_⟩
  · rw [nodes]
    exact books.forest.append made parent found caller (by simpa using above)
  · obtain ⟨r, first, isRoot⟩ := books.first
    have pos : 0 < ls.length := (List.getElem?_eq_some_iff.mp first).1
    refine ⟨if q = 0 then addChild ls.length r else r, ?_, by rw [(same 0 r).1, isRoot]⟩
    rw [List.getElem?_modify, List.getElem?_append_left pos, first]
    rfl
  · intro r l here
    rw [nodes, childIds_append, parent]
    rcases look r l here with ⟨l₀, old, found₀, rfl⟩ | ⟨rfl, rfl⟩
    · have kids := books.children r l₀ found₀
      by_cases isParent : q = r
      · simp [isParent, addChild, kids]
      · simp [isParent, kids]
    · have noKids : childIds (ledgerNodes ls) ls.length = [] := by
        apply List.filter_eq_nil_iff.mpr
        intro id member
        rw [List.mem_range] at member
        simp only [Option.any_eq_true, beq_iff_eq, not_exists, not_and]
        intro m' found' parent'
        have := books.forest.parent_lt found' parent'
        simp only [List.length_map] at member
        omega
      have different : q ≠ ls.length := by omega
      simp [newLedger, noKids, different]
  · intro r l ops here alive updates
    rw [nodes, List.length_modify, List.length_append, List.length_singleton]
    rcases look r l here with ⟨l₀, old, found₀, rfl⟩ | ⟨rfl, rfl⟩
    · rw [(same r l₀).1] at alive
      rw [(same r l₀).2.1] at updates
      rw [books.complete r l₀ ops found₀ alive updates,
        childOps_split ls.length (Nat.zero_le _) (Nat.le_succ _)]
      have isNew : childOps (ledgerNodes ls ++ [m]) r ls.length (ls.length + 1) = [] := by
        apply childOps_none
        intro id after before
        rw [show id = ls.length by omega]
        by_contra child
        have hangs := isChild_parentOf (by simpa using child)
        rw [parentOf_eq (m := m) (by simp) parent] at hangs
        subst hangs
        rw [books.silent q l₀ open' found₀] at updates
        cases updates
      rw [isNew, List.append_nil]
      apply childOps_congr
      intro id _ before
      unfold childOp
      rw [List.getElem?_append_left (by simpa using before)]
    · cases updates
  · intro r l here alive none
    rcases look r l here with ⟨l₀, old, found₀, rfl⟩ | ⟨rfl, rfl⟩
    · rw [(same r l₀).1] at alive
      rw [(same r l₀).2.1] at none
      rw [(same r l₀).2.2]
      obtain ⟨gas, runs⟩ := books.unfinished r l₀ found₀ alive none
      exact ⟨gas, Or.inl runs⟩
    · exact ⟨rfl, Or.inr rfl⟩
  · intro r l open'' here
    rcases look r l here with ⟨l₀, old, found₀, rfl⟩ | ⟨rfl, rfl⟩
    · rw [(same r l₀).2.1]
      rcases open'' with runs | last
      · exact books.silent r l₀ runs found₀
      · omega
    · rfl

/-! ### Dropping -/

def dropLedgers (first : Nat) (ls : List Ledger) : List Ledger :=
  ls.take first ++ (ls.drop first).map (fun l => { l with node := { l.node with dropped := true } })

theorem ledgerNodes_drop (first : Nat) (ls : List Ledger) :
    ledgerNodes (dropLedgers first ls) = dropNodes first (ledgerNodes ls) := by
  simp [dropLedgers, dropNodes, List.map_take, List.map_drop, Function.comp_def]

/-- A program that survives a drop was numbered before it. -/
theorem survives {first q : Nat} {l : Ledger} (found : (dropLedgers first ls)[q]? = some l) :
    ∃ l₀, ls[q]? = some l₀ ∧ l.children = l₀.children ∧ l.updates = l₀.updates ∧
      (l.node.dropped = false → q < first ∧ l = l₀) := by
  unfold dropLedgers at found
  rcases Nat.lt_or_ge q (ls.take first).length with before | after
  · rw [List.getElem?_append_left before] at found
    rw [List.length_take] at before
    rw [List.getElem?_take_of_lt (by omega)] at found
    exact ⟨l, found, rfl, rfl, fun _ => ⟨by omega, rfl⟩⟩
  · rw [List.getElem?_append_right after, List.getElem?_map, List.getElem?_drop] at found
    obtain ⟨l₀, found₀, rfl⟩ := Option.map_eq_some_iff.mp found
    have inside := (List.getElem?_eq_some_iff.mp found₀).1
    rw [List.length_take] at after found₀ inside
    rw [show first + (q - min first ls.length) = q by omega] at found₀
    refine ⟨l₀, found₀, rfl, rfl, ?_⟩
    intro alive
    cases alive

theorem dropping (books : Books root ls running) {first : Nat} (pos : 0 < first) (le : first ≤ ls.length)
    (hangs : ∀ id q m, first ≤ id → (ledgerNodes ls)[id]? = some m → m.parent = some q →
      running q ∨ first ≤ q)
    (keeps : ∀ q, q < first → running q → running' q) (fewer : ∀ q, running' q → running q) :
    Books root (dropLedgers first ls) running' := by
  have nodes := ledgerNodes_drop first ls
  have length : (dropLedgers first ls).length = ls.length := by
    simp [dropLedgers]
    omega
  refine ⟨?_, ?_, ?_, ?_, ?_, ?_⟩
  · rw [nodes]
    exact books.forest.drop first
  · obtain ⟨r, isFirst, isRoot⟩ := books.first
    refine ⟨r, ?_, isRoot⟩
    unfold dropLedgers
    rw [List.getElem?_append_left (by rw [List.length_take]; omega), List.getElem?_take_of_lt pos,
      isFirst]
  · intro q l found
    obtain ⟨l₀, found₀, kids, -⟩ := survives found
    rw [kids, books.children q l₀ found₀, nodes]
    unfold childIds
    rw [length_dropNodes]
    apply List.filter_congr
    intro id _
    rw [getElem?_dropNodes]
    split
    · rfl
    · cases (ledgerNodes ls)[id]? <;> rfl
  · intro q l ops found alive updates
    obtain ⟨l₀, found₀, -, -, survived⟩ := survives found
    obtain ⟨before, rfl⟩ := survived alive
    have gone : childOps (ledgerNodes ls) q first ls.length = [] := by
      apply childOps_none
      intro id after _
      by_contra child
      obtain ⟨m, foundM, parent, -⟩ := isChild_iff.mp (by simpa using child)
      rcases hangs id q m after foundM parent with runs | later
      · rw [books.silent q l runs found₀] at updates
        cases updates
      · omega
    rw [nodes, length, childOps_dropNodes (by omega) le,
      books.complete q l ops found₀ alive updates, childOps_split first (by omega) le, gone,
      List.append_nil]
  · intro q l found alive none
    obtain ⟨l₀, found₀, -, -, survived⟩ := survives found
    obtain ⟨before, rfl⟩ := survived alive
    obtain ⟨gas, runs⟩ := books.unfinished q l found₀ alive none
    exact ⟨gas, keeps q before runs⟩
  · intro q l runs found
    obtain ⟨l₀, found₀, -, updates, -⟩ := survives found
    rw [updates]
    exact books.silent q l₀ (fewer q runs) found₀

/-! ### Closing -/

def closeLedger (ops : List Op) (gas : UInt64) (l : Ledger) : Ledger :=
  { l with updates := some ops, nativeGas := gas }

theorem ledgerNodes_close (ls : List Ledger) (p : Nat) (ops : List Op) (gas : UInt64) :
    ledgerNodes (ls.modify p (closeLedger ops gas)) = ledgerNodes ls := by
  apply List.ext_getElem?
  intro i
  rw [List.getElem?_map, List.getElem?_modify, List.getElem?_map]
  cases ls[i]? with
  | none => rfl
  | some l =>
    by_cases here : p = i
    · simp [here, closeLedger]
    · simp [here]

theorem closing (books : Books root ls running) {p : Nat} {ops : List Op} (gas : UInt64)
    (owed : nestedOps ops = childOps (ledgerNodes ls) p 0 ls.length)
    (same : ∀ q, running' q ↔ running q ∧ q ≠ p) :
    Books root (ls.modify p (closeLedger ops gas)) running' := by
  have nodes := ledgerNodes_close ls p ops gas
  have look : ∀ r l, (ls.modify p (closeLedger ops gas))[r]? = some l →
      ∃ l₀, ls[r]? = some l₀ ∧ l = if p = r then closeLedger ops gas l₀ else l₀ := by
    intro r l here
    obtain ⟨l₀, found₀, rfl⟩ := found_modify here
    exact ⟨l₀, found₀, rfl⟩
  refine ⟨nodes ▸ books.forest, ?_, ?_, ?_, ?_, ?_⟩
  · obtain ⟨r, first, isRoot⟩ := books.first
    refine ⟨if p = 0 then closeLedger ops gas r else r, ?_, ?_⟩
    · rw [List.getElem?_modify, first]
      rfl
    · split <;> exact isRoot
  · intro r l here
    obtain ⟨l₀, found₀, rfl⟩ := look r l here
    rw [nodes, ← books.children r l₀ found₀]
    split <;> rfl
  · intro r l ops' here alive updates
    obtain ⟨l₀, found₀, rfl⟩ := look r l here
    rw [nodes, List.length_modify]
    by_cases closed : p = r
    · rw [if_pos closed] at updates
      rw [← Option.some.inj updates, ← closed]
      exact owed
    · rw [if_neg closed] at updates alive
      exact books.complete r l₀ ops' found₀ alive updates
  · intro r l here alive none
    obtain ⟨l₀, found₀, rfl⟩ := look r l here
    by_cases closed : p = r
    · rw [if_pos closed] at none
      cases none
    · rw [if_neg closed] at none alive ⊢
      obtain ⟨zero, runs⟩ := books.unfinished r l₀ found₀ alive none
      exact ⟨zero, (same r).mpr ⟨runs, Ne.symm closed⟩⟩
  · intro r l runs here
    obtain ⟨l₀, found₀, rfl⟩ := look r l here
    obtain ⟨open', other⟩ := (same r).mp runs
    rw [if_neg (Ne.symm other)]
    exact books.silent r l₀ open' found₀

end Books

/-! ### Outlines -/

structure Outline where
  ledgers : List Ledger
  top : Shape
  below : List Shape
  pending : Option PendingFrame

def Walk.outline (w : Walk) : Outline where
  ledgers := w.programs.map ProgramState.ledger
  top := w.top.shape
  below := w.below.map WalkFrame.shape
  pending := w.pending

namespace Outline

/-- A call in flight: a frame of its own just opened below the top's program, the top's program
continued, or native code. -/
structure Waiting (ns : List Node) (top : Shape) (p : PendingFrame) : Prop where
  nested : p.nestedStartGas.isSome = true → ∃ id q m, p.program = some id ∧ id + 1 = ns.length ∧
    ns[id]? = some m ∧ m.dropped = false ∧ p.storageCtx = some m.target ∧ m.parent = some q ∧
    top.program = some q ∧ top.last = true ∧ top.first ≤ id
  plain : p.nestedStartGas.isSome = false →
    p.program = none ∨ p.program = top.program ∧ p.storageCtx = top.context

/-- The programs still emitting: those of the open frames, and one whose frame is about to open. -/
def running (o : Outline) (q : Nat) : Prop :=
  (∃ f ∈ o.top :: o.below, f.program = some q) ∨
    ∃ p, o.pending = some p ∧ p.nestedStartGas.isSome = true ∧ p.program = some q

structure Sound (root : Node) (o : Outline) : Prop where
  books : Books root o.ledgers o.running
  stack : Stack (ledgerNodes o.ledgers) o.ledgers.length o.top o.below
  waiting : ∀ p, o.pending = some p → Waiting (ledgerNodes o.ledgers) o.top p

end Outline

end GasAnalyzer
