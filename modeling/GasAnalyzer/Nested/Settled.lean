import GasAnalyzer.Nested.Dropping

/-!
# Settled programs

Once the walk is over every program is finished, except one whose `CALL` was the last step. Spreading
the drops and retaining the live children settles the programs: a live program has a live parent, its
children are its live children in order, and its `NESTED` ops are theirs.
-/

namespace GasAnalyzer

/-- The `NESTED` ops of the programs listed. -/
def opsOf (ns : List Node) (ids : List Nat) : List Op := ids.filterMap (fun id => ns[id]?.map Node.op)

theorem opsOf_congr {ns ns' : List Node} (same : ns'.map Node.bare = ns.map Node.bare) (ids : List Nat) :
    opsOf ns' ids = opsOf ns ids := by
  unfold opsOf
  apply List.filterMap_congr
  intro id _
  cases found : ns[id]? with
  | some m =>
    obtain ⟨m', found', bare⟩ := getElem?_of_bare same found
    rw [found', Node.eq_of_bare bare]
    rfl
  | none =>
    cases found' : ns'[id]? with
    | some m' =>
      obtain ⟨m, found₀, -⟩ := getElem?_of_bare same.symm found'
      rw [found] at found₀
      cases found₀
    | none => rfl

theorem childOps_eq_opsOf (ns : List Node) (q n : Nat) :
    childOps ns q 0 n = opsOf ns ((List.range n).filter (isChild ns q)) := by
  unfold childOps opsOf
  rw [List.filterMap_filter, Nat.sub_zero, ← List.range_eq_range']
  apply List.filterMap_congr
  intro id _
  by_cases child : isChild ns q id = true
  · obtain ⟨m, found, parent, alive⟩ := isChild_iff.mp child
    rw [if_pos child, childOp_eq_some.mpr ⟨m, found, by simp [Node.childOf, parent, alive], rfl⟩, found]
    rfl
  · rw [if_neg child, childOp_eq_none (by simpa using child)]

theorem bare_nodes {ps ps' : List ProgramState}
    (same : ps'.map ProgramState.bare = ps.map ProgramState.bare) :
    (nodes ps').map Node.bare = (nodes ps).map Node.bare := by
  have bares : ∀ xs : List ProgramState,
      (nodes xs).map Node.bare = (xs.map ProgramState.bare).map ProgramState.node := by
    intro xs
    simp only [nodes, List.map_map]
    rfl
  rw [bares, bares, same]

structure Settled (ps : List ProgramState) : Prop where
  forest : Forest (nodes ps)
  root : ∃ r, ps[0]? = some r ∧ r.dropped = false ∧ r.updates.isSome = true
  closed : ∀ (id : Nat) (p : ProgramState) (q : Nat), ps[id]? = some p → p.parent = some q → isDropped ps q → p.dropped = true
  children : ∀ (q : Nat) (p : ProgramState), ps[q]? = some p → p.dropped = false →
    p.children = (List.range ps.length).filter (isChild (nodes ps) q)
  ops : ∀ (q : Nat) (p : ProgramState) (ops : List Op), ps[q]? = some p → p.dropped = false → p.updates = some ops →
    nestedOps ops = opsOf (nodes ps) p.children
  unfinished : ∀ (q : Nat) (p : ProgramState), ps[q]? = some p → p.dropped = false → p.updates = none →
    p.nativeGas = 0 ∧ p.children = []

theorem isDropped_iff {ps : List ProgramState} {id : Nat} {p : ProgramState} (found : ps[id]? = some p) :
    isDropped ps id ↔ p.dropped = true := by
  constructor
  · rintro ⟨p', found', dropped⟩
    rw [Option.some.inj (found.symm.trans found')]
    exact dropped
  · exact fun dropped => ⟨p, found, dropped⟩

theorem isChild_nodes {ps : List ProgramState} {q id : Nat} :
    isChild (nodes ps) q id = true ↔ ∃ p, ps[id]? = some p ∧ p.parent = some q ∧ p.dropped = false := by
  rw [isChild_iff]
  constructor
  · rintro ⟨m, found, parent, alive⟩
    rw [getElem?_nodes] at found
    obtain ⟨p, foundP, rfl⟩ := Option.map_eq_some_iff.mp found
    exact ⟨p, foundP, parent, alive⟩
  · rintro ⟨p, found, parent, alive⟩
    exact ⟨p.node, by rw [getElem?_nodes, found]; rfl, parent, alive⟩

/-! ### Settling -/

def ProgramState.retain (dropped : List Bool) (p : ProgramState) : ProgramState :=
  { p with children := p.children.filter (fun c => !dropped.getD c false) }

theorem retainChildren_eq (ps : List ProgramState) :
    retainChildren ps = ps.map (ProgramState.retain (ps.map ProgramState.dropped)) := rfl

theorem older_of_forest {ps : List ProgramState} (forest : Forest (nodes ps)) (id : Nat)
    (p : ProgramState) (q : Nat) (found : ps[id]? = some p) (parent : p.parent = some q) : q < id :=
  forest.parent_lt (m := p.node) (by rw [getElem?_nodes, found]; rfl) parent

theorem length_retainChildren (ps : List ProgramState) : (retainChildren ps).length = ps.length := by
  rw [retainChildren_eq, List.length_map]

theorem nodes_retainChildren (ps : List ProgramState) : nodes (retainChildren ps) = nodes ps := by
  rw [retainChildren_eq]
  simp only [nodes, List.map_map]
  rfl

theorem isDropped_retainChildren {ps : List ProgramState} {id : Nat} :
    isDropped (retainChildren ps) id ↔ isDropped ps id := by
  unfold isDropped
  rw [retainChildren_eq, List.getElem?_map]
  constructor
  · rintro ⟨p, found, dropped⟩
    obtain ⟨p₁, found₁, rfl⟩ := Option.map_eq_some_iff.mp found
    exact ⟨p₁, found₁, dropped⟩
  · rintro ⟨p, found, dropped⟩
    exact ⟨p.retain (ps.map ProgramState.dropped), by rw [found]; rfl, dropped⟩

namespace Spreads

variable {ps ps' : List ProgramState} {id q : Nat} {p : ProgramState} {d : Bool}

/-- A program of the settled list is one of the walk, with more dropped and fewer children. -/
theorem retained (spread : Spreads ps ps') {p' : ProgramState} (found : (retainChildren ps')[id]? = some p') :
    ∃ p d, ps[id]? = some p ∧ ps'[id]? = some (p.mark d) ∧ p' = (p.mark d).retain (ps'.map ProgramState.dropped) := by
  rw [retainChildren_eq, List.getElem?_map] at found
  obtain ⟨p₁, found₁, rfl⟩ := Option.map_eq_some_iff.mp found
  obtain ⟨d₀, found₀⟩ := look spread.same.symm found₁
  exact ⟨_, p₁.dropped, found₀, found₁, rfl⟩

theorem alive (spread : Spreads ps ps') (found : ps[id]? = some p) (found' : ps'[id]? = some (p.mark d))
    (isAlive : d = false) : p.dropped = false := by
  by_contra dropped
  have above := spread.mono id ⟨p, found, by simpa using dropped⟩
  rw [isDropped_iff found'] at above
  have above : d = true := above
  rw [isAlive] at above
  cases above

/-- What is left of all the children a program was given are its live ones. -/
theorem children (spread : Spreads ps ps') (kids : p.children = childIds (nodes ps) q) :
    ((p.mark d).retain (ps'.map ProgramState.dropped)).children =
      (List.range ps.length).filter (isChild (nodes ps') q) := by
  show p.children.filter _ = _
  rw [kids]
  unfold childIds
  rw [List.filter_filter, length_nodes]
  apply List.filter_congr
  intro id member
  rw [List.mem_range] at member
  have inside : id < ps'.length := by rw [spread.length]; exact member
  obtain ⟨d', found'⟩ := look spread.same (List.getElem?_eq_getElem member)
  have flag : (ps'.map ProgramState.dropped).getD id false = d' := by
    rw [List.getD_eq_getElem?_getD, List.getElem?_map, found']
    rfl
  rw [flag]
  unfold isChild
  rw [getElem?_nodes, getElem?_nodes, found', List.getElem?_eq_getElem member]
  simp only [Option.map_some, Option.any_some]
  exact Bool.and_comm _ _

/-- A drop that spreads takes no child from a program that it leaves alive. -/
theorem isChild_eq (spread : Spreads ps ps') (stays : ¬isDropped ps' q) (id : Nat) :
    isChild (nodes ps) q id = isChild (nodes ps') q id := by
  rw [Bool.eq_iff_iff, isChild_nodes, isChild_nodes]
  constructor
  · rintro ⟨c, foundC, parent, aliveC⟩
    obtain ⟨d', foundC'⟩ := look spread.same foundC
    refine ⟨_, foundC', parent, ?_⟩
    by_contra dropped
    rcases spread.cause id ⟨_, foundC', by simpa using dropped⟩ with old | ⟨c', q', found', parent', above⟩
    · rw [isDropped_iff foundC, aliveC] at old
      cases old
    · obtain rfl : c = c' := Option.some.inj (foundC.symm.trans found')
      obtain rfl : q = q' := Option.some.inj (parent.symm.trans parent')
      exact stays above
  · rintro ⟨c', foundC', parent, aliveC⟩
    obtain ⟨d', foundC⟩ := look spread.same.symm foundC'
    exact ⟨_, foundC, parent, spread.alive foundC foundC' aliveC⟩

end Spreads

theorem retainChildren_settled {root : Node} {ps ps' : List ProgramState} {running : Nat → Prop}
    (books : Books root (ps.map ProgramState.ledger) running) (last : ∀ q, running q → q + 1 = ps.length)
    (done : ∀ r : ProgramState, ps[0]? = some r → r.updates.isSome = true) (spread : Spreads ps ps')
    (rootAlive : ¬ isDropped ps' 0)
    (closed : ∀ (id : Nat) (p : ProgramState) (q : Nat), ps[id]? = some p → p.parent = some q →
      isDropped ps' q → isDropped ps' id) :
    Settled (retainChildren ps') := by
  have ns : ledgerNodes (ps.map ProgramState.ledger) = nodes ps := by
    simp [nodes, Function.comp_def, ProgramState.ledger]
  have length : (retainChildren ps').length = ps.length := (length_retainChildren ps').trans spread.length
  have kept := nodes_retainChildren ps'
  have bare := bare_nodes spread.same
  have forest : Forest (nodes ps') := (ns ▸ books.forest).congr bare
  have children : ∀ {q : Nat} {p : ProgramState} {d : Bool}, ps[q]? = some p →
      ((p.mark d).retain (ps'.map ProgramState.dropped)).children =
        (List.range ps.length).filter (isChild (nodes ps') q) := by
    intro q p d found
    refine spread.children ?_
    rw [← ns]
    exact books.children q p.ledger (by simp [found])
  refine ⟨?_, ?_, ?_, ?_, ?_, ?_⟩
  · rw [kept]
    exact forest
  · obtain ⟨r, first, -⟩ := books.first
    rw [List.getElem?_map] at first
    obtain ⟨r₀, first₀, rfl⟩ := Option.map_eq_some_iff.mp first
    obtain ⟨d, first'⟩ := Spreads.look spread.same first₀
    refine ⟨(r₀.mark d).retain (ps'.map ProgramState.dropped), ?_, ?_, done r₀ first₀⟩
    · rw [retainChildren_eq, List.getElem?_map, first']
      rfl
    · by_contra dropped
      exact rootAlive ⟨_, first', (Bool.not_eq_false _).mp dropped⟩
  · intro id p' q found parent above
    obtain ⟨p, d, found₀, found₁, rfl⟩ := spread.retained found
    rw [isDropped_retainChildren] at above
    exact (isDropped_iff found₁).mp (closed id p q found₀ parent above)
  · intro q p' found isAlive
    obtain ⟨p, d, found₀, -, rfl⟩ := spread.retained found
    rw [kept, length]
    exact children found₀
  · intro q p' ops found isAlive updates
    obtain ⟨p, d, found₀, found₁, rfl⟩ := spread.retained found
    have stays : ¬isDropped ps' q := by
      rw [isDropped_iff found₁]
      exact Bool.eq_false_iff.mp isAlive
    have owed := books.complete q p.ledger ops (by simp [found₀]) (spread.alive found₀ found₁ isAlive) updates
    rw [ns, List.length_map, childOps_eq_opsOf] at owed
    rw [owed, kept, children found₀, opsOf_congr bare]
    exact congrArg _ (List.filter_congr fun id _ => spread.isChild_eq stays id)
  · intro q p' found isAlive none
    obtain ⟨p, d, found₀, found₁, rfl⟩ := spread.retained found
    obtain ⟨zero, runs⟩ :=
      books.unfinished q p.ledger (by simp [found₀]) (spread.alive found₀ found₁ isAlive) none
    refine ⟨zero, ?_⟩
    rw [children found₀]
    apply List.filter_eq_nil_iff.mpr
    intro id member child
    have := forest.lt_of_isChild child
    have := last q runs
    rw [List.mem_range] at member
    omega

end GasAnalyzer
