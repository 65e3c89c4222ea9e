import Mathlib
import GasAnalyzer.Nested.Settled

/-!
# Pruning keeps the programs settled

Turning a program back into the `CALL` it replaced removes one child, and the `NESTED` op at the
same position, from its parent. The step cannot fail on settled programs. A program that never
returned saves nothing, so it never survives the pass.
-/

namespace GasAnalyzer

open Outcome (Sat sat_okOr)

/-! ### Ops and children side by side -/

theorem opsOf_cons {ns : List Node} {id : Nat} {m : Node} (found : ns[id]? = some m)
    (ids : List Nat) : opsOf ns (id :: ids) = m.op :: opsOf ns ids := by
  simp [opsOf, found]

theorem opsOf_eraseIdx {ns : List Node} {ids : List Nat} (valid : ∀ id ∈ ids, id < ns.length)
    (i : Nat) : opsOf ns (ids.eraseIdx i) = (opsOf ns ids).eraseIdx i := by
  induction ids generalizing i with
  | nil => simp [opsOf]
  | cons id ids ih =>
    have inside := valid id List.mem_cons_self
    have rest : ∀ id ∈ ids, id < ns.length := fun id member => valid id (List.mem_cons_of_mem _ member)
    have head := opsOf_cons (List.getElem?_eq_getElem inside)
    cases i with
    | zero => rw [List.eraseIdx_cons_zero, head, List.eraseIdx_cons_zero]
    | succ i => rw [List.eraseIdx_cons_succ, head, head, List.eraseIdx_cons_succ, ih rest]

theorem getElem?_opsOf {ns : List Node} {ids : List Nat} (valid : ∀ id ∈ ids, id < ns.length)
    (i : Nat) : (opsOf ns ids)[i]? = ids[i]?.bind (fun id => ns[id]?.map Node.op) := by
  induction ids generalizing i with
  | nil => simp [opsOf]
  | cons id ids ih =>
    have inside := valid id List.mem_cons_self
    have rest : ∀ id ∈ ids, id < ns.length := fun id member => valid id (List.mem_cons_of_mem _ member)
    rw [opsOf_cons (List.getElem?_eq_getElem inside)]
    cases i with
    | zero => simp [List.getElem?_eq_getElem inside]
    | succ i => simpa using ih rest i

/-- Replacing the op at a position of a program's `NESTED` ops. -/
theorem replaceNested_spec (update : StateUpdate) {position : Nat} {out : List Op}
    (inside : position < (nestedOps out).length) :
    ∃ before op after, out = before ++ op :: after ∧ op.update.isNested = true ∧
      (nestedOps before).length = position ∧
      replaceNested update position out = some (before ++ { op with update } :: after) := by
  induction out generalizing position with
  | nil => simp [nestedOps] at inside
  | cons op rest ih =>
    by_cases nested : op.update.isNested = true
    · cases position with
      | zero => exact ⟨[], op, rest, rfl, nested, rfl, by simp [replaceNested, nested]⟩
      | succ position =>
        have shorter : position < (nestedOps rest).length := by
          simpa [nestedOps, nested] using inside
        obtain ⟨before, target, after, split, isNested, length, replaced⟩ := ih shorter
        refine ⟨op :: before, target, after, by rw [split]; rfl, isNested, ?_, ?_⟩
        · simpa [nestedOps, nested] using length
        · simp [replaceNested, nested, replaced]
    · have same : position < (nestedOps rest).length := by
        simpa [nestedOps, nested] using inside
      obtain ⟨before, target, after, split, isNested, length, replaced⟩ := ih same
      refine ⟨op :: before, target, after, by rw [split]; rfl, isNested, ?_, ?_⟩
      · simpa [nestedOps, nested] using length
      · simp [replaceNested, nested, replaced]

/-! ### One program -/

/-- What stays of a program through the pass. -/
def ProgramState.core (p : ProgramState) : ProgramState :=
  { p with dropped := false, pruned := false, updates := none, children := [] }

/-- One program turned back into the `CALL` it replaced. -/
structure Prunes (ps : List ProgramState) (id : Nat) (ps' : List ProgramState) : Prop where
  core : ps'.map ProgramState.core = ps.map ProgramState.core
  mono : ∀ c, isDropped ps c → isDropped ps' c
  fresh : ¬ isDropped ps id
  gone : isDropped ps' id
  /-- The parent's `NESTED` op became the call; nobody else's program changed. -/
  updates : ∀ (c : Nat) (p p' : ProgramState), ps[c]? = some p → ps'[c]? = some p' →
    p'.updates = p.updates ∨ ∃ m before after call, ps[id]? = some m ∧ m.fallback = some call ∧
      p.updates = some (before ++ m.node.op :: after) ∧
      p'.updates = some (before ++ ⟨.call call, m.step⟩ :: after)
  pruned : ∀ (c : Nat) (p p' : ProgramState), ps[c]? = some p → ps'[c]? = some p' →
    p'.pruned = (p.pruned || decide (c = id))
  cause : ∀ c, isDropped ps' c → isDropped ps c ∨ c = id ∨
    ∃ p q, ps[c]? = some p ∧ p.parent = some q ∧ isDropped ps' q

theorem map_modify {β : Type} {g : ProgramState → β} {f : ProgramState → ProgramState}
    (same : ∀ p, g (f p) = g p) (ps : List ProgramState) (id : Nat) :
    (ps.modify id f).map g = ps.map g := by
  apply List.ext_getElem?
  intro i
  rw [List.getElem?_map, List.getElem?_modify, List.getElem?_map]
  cases ps[i]? with
  | none => rfl
  | some p =>
    by_cases here : id = i
    · simp [here, same p]
    · simp [here]

theorem Settled.parent_alive {ps : List ProgramState} (settled : Settled ps) {id q : Nat}
    {p m : ProgramState} (found : ps[id]? = some p) (alive : p.dropped = false)
    (parent : p.parent = some q) (foundQ : ps[q]? = some m) : m.dropped = false := by
  by_contra dropped
  have := settled.closed id p q found parent ⟨m, foundQ, by simpa using dropped⟩
  rw [alive] at this
  cases this

theorem Settled.valid {ps : List ProgramState} (settled : Settled ps) {q : Nat} {p : ProgramState}
    (found : ps[q]? = some p) (alive : p.dropped = false) :
    ∀ id ∈ p.children, id < (nodes ps).length := by
  intro id member
  rw [settled.children q p found alive, List.mem_filter, List.mem_range] at member
  rw [length_nodes]
  exact member.1

/-- On settled programs, a live frame is among its parent's children, its parent has a program and
that program has a `NESTED` op at its position. -/
theorem pruneProgram_ok {ps : List ProgramState} (settled : Settled ps) {id : Nat}
    {program : ProgramState} (found : ps[id]? = some program) (alive : program.dropped = false)
    (pos : 0 < id) :
    ∃ q parent position call before after, program.parent = some q ∧ q < id ∧ ps[q]? = some parent ∧
      parent.dropped = false ∧ parent.children.idxOf? id = some position ∧
      program.fallback = some call ∧ parent.updates = some (before ++ program.node.op :: after) ∧
      (nestedOps before).length = position ∧
      pruneProgram id program ps = .ok (dropDescendants
        ((ps.modify q (ProgramState.dropChild position
          (before ++ ⟨.call call, program.step⟩ :: after))).modify id ProgramState.prune)
        (List.range' (id + 1) (ps.length - (id + 1)))) := by
  have node : (nodes ps)[id]? = some program.node := by rw [getElem?_nodes, found]; rfl
  obtain ⟨⟨-, call, fallback, -⟩, q, m, hasParent, older, foundM, -⟩ :=
    settled.forest.child id program.node node pos
  have fallback : program.fallback = some call := fallback
  have hasParent : program.parent = some q := hasParent
  rw [getElem?_nodes] at foundM
  obtain ⟨parent, foundQ, -⟩ := Option.map_eq_some_iff.mp foundM
  have aliveQ := settled.parent_alive found alive hasParent foundQ
  have inside : id < ps.length := (List.getElem?_eq_some_iff.mp found).1
  have member : id ∈ parent.children := by
    rw [settled.children q parent foundQ aliveQ, List.mem_filter, List.mem_range]
    exact ⟨inside, isChild_nodes.mpr ⟨program, found, hasParent, alive⟩⟩
  obtain ⟨position, atPosition⟩ := Option.isSome_iff_exists.mp (List.isSome_idxOf?.mpr member)
  obtain ⟨lt, here, -⟩ := List.idxOf?_eq_some_iff.mp atPosition
  cases updates : parent.updates with
  | none =>
    rw [(settled.unfinished q parent foundQ aliveQ updates).2] at member
    cases member
  | some out =>
    have owed := settled.ops q parent out foundQ aliveQ updates
    have opHere : (nestedOps out)[position]? = some program.node.op := by
      rw [owed, getElem?_opsOf (settled.valid foundQ aliveQ), List.getElem?_eq_getElem lt, here,
        Option.bind_some, node]
      rfl
    have inRange : position < (nestedOps out).length := (List.getElem?_eq_some_iff.mp opHere).1
    obtain ⟨before, op, after, split, isNested, length, replaced⟩ :=
      replaceNested_spec (.call call) inRange
    have sameOp : op = program.node.op := by
      have atOp : (nestedOps out)[position]? = some op := by
        rw [split, nestedOps_append, List.getElem?_append_right (le_of_eq length), length, Nat.sub_self]
        simp [nestedOps, isNested]
      exact Option.some.inj (atOp.symm.trans opHere)
    subst sameOp
    refine ⟨q, parent, position, call, before, after, hasParent, older, foundQ, aliveQ, atPosition,
      fallback, by rw [updates, split], length, ?_⟩
    unfold pruneProgram
    simp only [hasParent, index, foundQ, atPosition, fallback, updates, replaced, okOr,
      Outcome.ok_bind, List.length_modify]
    rfl

/-- What pruning `id` does to each program before the drop spreads; `q` is its parent. -/
def pruneEdit (id q position : Nat) (out : List Op) (c : Nat) (p : ProgramState) : ProgramState :=
  if id = c then p.prune else if q = c then p.dropChild position out else p

theorem pruneEdit_core (id q position : Nat) (out : List Op) (c : Nat) (p : ProgramState) :
    (pruneEdit id q position out c p).core = p.core := by
  unfold pruneEdit
  split
  · rfl
  · split <;> rfl

theorem pruneEdit_parent (id q position : Nat) (out : List Op) (c : Nat) (p : ProgramState) :
    (pruneEdit id q position out c p).parent = p.parent := by
  unfold pruneEdit
  split
  · rfl
  · split <;> rfl

section

variable {ps ps₁ ps' : List ProgramState} {id q position : Nat} {out : List Op}

/-- The programs once `id` is marked and its parent rewritten. -/
def Edited (ps ps₁ : List ProgramState) (id q position : Nat) (out : List Op) : Prop :=
  ∀ c, ps₁[c]? = ps[c]?.map (pruneEdit id q position out c)

theorem edited_modify (older : q < id) (ps : List ProgramState) (position : Nat) (out : List Op) :
    Edited ps ((ps.modify q (ProgramState.dropChild position out)).modify id ProgramState.prune)
      id q position out := by
  intro c
  rw [List.getElem?_modify, List.getElem?_modify]
  cases ps[c]? with
  | none => rfl
  | some p =>
    by_cases isId : id = c
    · have other : q ≠ c := by omega
      simp [pruneEdit, isId, other]
    · simp [pruneEdit, isId]

theorem Edited.isDropped_iff (edited : Edited ps ps₁ id q position out) (inside : id < ps.length)
    (c : Nat) : isDropped ps₁ c ↔ isDropped ps c ∨ c = id := by
  unfold isDropped
  rw [edited c]
  constructor
  · rintro ⟨p₁, found, dropped⟩
    obtain ⟨p, found', rfl⟩ := Option.map_eq_some_iff.mp found
    unfold pruneEdit at dropped
    split at dropped
    · rename_i same
      exact Or.inr same.symm
    · split at dropped <;> exact Or.inl ⟨p, found', dropped⟩
  · rintro (⟨p, found, dropped⟩ | rfl)
    · refine ⟨_, by rw [found]; rfl, ?_⟩
      unfold pruneEdit
      split
      · rfl
      · split <;> exact dropped
    · refine ⟨_, by rw [List.getElem?_eq_getElem inside]; rfl, ?_⟩
      simp [pruneEdit, ProgramState.prune]

theorem Edited.core (edited : Edited ps ps₁ id q position out) :
    ps₁.map ProgramState.core = ps.map ProgramState.core := by
  apply List.ext_getElem?
  intro c
  rw [List.getElem?_map, List.getElem?_map, edited c, Option.map_map]
  congr 1
  funext p
  exact pruneEdit_core id q position out c p

theorem bare_of_core (same : ps'.map ProgramState.core = ps.map ProgramState.core) :
    (nodes ps').map Node.bare = (nodes ps).map Node.bare := by
  have cores : ∀ xs : List ProgramState,
      (nodes xs).map Node.bare = (xs.map ProgramState.core).map ProgramState.node := by
    intro xs
    simp only [nodes, List.map_map]
    rfl
  rw [cores, cores, same]

theorem core_of_bare (same : ps'.map ProgramState.bare = ps.map ProgramState.bare) :
    ps'.map ProgramState.core = ps.map ProgramState.core := by
  have bares : ∀ xs : List ProgramState,
      xs.map ProgramState.core = (xs.map ProgramState.bare).map ProgramState.core := by
    intro xs
    simp only [List.map_map]
    rfl
  rw [bares ps', bares ps, same]

end

/-- The programs after `id` was pruned and the drop spread below it. -/
structure Cut (ps ps' : List ProgramState) (id q position : Nat) (out : List Op) : Prop where
  core : ps'.map ProgramState.core = ps.map ProgramState.core
  look : ∀ {c : Nat} {p' : ProgramState}, ps'[c]? = some p' → ∃ p d, ps[c]? = some p ∧
    p' = (pruneEdit id q position out c p).mark d
  mono : ∀ c, isDropped ps c → isDropped ps' c
  gone : isDropped ps' id
  cause : ∀ c, isDropped ps' c → isDropped ps c ∨ c = id ∨
    ∃ p q, ps[c]? = some p ∧ p.parent = some q ∧ isDropped ps' q
  outside : ∀ c, c < id → (isDropped ps' c ↔ isDropped ps c)
  spread : ∀ (c : Nat) (p : ProgramState) (r : Nat), id < c → ps[c]? = some p → p.parent = some r →
    isDropped ps' r → isDropped ps' c

theorem dropDescendants_cut {ps ps₁ : List ProgramState} {id q position : Nat} {out : List Op}
    (settled : Settled ps) (inside : id < ps.length) (edited : Edited ps ps₁ id q position out) :
    Cut ps (dropDescendants ps₁ (List.range' (id + 1) (ps.length - (id + 1)))) id q position out := by
  have forest₁ : Forest (nodes ps₁) := settled.forest.congr (bare_of_core edited.core)
  have marks := edited.isDropped_iff inside
  have parents := pruneEdit_parent id q position out
  obtain ⟨spread, outside, closed⟩ :=
    dropDescendants_spec ps₁ (id + 1) (ps.length - (id + 1)) (older_of_forest forest₁)
  refine ⟨(core_of_bare spread.same).trans edited.core, ?_, ?_, ?_, ?_, ?_, ?_⟩
  · intro c p' found'
    obtain ⟨d₁, found₁⟩ := Spreads.look spread.same.symm found'
    rw [edited c] at found₁
    obtain ⟨p, foundP, same⟩ := Option.map_eq_some_iff.mp found₁
    refine ⟨p, p'.dropped, foundP, ?_⟩
    rw [same]
    rfl
  · exact fun c dropped => spread.mono c ((marks c).mpr (Or.inl dropped))
  · exact spread.mono id ((marks id).mpr (Or.inr rfl))
  · intro c dropped
    rcases spread.cause c dropped with old | ⟨p₁, r, found₁, parent₁, above⟩
    · rcases (marks c).mp old with old | here
      · exact Or.inl old
      · exact Or.inr (Or.inl here)
    · rw [edited c] at found₁
      obtain ⟨p, found', rfl⟩ := Option.map_eq_some_iff.mp found₁
      exact Or.inr (Or.inr ⟨p, r, found', (parents c p).symm.trans parent₁, above⟩)
  · intro c lt
    rw [outside c (by omega), marks]
    have other : c ≠ id := by omega
    simp [other]
  · intro c p r gt found parent above
    have bound := (List.getElem?_eq_some_iff.mp found).1
    have found₁ : ps₁[c]? = some (pruneEdit id q position out c p) := by
      rw [edited c, found]
      rfl
    exact closed c _ r (by omega) (by omega) found₁ ((parents c p).trans parent) above

namespace Cut

variable {ps ps' : List ProgramState} {id q position : Nat} {out : List Op}

theorem size (cut : Cut ps ps' id q position out) : ps'.length = ps.length := by
  simpa using congrArg List.length cut.core

theorem before (cut : Cut ps ps' id q position out) {c : Nat} {p p' : ProgramState}
    (found : ps[c]? = some p) (found' : ps'[c]? = some p') (alive : p'.dropped = false) :
    p.dropped = false ∧ c ≠ id := by
  refine ⟨?_, ?_⟩
  · by_contra dropped
    have := cut.mono c ⟨p, found, by simpa using dropped⟩
    rw [isDropped_iff found', alive] at this
    cases this
  · rintro rfl
    have := cut.gone
    rw [isDropped_iff found', alive] at this
    cases this

/-- A live program keeps its live children, apart from `id`. -/
theorem isChild_eq (cut : Cut ps ps' id q position out) {r : Nat} {p' : ProgramState}
    (found' : ps'[r]? = some p') (alive' : p'.dropped = false) (c : Nat) :
    isChild (nodes ps') r c = (isChild (nodes ps) r c && decide (c ≠ id)) := by
  rw [Bool.eq_iff_iff, Bool.and_eq_true, isChild_nodes, isChild_nodes, decide_eq_true_eq]
  constructor
  · rintro ⟨m', foundM, parentM, aliveM⟩
    obtain ⟨m, d, foundM₀, rfl⟩ := cut.look foundM
    obtain ⟨alive₀, other⟩ := cut.before foundM₀ foundM aliveM
    exact ⟨⟨m, foundM₀, (pruneEdit_parent id q position out c m).symm.trans parentM, alive₀⟩, other⟩
  · rintro ⟨⟨m, foundM₀, parentM, aliveM⟩, other⟩
    have lt : c < ps'.length := by
      rw [cut.size]
      exact (List.getElem?_eq_some_iff.mp foundM₀).1
    obtain ⟨m₀, d, foundM₁, same⟩ := cut.look (List.getElem?_eq_getElem lt)
    have sameM : m = m₀ := Option.some.inj (foundM₀.symm.trans foundM₁)
    subst sameM
    refine ⟨_, List.getElem?_eq_getElem lt, ?_, ?_⟩
    · rw [same]
      exact (pruneEdit_parent id q position out c m).trans parentM
    · by_contra dropped
      rcases cut.cause c ⟨_, List.getElem?_eq_getElem lt, by simpa using dropped⟩ with
        old | here | ⟨m₁, r', foundM₂, parentM₂, above⟩
      · rw [isDropped_iff foundM₀, aliveM] at old
        cases old
      · exact other here
      · have sameM : m = m₁ := Option.some.inj (foundM₀.symm.trans foundM₂)
        subst sameM
        have sameR : r = r' := Option.some.inj (parentM.symm.trans parentM₂)
        subst sameR
        rw [isDropped_iff found', alive'] at above
        cases above

theorem closed (cut : Cut ps ps' id q position out) (settled : Settled ps) (c : Nat)
    (p' : ProgramState) (r : Nat) (found' : ps'[c]? = some p') (parent' : p'.parent = some r)
    (above : isDropped ps' r) : p'.dropped = true := by
  obtain ⟨p, d, found, rfl⟩ := cut.look found'
  have parent : p.parent = some r := (pruneEdit_parent id q position out c p).symm.trans parent'
  have earlier := older_of_forest settled.forest c p r found parent
  rw [← isDropped_iff found']
  rcases Nat.lt_trichotomy c id with lt | rfl | gt
  · rw [cut.outside r (by omega)] at above
    exact cut.mono c ⟨p, found, settled.closed c p r found parent above⟩
  · exact cut.gone
  · exact cut.spread c p r gt found parent above

theorem root (cut : Cut ps ps' id q position out) (settled : Settled ps) (pos : 0 < id) :
    ∃ r, ps'[0]? = some r ∧ r.dropped = false ∧ r.updates.isSome = true := by
  obtain ⟨r, foundR, aliveR, done⟩ := settled.root
  have lt : 0 < ps'.length := by
    rw [cut.size]
    exact (List.getElem?_eq_some_iff.mp foundR).1
  obtain ⟨p, d, found₀, same⟩ := cut.look (List.getElem?_eq_getElem lt)
  have sameR : r = p := Option.some.inj (foundR.symm.trans found₀)
  subst sameR
  refine ⟨_, List.getElem?_eq_getElem lt, ?_, ?_⟩
  · by_contra dropped
    have dropped : isDropped ps' 0 := ⟨_, List.getElem?_eq_getElem lt, by simpa using dropped⟩
    rw [cut.outside 0 pos, isDropped_iff foundR, aliveR] at dropped
    cases dropped
  · rw [same]
    unfold pruneEdit
    rw [if_neg (by omega)]
    split
    · rfl
    · exact done

/-- The pruned program's parent loses the child at its position; the others keep their children. -/
theorem children (cut : Cut ps ps' id q position out) (settled : Settled ps)
    {program parent : ProgramState} (found : ps[id]? = some program)
    (hasParent : program.parent = some q) (foundQ : ps[q]? = some parent)
    (atPosition : parent.children.idxOf? id = some position) {r : Nat} {p p' : ProgramState}
    (foundR : ps[r]? = some p) (found' : ps'[r]? = some p') (alive' : p'.dropped = false) :
    (List.range ps'.length).filter (isChild (nodes ps') r) =
      if q = r then p.children.eraseIdx position else p.children := by
  have alive := (cut.before foundR found' alive').1
  rw [cut.size]
  by_cases isParent : q = r
  · subst isParent
    have sameP : parent = p := Option.some.inj (foundQ.symm.trans foundR)
    subst sameP
    have erased := List.erase_eq_eraseIdx parent.children id
    rw [atPosition] at erased
    dsimp only at erased
    rw [if_pos rfl, ← erased, settled.children q parent foundQ alive,
      (List.nodup_range.filter _).erase_eq_filter, List.filter_filter]
    apply List.filter_congr
    intro c _
    rw [cut.isChild_eq found' alive' c, Bool.and_comm]
    simp [bne, Bool.beq_eq_decide_eq]
  · rw [if_neg isParent, settled.children r p foundR alive]
    apply List.filter_congr
    intro c _
    rw [cut.isChild_eq found' alive' c]
    by_cases here : c = id
    · have notChild : isChild (nodes ps) r c = false := by
        by_contra child
        obtain ⟨m, foundM, parentM, -⟩ := isChild_nodes.mp (by simpa using child)
        rw [here] at foundM
        have sameM : program = m := Option.some.inj (found.symm.trans foundM)
        subst sameM
        exact isParent (Option.some.inj (hasParent.symm.trans parentM))
      rw [notChild]
      rfl
    · simp [here]

end Cut

theorem pruneProgram_spec {ps : List ProgramState} (settled : Settled ps) {id : Nat}
    {program : ProgramState} (found : ps[id]? = some program) (alive : program.dropped = false)
    (pos : 0 < id) :
    ∃ ps', pruneProgram id program ps = .ok ps' ∧ Settled ps' ∧ Prunes ps id ps' := by
  obtain ⟨q, parent, position, call, before, after, hasParent, older, foundQ, aliveQ, atPosition,
    fallback, updates, length, ok⟩ := pruneProgram_ok settled found alive pos
  have inside : id < ps.length := (List.getElem?_eq_some_iff.mp found).1
  have edited := edited_modify older ps position (before ++ ⟨.call call, program.step⟩ :: after)
  have cut := dropDescendants_cut settled inside edited
  refine ⟨_, ok, ?_⟩
  generalize dropDescendants _ _ = ps' at cut
  have bare := bare_of_core cut.core
  have kept : ∀ {r : Nat} {p p' : ProgramState}, ps[r]? = some p → ps'[r]? = some p' →
      p'.dropped = false → ∃ d, p' = (if q = r then p.dropChild position
        (before ++ ⟨.call call, program.step⟩ :: after) else p).mark d := by
    intro r p p' found₀ found' alive'
    obtain ⟨p₀, d, found₁, rfl⟩ := cut.look found'
    have sameP : p = p₀ := Option.some.inj (found₀.symm.trans found₁)
    subst sameP
    have other := (cut.before found₀ found' alive').2
    exact ⟨d, by rw [pruneEdit, if_neg (Ne.symm other)]⟩
  refine ⟨⟨settled.forest.congr bare, cut.root settled pos, cut.closed settled, ?_, ?_, ?_⟩,
    ⟨cut.core, cut.mono, by rw [isDropped_iff found, alive]; decide, cut.gone, ?_, ?_, cut.cause⟩⟩
  · intro r p' found' alive'
    obtain ⟨p, -, found₀, -⟩ := cut.look found'
    rw [cut.children settled found hasParent foundQ atPosition found₀ found' alive']
    obtain ⟨d, rfl⟩ := kept found₀ found' alive'
    split <;> rfl
  · intro r p' ops found' alive' updates'
    obtain ⟨p, -, found₀, -⟩ := cut.look found'
    have alive₀ := (cut.before found₀ found' alive').1
    obtain ⟨d, rfl⟩ := kept found₀ found' alive'
    rw [opsOf_congr bare]
    by_cases isParent : q = r
    · subst isParent
      have sameP : parent = p := Option.some.inj (foundQ.symm.trans found₀)
      subst sameP
      rw [if_pos rfl] at updates' ⊢
      have owed := settled.ops q parent _ foundQ aliveQ updates
      have here : before ++ ⟨.call call, program.step⟩ :: after = ops := Option.some.inj updates'
      show _ = opsOf (nodes ps) (parent.children.eraseIdx position)
      rw [opsOf_eraseIdx (settled.valid foundQ aliveQ), ← owed, ← here,
        nestedOps_append, nestedOps_append, show nestedOps (program.node.op :: after) =
          program.node.op :: nestedOps after from rfl,
        List.eraseIdx_append_of_length_le (le_of_eq length), length, Nat.sub_self,
        List.eraseIdx_cons_zero]
      rfl
    · rw [if_neg isParent] at updates' ⊢
      exact settled.ops r p ops found₀ alive₀ updates'
  · intro r p' found' alive' none
    obtain ⟨p, -, found₀, -⟩ := cut.look found'
    have alive₀ := (cut.before found₀ found' alive').1
    obtain ⟨d, rfl⟩ := kept found₀ found' alive'
    by_cases isParent : q = r
    · rw [if_pos isParent] at none
      cases none
    · rw [if_neg isParent] at none ⊢
      exact settled.unfinished r p found₀ alive₀ none
  · intro c p p' found₀ found'
    obtain ⟨p₀, d, found₁, rfl⟩ := cut.look found'
    have sameP : p = p₀ := Option.some.inj (found₀.symm.trans found₁)
    subst sameP
    unfold pruneEdit
    split
    · exact Or.inl rfl
    · split
      · rename_i isParent
        subst isParent
        have sameP : parent = p := Option.some.inj (foundQ.symm.trans found₀)
        subst sameP
        exact Or.inr ⟨program, before, after, call, found, fallback, updates, rfl⟩
      · exact Or.inl rfl
  · intro c p p' found₀ found'
    obtain ⟨p₀, d, found₁, rfl⟩ := cut.look found'
    have sameP : p = p₀ := Option.some.inj (found₀.symm.trans found₁)
    subst sameP
    unfold pruneEdit
    split
    · rename_i here
      subst here
      simp [ProgramState.mark, ProgramState.prune]
    · rename_i other
      have other : ¬c = id := fun same => other same.symm
      split <;> simp [ProgramState.mark, ProgramState.dropChild, other]

/-! ### The whole pass -/

/-- An op of a program before and after the pass: the same, or the call of a pruned frame. -/
inductive Unnested (ps : List ProgramState) : Op → Op → Prop where
  | same (op : Op) : Unnested ps op op
  | call {id : Nat} {p : ProgramState} {c : Call} (found : ps[id]? = some p)
      (alive : p.dropped = false) (fallback : p.fallback = some c) :
      Unnested ps p.node.op ⟨.call c, p.step⟩

/-- `ps'` is `ps` with some programs turned back into calls. -/
structure Trims (ps ps' : List ProgramState) : Prop where
  core : ps'.map ProgramState.core = ps.map ProgramState.core
  mono : ∀ id, isDropped ps id → isDropped ps' id
  updates : ∀ (id : Nat) (p p' : ProgramState), ps[id]? = some p → ps'[id]? = some p' →
    Option.Rel (List.Forall₂ (Unnested ps)) p.updates p'.updates
  pruned : ∀ (id : Nat) (p p' : ProgramState), ps[id]? = some p → ps'[id]? = some p' →
    p'.pruned = true → p.pruned = true ∨ p.dropped = false ∧ p'.dropped = true
  cause : ∀ (id : Nat) (p' : ProgramState), ps'[id]? = some p' → p'.dropped = true →
    isDropped ps id ∨ p'.pruned = true ∨ ∃ q, p'.parent = some q ∧ isDropped ps' q

theorem look_core {ps ps' : List ProgramState}
    (same : ps'.map ProgramState.core = ps.map ProgramState.core) {id : Nat} {p' : ProgramState}
    (found' : ps'[id]? = some p') : ∃ p, ps[id]? = some p ∧ p'.core = p.core := by
  have here : (ps.map ProgramState.core)[id]? = (ps'.map ProgramState.core)[id]? := by rw [same]
  rw [List.getElem?_map, List.getElem?_map, found'] at here
  obtain ⟨p, found, core⟩ := Option.map_eq_some_iff.mp here
  exact ⟨p, found, core.symm⟩

theorem ProgramState.eq_of_core {p p' : ProgramState} (same : p'.core = p.core) :
    p' = { p with
      dropped := p'.dropped, pruned := p'.pruned, updates := p'.updates, children := p'.children } := by
  cases p
  cases p'
  simp only [ProgramState.core, ProgramState.mk.injEq] at same ⊢
  simp [same]

theorem Trims.refl (ps : List ProgramState) : Trims ps ps := by
  refine ⟨rfl, fun _ dropped => dropped, ?_, ?_, ?_⟩
  · intro id p p' found found'
    rw [Option.some.inj (found.symm.trans found')]
    cases p'.updates with
    | none => exact .none
    | some ops => exact .some (List.forall₂_same.mpr fun op _ => .same op)
  · intro id p p' found found' pruned
    rw [Option.some.inj (found.symm.trans found')]
    exact Or.inl pruned
  · intro id p found dropped
    exact Or.inl ⟨p, found, dropped⟩

/-- Replacing one `NESTED` op of a trimmed program by its frame's call. -/
theorem forall₂_unnested {ps : List ProgramState} {ops before after : List Op} {op op' : Op}
    (nested : op.update.isNested = true) (next : Unnested ps op op')
    (sofar : List.Forall₂ (Unnested ps) ops (before ++ op :: after)) :
    List.Forall₂ (Unnested ps) ops (before ++ op' :: after) := by
  induction before generalizing ops with
  | nil =>
    cases sofar with
    | cons here rest =>
      refine .cons ?_ rest
      cases here with
      | same => exact next
      | call => cases nested
  | cons head before ih =>
    cases sofar with
    | cons here rest => exact .cons here (ih rest)

theorem Trims.step {ps ps₁ ps₂ : List ProgramState} {id : Nat} (trims : Trims ps ps₁)
    (prunes : Prunes ps₁ id ps₂) : Trims ps ps₂ := by
  have find : ∀ {c : Nat} {p₂ : ProgramState}, ps₂[c]? = some p₂ → ∃ p₁, ps₁[c]? = some p₁ ∧
      p₂.core = p₁.core := fun found => look_core prunes.core found
  refine ⟨prunes.core.trans trims.core, fun c dropped => prunes.mono c (trims.mono c dropped), ?_, ?_, ?_⟩
  · intro c p p₂ found found₂
    obtain ⟨p₁, found₁, -⟩ := find found₂
    have sofar := trims.updates c p p₁ found found₁
    rcases prunes.updates c p₁ p₂ found₁ found₂ with same | ⟨m, before, after, call, foundM, fallback, was, now⟩
    · rw [same]
      exact sofar
    · obtain ⟨m₀, foundM₀, coreM⟩ := look_core trims.core foundM
      have alive : m₀.dropped = false := by
        by_contra dropped
        exact prunes.fresh (trims.mono id ⟨m₀, foundM₀, by simpa using dropped⟩)
      have next : Unnested ps m.node.op ⟨.call call, m.step⟩ := by
        have sameM := ProgramState.eq_of_core coreM
        rw [sameM] at fallback ⊢
        have unnested : Unnested ps m₀.node.op ⟨.call call, m₀.step⟩ := .call foundM₀ alive fallback
        exact unnested
      rw [was] at sofar
      rw [now]
      cases updates : p.updates with
      | none =>
        rw [updates] at sofar
        cases sofar
      | some ops =>
        rw [updates] at sofar
        cases sofar with
        | some related => exact .some (forall₂_unnested rfl next related)
  · intro c p p₂ found found₂ pruned
    obtain ⟨p₁, found₁, -⟩ := find found₂
    rw [prunes.pruned c p₁ p₂ found₁ found₂, Bool.or_eq_true, decide_eq_true_eq] at pruned
    rcases pruned with before | here
    · rcases trims.pruned c p p₁ found found₁ before with old | ⟨alive, dropped⟩
      · exact Or.inl old
      · exact Or.inr ⟨alive, (isDropped_iff found₂).mp (prunes.mono c ⟨p₁, found₁, dropped⟩)⟩
    · subst here
      refine Or.inr ⟨?_, (isDropped_iff found₂).mp prunes.gone⟩
      by_contra dropped
      exact prunes.fresh (trims.mono c ⟨p, found, by simpa using dropped⟩)
  · intro c p₂ found₂ dropped
    obtain ⟨p₁, found₁, coreP⟩ := find found₂
    have parents : p₂.parent = p₁.parent := by rw [ProgramState.eq_of_core coreP]
    have flag := prunes.pruned c p₁ p₂ found₁ found₂
    rcases prunes.cause c ⟨p₂, found₂, dropped⟩ with before | here | ⟨p, q, foundP, parent, above⟩
    · rcases trims.cause c p₁ found₁ ((isDropped_iff found₁).mp before) with
        old | pruned | ⟨q, parent, above⟩
      · exact Or.inl old
      · exact Or.inr (Or.inl (by rw [flag, pruned]; rfl))
      · exact Or.inr (Or.inr ⟨q, parents.trans parent, prunes.mono q above⟩)
    · exact Or.inr (Or.inl (by rw [flag, decide_eq_true here, Bool.or_true]))
    · have same : p₁ = p := Option.some.inj (found₁.symm.trans foundP)
      subst same
      exact Or.inr (Or.inr ⟨q, parents.trans parent, above⟩)

theorem satSub_zero (b : UInt64) : satSub 0 b = 0 := by
  unfold satSub
  split
  · rename_i le
    have zero : b = 0 := by
      apply UInt64.toNat_inj.mp
      simpa using UInt64.le_iff_toNat_le.mp le
    rw [zero]
    rfl
  · rfl

/-- Every live program from `id` on has its ops. -/
def DoneFrom (id : Nat) (ps : List ProgramState) : Prop :=
  ∀ (q : Nat) (p : ProgramState), id ≤ q → ps[q]? = some p → p.dropped = false → p.updates.isSome = true

theorem DoneFrom.prunes {ps ps' : List ProgramState} {id lo : Nat} (done : DoneFrom lo ps)
    (prunes : Prunes ps id ps') : DoneFrom lo ps' := by
  intro q p' after found' alive'
  obtain ⟨p, found, -⟩ := look_core prunes.core found'
  have alive : p.dropped = false := by
    by_contra dropped
    have := prunes.mono q ⟨p, found, by simpa using dropped⟩
    rw [isDropped_iff found', alive'] at this
    cases this
  rcases prunes.updates q p p' found found' with same | ⟨m, before, after', call, -, -, -, now⟩
  · rw [same]
    exact done q p after found alive
  · rw [now]
    rfl

theorem pruneStep_upheld (cost : NestingCostModel) {ps : List ProgramState} {s : Pruning} {id : Nat}
    (settled : Settled s.programs) (trims : Trims ps s.programs) (pos : 0 < id)
    (done : DoneFrom (id + 1) s.programs) :
    Upheld (fun s' => Settled s'.programs ∧ Trims ps s'.programs ∧
      s'.programs.length = s.programs.length ∧ DoneFrom id s'.programs) (pruneStep cost id s) := by
  unfold pruneStep
  refine Sat.bind (index_upheld _ _) fun program found => ?_
  -- If `id` is kept with its ops, everything from `id` on is done.
  have extend : ∀ {qs : List ProgramState}, DoneFrom (id + 1) qs →
      (∀ p, qs[id]? = some p → p.dropped = false → p.updates.isSome = true) → DoneFrom id qs := by
    intro qs later here q p after foundP alive
    rcases Nat.eq_or_lt_of_le after with rfl | gt
    · exact here p foundP alive
    · exact later q p gt foundP alive
  split
  · rename_i dropped
    refine ⟨settled, trims, rfl, extend done ?_⟩
    intro p foundP alive
    rw [← Option.some.inj (found.symm.trans foundP), dropped] at alive
    cases alive
  · rename_i notDropped
    have alive : program.dropped = false := by simpa using notDropped
    dsimp only
    split
    · rename_i pays
      refine ⟨settled, trims, rfl, extend done ?_⟩
      intro p foundP _
      rw [← Option.some.inj (found.symm.trans foundP)]
      cases updates : program.updates with
      | some ops => rfl
      | none =>
        obtain ⟨zero, childless⟩ := settled.unfinished id program found alive updates
        rw [zero, childless, satSub_zero, satSub_zero] at pays
        exact absurd pays (by simp [satAdd])
    · obtain ⟨ps', ok, settled', prunes⟩ := pruneProgram_spec settled found alive pos
      rw [ok]
      refine ⟨settled', trims.step prunes, ?_, extend (done.prunes prunes) ?_⟩
      · simpa using congrArg List.length prunes.core
      · intro p foundP aliveP
        have := prunes.gone
        rw [isDropped_iff foundP, aliveP] at this
        cases this

theorem pruneLoop_upheld (cost : NestingCostModel) {ps : List ProgramState} (count : Nat) :
    ∀ s : Pruning, Settled s.programs → Trims ps s.programs → count < s.programs.length →
      DoneFrom (count + 1) s.programs →
      Upheld (fun s' => Settled s'.programs ∧ Trims ps s'.programs ∧ DoneFrom 1 s'.programs)
        (pruneLoop cost (List.range' 1 count).reverse s) := by
  induction count with
  | zero =>
    intro s settled trims _ done
    exact ⟨settled, trims, done⟩
  | succ count ih =>
    intro s settled trims inside done
    rw [List.range'_1_concat, List.reverse_append, List.reverse_singleton, List.singleton_append,
      Nat.add_comm 1 count]
    refine Sat.bind (pruneStep_upheld cost settled trims (Nat.succ_pos count) done) ?_
    rintro s' ⟨settled', trims', size, done'⟩
    exact ih s' settled' trims' (by omega) done'

theorem pruneUnprofitable_upheld (cost : NestingCostModel) {ps : List ProgramState}
    (settled : Settled ps) :
    Upheld (fun ps' => Settled ps' ∧ Trims ps ps' ∧ DoneFrom 0 ps') (pruneUnprofitable ps cost) := by
  have pos := settled.forest.pos
  rw [length_nodes] at pos
  unfold pruneUnprofitable
  refine Sat.bind (pruneLoop_upheld cost (ps.length - 1) _ settled (Trims.refl ps) (by simp; omega) ?_) ?_
  · intro q p after found
    have := (List.getElem?_eq_some_iff.mp found).1
    simp only at this
    omega
  · rintro s' ⟨settled', trims', done'⟩
    refine ⟨settled', trims', ?_⟩
    intro q p _ found alive
    rcases Nat.eq_zero_or_pos q with rfl | later
    · obtain ⟨r, foundR, -, done⟩ := settled'.root
      rw [← Option.some.inj (foundR.symm.trans found)]
      exact done
    · exact done' q p later found alive

end GasAnalyzer
