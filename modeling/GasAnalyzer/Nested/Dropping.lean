import GasAnalyzer.Nested.Candidates

/-!
# Spreading a drop

One pass in id order drops every program below a dropped one. The pass changes nothing else, and a
program it drops has a dropped parent.
-/

namespace GasAnalyzer

def ProgramState.bare (p : ProgramState) : ProgramState := { p with dropped := false }

def ProgramState.mark (d : Bool) (p : ProgramState) : ProgramState := { p with dropped := d }

def isDropped (ps : List ProgramState) (id : Nat) : Prop :=
  ∃ p, ps[id]? = some p ∧ p.dropped = true

/-- `ps'` drops more of `ps`, below what is dropped already, and is otherwise the same. -/
structure Spreads (ps ps' : List ProgramState) : Prop where
  same : ps'.map ProgramState.bare = ps.map ProgramState.bare
  mono : ∀ id, isDropped ps id → isDropped ps' id
  cause : ∀ id, isDropped ps' id → isDropped ps id ∨
    ∃ p q, ps[id]? = some p ∧ p.parent = some q ∧ isDropped ps' q

namespace Spreads

variable {ps ps' ps'' : List ProgramState}

theorem length (spread : Spreads ps ps') : ps'.length = ps.length := by
  simpa using congrArg List.length spread.same

theorem look (same : ps'.map ProgramState.bare = ps.map ProgramState.bare) {id : Nat}
    {p : ProgramState} (found : ps[id]? = some p) :
    ∃ d, ps'[id]? = some (p.mark d) := by
  have here : (ps'.map ProgramState.bare)[id]? = (ps.map ProgramState.bare)[id]? := by rw [same]
  rw [List.getElem?_map, List.getElem?_map, found] at here
  obtain ⟨p', found', bare⟩ := Option.map_eq_some_iff.mp here
  refine ⟨p'.dropped, ?_⟩
  rw [found']
  cases p
  cases p'
  simp only [ProgramState.bare, ProgramState.mk.injEq] at bare
  simp [bare, ProgramState.mark]

theorem refl (ps : List ProgramState) : Spreads ps ps := ⟨rfl, fun _ h => h, fun _ h => Or.inl h⟩

theorem trans (first : Spreads ps ps') (second : Spreads ps' ps'') : Spreads ps ps'' := by
  refine ⟨second.same.trans first.same, fun id h => second.mono id (first.mono id h), ?_⟩
  intro id dropped
  rcases second.cause id dropped with before | ⟨p', q, found', parent, above⟩
  · rcases first.cause id before with old | ⟨p, q, found, parent, above⟩
    · exact Or.inl old
    · exact Or.inr ⟨p, q, found, parent, second.mono q above⟩
  · obtain ⟨d, found⟩ := look first.same.symm found'
    exact Or.inr ⟨_, q, found, parent, above⟩

end Spreads

theorem isDropped_modify {ps : List ProgramState} {id : Nat} {f : ProgramState → ProgramState} {c : Nat} :
    isDropped (ps.modify id f) c ↔
      ∃ p, ps[c]? = some p ∧ (if id = c then f p else p).dropped = true := by
  unfold isDropped
  rw [List.getElem?_modify]
  constructor
  · rintro ⟨p', found, dropped⟩
    obtain ⟨p, found', rfl⟩ := Option.map_eq_some_iff.mp found
    exact ⟨p, found', dropped⟩
  · rintro ⟨p, found, dropped⟩
    exact ⟨_, by rw [found]; rfl, dropped⟩

theorem bare_modify_drop (ps : List ProgramState) (id : Nat) :
    (ps.modify id ProgramState.drop).map ProgramState.bare = ps.map ProgramState.bare := by
  apply List.ext_getElem?
  intro i
  rw [List.getElem?_map, List.getElem?_modify, List.getElem?_map]
  cases ps[i]? with
  | none => rfl
  | some p =>
    by_cases here : id = i
    · simp [here, ProgramState.drop, ProgramState.bare]
    · simp [here]

/-- One step of the pass settles its id and leaves the others. -/
theorem spreadDrop_spec (ps : List ProgramState) (id : Nat) :
    Spreads ps (spreadDrop ps id) ∧ (∀ c, c ≠ id → (isDropped (spreadDrop ps id) c ↔ isDropped ps c)) ∧
      ∀ p q, ps[id]? = some p → p.parent = some q → isDropped ps q → isDropped (spreadDrop ps id) id := by
  unfold spreadDrop
  split
  · rename_i parent found
    obtain ⟨q, hasParent, foundQ⟩ := Option.bind_eq_some_iff.mp found
    obtain ⟨p, foundP, parentP⟩ := Option.bind_eq_some_iff.mp hasParent
    split
    · rename_i dropped
      have other : ∀ c, c ≠ id → (isDropped (ps.modify id ProgramState.drop) c ↔ isDropped ps c) := by
        intro c different
        rw [isDropped_modify]
        simp [isDropped, Ne.symm different]
      have here : isDropped (ps.modify id ProgramState.drop) id :=
        isDropped_modify.mpr ⟨p, foundP, by simp [ProgramState.drop]⟩
      refine ⟨⟨bare_modify_drop ps id, ?_, ?_⟩, other, fun _ _ _ _ _ => here⟩
      · intro c before
        by_cases same : c = id
        · exact same ▸ here
        · exact (other c same).mpr before
      · intro c after
        by_cases same : c = id
        · subst same
          right
          refine ⟨p, q, foundP, parentP, ?_⟩
          by_cases self : q = c
          · exact self ▸ here
          · exact (other q self).mpr ⟨parent, foundQ, dropped⟩
        · exact Or.inl ((other c same).mp after)
    · rename_i alive
      refine ⟨Spreads.refl ps, fun _ _ => Iff.rfl, ?_⟩
      intro p' q' found' parent' ⟨m, foundM, droppedM⟩
      have sameP : p = p' := Option.some.inj (foundP.symm.trans found')
      subst sameP
      have sameQ : q = q' := Option.some.inj (parentP.symm.trans parent')
      subst sameQ
      have sameM : parent = m := Option.some.inj (foundQ.symm.trans foundM)
      subst sameM
      exact absurd droppedM alive
  · rename_i none
    refine ⟨Spreads.refl ps, fun _ _ => Iff.rfl, ?_⟩
    rintro p q found parent ⟨m, foundM, -⟩
    rw [found, Option.bind_some, parent, Option.bind_some, foundM] at none
    cases none

/-- A drop spreads from `lo` on, as parents come before their children. -/
theorem dropDescendants_spec (ps : List ProgramState) (lo count : Nat)
    (older : ∀ (id : Nat) (p : ProgramState) (q : Nat), ps[id]? = some p → p.parent = some q → q < id) :
    Spreads ps (dropDescendants ps (List.range' lo count)) ∧
      (∀ id, id < lo ∨ lo + count ≤ id →
        (isDropped (dropDescendants ps (List.range' lo count)) id ↔ isDropped ps id)) ∧
      ∀ id p q, lo ≤ id → id < lo + count → ps[id]? = some p → p.parent = some q →
        isDropped (dropDescendants ps (List.range' lo count)) q →
        isDropped (dropDescendants ps (List.range' lo count)) id := by
  induction count with
  | zero =>
    refine ⟨Spreads.refl ps, fun _ _ => Iff.rfl, ?_⟩
    intro id p q ge lt
    omega
  | succ count ih =>
    obtain ⟨spread, outside, closed⟩ := ih
    have unrolled : dropDescendants ps (List.range' lo (count + 1)) =
        spreadDrop (dropDescendants ps (List.range' lo count)) (lo + count) := by
      unfold dropDescendants
      rw [List.range'_1_concat, List.foldl_append]
      rfl
    obtain ⟨once, others, here⟩ :=
      spreadDrop_spec (dropDescendants ps (List.range' lo count)) (lo + count)
    rw [unrolled]
    refine ⟨spread.trans once, ?_, ?_⟩
    · intro id place
      rw [others id (by omega), outside id (by omega)]
    · intro id p q ge lt found parent dropped
      have before := older id p q found parent
      rw [others q (by omega)] at dropped
      rcases Nat.lt_or_ge id (lo + count) with inner | last
      · rw [others id (by omega)]
        exact closed id p q ge inner found parent dropped
      · have same : id = lo + count := by omega
        subst same
        obtain ⟨d, found'⟩ := Spreads.look spread.same found
        exact here _ q found' parent dropped

end GasAnalyzer
