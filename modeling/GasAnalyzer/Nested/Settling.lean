import GasAnalyzer.Nested.Candidates
import GasAnalyzer.Nested.Pruning

/-!
# The programs of a finished walk

Closing the root, spreading the drops and pruning keep the books: whatever the trace, the split either
fails on the trace itself or ends with settled programs, all of them finished.
-/

namespace GasAnalyzer

open Outcome

variable {root : Node}

theorem ledger_modify_finishRoot {ps : List ProgramState} (frame : WalkFrame) {r : ProgramState}
    (first : ps[0]? = some r) :
    (ps.modify 0 (ProgramState.finishRoot frame)).map ProgramState.ledger =
      (ps.map ProgramState.ledger).modify 0 (Books.closeLedger frame.out r.nativeGas) := by
  cases ps with
  | nil => cases first
  | cons p rest =>
    obtain rfl : p = r := Option.some.inj first
    rfl

/-- The books when the walk is over: only the callee of a `CALL` on the last step still runs. -/
structure Closed (root : Node) (ps : List ProgramState) : Prop where
  books : ∃ running, Books root (ps.map ProgramState.ledger) running ∧ ∀ q, running q → q + 1 = ps.length
  done : ∀ r : ProgramState, ps[0]? = some r → r.updates.isSome = true ∧ r.dropped = false

theorem closeRoot_upheld {w : Walk} (sound : w.outline.Sound root) (step : Nat) :
    Upheld (fun w' => Closed root w'.programs) (closeRoot step w) := by
  unfold closeRoot
  split
  · rfl
  rename_i alone
  have below : w.below = [] := not_not.mp alone
  have stack := sound.stack
  rw [show w.outline.below = [] by simp [Walk.outline, below]] at stack
  obtain ⟨fit, emits, first, -⟩ := stack
  obtain ⟨-, ⟨m, foundM, alive, -⟩, owed⟩ := fit.emits 0 emits
  rw [List.getElem?_map, show w.outline.ledgers = w.programs.map ProgramState.ledger from rfl,
    List.getElem?_map] at foundM
  obtain ⟨l, foundL, rfl⟩ := Option.map_eq_some_iff.mp foundM
  obtain ⟨r, foundR, rfl⟩ := Option.map_eq_some_iff.mp foundL
  rw [flushSlice_eq emits foundR, Outcome.ok_bind]
  set frame := w.top.flushed step (visibleImage (w.top :: w.below) r.target)
  have runs : w.outline.running 0 := Or.inl ⟨_, List.mem_cons_self, emits⟩
  refine ⟨⟨fun q => w.outline.running q ∧ q ≠ 0, ?_, ?_⟩, ?_⟩
  · show Books root ((w.programs.modify 0 _).map ProgramState.ledger) _
    rw [ledger_modify_finishRoot frame foundR]
    refine sound.books.closing r.nativeGas ?_ (fun q => Iff.rfl)
    rw [first] at owed
    rw [← owed]
    simp [frame, WalkFrame.flushed, Walk.outline, WalkFrame.shape, nestedOps_staleStores]
  · rintro q ⟨open', other⟩
    rcases open' with ⟨f, member, program⟩ | ⟨p, waits, nested, program⟩
    · rw [show w.outline.below = [] by simp [Walk.outline, below]] at member
      rw [List.mem_singleton.mp member, emits] at program
      exact absurd (Option.some.inj program).symm other
    · obtain ⟨id, q', m, program', last, -⟩ := (sound.waiting p waits).nested nested
      rw [program'] at program
      rw [← Option.some.inj program]
      simpa [Walk.outline, modifyProgram] using last
  · intro r' found
    simp only [modifyProgram, List.getElem?_modify, foundR] at found
    obtain rfl := Option.some.inj found
    exact ⟨rfl, alive⟩

theorem Closed.settle {ps : List ProgramState} (closed : Closed root ps) :
    Settled (retainChildren (dropDescendantsOfDropped ps)) := by
  obtain ⟨running, books, last⟩ := closed.books
  have ns : ledgerNodes (ps.map ProgramState.ledger) = nodes ps := by
    simp [nodes, Function.comp_def, ProgramState.ledger]
  have forest : Forest (nodes ps) := ns ▸ books.forest
  have pos : 0 < ps.length := by simpa using forest.pos
  obtain ⟨spread, outside, inside⟩ := dropDescendants_spec ps 1 (ps.length - 1) (older_of_forest forest)
  refine retainChildren_settled books last (fun r found => (closed.done r found).1) spread ?_ ?_
  · rw [dropDescendantsOfDropped, outside 0 (Or.inl (by omega))]
    rintro ⟨r, found, dropped⟩
    rw [(closed.done r found).2] at dropped
    cases dropped
  · intro id p q found parent above
    have older := older_of_forest forest id p q found parent
    have bound := (List.getElem?_eq_some_iff.mp found).1
    exact inside id p q (by omega) (by omega) found parent above

theorem Closed.first {ps : List ProgramState} (closed : Closed root ps) :
    ∃ r, (retainChildren (dropDescendantsOfDropped ps))[0]? = some r ∧ r.target = root.target := by
  obtain ⟨running, books, -⟩ := closed.books
  obtain ⟨l, foundL, isRoot⟩ := books.first
  rw [List.getElem?_map] at foundL
  obtain ⟨r, found, rfl⟩ := Option.map_eq_some_iff.mp foundL
  have older : ∀ (id : Nat) (p : ProgramState) (q : Nat), ps[id]? = some p → p.parent = some q → q < id := by
    apply older_of_forest
    have forest := books.forest
    simpa [nodes, Function.comp_def, ProgramState.ledger] using forest
  obtain ⟨spread, -⟩ := dropDescendants_spec ps 1 (ps.length - 1) older
  obtain ⟨d, found'⟩ := Spreads.look spread.same found
  refine ⟨_, by rw [retainChildren_eq, List.getElem?_map, dropDescendantsOfDropped, found']; rfl, ?_⟩
  rw [← isRoot]
  rfl

/-- The programs the split ends with, `ps` being those of the closed walk. -/
structure Final (root : Node) (closed ps : List ProgramState) : Prop where
  settled : Settled ps
  done : DoneFrom 0 ps
  trims : Trims (retainChildren (dropDescendantsOfDropped closed)) ps
  first : ∃ r, ps[0]? = some r ∧ r.target = root.target

theorem settlePrograms_upheld {w : Walk} (closed : Closed root w.programs) (cost : NestingCostModel) :
    Upheld (Final root w.programs) (settlePrograms cost w) := by
  refine (pruneUnprofitable_upheld cost closed.settle).imp ?_
  rintro ps ⟨settled, trims, done⟩
  obtain ⟨r, found, target⟩ := closed.first
  obtain ⟨r', found', core⟩ := look_core trims.core.symm found
  refine ⟨settled, done, trims, r', found', ?_⟩
  rw [← target, ProgramState.eq_of_core core]

end GasAnalyzer
