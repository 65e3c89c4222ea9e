import GasAnalyzer.Native.Segments
import GasAnalyzer.Safety.Split

/-!
# The indices of the split

Programs are named by their place in a list. A state of the walk only names programs that are there, at every step and
at every return on the way to one; parents and children of the programs it ends with are there too, while drops are
spread, children are struck off and frames are pruned. So no lookup of the split falls back on a default or leaves a
list as it was for want of an index.
-/

namespace GasAnalyzer

variable {root : Node}

/-! ### The walk -/

/-- Every program a state names is one of its programs. -/
structure Walk.InRange (w : Walk) : Prop where
  nonempty : 0 < w.programs.length
  emits : ∀ f ∈ w.top :: w.below, ∀ id, f.program = some id → id < w.programs.length
  opened : ∀ f ∈ w.top :: w.below, f.firstProgram ≤ w.programs.length
  pending : ∀ p id, w.pending = some p → p.program = some id → id < w.programs.length

theorem Outline.Sound.inRange {w : Walk} (sound : w.outline.Sound root) : w.InRange := by
  have size : w.outline.ledgers.length = w.programs.length := List.length_map _
  have nodes : (ledgerNodes w.outline.ledgers).length = w.programs.length := by rw [List.length_map, size]
  have shapes : ∀ f ∈ w.top :: w.below, f.shape ∈ w.outline.top :: w.outline.below := by
    intro f member
    exact List.mem_map_of_mem (f := WalkFrame.shape) member
  have emits : ∀ f ∈ w.top :: w.below, ∀ id, f.program = some id → id < w.programs.length := by
    intro f member id program
    rw [← size]
    exact sound.stack.program_lt f.shape (shapes f member) id program
  refine ⟨?_, emits, ?_, ?_⟩
  · rw [← nodes]
    exact sound.books.forest.pos
  · intro f member
    have first := sound.stack.first_le f.shape (shapes f member)
    have bound := w.outline.top.first_le_bound
    have fits := sound.stack.fits.le
    rw [size] at fits
    exact first.trans (bound.trans fits)
  · intro p id waits program
    have waiting := sound.waiting p waits
    cases nested : p.nestedStartGas.isSome with
    | true =>
      obtain ⟨id', -, -, named, last, -⟩ := waiting.nested nested
      rw [named, Option.some.injEq] at program
      omega
    | false =>
      rcases waiting.plain nested with none | ⟨same, -⟩
      · rw [none] at program
        cases program
      · exact emits w.top List.mem_cons_self id (same.symm.trans program)

section

variable {H : Hashes} {elig : Eligibility} {candidates : OrdMap Nat Candidate} {logs : List StructLog} {start : Walk}

/-- After any number of steps the walk is sound and the next step follows. -/
theorem walk_take_sound (enters : Enters candidates logs) (sound : start.outline.Sound root)
    (follows : start.Follows logs.head?) {k : Nat} (inside : k ≤ logs.length) :
    ∀ {w : Walk}, walk H elig candidates (logs.take k) 0 start = .ok w → w.outline.Sound root ∧ w.Follows logs[k]? := by
  induction k with
  | zero =>
    intro w walked
    obtain rfl := Except.ok.inj walked
    rw [← List.head?_eq_getElem?]
    exact ⟨sound, follows⟩
  | succ k ih =>
    intro w walked
    have here : logs[k]? = some logs[k] := List.getElem?_eq_getElem inside
    rw [List.take_succ_eq_append_getElem inside, walk_append] at walked
    obtain ⟨v, before, walked⟩ := Outcome.bind_ok walked
    obtain ⟨v', stepped, same⟩ := Outcome.bind_ok walked
    obtain rfl := Except.ok.inj same
    obtain ⟨soundV, followsV⟩ := ih (Nat.le_of_succ_le inside) before
    rw [Nat.zero_add, List.length_take_of_le (Nat.le_of_succ_le inside)] at stepped
    rw [here] at followsV
    exact (walkStep_upheld H elig soundV followsV fun c log' candidate next =>
      enters k c logs[k] log' candidate here next).of_ok stepped

theorem Arriving.sound {n : Nat} {log : StructLog} {w v : Walk} (arriving : Arriving n log w v)
    (sound : w.outline.Sound root) (follows : w.Follows (some log)) : v.outline.Sound root ∧ v.pending = none := by
  induction arriving with
  | entered entered => exact (enterPending_upheld sound follows).of_ok entered
  | popped _ popped ih => exact (popFrame_upheld ih.1 ih.2 n log).of_ok popped

end

/-- Over any trace, between any two steps of the walk and at every return between them, every program that is named is
there. -/
theorem walk_inRange {H : Hashes} {elig : Eligibility} {logs : List StructLog} {candidates : OrdMap Nat Candidate}
    {rootIndex : Option U256} (target : Address) (scanned : scanCandidates logs = .ok (candidates, rootIndex)) {k : Nat}
    (inside : k ≤ logs.length) {w : Walk}
    (walked : walk H elig candidates (logs.take k) 0 (initialWalk target rootIndex) = .ok w) :
    w.InRange ∧ ∀ log, logs[k]? = some log → ∀ v, Arriving k log w v → v.InRange := by
  have enters := (scanCandidates_upheld logs).of_ok scanned
  obtain ⟨sound, follows⟩ := walk_take_sound enters (initialWalk_sound target rootIndex)
    (fun _ _ waits => by cases waits) inside walked
  refine ⟨sound.inRange, ?_⟩
  intro log here v arriving
  rw [here] at follows
  exact (arriving.sound sound follows).1.inRange

/-! ### Parents and children -/

/-- Every parent and every child of a program is one of the programs. -/
structure Kin (ps : List ProgramState) : Prop where
  parent : ∀ (id : Nat) (p : ProgramState) (q : Nat), ps[id]? = some p → p.parent = some q → q < ps.length
  children : ∀ (id : Nat) (p : ProgramState), ps[id]? = some p → ∀ c ∈ p.children, c < ps.length

/-- The same parents, and no new children. -/
structure Thins (ps ps' : List ProgramState) : Prop where
  length : ps'.length = ps.length
  each : ∀ (id : Nat) (p' : ProgramState), ps'[id]? = some p' →
    ∃ p, ps[id]? = some p ∧ p'.parent = p.parent ∧ ∀ c ∈ p'.children, c ∈ p.children

namespace Thins

variable {ps ps' ps'' : List ProgramState}

theorem refl (ps : List ProgramState) : Thins ps ps := ⟨rfl, fun _ p found => ⟨p, found, rfl, fun _ member => member⟩⟩

theorem trans (first : Thins ps ps') (second : Thins ps' ps'') : Thins ps ps'' := by
  refine ⟨second.length.trans first.length, ?_⟩
  intro id p'' found
  obtain ⟨p', found', parent', fewer'⟩ := second.each id p'' found
  obtain ⟨p, found₀, parent, fewer⟩ := first.each id p' found'
  exact ⟨p, found₀, parent'.trans parent, fun c member => fewer c (fewer' c member)⟩

theorem modify (ps : List ProgramState) (id : Nat) {f : ProgramState → ProgramState} (parent : ∀ p, (f p).parent = p.parent)
    (fewer : ∀ p, ∀ c ∈ (f p).children, c ∈ p.children) : Thins ps (ps.modify id f) := by
  refine ⟨List.length_modify .., ?_⟩
  intro i p' found
  obtain ⟨p, found₀, same⟩ := found_modify found
  split at same
  · rw [← same]
    exact ⟨p, found₀, parent p, fewer p⟩
  · rw [← same]
    exact ⟨p, found₀, rfl, fun _ member => member⟩

theorem kin (thins : Thins ps ps') (kin : Kin ps) : Kin ps' := by
  constructor
  · intro id p' q found parent
    obtain ⟨p, found₀, same, -⟩ := thins.each id p' found
    rw [thins.length]
    exact kin.parent id p q found₀ (same.symm.trans parent)
  · intro id p' found c member
    obtain ⟨p, found₀, -, fewer⟩ := thins.each id p' found
    rw [thins.length]
    exact kin.children id p found₀ c (fewer c member)

theorem dropDescendants (ps : List ProgramState) (ids : List Nat) : Thins ps (dropDescendants ps ids) := by
  induction ids generalizing ps with
  | nil => exact .refl ps
  | cons id ids ih =>
    have first : Thins ps (spreadDrop ps id) := by
      unfold spreadDrop
      split
      · split
        · exact .modify ps id (fun _ => rfl) fun _ _ member => member
        · exact .refl ps
      · exact .refl ps
    exact first.trans (ih (spreadDrop ps id))

theorem retainChildren (ps : List ProgramState) : Thins ps (retainChildren ps) := by
  refine ⟨length_retainChildren ps, ?_⟩
  intro id p' found
  rw [retainChildren_eq, List.getElem?_map] at found
  obtain ⟨p, found₀, rfl⟩ := Option.map_eq_some_iff.mp found
  exact ⟨p, found₀, rfl, fun c member => (List.mem_filter.mp member).1⟩

theorem pruneProgram {id : Nat} {program : ProgramState} (pruned : pruneProgram id program ps = .ok ps') :
    Thins ps ps' := by
  unfold GasAnalyzer.pruneProgram at pruned
  obtain ⟨q, -, pruned⟩ := Outcome.bind_ok pruned
  obtain ⟨parent, -, pruned⟩ := Outcome.bind_ok pruned
  obtain ⟨position, -, pruned⟩ := Outcome.bind_ok pruned
  obtain ⟨fallback, -, pruned⟩ := Outcome.bind_ok pruned
  obtain ⟨updates, -, pruned⟩ := Outcome.bind_ok pruned
  obtain ⟨replaced, -, pruned⟩ := Outcome.bind_ok pruned
  obtain rfl := Except.ok.inj pruned
  have struck : Thins ps (ps.modify q (ProgramState.dropChild position replaced)) :=
    .modify ps q (fun _ => rfl) fun _ _ member => List.mem_of_mem_eraseIdx member
  have marked := Thins.modify (ps.modify q (ProgramState.dropChild position replaced)) id
    (f := ProgramState.prune) (fun _ => rfl) fun _ _ member => member
  exact (struck.trans marked).trans (.dropDescendants _ _)

end Thins

/-! ### Settling -/

/-- The programs of a finished walk name parents and children among them. -/
theorem Closed.kin {ps : List ProgramState} (closed : Closed root ps) : Kin ps := by
  obtain ⟨running, books, -⟩ := closed.books
  have ns : ledgerNodes (ps.map ProgramState.ledger) = nodes ps := by
    simp [nodes, Function.comp_def, ProgramState.ledger]
  have forest : Forest (nodes ps) := ns ▸ books.forest
  constructor
  · intro id p q found parent
    exact (older_of_forest forest id p q found parent).trans (List.getElem?_eq_some_iff.mp found).1
  · intro id p found c member
    have named := books.children id p.ledger (by rw [List.getElem?_map, found]; rfl)
    have child : c ∈ childIds (ledgerNodes (ps.map ProgramState.ledger)) id := named ▸ member
    have below := List.mem_range.mp (List.mem_filter.mp child).1
    rwa [List.length_map, List.length_map] at below

/-- A pruning names parents and children that are there, and has a figure for each program. -/
structure Pruning.InRange (s : Pruning) : Prop where
  kin : Kin s.programs
  witnesses : s.witnessBytes.length = s.programs.length
  savings : s.netSavings.length = s.programs.length

theorem pruneStep_inRange {cost : NestingCostModel} {id : Nat} {s s' : Pruning} (inRange : s.InRange)
    (stepped : pruneStep cost id s = .ok s') : id < s.programs.length ∧ s'.InRange := by
  unfold pruneStep at stepped
  obtain ⟨p, found, stepped⟩ := Outcome.bind_ok stepped
  have inside := (List.getElem?_eq_some_iff.mp (Outcome.okOr_ok.mp found)).1
  refine ⟨inside, ?_⟩
  split at stepped
  · obtain rfl := Except.ok.inj stepped
    exact inRange
  · dsimp only at stepped
    split at stepped
    · obtain rfl := Except.ok.inj stepped
      refine ⟨inRange.kin, ?_, ?_⟩
      · rw [List.length_set]
        exact inRange.witnesses
      · rw [List.length_set]
        exact inRange.savings
    · obtain ⟨ps', pruned, stepped⟩ := Outcome.bind_ok stepped
      obtain rfl := Except.ok.inj stepped
      have thins := Thins.pruneProgram pruned
      refine ⟨thins.kin inRange.kin, ?_, ?_⟩
      · rw [List.length_set]
        exact inRange.witnesses.trans thins.length.symm
      · exact inRange.savings.trans thins.length.symm

theorem pruneLoop_inRange {cost : NestingCostModel} {ids : List Nat} {s s' : Pruning} (inRange : s.InRange)
    (ran : pruneLoop cost ids s = .ok s') : s'.InRange := by
  induction ids generalizing s with
  | nil =>
    obtain rfl := Except.ok.inj ran
    exact inRange
  | cons id ids ih =>
    obtain ⟨s₁, stepped, ran⟩ := Outcome.bind_ok ran
    exact ih (pruneStep_inRange inRange stepped).2 ran

/-- Once the root is closed, every parent, child and figure that settling looks up is there, at any point of it. -/
theorem settle_inRange {ps : List ProgramState} (closed : Closed root ps) (cost : NestingCostModel) :
    (∀ ids, Kin (dropDescendants ps ids)) ∧ Kin (retainChildren (dropDescendantsOfDropped ps)) ∧
      ∀ ids s, pruneLoop cost ids ⟨retainChildren (dropDescendantsOfDropped ps), List.replicate ps.length 0,
        List.replicate ps.length 0⟩ = .ok s → s.InRange := by
  have spread : ∀ ids, Kin (dropDescendants ps ids) := fun ids => (Thins.dropDescendants ps ids).kin closed.kin
  have retained := Thins.retainChildren (dropDescendantsOfDropped ps)
  have kept : Kin (retainChildren (dropDescendantsOfDropped ps)) := retained.kin (spread _)
  refine ⟨spread, kept, ?_⟩
  intro ids s ran
  have size : (retainChildren (dropDescendantsOfDropped ps)).length = ps.length :=
    retained.length.trans (Thins.dropDescendants ps _).length
  refine pruneLoop_inRange ⟨kept, ?_, ?_⟩ ran
  · rw [size, List.length_replicate]
  · rw [size, List.length_replicate]

end GasAnalyzer
