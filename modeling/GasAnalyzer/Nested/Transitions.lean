import GasAnalyzer.Nested.Outline

/-!
# Transitions of the outline

What a step of the walk can do to an outline: replace the top frame by one of the same shape, wait
for a call, push a frame, pop one (returned or reverted, its own program or not) and open a program.
Each keeps the outline sound.
-/

namespace GasAnalyzer

namespace Outline

variable {root : Node} {o : Outline}

/-- The shape of the frame a pending call opens. -/
def pushed (n : Nat) (p : PendingFrame) : Shape where
  program := p.program
  context := p.storageCtx
  first := p.firstProgram n
  nested := p.nestedStartGas.isSome
  ops := []
  last := false

namespace Sound

theorem running_of_free (free : o.pending = none) (q : Nat) :
    o.running q ↔ ∃ f ∈ o.top :: o.below, f.program = some q := by
  simp [running, free]

theorem running_of_waits {p : PendingFrame} (waits : o.pending = some p) (q : Nat) :
    o.running q ↔ (∃ f ∈ o.top :: o.below, f.program = some q) ∨
      (p.nestedStartGas.isSome = true ∧ p.program = some q) := by
  simp [running, waits]

theorem retop (sound : Sound root o) (free : o.pending = none) {t : Shape}
    (program : t.program = o.top.program) (context : t.context = o.top.context)
    (first : t.first = o.top.first) (nested : t.nested = o.top.nested) (ops : t.ops = o.top.ops) :
    Sound root { o with top := t } := by
  have fit := sound.stack.fits
  refine ⟨sound.books.congr ?_, ?_, ?_⟩
  · intro q
    simp [running, free, program]
  · apply sound.stack.replaceTop program first nested
    have bound : t.bound = o.top.bound := by simp [Shape.bound, first, nested]
    refine ⟨bound ▸ fit.le, ?_, ?_, ?_⟩
    · rw [program, ops, first, nested]
      exact fit.silent
    · rw [program, ops, first, context]
      exact fit.emits
    · rw [program, first, bound]
      exact fit.inside
  · intro p waits
    rw [free] at waits
    cases waits

theorem wait (sound : Sound root o) (free : o.pending = none) {p : PendingFrame}
    (plain : p.nestedStartGas = none)
    (program : p.program = none ∨ p.program = o.top.program ∧ p.storageCtx = o.top.context) :
    Sound root { o with pending := some p } := by
  refine ⟨sound.books.congr ?_, sound.stack, ?_⟩
  · intro q
    simp [running, free, plain]
  · intro p' waits
    rw [← Option.some.inj waits]
    exact ⟨by simp [plain], fun _ => program⟩

theorem unwait (sound : Sound root o) {p : PendingFrame} (waits : o.pending = some p)
    (plain : p.nestedStartGas = none) : Sound root { o with pending := none } := by
  refine ⟨sound.books.congr ?_, sound.stack, ?_⟩
  · intro q
    simp [running, waits, plain]
  · intro p' waits'
    cases waits'

theorem push (sound : Sound root o) {p : PendingFrame} (waits : o.pending = some p) :
    Sound root { o with
      top := pushed o.ledgers.length p, below := o.top :: o.below, pending := none } := by
  have waiting := sound.waiting p waits
  have length : o.ledgers.length = (ledgerNodes o.ledgers).length := by simp
  have stack := sound.stack
  cases started : p.nestedStartGas with
  | none =>
    have plain := waiting.plain (by simp [started])
    refine ⟨sound.books.congr ?_, ?_, ?_⟩
    · intro q
      rw [running_of_waits waits, running_of_free rfl]
      rcases plain with silent | ⟨same, -⟩
      · simp [pushed, started, silent]
      · simp [pushed, started, same]
    · rw [length] at stack ⊢
      exact stack.push_plain (by simp [pushed, started])
        (by simp [pushed, started, PendingFrame.firstProgram]) rfl plain
    · intro p' waits'
      cases waits'
  | some start =>
    obtain ⟨id, q, m, program, last, found, alive, context, parent, emits, ends, first⟩ :=
      waiting.nested (by simp [started])
    have here : (pushed o.ledgers.length p).first = id := by
      simp [pushed, started, program, PendingFrame.firstProgram]
    refine ⟨sound.books.congr ?_, ?_, ?_⟩
    · intro r
      rw [running_of_waits waits, running_of_free rfl]
      simp only [started, Option.isSome_some, program, true_and, pushed, List.mem_cons, exists_eq_or_imp]
      exact or_comm
    · rw [length] at stack ⊢
      rw [← length] at last
      refine stack.push_nested sound.books.forest (m := m) (q := q) (by simp [pushed, started]) rfl ?_
        ?_ ?_ alive ?_ parent emits ends ?_
      · rw [← length, here, last]
      · rw [← length, here]
        exact program
      · rw [← length, here, found]
      · exact context
      · rw [← length, here]
        exact first
    · intro p' waits'
      cases waits'

theorem popPlain (sound : Sound root o) (free : o.pending = none) {g : Shape} {rest : List Shape}
    (below : o.below = g :: rest) (nested : o.top.nested = false) (last : Bool) :
    Sound root { o with top := { g with ops := g.ops ++ o.top.ops, last }, below := rest } := by
  have stack := sound.stack
  rw [below, show o.ledgers.length = (ledgerNodes o.ledgers).length by simp] at stack
  have popped := stack.pop_plain nested last
  refine ⟨sound.books.congr ?_, ?_, ?_⟩
  · intro q
    simp only [running, free, below]
    rcases stack.2.1.plain nested with silent | same
    · simp [silent]
    · simp [same]
  · simpa using popped
  · intro p waits
    rw [free] at waits
    cases waits

/-- Ids opened in the top frame hang below a program that still runs, or inside the frame. -/
theorem hangs (sound : Sound root o) {g : Shape} {rest : List Shape} (below : o.below = g :: rest) :
    ∀ id q m, o.top.first ≤ id → (ledgerNodes o.ledgers)[id]? = some m → m.parent = some q →
      o.running q ∨ o.top.first ≤ q := by
  intro id q m after found parent
  have lt : id < (ledgerNodes o.ledgers).length := (List.getElem?_eq_some_iff.mp found).1
  have hangs := parentOf_eq found parent
  have stack := sound.stack
  rw [below] at stack
  obtain ⟨fit, link, -⟩ := stack
  by_cases own : o.top.nested = true ∧ id = o.top.first
  · obtain ⟨nested, rfl⟩ := own
    obtain ⟨-, -, -, q', m', emits, found', parent'⟩ := link.nested nested
    have same : m = m' := Option.some.inj (found.symm.trans found')
    subst same
    have parents : q = q' := Option.some.inj (parent.symm.trans parent')
    exact Or.inl (Or.inl ⟨g, by simp [below], parents ▸ emits⟩)
  · have inside : o.top.bound ≤ id := by
      unfold Shape.bound
      split
      · rename_i nested
        have : id ≠ o.top.first := fun same => own ⟨nested, same⟩
        omega
      · exact after
    rcases fit.inside id inside lt with same | deeper
    · exact Or.inl (Or.inl ⟨o.top, by simp, hangs ▸ same⟩)
    · exact Or.inr (hangs ▸ deeper)

/-- A revert of the top frame drops every program opened in it. -/
theorem dropBooks (sound : Sound root o) (free : o.pending = none) {g g' : Shape} {rest : List Shape}
    (below : o.below = g :: rest) (program : g'.program = g.program) :
    Books root (Books.dropLedgers o.top.first o.ledgers)
      (running { o with
        ledgers := Books.dropLedgers o.top.first o.ledgers, top := g', below := rest }) := by
  have stack := sound.stack
  rw [below] at stack
  have forest := sound.books.forest
  have start := stack.fits.le
  have bound := o.top.first_le_bound
  refine sound.books.dropping (stack.first_pos forest) (by omega) (sound.hangs below) ?_ ?_
  · intro q before runs
    rw [running_of_free (by exact free)]
    rw [running_of_free free, below] at runs
    obtain ⟨f, member, emits⟩ := runs
    rcases List.mem_cons.mp member with rfl | later
    · by_cases nested : o.top.nested
      · have own := (stack.2.1.nested nested).1
        have := Option.some.inj (own.symm.trans emits)
        omega
      · rcases stack.2.1.plain (by simpa using nested) with silent | same
        · rw [silent] at emits
          cases emits
        · exact ⟨g', by simp, by rw [program, ← same, emits]⟩
    · rcases List.mem_cons.mp later with rfl | deeper
      · exact ⟨g', by simp, by rw [program, emits]⟩
      · exact ⟨f, by simp [deeper], emits⟩
  · intro q runs
    rw [running_of_free (by exact free)] at runs
    rw [running_of_free free, below]
    obtain ⟨f, member, emits⟩ := runs
    rcases List.mem_cons.mp member with rfl | deeper
    · exact ⟨g, by simp, by rw [← program, emits]⟩
    · exact ⟨f, by simp [deeper], emits⟩

theorem revertPlain (sound : Sound root o) (free : o.pending = none) {g : Shape} {rest : List Shape}
    (below : o.below = g :: rest) (nested : o.top.nested = false) :
    Sound root { o with
      ledgers := Books.dropLedgers o.top.first o.ledgers, top := g, below := rest } := by
  have stack := sound.stack
  rw [below, show o.ledgers.length = (ledgerNodes o.ledgers).length by simp] at stack
  refine ⟨sound.dropBooks free below rfl, ?_, ?_⟩
  · have reverted := stack.revert_plain nested
    rw [← Books.ledgerNodes_drop] at reverted
    simpa using reverted
  · intro p waits
    rw [free] at waits
    cases waits

theorem revertNested (sound : Sound root o) (free : o.pending = none) {g : Shape} {rest : List Shape}
    (below : o.below = g :: rest) (nested : o.top.nested = true) (last : Bool) :
    Sound root { o with
      ledgers := Books.dropLedgers o.top.first o.ledgers
      top := { g with ops := g.ops.dropLast, last }
      below := rest } := by
  have stack := sound.stack
  rw [below, show o.ledgers.length = (ledgerNodes o.ledgers).length by simp] at stack
  refine ⟨sound.dropBooks free below rfl, ?_, ?_⟩
  · have reverted := stack.revert_nested sound.books.forest nested last
    rw [← Books.ledgerNodes_drop] at reverted
    simpa using reverted
  · intro p waits
    rw [free] at waits
    cases waits

/-- The ops of a frame of its own are the ops its program owes. -/
theorem owed (sound : Sound root o) {p : Nat}
    (emits : o.top.program = some p) (link : o.top.program = some o.top.first) :
    o.top.ops = childOps (ledgerNodes o.ledgers) p 0 o.ledgers.length := by
  have fit := sound.stack.fits
  obtain ⟨lt, -, ops⟩ := fit.emits p emits
  have here : o.top.first = p := Option.some.inj (link.symm.trans emits)
  rw [ops, here, sound.books.forest.childOps_from_self (by omega)]

theorem popNested (sound : Sound root o) (free : o.pending = none) {g : Shape} {rest : List Shape}
    (below : o.below = g :: rest) (nested : o.top.nested = true) {p : Nat}
    (emits : o.top.program = some p) {ops : List Op} (done : nestedOps ops = o.top.ops)
    (gas : UInt64) :
    Sound root { o with
      ledgers := o.ledgers.modify p (Books.closeLedger ops gas), top := g, below := rest } := by
  have stack := sound.stack
  rw [below] at stack
  have older := stack.program_lt_first sound.books.forest
  have own := (stack.2.1.nested nested).1
  have here : o.top.first = p := Option.some.inj (own.symm.trans emits)
  refine ⟨?_, ?_, ?_⟩
  · apply sound.books.closing gas (done.trans (sound.owed emits own))
    intro q
    rw [running_of_free (by exact free), running_of_free free, below]
    constructor
    · rintro ⟨f, member, emits'⟩
      have := older f member q emits'
      exact ⟨⟨f, List.mem_cons_of_mem _ member, emits'⟩, by omega⟩
    · rintro ⟨⟨f, member, emits'⟩, other⟩
      rcases List.mem_cons.mp member with rfl | later
      · exact absurd (Option.some.inj (emits'.symm.trans emits)) other
      · exact ⟨f, later, emits'⟩
  · rw [Books.ledgerNodes_close, List.length_modify]
    rw [show o.ledgers.length = (ledgerNodes o.ledgers).length by simp] at stack ⊢
    exact stack.pop_nested sound.books.forest nested
  · intro p' waits
    rw [free] at waits
    cases waits

theorem openProgram (sound : Sound root o) (free : o.pending = none) {q : Nat} {m n : Node}
    {p : PendingFrame} (emits : o.top.program = some q) (made : m.OfCall)
    (parent : m.parent = some q) (alive : m.dropped = false)
    (found : (ledgerNodes o.ledgers)[q]? = some n) (caller : m.caller = n.target)
    (program : p.program = some o.ledgers.length) (started : p.nestedStartGas.isSome = true)
    (context : p.storageCtx = some m.target) :
    Sound root { o with
      ledgers := (o.ledgers ++ [Books.newLedger m]).modify q (Books.addChild o.ledgers.length)
      top := { o.top with ops := o.top.ops ++ [m.op], last := true }
      pending := some p } := by
  have stack := sound.stack
  have start := stack.fits.le
  have bound := o.top.first_le_bound
  have above := stack.above emits
  rw [show o.ledgers.length = (ledgerNodes o.ledgers).length by simp] at stack
  refine ⟨?_, ?_, ?_⟩
  · refine (sound.books.opening made parent found caller
      (Or.inl ⟨o.top, by simp, emits⟩) (by simpa using above)).congr ?_
    intro r
    rw [running_of_free free, running_of_waits rfl]
    simp only [started, program, true_and, Option.some.injEq, List.mem_cons, exists_eq_or_imp,
      @eq_comm _ r]
  · have opened := stack.openProgram emits parent alive
    rw [Books.ledgerNodes_open]
    simpa using opened
  · intro p' waits
    rw [← Option.some.inj waits, Books.ledgerNodes_open]
    refine ⟨?_, ?_⟩
    · intro _
      refine ⟨o.ledgers.length, q, m, program, by simp, by simp, alive, context, parent, emits, rfl, ?_⟩
      simp only
      omega
    · intro plain
      rw [started] at plain
      cases plain

end Sound

end Outline

end GasAnalyzer
