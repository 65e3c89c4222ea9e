import GasAnalyzer.Nested.Forest

/-!
# The stack of frames over the forest

Every open frame owns an interval of program ids: the programs opened in it and not in a frame above
it. `Fits` says that the `NESTED` ops a frame has emitted so far are exactly those owed to the live
children in its interval, and `Stack` stacks the intervals. Pushing, popping and opening a program
keep a stack.
-/

namespace GasAnalyzer

def nestedOps (out : List Op) : List Op := out.filter (fun op => op.update.isNested)

@[simp] theorem nestedOps_append (xs ys : List Op) :
    nestedOps (xs ++ ys) = nestedOps xs ++ nestedOps ys := by
  simp [nestedOps]

/-- The part of an open frame that ties it to the forest. -/
structure Shape where
  program : Option Nat
  context : Option Address
  first : Nat
  nested : Bool
  ops : List Op
  last : Bool

def endsNested (out : List Op) : Bool := out.getLast?.any (fun op => op.update.isNested)

def WalkFrame.shape (f : WalkFrame) : Shape where
  program := f.program
  context := f.storageCtx
  first := f.firstProgram
  nested := f.nestedStartGas.isSome
  ops := nestedOps f.out
  last := endsNested f.out

namespace Shape

/-- Where the ids opened inside the frame start: after its own program, if it opened one. -/
def bound (f : Shape) : Nat := if f.nested then f.first + 1 else f.first

theorem first_le_bound (f : Shape) : f.first ≤ f.bound := by
  unfold bound
  split <;> omega

/-- A frame that owns the ids up to `hi`. -/
structure Fits (ns : List Node) (hi : Nat) (f : Shape) : Prop where
  le : f.bound ≤ hi
  silent : f.program = none → f.ops = [] ∧ f.first = hi ∧ f.nested = false
  emits : ∀ p, f.program = some p → p < hi ∧
    (∃ m, ns[p]? = some m ∧ m.dropped = false ∧ f.context = some m.target) ∧
    f.ops = childOps ns p f.first hi
  inside : ∀ id, f.bound ≤ id → id < ns.length →
    f.program = some (parentOf ns id) ∨ f.first ≤ parentOf ns id

/-- A frame `f` opened from `g`: a frame of its own below `g`'s program, or `g`'s program
continued, or native code. -/
structure Linked (ns : List Node) (f g : Shape) : Prop where
  nested : f.nested = true → f.program = some f.first ∧ g.last = true ∧ g.first ≤ f.first ∧
    ∃ q m, g.program = some q ∧ ns[f.first]? = some m ∧ m.parent = some q
  plain : f.nested = false → f.program = none ∨ f.program = g.program

def IsRoot (f : Shape) : Prop := f.program = some 0 ∧ f.first = 0 ∧ f.nested = false

end Shape

/-- The open frames, top first; `hi` bounds the ids the top frame owns. -/
def Stack (ns : List Node) : Nat → Shape → List Shape → Prop
  | hi, f, [] => f.Fits ns hi ∧ f.IsRoot
  | hi, f, g :: rest => f.Fits ns hi ∧ f.Linked ns g ∧ Stack ns f.bound g rest

namespace Stack

variable {ns : List Node} {hi : Nat} {f g : Shape} {rest : List Shape}

theorem fits (stack : Stack ns hi f rest) : f.Fits ns hi := by
  cases rest with
  | nil => exact stack.1
  | cons g rest => exact stack.1

theorem pos (stack : Stack ns hi f rest) : 0 < hi := by
  induction rest generalizing hi f with
  | nil =>
    obtain ⟨fit, emits, -⟩ := stack
    have := (fit.emits 0 emits).1
    omega
  | cons g rest ih =>
    obtain ⟨fit, -, below⟩ := stack
    have := ih below
    have := fit.le
    omega

/-- A frame popped off the stack never owns the root program. -/
theorem first_pos (forest : Forest ns) (stack : Stack ns hi f (g :: rest)) : 0 < f.first := by
  obtain ⟨-, link, below⟩ := stack
  by_cases nested : f.nested
  · obtain ⟨-, -, -, q, m, -, found, parent⟩ := link.nested nested
    have := forest.parent_lt found parent
    omega
  · have positive := below.pos
    simpa [Shape.bound, nested] using positive

/-- Replacing the top frame by one with the same place in the forest. -/
theorem replaceTop {hi' : Nat} {f' : Shape} (stack : Stack ns hi f rest)
    (program : f'.program = f.program) (first : f'.first = f.first) (nested : f'.nested = f.nested)
    (fit : f'.Fits ns hi') : Stack ns hi' f' rest := by
  have bound : f'.bound = f.bound := by simp [Shape.bound, first, nested]
  cases rest with
  | nil =>
    obtain ⟨-, root⟩ := stack
    exact ⟨fit, program.trans root.1, first.trans root.2.1, nested.trans root.2.2⟩
  | cons g rest =>
    obtain ⟨-, link, below⟩ := stack
    refine ⟨fit, ⟨?_, ?_⟩, bound ▸ below⟩
    · rw [nested, program, first]
      exact link.nested
    · rw [nested, program]
      exact link.plain

/-- A stack only looks at the nodes below `hi`, apart from where later ids hang. -/
theorem transfer {ns' : List Node} (stack : Stack ns hi f rest)
    (same : ∀ id, id < hi → ns'[id]? = ns[id]?)
    (inside : ∀ g ∈ f :: rest, ∀ id, g.bound ≤ id → id < ns'.length →
      g.program = some (parentOf ns' id) ∨ g.first ≤ parentOf ns' id) :
    Stack ns' hi f rest := by
  have fitted : ∀ {g : Shape} {top : Nat}, top ≤ hi → g ∈ f :: rest → g.Fits ns top →
      g.Fits ns' top := by
    intro g top le member fit
    refine ⟨fit.le, fit.silent, ?_, inside g member⟩
    intro p emits
    obtain ⟨lt, ⟨m, found, alive, context⟩, ops⟩ := fit.emits p emits
    refine ⟨lt, ⟨m, by rw [same p (by omega), found], alive, context⟩, ?_⟩
    rw [ops]
    apply childOps_congr
    intro id _ below
    unfold childOp
    rw [same id (by omega)]
  induction rest generalizing hi f with
  | nil => exact ⟨fitted (le_refl hi) (by simp) stack.1, stack.2⟩
  | cons g rest ih =>
    obtain ⟨fit, link, below⟩ := stack
    have le := fit.le
    refine ⟨fitted (le_refl hi) (by simp) fit, ⟨?_, link.plain⟩, ?_⟩
    · intro nested
      obtain ⟨own, last, start, q, m, emits, found, parent⟩ := link.nested nested
      have here : f.first < hi := by
        simp [Shape.bound, nested] at le
        omega
      exact ⟨own, last, start, q, m, emits, by rw [same _ here, found], parent⟩
    · apply ih below
      · intro id lt
        exact same id (by omega)
      · intro h member
        exact inside h (List.mem_cons_of_mem _ member)
      · intro h top le' member
        exact fitted (by omega) (List.mem_cons_of_mem _ member)

theorem first_le (stack : Stack ns hi f rest) : ∀ g ∈ f :: rest, g.first ≤ f.first := by
  induction rest generalizing hi f with
  | nil =>
    intro g member
    rw [List.mem_singleton.mp member]
  | cons h rest ih =>
    obtain ⟨-, link, below⟩ := stack
    have next : h.first ≤ f.first := by
      by_cases nested : f.nested
      · exact (link.nested nested).2.2.1
      · have fit := below.fits.le
        have start := h.first_le_bound
        simp only [Shape.bound, nested] at fit start
        simp only [Bool.false_eq_true, ↓reduceIte] at fit
        omega
    intro g member
    rcases List.mem_cons.mp member with rfl | member
    · exact le_refl _
    · exact le_trans (ih below g member) next

/-- Every frame of the stack runs the program the top emits into, or started before it. -/
theorem reaches {p : Nat} (stack : Stack ns hi f rest) (emits : f.program = some p) :
    ∀ g ∈ f :: rest, g.program = some p ∨ g.first ≤ p := by
  induction rest generalizing hi f with
  | nil =>
    intro g member
    rw [List.mem_singleton.mp member]
    exact Or.inl emits
  | cons h rest ih =>
    have starts := stack.first_le
    obtain ⟨-, link, below⟩ := stack
    intro g member
    rcases List.mem_cons.mp member with rfl | later
    · exact Or.inl emits
    · by_cases nested : f.nested
      · have own := (link.nested nested).1
        have here : f.first = p := Option.some.inj (own.symm.trans emits)
        exact Or.inr (here ▸ starts g member)
      · rcases link.plain (by simpa using nested) with none | same
        · rw [none] at emits
          cases emits
        · exact ih below (same ▸ emits) g later

/-- Everything numbered after the program the top emits into hangs below that program. -/
theorem above {p : Nat} (stack : Stack ns hi f rest) (emits : f.program = some p) :
    ∀ id, p < id → id < ns.length → p ≤ parentOf ns id := by
  induction rest generalizing hi f with
  | nil =>
    obtain ⟨-, root, -⟩ := stack
    intro id _ _
    have zero : 0 = p := Option.some.inj (root.symm.trans emits)
    omega
  | cons h rest ih =>
    obtain ⟨fit, link, below⟩ := stack
    by_cases nested : f.nested
    · intro id after inside
      have own := (link.nested nested).1
      have here : f.first = p := Option.some.inj (own.symm.trans emits)
      rcases fit.inside id (by simp [Shape.bound, nested]; omega) inside with same | later
      · have : p = parentOf ns id := Option.some.inj (emits.symm.trans same)
        omega
      · omega
    · rcases link.plain (by simpa using nested) with none | same
      · rw [none] at emits
        cases emits
      · exact ih below (same ▸ emits)

/-- The programs of the frames below the top are numbered below the ids the top owns. -/
theorem program_lt (stack : Stack ns hi f rest) :
    ∀ g ∈ f :: rest, ∀ p, g.program = some p → p < hi := by
  induction rest generalizing hi f with
  | nil =>
    intro g member p emits
    rw [List.mem_singleton.mp member] at emits
    exact (stack.1.emits p emits).1
  | cons h rest ih =>
    obtain ⟨fit, -, below⟩ := stack
    intro g member p emits
    rcases List.mem_cons.mp member with rfl | later
    · exact (fit.emits p emits).1
    · have := ih below g later p emits
      have := fit.le
      omega

/-- Going down the stack, programs get older. -/
theorem program_le {p : Nat} (forest : Forest ns) (stack : Stack ns hi f rest)
    (emits : f.program = some p) : ∀ g ∈ f :: rest, ∀ q, g.program = some q → q ≤ p := by
  induction rest generalizing hi f p with
  | nil =>
    intro g member q emits'
    rw [List.mem_singleton.mp member, emits] at emits'
    exact le_of_eq (Option.some.inj emits').symm
  | cons h rest ih =>
    obtain ⟨-, link, below⟩ := stack
    intro g member q emits'
    rcases List.mem_cons.mp member with rfl | later
    · rw [emits] at emits'
      exact le_of_eq (Option.some.inj emits').symm
    · by_cases nested : f.nested
      · obtain ⟨own, -, -, r, m, emitsR, found, parent⟩ := link.nested nested
        have here : f.first = p := Option.some.inj (own.symm.trans emits)
        have older := forest.parent_lt found parent
        have := ih below emitsR g later q emits'
        omega
      · rcases link.plain (by simpa using nested) with none | same
        · rw [none] at emits
          cases emits
        · exact ih below (same ▸ emits) g later q emits'

/-- The frames under a popped one emit into programs numbered before it. -/
theorem program_lt_first (forest : Forest ns) (stack : Stack ns hi f (g :: rest)) :
    ∀ h ∈ g :: rest, ∀ p, h.program = some p → p < f.first := by
  obtain ⟨-, link, below⟩ := stack
  intro h member p emits
  by_cases nested : f.nested
  · obtain ⟨-, -, -, q, m, emitsQ, found, parent⟩ := link.nested nested
    have older := forest.parent_lt found parent
    have := below.program_le forest emitsQ h member p emits
    omega
  · have := below.program_lt h member p emits
    simpa [Shape.bound, nested] using this

/-! ### Pushing and popping

The top frame owns everything up to the last node. -/

theorem push_plain (stack : Stack ns ns.length g rest) (nested : f.nested = false)
    (first : f.first = ns.length) (ops : f.ops = [])
    (program : f.program = none ∨ f.program = g.program ∧ f.context = g.context) :
    Stack ns ns.length f (g :: rest) := by
  have bound : f.bound = ns.length := by simp [Shape.bound, nested, first]
  refine ⟨⟨le_of_eq bound, fun _ => ⟨ops, first, nested⟩, ?_, ?_⟩, ⟨?_, ?_⟩, bound ▸ stack⟩
  · intro p emits
    rcases program with none | ⟨same, context⟩
    · rw [none] at emits
      cases emits
    · obtain ⟨lt, ⟨m, found, alive, here⟩, -⟩ := stack.fits.emits p (same ▸ emits)
      exact ⟨lt, ⟨m, found, alive, context.trans here⟩, by rw [ops, first, childOps_self]⟩
  · intro id after inside
    omega
  · intro isNested
    rw [nested] at isNested
    cases isNested
  · intro _
    exact program.imp_right And.left

theorem push_nested {q : Nat} {m : Node} (forest : Forest ns) (stack : Stack ns ns.length g rest)
    (nested : f.nested = true) (ops : f.ops = []) (last : f.first + 1 = ns.length)
    (program : f.program = some f.first) (found : ns[f.first]? = some m) (alive : m.dropped = false)
    (context : f.context = some m.target) (parent : m.parent = some q) (emits : g.program = some q)
    (pushed : g.last = true) (start : g.first ≤ f.first) : Stack ns ns.length f (g :: rest) := by
  have bound : f.bound = ns.length := by simp [Shape.bound, nested, last]
  refine ⟨⟨le_of_eq bound, ?_, ?_, ?_⟩, ⟨?_, ?_⟩, bound ▸ stack⟩
  · intro silent
    rw [program] at silent
    cases silent
  · intro p emits'
    have here : f.first = p := Option.some.inj (program.symm.trans emits')
    subst here
    refine ⟨by omega, ⟨m, found, alive, context⟩, ?_⟩
    rw [ops, childOps_none]
    intro id after inside
    by_contra child
    have later := forest.lt_of_isChild (by simpa using child)
    omega
  · intro id after inside
    omega
  · intro _
    exact ⟨program, pushed, start, q, m, emits, found, parent⟩
  · intro plain
    rw [nested] at plain
    cases plain

/-- A frame that is not its own program hands its ops to its parent. -/
theorem pop_plain (stack : Stack ns ns.length f (g :: rest)) (nested : f.nested = false)
    (last : Bool) : Stack ns ns.length { g with ops := g.ops ++ f.ops, last } rest := by
  obtain ⟨fit, link, below⟩ := stack
  have bound : f.bound = f.first := by simp [Shape.bound, nested]
  have fitG := bound ▸ below.fits
  have start := fitG.le
  have finish := bound ▸ fit.le
  refine below.replaceTop rfl rfl rfl ⟨le_trans start finish, ?_, ?_, fitG.inside⟩
  · intro silent
    have quiet : f.program = none := (link.plain nested).elim id (fun same => same.trans silent)
    obtain ⟨opsF, firstF, -⟩ := fit.silent quiet
    obtain ⟨opsG, firstG, nestedG⟩ := fitG.silent silent
    exact ⟨by simp [opsF, opsG], firstG.trans firstF, nestedG⟩
  · intro p emits
    obtain ⟨lt, known, opsG⟩ := fitG.emits p emits
    refine ⟨by omega, known, ?_⟩
    have gStart := g.first_le_bound
    have opsF : f.ops = childOps ns p f.first ns.length := by
      rcases link.plain nested with none | same
      · obtain ⟨opsF, firstF, -⟩ := fit.silent none
        rw [opsF, firstF, childOps_self]
      · exact (fit.emits p (same.trans emits)).2.2
    have before : g.first ≤ f.first := by omega
    rw [childOps_split f.first before finish, ← opsG, ← opsF]

theorem inside_dropNodes {first : Nat} {h : Shape} (inside : ∀ id, h.bound ≤ id → id < ns.length →
      h.program = some (parentOf ns id) ∨ h.first ≤ parentOf ns id) :
    ∀ id, h.bound ≤ id → id < (dropNodes first ns).length →
      h.program = some (parentOf (dropNodes first ns) id) ∨
        h.first ≤ parentOf (dropNodes first ns) id := by
  intro id after lt
  rw [parentOf_dropNodes]
  exact inside id after (by simpa using lt)

theorem allInside (stack : Stack ns hi f rest) : ∀ g ∈ f :: rest, ∀ id, g.bound ≤ id →
    id < ns.length → g.program = some (parentOf ns id) ∨ g.first ≤ parentOf ns id := by
  induction rest generalizing hi f with
  | nil =>
    intro g member
    rw [List.mem_singleton.mp member]
    exact stack.1.inside
  | cons h rest ih =>
    intro g member
    rcases List.mem_cons.mp member with rfl | later
    · exact stack.1.inside
    · exact ih stack.2.2 g later

/-- The frames below are untouched by a drop of ids they do not own. -/
theorem drop {first : Nat} (stack : Stack ns hi f rest) (le : hi ≤ first) :
    Stack (dropNodes first ns) hi f rest := by
  apply stack.transfer
  · intro id lt
    rw [getElem?_dropNodes, if_pos (by omega)]
  · intro g member
    exact inside_dropNodes (stack.allInside g member)

/-- Once everything from `first` on is dropped, the top frame may own the dropped ids too. -/
theorem dropRest {first : Nat} (stack : Stack ns first f rest) (le : first ≤ ns.length)
    (silent : f.program = none → first = ns.length) :
    Stack (dropNodes first ns) (dropNodes first ns).length f rest := by
  have kept := stack.drop (le_refl first)
  have fit := kept.fits
  rw [length_dropNodes]
  refine kept.replaceTop rfl rfl rfl ⟨le_trans fit.le le, ?_, ?_, fit.inside⟩
  · intro none
    obtain ⟨ops, here, nested⟩ := fit.silent none
    exact ⟨ops, here.trans (silent none), nested⟩
  · intro p emits
    obtain ⟨lt, known, ops⟩ := fit.emits p emits
    have start := fit.le
    have bound := f.first_le_bound
    refine ⟨by omega, known, ?_⟩
    rw [ops, childOps_dropNodes (by omega) le, childOps_dropNodes_before (le_refl _)]

/-- A reverted frame that is not its own program leaves nothing behind. -/
theorem revert_plain (stack : Stack ns ns.length f (g :: rest)) (nested : f.nested = false) :
    Stack (dropNodes f.first ns) (dropNodes f.first ns).length g rest := by
  obtain ⟨fit, link, below⟩ := stack
  have bound : f.bound = f.first := by simp [Shape.bound, nested]
  apply (bound ▸ below).dropRest (bound ▸ fit.le)
  intro silent
  have quiet : f.program = none := (link.plain nested).elim id (fun same => same.trans silent)
  exact (fit.silent quiet).2.1

/-- A frame that is its own program: its parent already holds the `NESTED` op. -/
theorem pop_nested (forest : Forest ns) (stack : Stack ns ns.length f (g :: rest))
    (nested : f.nested = true) : Stack ns ns.length g rest := by
  obtain ⟨fit, link, below⟩ := stack
  obtain ⟨own, -, start, q, m, emitsQ, found, parent⟩ := link.nested nested
  have bound : f.bound = f.first + 1 := by simp [Shape.bound, nested]
  rw [bound] at below
  have fitG := below.fits
  have finish := bound ▸ fit.le
  have older := forest.parent_lt found parent
  refine below.replaceTop rfl rfl rfl ⟨le_trans fitG.le finish, ?_, ?_, fitG.inside⟩
  · intro silent
    rw [emitsQ] at silent
    cases silent
  · intro p emits
    obtain ⟨lt, known, opsG⟩ := fitG.emits p emits
    have same : q = p := Option.some.inj (emitsQ.symm.trans emits)
    refine ⟨by omega, known, ?_⟩
    have later : childOps ns p (f.first + 1) ns.length = [] := by
      apply childOps_none
      intro id after inside
      by_contra child
      have hangs := isChild_parentOf (by simpa using child)
      rcases fit.inside id (by omega) inside with here | deeper
      · have := Option.some.inj (own.symm.trans here)
        omega
      · omega
    rw [childOps_split (f.first + 1) (by omega) finish, later, List.append_nil, ← opsG]

/-- A reverted frame of its own leaves its parent without its `NESTED` op. -/
theorem revert_nested (forest : Forest ns) (stack : Stack ns ns.length f (g :: rest))
    (nested : f.nested = true) (last : Bool) :
    Stack (dropNodes f.first ns) (dropNodes f.first ns).length
      { g with ops := g.ops.dropLast, last } rest := by
  obtain ⟨fit, link, below⟩ := stack
  obtain ⟨own, -, start, q, m, emitsQ, found, parent⟩ := link.nested nested
  obtain ⟨-, ⟨m', found', alive, -⟩, -⟩ := fit.emits f.first own
  have same : m = m' := Option.some.inj (found.symm.trans found')
  subst same
  have bound : f.bound = f.first + 1 := by simp [Shape.bound, nested]
  rw [bound] at below
  have fitG := below.fits
  have finish := bound ▸ fit.le
  have older := forest.parent_lt found parent
  obtain ⟨-, known, opsG⟩ := fitG.emits q emitsQ
  rw [childOps_split f.first start (by omega), childOps_one found parent alive] at opsG
  have lower : g.bound ≤ f.first := by
    unfold Shape.bound
    split
    · rename_i nestedG
      cases rest with
      | nil =>
        rw [below.2.2.2] at nestedG
        cases nestedG
      | cons h rest =>
        have ownG := (below.2.1.nested nestedG).1
        have := Option.some.inj (ownG.symm.trans emitsQ)
        omega
    · exact start
  have lowered : Stack ns f.first { g with ops := g.ops.dropLast, last } rest := by
    refine below.replaceTop rfl rfl rfl ⟨lower, ?_, ?_, fitG.inside⟩
    · intro silent
      rw [emitsQ] at silent
      cases silent
    · intro p emits
      have here : q = p := Option.some.inj (emitsQ.symm.trans emits)
      subst here
      exact ⟨older, known, by simp [opsG]⟩
  apply lowered.dropRest (by omega)
  intro silent
  rw [emitsQ] at silent
  cases silent

/-- Opening a program of its own from the top frame. -/
theorem openProgram {q : Nat} {m : Node} (stack : Stack ns ns.length f rest)
    (emits : f.program = some q) (parent : m.parent = some q) (alive : m.dropped = false) :
    Stack (ns ++ [m]) (ns ++ [m]).length { f with ops := f.ops ++ [m.op], last := true } rest := by
  have new : parentOf (ns ++ [m]) ns.length = q := parentOf_eq (by simp) parent
  have reach := stack.reaches emits
  have inside := stack.allInside
  have extended : Stack (ns ++ [m]) ns.length f rest := by
    apply stack.transfer
    · intro id lt
      rw [List.getElem?_append_left lt]
    · intro g member id after lt
      rcases Nat.lt_or_ge id ns.length with old | last
      · have same : parentOf (ns ++ [m]) id = parentOf ns id := by
          simp [parentOf, List.getElem?_append_left old]
        rw [same]
        exact inside g member id after old
      · rw [List.length_append, List.length_singleton] at lt
        rw [show id = ns.length by omega, new]
        exact reach g member
  have fit := extended.fits
  have start := fit.le
  have bound := f.first_le_bound
  rw [List.length_append, List.length_singleton]
  refine extended.replaceTop rfl rfl rfl ⟨Nat.le_succ_of_le start, ?_, ?_, fit.inside⟩
  · intro silent
    rw [emits] at silent
    cases silent
  · intro p emits'
    have here : q = p := Option.some.inj (emits.symm.trans emits')
    subst here
    obtain ⟨lt, known, ops⟩ := fit.emits q emits
    refine ⟨by omega, known, ?_⟩
    have before : f.first ≤ ns.length := by omega
    rw [childOps_split ns.length before (by omega), ← ops,
      childOps_one (by simp) parent alive]

end Stack

end GasAnalyzer
