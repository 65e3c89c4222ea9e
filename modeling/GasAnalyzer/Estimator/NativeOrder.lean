import GasAnalyzer.Estimator.Malformed
import GasAnalyzer.Nested.PreOrderTree

/-!
# A tree runs in native order

The run of a tree is the run of its pieces one after the other, and put together the pieces are the depth-first flattening
of the root's program. Every frame is entered once, sends its value with its first piece, and is charged for its own
pieces.
-/

namespace GasAnalyzer.Estimator

/-! ### Trees -/

/-- A pre-order tree whose frames have one child for each `NESTED` op. -/
structure PreOrderFrames (frames : List FrameProgram) : Prop where
  pos : 0 < frames.length
  parent : ∀ i, 0 < i → i < frames.length → ∃! q, i ∈ childrenOf frames q
  once : ∀ q, (childrenOf frames q).Nodup
  bounds : ∀ q, ∀ c ∈ childrenOf frames q, q < c ∧ c < frames.length
  preOrder : PreOrder.visit (childrenOf frames) frames.length 0 = List.range frames.length
  counts : ∀ f ∈ frames, (f.updates.filter StateUpdate.isNested).length = f.children.length

/-- What `split_frame_tree` returns is such a tree. -/
theorem preOrderFrames {root : Address} {frames : List FrameProgram} (tree : PreOrderTree root frames) :
    PreOrderFrames frames where
  pos := by
    obtain ⟨f, found, -⟩ := tree.root
    exact (List.getElem?_eq_some_iff.mp found).1
  parent := tree.parent
  once := tree.once
  bounds := tree.bounds
  preOrder := tree.preOrder
  counts f member := by
    rw [← length_nestedUpdates]
    exact (tree.nested f member).length_eq

/-- An op with the frame that applies it and the contract it is applied at. -/
structure PlacedOp where
  index : Nat
  target : Address
  update : StateUpdate
  deriving DecidableEq

/-- The rest of a frame, depth first: each `NESTED` op gives way to the flattening of its child. -/
def flatten (frames : List FrameProgram) (index : Nat) (target : Address) (ops : List StateUpdate)
    (children : List Nat) : List PlacedOp :=
  match ops with
  | [] => []
  | .nested _ :: rest =>
    match _named : nextChild frames index children with
    | .error _ => []
    | .ok (child, frame, children) =>
      flatten frames child frame.target frame.updates frame.children ++ flatten frames index target rest children
  | op :: rest => ⟨index, target, op⟩ :: flatten frames index target rest children
termination_by (frames.length - index, ops.length)
decreasing_by
  · obtain ⟨-, after, found⟩ := nextChild_ok _named
    have inside := (List.getElem?_eq_some_iff.mp found).1
    exact Prod.Lex.left _ _ (by omega)
  · exact Prod.Lex.right _ (Nat.lt_succ_self _)
  · exact Prod.Lex.right _ (Nat.lt_succ_self _)

def flattenTree (frames : List FrameProgram) : List PlacedOp :=
  match frames with
  | [] => []
  | root :: _ => flatten frames 0 root.target root.updates root.children

/-! ### Pieces -/

/-- The value the transaction of a piece carries. -/
def FramePiece.sent (p : FramePiece) : U256 := if p.pieceIndex = 0 then p.value else 0

/-- The ops of a piece, at the contract of its frame. -/
def FramePiece.placed (frames : List FrameProgram) (p : FramePiece) : List PlacedOp :=
  match frames[p.index]? with
  | none => []
  | some frame => p.updates.map fun update => ⟨p.index, frame.target, update⟩

/-- The frames in the order their first pieces run. -/
def entered (pieces : List FramePiece) : List Nat :=
  (pieces.filter fun p => p.pieceIndex = 0).map (·.index)

def ofFrame (i : Nat) (pieces : List FramePiece) : List FramePiece := pieces.filter fun p => p.index = i

theorem entered_append (xs ys : List FramePiece) : entered (xs ++ ys) = entered xs ++ entered ys := by
  unfold entered
  rw [List.filter_append, List.map_append]

theorem ofFrame_append (i : Nat) (xs ys : List FramePiece) : ofFrame i (xs ++ ys) = ofFrame i xs ++ ofFrame i ys :=
  List.filter_append ..

theorem ofFrame_none {i : Nat} {pieces : List FramePiece} (none : ∀ p ∈ pieces, p.index ≠ i) : ofFrame i pieces = [] :=
  List.filter_eq_nil_iff.mpr fun p member => by simpa using none p member

/-- The pieces of a frame from number `n` on: consecutive, all with the frame's value. -/
def Numbered (value : U256) (n : Nat) (pieces : List FramePiece) : Prop :=
  ∀ (k : Nat) (p : FramePiece), pieces[k]? = some p → p.pieceIndex = n + k ∧ p.value = value

namespace Schedule

variable {frames : List FrameProgram}

theorem andThen_of {first second : Schedule} (fine : first.ending = none) :
    (first.andThen second).pieces = first.pieces ++ second.pieces := by
  unfold andThen
  rw [if_pos fine]

theorem flush_pieces (index : Nat) (value : U256) (piece : List StateUpdate) (pieces : Nat) :
    (flush index value piece pieces).pieces = [⟨index, pieces, piece, value⟩] ∧
        flushed piece pieces = pieces + 1 ∨
      (flush index value piece pieces).pieces = [] ∧ flushed piece pieces = pieces ∧ pieces ≠ 0 ∧ piece = [] := by
  unfold flush flushed
  split
  · exact Or.inl ⟨rfl, rfl⟩
  · rename_i empty
    exact Or.inr ⟨rfl, rfl, fun first => empty (Or.inl first), by_contra fun some => empty (Or.inr some)⟩

theorem updates_nested {index child : Nat} {children children' : List Nat} {frame : FrameProgram}
    (named : nextChild frames index children = .ok (child, frame, children')) (value : U256) (n : Nested)
    (rest piece : List StateUpdate) (pieces : Nat) :
    updates frames index value (.nested n :: rest) children piece pieces =
      (flush index value piece pieces).andThen
        ((updates frames child frame.value frame.updates frame.children [] 0).andThen
          (updates frames index value rest children' [] (flushed piece pieces))) := by
  rw [updates]
  split
  · rename_i e refused
    rw [refused] at named
    cases named
  · rename_i child₂ frame₂ rest₂ named₂
    rw [named] at named₂
    obtain ⟨rfl, tail⟩ := Prod.mk.inj (Except.ok.inj named₂)
    obtain ⟨rfl, rfl⟩ := Prod.mk.inj tail
    rfl

/-! ### The pieces put together -/

theorem flush_placed {index : Nat} {frame : FrameProgram} (here : frames[index]? = some frame) (value : U256)
    (piece : List StateUpdate) (pieces : Nat) :
    (flush index value piece pieces).pieces.flatMap (FramePiece.placed frames) =
      piece.map fun update => ⟨index, frame.target, update⟩ := by
  rcases flush_pieces index value piece pieces with ⟨shape, -⟩ | ⟨shape, -, -, empty⟩
  · rw [shape, List.flatMap_singleton, FramePiece.placed, here]
  · rw [shape, empty]
    rfl

/-- What is left of a frame once its program is run: nothing, unless children are left. -/
theorem ended {index : Nat} {children : List Nat}
    (fine : (if children ≠ [] then stop (.moreChildren index) else nothing : Schedule).ending = none) :
    children = [] ∧ (if children ≠ [] then stop (.moreChildren index) else nothing : Schedule).pieces = [] := by
  by_cases some : children ≠ []
  · rw [if_pos some] at fine
    cases fine
  · rw [if_neg some]
    exact ⟨not_not.mp some, rfl⟩

theorem updates_placed {index : Nat} {value : U256} {ops : List StateUpdate} {children : List Nat}
    {piece : List StateUpdate} {pieces : Nat} {frame : FrameProgram} (here : frames[index]? = some frame)
    (fine : (updates frames index value ops children piece pieces).ending = none) :
    (updates frames index value ops children piece pieces).pieces.flatMap (FramePiece.placed frames) =
      (piece.map fun update => ⟨index, frame.target, update⟩) ++ flatten frames index frame.target ops children := by
  fun_induction updates frames index value ops children piece pieces generalizing frame with
  | case1 index value children piece pieces =>
    obtain ⟨-, left⟩ := andThen_ending fine
    rw [andThen_of (flush_ending ..), (ended left).2, List.append_nil, flush_placed here, flatten, List.append_nil]
  | case2 index value children piece pieces n rest e refused => cases (andThen_ending fine).2
  | case3 index value children piece pieces n rest child frame' children' named ihChild ihRest =>
    obtain ⟨-, both⟩ := andThen_ending fine
    obtain ⟨below, after⟩ := andThen_ending both
    obtain ⟨-, -, found⟩ := nextChild_ok named
    rw [andThen_of (flush_ending ..), andThen_of below, List.flatMap_append, List.flatMap_append, flush_placed here,
      ihChild found below, ihRest here after, flatten]
    split
    · rename_i e refused
      rw [refused] at named
      cases named
    · rename_i child₂ frame₂ rest₂ named₂
      rw [named] at named₂
      obtain ⟨rfl, tail⟩ := Prod.mk.inj (Except.ok.inj named₂)
      obtain ⟨rfl, rfl⟩ := Prod.mk.inj tail
      rfl
  | case4 index value children piece pieces op rest plain ih =>
    rw [ih here fine, List.map_append, List.append_assoc, flatten]
    · rfl
    · exact plain

/-! ### Entering frames -/

theorem flush_entered (index : Nat) (value : U256) (piece : List StateUpdate) (pieces : Nat) :
    entered (flush index value piece pieces).pieces = if pieces = 0 then [index] else [] := by
  rcases flush_pieces index value piece pieces with ⟨shape, -⟩ | ⟨shape, -, later, -⟩
  · rw [shape]
    by_cases first : pieces = 0 <;> simp [entered, first]
  · rw [shape, if_neg later]
    rfl

theorem flushed_pos (piece : List StateUpdate) (pieces : Nat) : flushed piece pieces ≠ 0 := by
  unfold flushed
  split
  · exact Nat.succ_ne_zero _
  · rename_i empty
    exact fun first => empty (Or.inl first)

/-- Frames are entered in pre-order. -/
theorem updates_entered {index : Nat} {value : U256} {ops : List StateUpdate} {children : List Nat}
    {piece : List StateUpdate} {pieces : Nat}
    (fine : (updates frames index value ops children piece pieces).ending = none) {fuel : Nat}
    (enough : frames.length ≤ fuel + index + 1) :
    entered (updates frames index value ops children piece pieces).pieces =
      (if pieces = 0 then [index] else []) ++ children.flatMap (PreOrder.visit (childrenOf frames) fuel) := by
  fun_induction updates frames index value ops children piece pieces generalizing fuel with
  | case1 index value children piece pieces =>
    obtain ⟨-, left⟩ := andThen_ending fine
    obtain ⟨none, empty⟩ := ended left
    rw [andThen_of (flush_ending ..), empty, List.append_nil, flush_entered, none]
    exact (List.append_nil _).symm
  | case2 index value children piece pieces n rest e refused => cases (andThen_ending fine).2
  | case3 index value children piece pieces n rest child frame children' named ihChild ihRest =>
    obtain ⟨-, both⟩ := andThen_ending fine
    obtain ⟨below, after⟩ := andThen_ending both
    obtain ⟨shape, later, found⟩ := nextChild_ok named
    have inside := (List.getElem?_eq_some_iff.mp found).1
    obtain ⟨fuel, rfl⟩ : ∃ less, fuel = less + 1 := ⟨fuel - 1, by omega⟩
    have own : childrenOf frames child = frame.children := by
      unfold childrenOf
      rw [found]
      rfl
    rw [andThen_of (flush_ending ..), andThen_of below, entered_append, entered_append, flush_entered,
      ihChild below (show frames.length ≤ fuel + child + 1 by omega), ihRest after enough,
      if_neg (flushed_pos piece pieces), if_pos rfl, shape, List.flatMap_cons, PreOrder.visit, own]
    rfl
  | case4 index value children piece pieces op rest plain ih => exact ih fine enough

theorem mem_entered_child {child : Nat} {frame : FrameProgram}
    (fine : (updates frames child frame.value frame.updates frame.children [] 0).ending = none) :
    child ∈ entered (updates frames child frame.value frame.updates frame.children [] 0).pieces := by
  rw [updates_entered fine (show frames.length ≤ frames.length + child + 1 by omega)]
  exact List.mem_append_left _ (List.mem_singleton.mpr rfl)

theorem flush_index {index : Nat} {value : U256} {piece : List StateUpdate} {pieces : Nat} {p : FramePiece}
    (member : p ∈ (flush index value piece pieces).pieces) : p.index = index := by
  rcases flush_pieces index value piece pieces with ⟨shape, -⟩ | ⟨shape, -, -, -⟩
  · rw [shape] at member
    rw [List.mem_singleton.mp member]
  · rw [shape] at member
    cases member

/-- A piece is one of the frame itself, or of a later frame that is entered. -/
theorem updates_member {index : Nat} {value : U256} {ops : List StateUpdate} {children : List Nat}
    {piece : List StateUpdate} {pieces : Nat}
    (fine : (updates frames index value ops children piece pieces).ending = none) :
    ∀ p ∈ (updates frames index value ops children piece pieces).pieces, p.index = index ∨
      index < p.index ∧ p.index ∈ entered (updates frames index value ops children piece pieces).pieces := by
  fun_induction updates frames index value ops children piece pieces with
  | case1 index value children piece pieces =>
    obtain ⟨-, left⟩ := andThen_ending fine
    rw [andThen_of (flush_ending ..), (ended left).2, List.append_nil]
    exact fun p member => Or.inl (flush_index member)
  | case2 index value children piece pieces n rest e refused => cases (andThen_ending fine).2
  | case3 index value children piece pieces n rest child frame children' named ihChild ihRest =>
    obtain ⟨-, both⟩ := andThen_ending fine
    obtain ⟨below, after⟩ := andThen_ending both
    obtain ⟨-, later, -⟩ := nextChild_ok named
    rw [andThen_of (flush_ending ..), andThen_of below, entered_append, entered_append]
    intro p member
    rcases List.mem_append.mp member with own | member
    · exact Or.inl (flush_index own)
    · rcases List.mem_append.mp member with inChild | inRest
      · rcases ihChild below p inChild with same | ⟨deeper, enters⟩
        · rw [same]
          exact Or.inr ⟨later, List.mem_append_right _ (List.mem_append_left _ (mem_entered_child below))⟩
        · exact Or.inr ⟨by omega, List.mem_append_right _ (List.mem_append_left _ enters)⟩
      · rcases ihRest after p inRest with same | ⟨deeper, enters⟩
        · exact Or.inl same
        · exact Or.inr ⟨deeper, List.mem_append_right _ (List.mem_append_right _ enters)⟩
  | case4 index value children piece pieces op rest plain ih => exact ih fine

/-- What a child runs and what its parent runs after it are pieces of different frames, when no frame is entered twice. -/
theorem parts_apart {index child : Nat} {value : U256} {rest : List StateUpdate} {children : List Nat}
    {pieces : Nat} {frame : FrameProgram} (later : index < child)
    (below : (updates frames child frame.value frame.updates frame.children [] 0).ending = none)
    (after : (updates frames index value rest children [] pieces).ending = none)
    (once : (entered (updates frames child frame.value frame.updates frame.children [] 0).pieces ++
      entered (updates frames index value rest children [] pieces).pieces).Nodup) :
    (∀ p ∈ (updates frames child frame.value frame.updates frame.children [] 0).pieces, p.index ≠ index) ∧
      ∀ p ∈ (updates frames child frame.value frame.updates frame.children [] 0).pieces,
        ∀ p' ∈ (updates frames index value rest children [] pieces).pieces, p.index ≠ p'.index := by
  have deeper : ∀ p ∈ (updates frames child frame.value frame.updates frame.children [] 0).pieces, index < p.index ∧
      p.index ∈ entered (updates frames child frame.value frame.updates frame.children [] 0).pieces := by
    intro p member
    rcases updates_member below p member with same | ⟨deep, enters⟩
    · rw [same]
      exact ⟨later, mem_entered_child below⟩
    · exact ⟨by omega, enters⟩
  refine ⟨fun p member => Nat.ne_of_gt (deeper p member).1, ?_⟩
  intro p member p' member' same
  obtain ⟨deep, enters⟩ := deeper p member
  rcases updates_member after p' member' with own | ⟨-, enters'⟩
  · omega
  · exact (List.nodup_append.mp once).2.2 _ enters _ enters' same

/-! ### Numbering a frame's pieces -/

theorem numbered_append {value : U256} {n : Nat} {xs ys : List FramePiece} (front : Numbered value n xs)
    (back : Numbered value (n + xs.length) ys) : Numbered value n (xs ++ ys) := by
  intro k p found
  rcases Nat.lt_or_ge k xs.length with inside | behind
  · rw [List.getElem?_append_left inside] at found
    exact front k p found
  · rw [List.getElem?_append_right behind] at found
    obtain ⟨number, same⟩ := back _ p found
    exact ⟨by omega, same⟩

theorem flush_numbered (index : Nat) (value : U256) (piece : List StateUpdate) (pieces : Nat) :
    Numbered value pieces (flush index value piece pieces).pieces ∧
      pieces + (flush index value piece pieces).pieces.length = flushed piece pieces := by
  rcases flush_pieces index value piece pieces with ⟨shape, next⟩ | ⟨shape, next, -, -⟩
  · rw [shape, next]
    refine ⟨?_, rfl⟩
    intro k p found
    cases k with
    | zero =>
      obtain rfl := Option.some.inj found
      exact ⟨rfl, rfl⟩
    | succ k => cases found
  · rw [shape, next]
    exact ⟨fun k p found => (nomatch found), rfl⟩

/-- A frame's pieces are numbered in the order they run. -/
theorem updates_numbered {index : Nat} {value : U256} {ops : List StateUpdate} {children : List Nat}
    {piece : List StateUpdate} {pieces : Nat}
    (fine : (updates frames index value ops children piece pieces).ending = none)
    (once : (entered (updates frames index value ops children piece pieces).pieces).Nodup) :
    Numbered value pieces (ofFrame index (updates frames index value ops children piece pieces).pieces) ∧
      ∀ i frame, i ≠ index → frames[i]? = some frame →
        Numbered frame.value 0 (ofFrame i (updates frames index value ops children piece pieces).pieces) := by
  have own : ∀ {index} {value : U256} {piece pieces},
      ofFrame index (flush index value piece pieces).pieces = (flush index value piece pieces).pieces := by
    intro index value piece pieces
    exact List.filter_eq_self.mpr fun p member => decide_eq_true (flush_index member)
  have foreign : ∀ {i index} {value : U256} {piece pieces}, i ≠ index →
      ofFrame i (flush index value piece pieces).pieces = [] := by
    intro i index value piece pieces other
    exact ofFrame_none fun p member same => other (same.symm.trans (flush_index member))
  fun_induction updates frames index value ops children piece pieces with
  | case1 index value children piece pieces =>
    obtain ⟨-, left⟩ := andThen_ending fine
    rw [andThen_of (flush_ending ..), (ended left).2, List.append_nil, own]
    refine ⟨(flush_numbered index value piece pieces).1, ?_⟩
    intro i frame other _
    rw [foreign other]
    intro k p found
    cases found
  | case2 index value children piece pieces n rest e refused => cases (andThen_ending fine).2
  | case3 index value children piece pieces n rest child frame children' named ihChild ihRest =>
    obtain ⟨-, both⟩ := andThen_ending fine
    obtain ⟨below, after⟩ := andThen_ending both
    obtain ⟨-, later, found⟩ := nextChild_ok named
    rw [andThen_of (flush_ending ..), andThen_of below, entered_append, entered_append] at once
    have once := (List.nodup_append.mp once).2.1
    obtain ⟨onceChild, onceRest, -⟩ := List.nodup_append.mp once
    obtain ⟨strangers, apart⟩ := parts_apart later below after once
    obtain ⟨ownChild, othersChild⟩ := ihChild below onceChild
    obtain ⟨ownRest, othersRest⟩ := ihRest after onceRest
    rw [andThen_of (flush_ending ..), andThen_of below]
    constructor
    · obtain ⟨first, next⟩ := flush_numbered index value piece pieces
      rw [ofFrame_append, ofFrame_append, own, ofFrame_none strangers, List.nil_append]
      apply numbered_append first
      rw [next]
      exact ownRest
    · intro i frame' other found'
      rw [ofFrame_append, ofFrame_append, foreign other, List.nil_append]
      by_cases inside : ∃ p ∈ (updates frames child frame.value frame.updates frame.children [] 0).pieces, p.index = i
      · obtain ⟨p, member, here⟩ := inside
        rw [ofFrame_none fun p' member' same => apart p member p' member' (here.trans same.symm), List.append_nil]
        by_cases root : i = child
        · subst root
          rw [found] at found'
          obtain rfl := Option.some.inj found'
          exact ownChild
        · exact othersChild i frame' root found'
      · rw [ofFrame_none fun p member same => inside ⟨p, member, same⟩, List.nil_append]
        exact othersRest i frame' other found'
  | case4 index value children piece pieces op rest plain ih => exact ih fine once

end Schedule

/-! ### Running the pieces in order -/

/-- A piece that ran, with the gas of its transaction. -/
structure PieceRun where
  piece : FramePiece
  gas : UInt64

/-- What a frame is charged for a piece. -/
def PieceRun.charged (r : PieceRun) : UInt64 :=
  if r.piece.pieceIndex = 0 then r.gas else satSub r.gas baseTxCost

def charge (gas : UInt64) (log : List PieceRun) : UInt64 := log.foldl (fun total r => satAdd total r.charged) gas

def runsOf (i : Nat) (log : List PieceRun) : List PieceRun := log.filter fun r => r.piece.index = i

theorem charge_append (gas : UInt64) (xs ys : List PieceRun) : charge gas (xs ++ ys) = charge (charge gas xs) ys :=
  List.foldl_append

theorem runsOf_append (i : Nat) (xs ys : List PieceRun) : runsOf i (xs ++ ys) = runsOf i xs ++ runsOf i ys :=
  List.filter_append ..

theorem runsOf_none {i : Nat} {log : List PieceRun} (none : ∀ r ∈ log, r.piece.index ≠ i) : runsOf i log = [] :=
  List.filter_eq_nil_iff.mpr fun r member => by simpa using none r member

theorem runsOf_all {i : Nat} {log : List PieceRun} (all : ∀ r ∈ log, r.piece.index = i) : runsOf i log = log :=
  List.filter_eq_self.mpr fun r member => decide_eq_true (all r member)

section

variable {Db Spec : Type} (H : Hashes) (revm : Revm Db Spec) (t : FrameTreeRun Spec)

/-- The transaction of a piece, at the contract of its frame. -/
def FrameTreeRun.send (db : Db) (p : FramePiece) : Estimate (UInt64 × Db) :=
  match t.frames[p.index]? with
  | none => .error (.indexOutOfBounds p.index t.frames.length)
  | some frame =>
    (runEstimator H revm db frame.target t.caller (buildGasEstimationCalldata p.updates) p.sent t.simEnv true).mapError
      (.atPiece p.index frame.target p.pieceIndex)

/-- Runs pieces one after the other, each on the state the one before it left. -/
def runInOrder : List FramePiece → Db → Estimate (List PieceRun × Db)
  | [], db => .ok ([], db)
  | p :: rest, db => do
    let (gas, db) ← t.send H revm db p
    let (log, db) ← runInOrder rest db
    .ok (⟨p, gas⟩ :: log, db)

theorem piece_send (db : Db) (p : FramePiece) :
    t.piece H revm db p.index p.pieceIndex p.updates p.value =
      (t.send H revm db p).map fun ran => ((PieceRun.mk p ran.1).charged, ran.2) := by
  unfold FrameTreeRun.piece FrameTreeRun.send
  cases t.frames[p.index]? with
  | none => rfl
  | some frame =>
    dsimp only
    rw [FramePiece.sent]
    cases (runEstimator H revm db frame.target t.caller (buildGasEstimationCalldata p.updates)
      (if p.pieceIndex = 0 then p.value else 0) t.simEnv true).mapError
        (EstimateError.atPiece p.index frame.target p.pieceIndex) <;> rfl

theorem runInOrder_append (xs ys : List FramePiece) (db : Db) :
    runInOrder H revm t (xs ++ ys) db = (do
      let (log, db) ← runInOrder H revm t xs db
      let (log', db) ← runInOrder H revm t ys db
      .ok (log ++ log', db)) := by
  induction xs generalizing db with
  | nil =>
    rw [List.nil_append, runInOrder, Outcome.ok_bind]
    dsimp only
    cases runInOrder H revm t ys db <;> rfl
  | cons p rest ih =>
    rw [List.cons_append, runInOrder, runInOrder]
    cases t.send H revm db p with
    | error e => rfl
    | ok ran =>
      simp only [Outcome.ok_bind, ih]
      cases runInOrder H revm t rest ran.2 with
      | error e => rfl
      | ok first =>
        simp only [Outcome.ok_bind]
        cases runInOrder H revm t ys first.2 <;> rfl

/-- The log lists the pieces that were run. -/
theorem runInOrder_pieces {ps : List FramePiece} {db : Db} {ran : List PieceRun × Db}
    (answer : runInOrder H revm t ps db = .ok ran) : ran.1.map PieceRun.piece = ps := by
  induction ps generalizing db ran with
  | nil =>
    rw [← Except.ok.inj answer]
    rfl
  | cons p rest ih =>
    obtain ⟨sent, -, answer⟩ := Outcome.bind_ok answer
    obtain ⟨later, ran', answer⟩ := Outcome.bind_ok answer
    rw [← Except.ok.inj answer, List.map_cons, ih ran']

theorem mem_runInOrder {ps : List FramePiece} {db : Db} {ran : List PieceRun × Db}
    (answer : runInOrder H revm t ps db = .ok ran) {r : PieceRun} (member : r ∈ ran.1) : r.piece ∈ ps := by
  rw [← runInOrder_pieces H revm t answer]
  exact List.mem_map_of_mem member

theorem exists_runInOrder {ps : List FramePiece} {db : Db} {ran : List PieceRun × Db}
    (answer : runInOrder H revm t ps db = .ok ran) {p : FramePiece} (member : p ∈ ps) : ∃ r ∈ ran.1, r.piece = p := by
  rw [← runInOrder_pieces H revm t answer] at member
  obtain ⟨r, inside, same⟩ := List.mem_map.mp member
  exact ⟨r, inside, same⟩

theorem flush_inOrder (index : Nat) (value : U256) (p : Progress) (db : Db) :
    t.flush H revm index value p db = (do
      let (log, db) ← runInOrder H revm t (Schedule.flush index value p.piece p.pieces).pieces db
      .ok (⟨[], Schedule.flushed p.piece p.pieces, charge p.gas log⟩, db)) := by
  unfold FrameTreeRun.flush Schedule.flush Schedule.flushed
  split
  · have sent := piece_send H revm t db ⟨index, p.pieces, p.piece, value⟩
    dsimp only at sent
    rw [sent]
    simp only [runInOrder]
    cases t.send H revm db ⟨index, p.pieces, p.piece, value⟩ <;> rfl
  · rename_i empty
    have none : p.piece = [] := by_contra fun some => empty (Or.inr some)
    obtain ⟨piece, pieces, gas⟩ := p
    dsimp only at none
    subst none
    rfl

/-! ### The gas of each frame -/

/-- The frames' gas after frame `index` is charged from `gas` on and every frame below it from zero. -/
def settle (index : Nat) (gas : UInt64) (log : List PieceRun) (frameGas : List UInt64) : List UInt64 :=
  frameGas.mapIdx fun i before =>
    if i = index then charge gas (runsOf i log)
    else if ∃ r ∈ log, r.piece.index = i then charge 0 (runsOf i log)
    else before

theorem settle_nested {index child : Nat} (other : child ≠ index) (gas : UInt64) {own below after : List PieceRun}
    (mine : ∀ r ∈ own, r.piece.index = index) (theirs : ∀ r ∈ below, r.piece.index ≠ index)
    (entersChild : ∃ r ∈ below, r.piece.index = child)
    (apart : ∀ r ∈ below, ∀ r' ∈ after, r.piece.index ≠ r'.piece.index) (frameGas : List UInt64) :
    settle index (charge gas own) after (settle child 0 below frameGas) =
      settle index gas (own ++ (below ++ after)) frameGas := by
  unfold settle
  rw [List.mapIdx_mapIdx]
  congr 1
  funext i before
  rw [Function.comp_apply]
  by_cases here : i = index
  · subst here
    rw [if_pos rfl, if_pos rfl, runsOf_append, runsOf_append, runsOf_all mine, runsOf_none theirs, List.nil_append,
      charge_append]
  · rw [if_neg here, if_neg here]
    have foreign : runsOf i own = [] := runsOf_none fun r member same => here (same.symm.trans (mine r member))
    rw [runsOf_append, runsOf_append, foreign, List.nil_append]
    by_cases inside : ∃ r ∈ below, r.piece.index = i
    · obtain ⟨r, member, same⟩ := inside
      have silent : ∀ r' ∈ after, r'.piece.index ≠ i := fun r' member' same' => apart r member r' member' (same.trans same'.symm)
      have notAfter : ¬∃ r' ∈ after, r'.piece.index = i := fun ⟨r', member', same'⟩ => silent r' member' same'
      have listed : ∃ r' ∈ own ++ (below ++ after), r'.piece.index = i :=
        ⟨r, List.mem_append_right _ (List.mem_append_left _ member), same⟩
      rw [runsOf_none silent, List.append_nil, if_neg notAfter, if_pos listed]
      by_cases root : i = child
      · rw [if_pos root]
      · rw [if_neg root, if_pos ⟨r, member, same⟩]
    · have notChild : i ≠ child := by
        intro same
        obtain ⟨r, member, here⟩ := entersChild
        exact inside ⟨r, member, here.trans same.symm⟩
      rw [runsOf_none fun r member same => inside ⟨r, member, same⟩, List.nil_append, if_neg notChild, if_neg inside]
      have same : (∃ r ∈ after, r.piece.index = i) ↔ ∃ r ∈ own ++ (below ++ after), r.piece.index = i := by
        constructor
        · intro ⟨r, member, same⟩
          exact ⟨r, List.mem_append_right _ (List.mem_append_right _ member), same⟩
        · intro ⟨r, member, same⟩
          rcases List.mem_append.mp member with inOwn | member
          · exact absurd (same.symm.trans (mine r inOwn)) here
          · rcases List.mem_append.mp member with inBelow | inAfter
            · exact absurd ⟨r, inBelow, same⟩ inside
            · exact ⟨r, inAfter, same⟩
      simp only [same]

theorem settle_own {index : Nat} (gas : UInt64) {log : List PieceRun} (mine : ∀ r ∈ log, r.piece.index = index)
    (frameGas : List UInt64) : settle index gas log frameGas = frameGas.set index (charge gas log) := by
  apply List.ext_getElem?
  intro i
  unfold settle
  rw [List.getElem?_mapIdx, List.getElem?_set]
  by_cases here : index = i
  · subst here
    rw [if_pos rfl, runsOf_all mine]
    by_cases inside : index < frameGas.length
    · rw [if_pos inside, List.getElem?_eq_getElem inside, Option.map_some, if_pos rfl]
    · rw [if_neg inside, List.getElem?_eq_none (Nat.le_of_not_lt inside)]
      rfl
  · have absent : ¬∃ r ∈ log, r.piece.index = i := fun ⟨r, member, same⟩ => here ((mine r member).symm.trans same)
    rw [if_neg here]
    simp only [if_neg (Ne.symm here), if_neg absent, Option.map_id']

theorem settle_all {n : Nat} {log : List PieceRun} (index : Nat) (all : ∀ i, i < n → ∃ r ∈ log, r.piece.index = i) :
    settle index 0 log (List.replicate n 0) = (List.range n).map fun i => charge 0 (runsOf i log) := by
  apply List.ext_getElem?
  intro i
  unfold settle
  rw [List.getElem?_mapIdx, List.getElem?_map, List.getElem?_replicate]
  by_cases inside : i < n
  · rw [if_pos inside, List.getElem?_range inside, Option.map_some, Option.map_some, if_pos (all i inside), ite_self]
  · rw [if_neg inside, List.getElem?_eq_none (by rw [List.length_range]; omega)]
    rfl

/-- The loop over a frame's updates runs the pieces of its schedule and charges every frame for its own. -/
theorem runUpdates_inOrder (index : Nat) (value : U256) (ops : List StateUpdate) (children : List Nat)
    (piece : List StateUpdate) (pieces : Nat) (gas : UInt64) (s : TreeState Db)
    (fine : (Schedule.updates t.frames index value ops children piece pieces).ending = none)
    (once : (entered (Schedule.updates t.frames index value ops children piece pieces).pieces).Nodup) :
    t.runUpdates H revm index value ops children ⟨piece, pieces, gas⟩ s = (do
      let (log, db) ← runInOrder H revm t (Schedule.updates t.frames index value ops children piece pieces).pieces s.db
      .ok ⟨db, settle index gas log s.frameGas⟩) := by
  fun_induction Schedule.updates t.frames index value ops children piece pieces generalizing gas s with
  | case1 index value children piece pieces =>
    obtain ⟨-, left⟩ := Schedule.andThen_ending fine
    obtain ⟨none, empty⟩ := Schedule.ended left
    rw [Schedule.andThen_of (Schedule.flush_ending ..), empty, List.append_nil, FrameTreeRun.runUpdates,
      flush_inOrder H revm t index value ⟨piece, pieces, gas⟩]
    cases ran : runInOrder H revm t (Schedule.flush index value piece pieces).pieces s.db with
    | error e => rfl
    | ok first =>
      obtain ⟨log, db⟩ := first
      have own : ∀ r ∈ log, r.piece.index = index := fun r member =>
        Schedule.flush_index (mem_runInOrder H revm t ran member)
      simp only [Outcome.ok_bind, if_neg (not_not.mpr none), settle_own gas own]
  | case2 index value children piece pieces n rest e refused => cases (Schedule.andThen_ending fine).2
  | case3 index value children piece pieces n rest child frame children' named ihChild ihRest =>
    obtain ⟨-, both⟩ := Schedule.andThen_ending fine
    obtain ⟨below, after⟩ := Schedule.andThen_ending both
    obtain ⟨-, later, found⟩ := nextChild_ok named
    rw [Schedule.andThen_of (Schedule.flush_ending ..), Schedule.andThen_of below, entered_append, entered_append] at once
    have once := (List.nodup_append.mp once).2.1
    obtain ⟨onceChild, onceRest, -⟩ := List.nodup_append.mp once
    obtain ⟨strangers, apart⟩ := Schedule.parts_apart later below after once
    rw [Schedule.andThen_of (Schedule.flush_ending ..), Schedule.andThen_of below, runUpdates_nested,
      flush_inOrder H revm t index value ⟨piece, pieces, gas⟩, runInOrder_append, named]
    cases ranOwn : runInOrder H revm t (Schedule.flush index value piece pieces).pieces s.db with
    | error e => rfl
    | ok first =>
      obtain ⟨own, db₁⟩ := first
      simp only [Outcome.ok_bind, runInOrder_append, ihChild 0 ⟨db₁, s.frameGas⟩ below onceChild]
      cases ranChild : runInOrder H revm t
          (Schedule.updates t.frames child frame.value frame.updates frame.children [] 0).pieces db₁ with
      | error e => rfl
      | ok second =>
        obtain ⟨log₂, db₂⟩ := second
        simp only [Outcome.ok_bind, ihRest _ _ after onceRest]
        cases ranRest : runInOrder H revm t
            (Schedule.updates t.frames index value rest children' [] (Schedule.flushed piece pieces)).pieces db₂ with
        | error e => rfl
        | ok third =>
          obtain ⟨log₃, db₃⟩ := third
          simp only [Outcome.ok_bind]
          rw [settle_nested (Nat.ne_of_gt later) gas
            (fun r member => Schedule.flush_index (mem_runInOrder H revm t ranOwn member))
            (fun r member => strangers _ (mem_runInOrder H revm t ranChild member)) ?_
            (fun r member r' member' => apart _ (mem_runInOrder H revm t ranChild member) _
              (mem_runInOrder H revm t ranRest member'))]
          obtain ⟨p, member, same⟩ := List.mem_map.mp (Schedule.mem_entered_child below)
          obtain ⟨r, inside, here⟩ := exists_runInOrder H revm t ranChild (List.mem_of_mem_filter member)
          exact ⟨r, inside, by rw [here, same]⟩
  | case4 index value children piece pieces op rest plain ih =>
    rw [FrameTreeRun.runUpdates]
    · exact ih gas s fine once
    · exact plain

end

/-! ### The run of a tree -/

/-- The pieces of a tree, in the order they run. -/
def nativePieces (frames : List FrameProgram) (rootValue : U256) : List FramePiece :=
  (Schedule.ofTree frames rootValue).pieces

/-- The value frame `i` sends with its first piece. -/
def sentBy (rootValue : U256) (i : Nat) (frame : FrameProgram) : U256 := if i = 0 then rootValue else frame.value

/-- Put together the pieces are the flattening of the root's program. Every frame is entered once, in frame order; its
pieces are numbered as they run, and the first of them alone sends the frame's value. -/
structure NativeOrder (frames : List FrameProgram) (rootValue : U256) (pieces : List FramePiece) : Prop where
  flattened : pieces.flatMap (FramePiece.placed frames) = flattenTree frames
  enters : entered pieces = List.range frames.length
  numbered : ∀ i frame, frames[i]? = some frame → Numbered (sentBy rootValue i frame) 0 (ofFrame i pieces)
  sends : ∀ i frame, frames[i]? = some frame → ∃ later, (∀ v ∈ later, v = 0) ∧
    (ofFrame i pieces).map FramePiece.sent = sentBy rootValue i frame :: later

namespace PreOrderFrames

variable {frames : List FrameProgram}

theorem sound (tree : PreOrderFrames frames) {i : Nat} {f : FrameProgram} (found : frames[i]? = some f) :
    Sound frames.length i f where
  children c member := tree.bounds i c (by
    unfold childrenOf
    rw [found]
    exact member)
  count := tree.counts f (List.mem_of_getElem? found)

theorem ending (tree : PreOrderFrames frames) (rootValue : U256) :
    (Schedule.ofTree frames rootValue).ending = none := by
  rw [Schedule.ofTree_ending_iff]
  intro malformed
  rcases malformed with empty | ⟨i, f, -, found, unsound⟩
  · have pos := tree.pos
    rw [empty] at pos
    exact Nat.lt_irrefl 0 pos
  · exact unsound (tree.sound found)

theorem root (tree : PreOrderFrames frames) (rootValue : U256) :
    ∃ frame rest, frames = frame :: rest ∧ frames[0]? = some frame ∧
      Schedule.ofTree frames rootValue = Schedule.updates frames 0 rootValue frame.updates frame.children [] 0 := by
  cases frames with
  | nil => exact absurd tree.pos (Nat.lt_irrefl 0)
  | cons frame rest => exact ⟨frame, rest, rfl, rfl, rfl⟩

theorem enters (tree : PreOrderFrames frames) (rootValue : U256) :
    entered (nativePieces frames rootValue) = List.range frames.length := by
  obtain ⟨frame, rest, shape, found, scheduled⟩ := tree.root rootValue
  have fine := tree.ending rootValue
  rw [scheduled] at fine
  obtain ⟨fuel, size⟩ : ∃ fuel, frames.length = fuel + 1 := ⟨frames.length - 1, by have := tree.pos; omega⟩
  have own : childrenOf frames 0 = frame.children := by
    unfold childrenOf
    rw [found]
    rfl
  rw [nativePieces, scheduled, Schedule.updates_entered fine (show frames.length ≤ fuel + 0 + 1 by omega), if_pos rfl,
    ← tree.preOrder, size, PreOrder.visit, own]
  rfl

theorem nativeOrder (tree : PreOrderFrames frames) (rootValue : U256) :
    NativeOrder frames rootValue (nativePieces frames rootValue) := by
  obtain ⟨frame, rest, shape, found, scheduled⟩ := tree.root rootValue
  have fine := tree.ending rootValue
  have enters := tree.enters rootValue
  have once : (entered (nativePieces frames rootValue)).Nodup := by
    rw [enters]
    exact List.nodup_range
  have numbered : ∀ i frame, frames[i]? = some frame →
      Numbered (sentBy rootValue i frame) 0 (ofFrame i (nativePieces frames rootValue)) := by
    rw [nativePieces, scheduled] at once ⊢
    rw [scheduled] at fine
    obtain ⟨own, others⟩ := Schedule.updates_numbered fine once
    intro i frame' found'
    unfold sentBy
    by_cases root : i = 0
    · rw [if_pos root, root]
      exact own
    · rw [if_neg root]
      exact others i frame' root found'
  refine ⟨?_, enters, numbered, ?_⟩
  · rw [nativePieces, scheduled]
    rw [scheduled] at fine
    rw [Schedule.updates_placed found fine, List.map_nil, List.nil_append, shape]
    rfl
  · intro i frame' found'
    have inside := (List.getElem?_eq_some_iff.mp found').1
    have enter : i ∈ entered (nativePieces frames rootValue) := by
      rw [enters]
      exact List.mem_range.mpr inside
    obtain ⟨p, member, here⟩ := List.mem_map.mp enter
    have own : p ∈ ofFrame i (nativePieces frames rootValue) :=
      List.mem_filter.mpr ⟨List.mem_of_mem_filter member, decide_eq_true here⟩
    have numbers := numbered i frame' found'
    cases listed : ofFrame i (nativePieces frames rootValue) with
    | nil =>
      rw [listed] at own
      cases own
    | cons first later =>
      rw [listed] at numbers
      obtain ⟨zero, value⟩ := numbers 0 first rfl
      refine ⟨later.map FramePiece.sent, ?_, ?_⟩
      · intro v sent
        obtain ⟨p, inside, rfl⟩ := List.mem_map.mp sent
        obtain ⟨k, found⟩ := List.mem_iff_getElem?.mp inside
        obtain ⟨number, -⟩ := numbers (k + 1) p found
        rw [FramePiece.sent, if_neg (by omega)]
      · rw [List.map_cons, FramePiece.sent, if_pos zero, value]

end PreOrderFrames

/-- The estimate of a tree is that of its pieces run one after the other in native order; every frame is charged for its
own pieces, less the base cost of each after the first. -/
theorem estimateFrameTreeGas_native {Db Spec : Type} (H : Hashes) (revm : Revm Db Spec) (estimatorCode : Bytes)
    {frames : List FrameProgram} (tree : PreOrderFrames frames) (db : Db) (caller : Address) (rootValue : U256)
    (simEnv : SimEnvOpts Spec) :
    NativeOrder frames rootValue (nativePieces frames rootValue) ∧
      estimateFrameTreeGas H revm estimatorCode db frames caller rootValue simEnv = (do
        let db ← injectTargets H revm estimatorCode [] frames db
        let (log, _) ← runInOrder H revm ⟨frames, caller, simEnv⟩ (nativePieces frames rootValue) db
        .ok ((List.range frames.length).map fun i => charge 0 (runsOf i log))) := by
  have order := tree.nativeOrder rootValue
  refine ⟨order, ?_⟩
  obtain ⟨frame, rest, shape, found, scheduled⟩ := tree.root rootValue
  have fine := tree.ending rootValue
  have once : (entered (nativePieces frames rootValue)).Nodup := by
    rw [order.enters]
    exact List.nodup_range
  have some : frames.isEmpty = false := by
    rw [shape]
    rfl
  unfold estimateFrameTreeGas
  rw [some, if_neg Bool.false_ne_true]
  cases injectTargets H revm estimatorCode [] frames db with
  | error e => rfl
  | ok db =>
    rw [nativePieces, scheduled] at once ⊢
    rw [scheduled] at fine
    have run := runUpdates_inOrder H revm ⟨frames, caller, simEnv⟩ 0 rootValue frame.updates frame.children [] 0 0
      ⟨db, List.replicate frames.length 0⟩ fine once
    simp only [Outcome.ok_bind, FrameTreeRun.run, found, run]
    cases ran : runInOrder H revm ⟨frames, caller, simEnv⟩
        (Schedule.updates frames 0 rootValue frame.updates frame.children [] 0).pieces db with
    | error e => rfl
    | ok all =>
      have enters := order.enters
      rw [nativePieces, scheduled] at enters
      simp only [Outcome.ok_bind]
      rw [settle_all 0]
      intro i inside
      rw [← List.mem_range, ← enters] at inside
      obtain ⟨p, member, here⟩ := List.mem_map.mp inside
      obtain ⟨r, listed, same⟩ := exists_runInOrder H revm _ ran (List.mem_of_mem_filter member)
      exact ⟨r, listed, by rw [same, here]⟩

/-! A root that starts and ends with a `NESTED` op, whose first child only nests again. -/

def branchingTree : List FrameProgram := [
  ⟨1, 2, 0, 0, some 0, [.nested ⟨3, 0, 0⟩, .store ⟨1, 2⟩, .nested ⟨4, 6, 0⟩], [1, 3]⟩,
  ⟨3, 1, 0, 0, some 0, [.nested ⟨5, 0, 0⟩], [2]⟩,
  ⟨5, 3, 0, 0, some 0, [.store ⟨3, 4⟩], []⟩,
  ⟨4, 1, 6, 0, some 0, [], []⟩]

/-- Every transaction costs 100 gas more than the one before. -/
def dearer : Revm Nat Unit where
  basicRef := fun _ _ => none
  insertAccountInfo := fun sent _ _ => sent
  setCodeHash := fun sent _ _ => sent
  insertAccountStorage := fun sent _ _ _ => .ok sent
  osakaOrLater := fun _ => true
  transact := fun sent _ _ => .ok (.success (30000 + 100 * UInt64.ofNat sent), sent + 1)

theorem branchingTree_preOrder : PreOrderFrames branchingTree where
  pos := by decide
  parent i pos inside := by
    have children : ∀ q, i ∈ childrenOf branchingTree q ↔ (q = 0 ∧ (i = 1 ∨ i = 3)) ∨ (q = 1 ∧ i = 2) := by
      intro q
      match q with
      | 0 | 1 | 2 | 3 => simp [childrenOf, branchingTree]
      | q + 4 => simp [childrenOf, branchingTree]
    have small : i < 4 := inside
    by_cases inner : i = 2
    · exact ⟨1, (children 1).mpr (by omega), fun q named => by have := (children q).mp named; omega⟩
    · exact ⟨0, (children 0).mpr (by omega), fun q named => by have := (children q).mp named; omega⟩
  once q := by
    match q with
    | 0 | 1 | 2 | 3 => decide
    | q + 4 => exact List.nodup_nil
  bounds q := by
    match q with
    | 0 | 1 | 2 | 3 => decide
    | q + 4 => intro c named; cases named
  preOrder := by decide
  counts := by decide

theorem nativePieces_branching : nativePieces branchingTree 5 =
    [⟨0, 0, [], 5⟩, ⟨1, 0, [], 0⟩, ⟨2, 0, [.store ⟨3, 4⟩], 0⟩, ⟨0, 1, [.store ⟨1, 2⟩], 5⟩, ⟨3, 0, [], 6⟩] := by
  have first : nextChild branchingTree 0 [1, 3] = .ok (1, ⟨3, 1, 0, 0, some 0, [.nested ⟨5, 0, 0⟩], [2]⟩, [3]) := rfl
  have inner : nextChild branchingTree 1 [2] = .ok (2, ⟨5, 3, 0, 0, some 0, [.store ⟨3, 4⟩], []⟩, []) := rfl
  have last : nextChild branchingTree 0 [3] = .ok (3, ⟨4, 1, 6, 0, some 0, [], []⟩, []) := rfl
  show (Schedule.updates branchingTree 0 5 [.nested ⟨3, 0, 0⟩, .store ⟨1, 2⟩, .nested ⟨4, 6, 0⟩] [1, 3] [] 0).pieces = _
  simp only [Schedule.updates_nested first, Schedule.updates_nested inner, Schedule.updates_nested last,
    Schedule.updates]
  rfl

theorem estimateFrameTreeGas_native_branching :
    NativeOrder branchingTree 5 (nativePieces branchingTree 5) ∧
      estimateFrameTreeGas ⟨fun _ => 0, fun _ => 0⟩ dearer [] 0 branchingTree 9 5 plainEnv =
        .ok [39300, 30100, 30200, 30400] := by
  obtain ⟨order, run⟩ := estimateFrameTreeGas_native ⟨fun _ => 0, fun _ => 0⟩ dearer [] branchingTree_preOrder 0 9 5
    plainEnv
  refine ⟨order, ?_⟩
  rw [run, nativePieces_branching]
  rfl

end GasAnalyzer.Estimator
