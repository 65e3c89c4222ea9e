import GasAnalyzer.Estimator.FrameTree

/-!
# The schedule of a tree

The order in which a tree's pieces run, and where the run ends, depend on the frames alone (`Schedule`); running the tree
is executing its schedule.
-/

namespace GasAnalyzer.Estimator

/-! ### Schedules -/

/-- One transaction of the run of a tree. -/
structure FramePiece where
  index : Nat
  pieceIndex : Nat
  updates : List StateUpdate
  value : U256

/-- The pieces to run, and the error the run ends in after them. -/
structure Schedule where
  pieces : List FramePiece
  ending : Option EstimateError

/-- The child the next `NESTED` op of frame `index` stands for, with its frame and the children after it. -/
def nextChild (frames : List FrameProgram) (index : Nat) : List Nat → Estimate (Nat × FrameProgram × List Nat)
  | [] => .error (.moreNestedOps index)
  | child :: children =>
    if child ≤ index then .error (.childNotAfter index child)
    else do
      let frame ← okOr (.indexOutOfBounds child frames.length) frames[child]?
      .ok (child, frame, children)

theorem nextChild_ok {frames : List FrameProgram} {index child : Nat} {children rest : List Nat} {frame : FrameProgram}
    (named : nextChild frames index children = .ok (child, frame, rest)) :
    children = child :: rest ∧ index < child ∧ frames[child]? = some frame := by
  cases children with
  | nil => cases named
  | cons first children =>
    rw [nextChild] at named
    split at named
    · cases named
    · rename_i after
      obtain ⟨found, here, same⟩ := Outcome.bind_ok named
      injection same with same
      injection same with child rest
      injection rest with frame rest
      rw [← child, ← frame, ← rest]
      exact ⟨rfl, Nat.lt_of_not_le after, Outcome.okOr_ok.mp here⟩

namespace Schedule

def stop (e : EstimateError) : Schedule := ⟨[], some e⟩

def nothing : Schedule := ⟨[], none⟩

def andThen (first second : Schedule) : Schedule :=
  if first.ending = none then ⟨first.pieces ++ second.pieces, second.ending⟩ else first

def flush (index : Nat) (value : U256) (piece : List StateUpdate) (pieces : Nat) : Schedule :=
  if pieces = 0 ∨ piece ≠ [] then ⟨[⟨index, pieces, piece, value⟩], none⟩ else nothing

def flushed (piece : List StateUpdate) (pieces : Nat) : Nat := if pieces = 0 ∨ piece ≠ [] then pieces + 1 else pieces

variable (frames : List FrameProgram)

/-- Frame `index` from `ops` on, and everything below it. -/
def updates (index : Nat) (value : U256) (ops : List StateUpdate) (children : List Nat)
    (piece : List StateUpdate) (pieces : Nat) : Schedule :=
  match ops with
  | [] => (flush index value piece pieces).andThen (if children ≠ [] then stop (.moreChildren index) else nothing)
  | .nested _ :: rest =>
    match _named : nextChild frames index children with
    | .error e => (flush index value piece pieces).andThen (stop e)
    | .ok (child, frame, children) =>
      (flush index value piece pieces).andThen <|
        (updates child frame.value frame.updates frame.children [] 0).andThen
          (updates index value rest children [] (flushed piece pieces))
  | op :: rest => updates index value rest children (piece ++ [op]) pieces
termination_by (frames.length - index, ops.length)
decreasing_by
  · obtain ⟨-, after, found⟩ := nextChild_ok _named
    have inside := (List.getElem?_eq_some_iff.mp found).1
    exact Prod.Lex.left _ _ (by omega)
  · exact Prod.Lex.right _ (Nat.lt_succ_self _)
  · exact Prod.Lex.right _ (Nat.lt_succ_self _)

/-- The schedule of a tree whose root is there. -/
def ofTree (rootValue : U256) : Schedule :=
  match frames with
  | [] => stop .noRootFrame
  | root :: _ => updates frames 0 rootValue root.updates root.children [] 0

end Schedule

/-! ### Executing a schedule -/

section

variable {Db Spec : Type} (H : Hashes) (revm : Revm Db Spec) (t : FrameTreeRun Spec)

/-- Runs the pieces in order, each on the state the one before it committed. -/
def runPieces : List FramePiece → Db → Estimate Db
  | [], db => .ok db
  | piece :: pieces, db => do
    let (_, db) ← t.piece H revm db piece.index piece.pieceIndex piece.updates piece.value
    runPieces pieces db

def Schedule.execute (schedule : Schedule) (db : Db) : Estimate Db := do
  let db ← runPieces H revm t schedule.pieces db
  match schedule.ending with
  | none => .ok db
  | some e => .error e

theorem runPieces_append (first second : List FramePiece) (db : Db) :
    runPieces H revm t (first ++ second) db = runPieces H revm t first db >>= runPieces H revm t second := by
  induction first generalizing db with
  | nil => rfl
  | cons piece first ih =>
    rw [List.cons_append, runPieces, runPieces]
    cases t.piece H revm db piece.index piece.pieceIndex piece.updates piece.value with
    | error e => rfl
    | ok ran => exact ih ran.2

theorem Schedule.execute_andThen (first second : Schedule) (db : Db) :
    (first.andThen second).execute H revm t db = first.execute H revm t db >>= second.execute H revm t := by
  unfold andThen
  split
  · rename_i fine
    simp only [execute, runPieces_append, fine]
    cases runPieces H revm t first.pieces db <;> rfl
  · rename_i stops
    unfold execute
    cases runPieces H revm t first.pieces db with
    | error e => rfl
    | ok db =>
      cases ending : first.ending with
      | none => exact absurd ending stops
      | some e => rfl

theorem execute_flush (index : Nat) (value : U256) (p : Progress) (db : Db) :
    (Schedule.flush index value p.piece p.pieces).execute H revm t db =
      (t.flush H revm index value p db).map Prod.snd := by
  unfold FrameTreeRun.flush Schedule.flush
  split
  · simp only [Schedule.execute, runPieces]
    cases t.piece H revm db index p.pieces p.piece value <;> rfl
  · rfl

theorem flush_progress {index : Nat} {value : U256} {p p' : Progress} {db db' : Db}
    (flushed : t.flush H revm index value p db = .ok (p', db')) :
    p'.piece = [] ∧ p'.pieces = Schedule.flushed p.piece p.pieces := by
  unfold FrameTreeRun.flush at flushed
  unfold Schedule.flushed
  split at flushed
  · rename_i runs
    obtain ⟨ran, -, same⟩ := Outcome.bind_ok flushed
    injection same with same
    injection same with same _
    rw [← same, if_pos runs]
    exact ⟨rfl, rfl⟩
  · rename_i empty
    injection flushed with same
    injection same with same _
    rw [← same, if_neg empty]
    exact ⟨by_contra fun some => empty (Or.inr some), rfl⟩

theorem runUpdates_nested (index : Nat) (value : U256) (n : Nested) (rest : List StateUpdate) (children : List Nat)
    (p : Progress) (s : TreeState Db) :
    t.runUpdates H revm index value (.nested n :: rest) children p s = (do
      let (p, db) ← t.flush H revm index value p s.db
      let (child, frame, children) ← nextChild t.frames index children
      let s ← t.runUpdates H revm child frame.value frame.updates frame.children ⟨[], 0, 0⟩ ⟨db, s.frameGas⟩
      t.runUpdates H revm index value rest children p s) := by
  rw [FrameTreeRun.runUpdates]
  cases t.flush H revm index value p s.db with
  | error e => rfl
  | ok ran =>
    rw [Outcome.ok_bind, Outcome.ok_bind]
    cases children with
    | nil => rfl
    | cons child children =>
      rw [nextChild]
      dsimp only
      by_cases outside : child ≤ index
      · rw [dif_pos outside, if_pos outside]
        rfl
      · rw [dif_neg outside, if_neg outside]
        split
        · rename_i missing
          rw [missing]
          rfl
        · rename_i frame found
          rw [FrameTreeRun.run, found]
          rfl

/-- The loop over a frame's updates is the execution of their schedule. -/
theorem runUpdates_execute (index : Nat) (value : U256) (ops : List StateUpdate) (children : List Nat)
    (piece : List StateUpdate) (pieces : Nat) (gas : UInt64) (s : TreeState Db) :
    (t.runUpdates H revm index value ops children ⟨piece, pieces, gas⟩ s).map TreeState.db =
      (Schedule.updates t.frames index value ops children piece pieces).execute H revm t s.db := by
  fun_induction Schedule.updates t.frames index value ops children piece pieces generalizing gas s with
  | case1 index value children piece pieces =>
    rw [FrameTreeRun.runUpdates, Schedule.execute_andThen, execute_flush H revm t index value ⟨piece, pieces, gas⟩]
    cases t.flush H revm index value ⟨piece, pieces, gas⟩ s.db with
    | error e => rfl
    | ok ran =>
      by_cases left : children ≠ []
      · simp only [Outcome.ok_bind, Except.map, if_pos left]
        rfl
      · simp only [Outcome.ok_bind, Except.map, if_neg left]
        rfl
  | case2 index value children piece pieces n rest e refused =>
    rw [runUpdates_nested, Schedule.execute_andThen, execute_flush H revm t index value ⟨piece, pieces, gas⟩, refused]
    cases t.flush H revm index value ⟨piece, pieces, gas⟩ s.db <;> rfl
  | case3 index value children piece pieces n rest child frame children' named ihChild ihRest =>
    rw [runUpdates_nested, Schedule.execute_andThen, execute_flush H revm t index value ⟨piece, pieces, gas⟩, named]
    cases flushed : t.flush H revm index value ⟨piece, pieces, gas⟩ s.db with
    | error e => rfl
    | ok ran =>
      obtain ⟨⟨piece', pieces', gas'⟩, db⟩ := ran
      obtain ⟨empty, number⟩ := flush_progress H revm t flushed
      dsimp only at empty number
      subst empty number
      have below := ihChild 0 ⟨db, s.frameGas⟩
      change _ = Schedule.execute H revm t _ db
      rw [Schedule.execute_andThen, ← below]
      simp only [Outcome.ok_bind]
      cases t.runUpdates H revm child frame.value frame.updates frame.children ⟨[], 0, 0⟩ ⟨db, s.frameGas⟩ with
      | error e => rfl
      | ok ran => exact ihRest gas' ran
  | case4 index value children piece pieces op rest plain ih =>
    rw [FrameTreeRun.runUpdates]
    · exact ih gas s
    · exact plain

theorem run_execute {root : FrameProgram} {rest : List FrameProgram} (shape : t.frames = root :: rest)
    (rootValue : U256) (s : TreeState Db) :
    (t.run H revm 0 rootValue s).map TreeState.db =
      (Schedule.ofTree t.frames rootValue).execute H revm t s.db := by
  have here : t.frames[0]? = some root := by
    rw [shape]
    rfl
  have scheduled : Schedule.ofTree t.frames rootValue =
      Schedule.updates t.frames 0 rootValue root.updates root.children [] 0 := by
    rw [shape]
    rfl
  rw [FrameTreeRun.run, here, scheduled]
  exact runUpdates_execute H revm t 0 rootValue root.updates root.children [] 0 0 s

end

end GasAnalyzer.Estimator
