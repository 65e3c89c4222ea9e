import GasAnalyzer.Estimator.Schedule
import GasAnalyzer.Nested.Encodable

/-!
# Malformed trees

A tree is malformed when a frame below its root names a frame that does not follow it or is not there, or has another
number of `NESTED` ops than of children. The encoder refuses every malformed tree; the estimator refuses it unless its
schedule ends at a child that is not there.
-/

namespace GasAnalyzer.Estimator

inductive Reachable (frames : List FrameProgram) : Nat → Prop where
  | root : Reachable frames 0
  | child {i c : Nat} {f : FrameProgram} (parent : Reachable frames i) (here : frames[i]? = some f)
      (named : c ∈ f.children) : Reachable frames c

/-- The frame names only later frames of `n`, one for each `NESTED` op. -/
structure Sound (n i : Nat) (f : FrameProgram) : Prop where
  children : ∀ c ∈ f.children, i < c ∧ c < n
  count : (f.updates.filter StateUpdate.isNested).length = f.children.length

/-- There is no root, or some frame below the root is not sound. -/
def Malformed (frames : List FrameProgram) : Prop :=
  frames = [] ∨ ∃ i f, Reachable frames i ∧ frames[i]? = some f ∧ ¬Sound frames.length i f

namespace Schedule

variable {frames : List FrameProgram}

theorem andThen_ending {first second : Schedule} (fine : (first.andThen second).ending = none) :
    first.ending = none ∧ second.ending = none := by
  unfold andThen at fine
  split at fine
  · rename_i first
    exact ⟨first, fine⟩
  · rename_i stops
    exact absurd fine stops

/-- A frame that is scheduled to its end names one later frame for each op left, and each of these is scheduled to its
end. -/
theorem updates_ending {index : Nat} {value : U256} {ops : List StateUpdate} {children : List Nat}
    {piece : List StateUpdate} {pieces : Nat}
    (fine : (updates frames index value ops children piece pieces).ending = none) :
    (ops.filter StateUpdate.isNested).length = children.length ∧
      ∀ c ∈ children, index < c ∧ ∃ f, frames[c]? = some f ∧
        (updates frames c f.value f.updates f.children [] 0).ending = none := by
  fun_induction updates frames index value ops children piece pieces with
  | case1 index value children piece pieces =>
    obtain ⟨-, left⟩ := andThen_ending fine
    by_cases some : children ≠ []
    · rw [if_pos some] at left
      cases left
    · rw [not_not.mp some]
      exact ⟨rfl, fun c none => absurd none List.not_mem_nil⟩
  | case2 index value children piece pieces n rest e refused =>
    cases (andThen_ending fine).2
  | case3 index value children piece pieces n rest child frame children' named ihChild ihRest =>
    obtain ⟨-, both⟩ := andThen_ending fine
    obtain ⟨below, after⟩ := andThen_ending both
    obtain ⟨shape, later, found⟩ := nextChild_ok named
    obtain ⟨count, children⟩ := ihRest after
    rw [shape]
    constructor
    · rw [List.filter_cons_of_pos rfl, List.length_cons, List.length_cons, count]
    · intro c member
      rcases List.mem_cons.mp member with same | inside
      · rw [same]
        exact ⟨later, frame, found, below⟩
      · exact children c inside
  | case4 index value children piece pieces op rest plain ih =>
    have other : op.isNested = false := by
      cases op with
      | nested n => exact absurd rfl (plain n)
      | _ => rfl
    rw [List.filter_cons_of_neg (by rw [other]; exact Bool.false_ne_true)]
    exact ih fine

theorem ofTree_ending {rootValue : U256} (fine : (ofTree frames rootValue).ending = none) : ¬Malformed frames := by
  cases frames with
  | nil => cases fine
  | cons root rest =>
    have ends : ∀ i, Reachable (root :: rest) i → ∃ f value, (root :: rest)[i]? = some f ∧
        (updates (root :: rest) i value f.updates f.children [] 0).ending = none := by
      intro i reached
      induction reached with
      | root => exact ⟨root, rootValue, rfl, fine⟩
      | child parent here named ih =>
        obtain ⟨f, value, here', scheduled⟩ := ih
        rw [here] at here'
        injection here' with same
        rw [← same] at scheduled
        obtain ⟨-, f', found, below⟩ := (updates_ending scheduled).2 _ named
        exact ⟨f', f'.value, found, below⟩
    intro malformed
    rcases malformed with none | ⟨i, f, reached, here, unsound⟩
    · cases none
    · obtain ⟨f', value, here', scheduled⟩ := ends i reached
      rw [here] at here'
      injection here' with same
      rw [← same] at scheduled
      obtain ⟨count, children⟩ := updates_ending scheduled
      refine unsound ⟨?_, count⟩
      intro c named
      obtain ⟨later, f'', found, -⟩ := children c named
      exact ⟨later, (List.getElem?_eq_some_iff.mp found).1⟩

theorem flush_ending (index : Nat) (value : U256) (piece : List StateUpdate) (pieces : Nat) :
    (flush index value piece pieces).ending = none := by
  unfold flush
  split <;> rfl

theorem andThen_stops {first second : Schedule} {e : EstimateError}
    (stops : (first.andThen second).ending = some e) : first.ending = some e ∨ second.ending = some e := by
  unfold andThen at stops
  split at stops
  · exact Or.inr stops
  · exact Or.inl stops

theorem andThen_fine {first second : Schedule} (one : first.ending = none) (two : second.ending = none) :
    (first.andThen second).ending = none := by
  rw [andThen, if_pos one]
  exact two

theorem andThen_pieces {first second : Schedule} {piece : FramePiece} (member : piece ∈ (first.andThen second).pieces) :
    piece ∈ first.pieces ∨ piece ∈ second.pieces := by
  unfold andThen at member
  split at member
  · exact List.mem_append.mp member
  · exact Or.inl member

/-- What stops a schedule is a missing child or no abort. -/
def Stops (n : Nat) (e : EstimateError) : Prop := (∃ child, e = .indexOutOfBounds child n) ∨ e.panics = false

theorem nextChild_stops {index : Nat} {children : List Nat} {e : EstimateError}
    (refused : nextChild frames index children = .error e) : Stops frames.length e := by
  cases children with
  | nil =>
    injection refused with same
    exact Or.inr (same ▸ rfl)
  | cons child children =>
    rw [nextChild] at refused
    split at refused
    · injection refused with same
      exact Or.inr (same ▸ rfl)
    · cases found : frames[child]? with
      | none =>
        rw [found] at refused
        injection refused with same
        exact Or.inl ⟨child, same.symm⟩
      | some frame =>
        rw [found] at refused
        cases refused

theorem updates_stops {index : Nat} {value : U256} {ops : List StateUpdate} {children : List Nat}
    {piece : List StateUpdate} {pieces : Nat} {e : EstimateError}
    (stops : (updates frames index value ops children piece pieces).ending = some e) : Stops frames.length e := by
  fun_induction updates frames index value ops children piece pieces with
  | case1 index value children piece pieces =>
    rcases andThen_stops stops with flushed | left
    · rw [flush_ending] at flushed
      cases flushed
    · split at left
      · injection left with same
        exact Or.inr (same ▸ rfl)
      · cases left
  | case2 index value children piece pieces n rest refusal refused =>
    rcases andThen_stops stops with flushed | same
    · rw [flush_ending] at flushed
      cases flushed
    · injection same with same
      rw [← same]
      exact nextChild_stops refused
  | case3 index value children piece pieces n rest child frame children' named ihChild ihRest =>
    rcases andThen_stops stops with flushed | inner
    · rw [flush_ending] at flushed
      cases flushed
    · rcases andThen_stops inner with below | after
      · exact ihChild below
      · exact ihRest after
  | case4 index value children piece pieces op rest plain ih => exact ih stops

theorem ofTree_stops {rootValue : U256} {e : EstimateError} (stops : (ofTree frames rootValue).ending = some e) :
    Stops frames.length e := by
  cases frames with
  | nil =>
    injection stops with same
    exact Or.inr (same ▸ rfl)
  | cons root rest => exact updates_stops stops

/-- Every piece is a piece of a frame that is there. -/
theorem updates_pieces {index : Nat} {value : U256} {ops : List StateUpdate} {children : List Nat}
    {piece : List StateUpdate} {pieces : Nat} (inside : index < frames.length) :
    ∀ part ∈ (updates frames index value ops children piece pieces).pieces, part.index < frames.length := by
  have flushes : ∀ {index} {value : U256} {piece pieces}, index < frames.length →
      ∀ part ∈ (flush index value piece pieces).pieces, part.index < frames.length := by
    intro index value piece pieces inside part member
    unfold flush at member
    split at member
    · rw [List.mem_singleton.mp member]
      exact inside
    · cases member
  fun_induction updates frames index value ops children piece pieces with
  | case1 index value children piece pieces =>
    intro part member
    rcases andThen_pieces member with flushed | left
    · exact flushes inside part flushed
    · split at left <;> cases left
  | case2 index value children piece pieces n rest refusal refused =>
    intro part member
    rcases andThen_pieces member with flushed | none
    · exact flushes inside part flushed
    · cases none
  | case3 index value children piece pieces n rest child frame children' named ihChild ihRest =>
    intro part member
    rcases andThen_pieces member with flushed | inner
    · exact flushes inside part flushed
    · obtain ⟨-, -, found⟩ := nextChild_ok named
      rcases andThen_pieces inner with below | after
      · exact ihChild (List.getElem?_eq_some_iff.mp found).1 part below
      · exact ihRest inside part after
  | case4 index value children piece pieces op rest plain ih => exact ih inside

theorem updates_fine (sound : ∀ i f, Reachable frames i → frames[i]? = some f → Sound frames.length i f) {index : Nat}
    {value : U256} {ops : List StateUpdate} {children : List Nat} {piece : List StateUpdate} {pieces : Nat}
    (count : (ops.filter StateUpdate.isNested).length = children.length)
    (later : ∀ c ∈ children, Reachable frames c ∧ index < c ∧ c < frames.length) :
    (updates frames index value ops children piece pieces).ending = none := by
  fun_induction updates frames index value ops children piece pieces with
  | case1 index value children piece pieces =>
    have empty : children = [] := List.length_eq_zero_iff.mp count.symm
    apply andThen_fine (flush_ending ..)
    rw [if_neg (not_not.mpr empty)]
    rfl
  | case2 index value children piece pieces n rest refusal refused =>
    cases children with
    | nil => cases count
    | cons child children =>
      obtain ⟨-, after, inside⟩ := later child List.mem_cons_self
      rw [nextChild, if_neg (Nat.not_le_of_lt after), List.getElem?_eq_getElem inside] at refused
      cases refused
  | case3 index value children piece pieces n rest child frame children' named ihChild ihRest =>
    obtain ⟨shape, after, found⟩ := nextChild_ok named
    subst shape
    obtain ⟨reached, -, -⟩ := later child List.mem_cons_self
    obtain ⟨bounds, below⟩ := sound child frame reached found
    apply andThen_fine (flush_ending ..)
    apply andThen_fine
    · exact ihChild below fun c member => ⟨reached.child found member, bounds c member⟩
    · apply ihRest
      · rw [List.filter_cons_of_pos rfl, List.length_cons, List.length_cons] at count
        exact Nat.succ_inj.mp count
      · exact fun c member => later c (List.mem_cons_of_mem _ member)
  | case4 index value children piece pieces op rest plain ih =>
    have other : op.isNested = false := by
      cases op with
      | nested n => exact absurd rfl (plain n)
      | _ => rfl
    rw [List.filter_cons_of_neg (by rw [other]; exact Bool.false_ne_true)] at count
    exact ih count later

/-- A tree is malformed exactly when its schedule does not end well. -/
theorem ofTree_ending_iff (rootValue : U256) : (ofTree frames rootValue).ending = none ↔ ¬Malformed frames := by
  constructor
  · exact ofTree_ending
  · intro fine
    have sound : ∀ i f, Reachable frames i → frames[i]? = some f → Sound frames.length i f := by
      intro i f reached here
      by_contra unsound
      exact fine (Or.inr ⟨i, f, reached, here, unsound⟩)
    cases frames with
    | nil => exact absurd (Or.inl rfl) fine
    | cons root rest =>
      obtain ⟨bounds, count⟩ := sound 0 root .root rfl
      exact updates_fine sound count fun c named => ⟨Reachable.root.child rfl named, bounds c named⟩

end Schedule

/-! ### Refusals -/

/-- The computation answers with an error, and does not abort. -/
def Refused {ε α : Type} (panics : ε → Bool) (x : Except ε α) : Prop := ∃ e, x = .error e ∧ panics e = false

section

variable {ε α β : Type} {panics : ε → Bool} {x : Except ε α} {f : α → Except ε β}

theorem refused_bind (fine : Outcome.Sat (fun e => panics e = false) (fun _ => True) x)
    (rest : ∀ a, x = .ok a → Refused panics (f a)) : Refused panics (x >>= f) := by
  cases x with
  | error e => exact ⟨e, rfl, fine⟩
  | ok a => exact rest a rfl

theorem refused_map (g : α → β) : Refused panics (x.map g) ↔ Refused panics x := by
  cases x with
  | error e =>
    constructor
    · intro refused
      obtain ⟨e', same, fine⟩ := refused
      injection same with same
      exact ⟨e, rfl, same ▸ fine⟩
    · intro refused
      obtain ⟨e', same, fine⟩ := refused
      injection same with same
      exact ⟨e, rfl, same ▸ fine⟩
  | ok a =>
    constructor <;>
    · intro refused
      obtain ⟨e, same, -⟩ := refused
      cases same

end

/-! ### The encoder -/

theorem fillChildLeaves_refuses (i : Nat) (leaves : List B256) (updates : List StateUpdate) (children : List Nat) :
    Outcome.Sat (fun e => e.panics = false) (fun _ => True) (fillChildLeaves i leaves updates children) := by
  fun_induction fillChildLeaves i leaves updates children with
  | case1 => trivial
  | case2 => rfl
  | case3 => rfl
  | case4 => rfl
  | case5 n rest child children inOrder ih => exact ih.bind fun _ _ => trivial
  | case6 update rest children noneLeft someLeft ih => exact ih.bind fun _ _ => trivial

theorem encodeFrames_refuses (H : Hashes) (t : TreeParams) {frames : List FrameProgram} {k : Nat} {s : Leaves}
    (inside : k ≤ frames.length) :
    Outcome.Sat (fun e => e.panics = false) (fun _ => True) (encodeFrames H t frames k s) := by
  induction k generalizing s with
  | zero => trivial
  | succ k ih =>
    rw [encodeFrames, index, List.getElem?_eq_getElem inside, okOr, Outcome.ok_bind]
    have indexed : Outcome.Sat (fun e : Failure => e.panics = false) (fun _ => True)
        (okOr (.noTransitionIndex k) frames[k].transitionIndex) := by
      cases frames[k].transitionIndex with
      | none => rfl
      | some index => trivial
    have encoded : Outcome.Sat (fun e : Failure => e.panics = false) (fun _ => True) (encodeFrame H t k frames[k] s) :=
      (fillChildLeaves_refuses k s.frameLeaves frames[k].updates frames[k].children).bind fun _ _ =>
        indexed.bind fun _ _ => trivial
    exact encoded.bind fun _ _ => ih (Nat.le_of_succ_le inside)

theorem encodeFrameTree_refuses (H : Hashes) (t : TreeParams) {frames : List FrameProgram}
    (malformed : Malformed frames) : Refused Failure.panics (encodeFrameTree H frames t) := by
  cases frames with
  | nil => exact ⟨.noFrames, rfl, rfl⟩
  | cons root rest =>
    rcases malformed with none | ⟨i, f, -, here, unsound⟩
    · cases none
    · rw [encodeFrameTree]
      apply refused_bind (encodeFrames_refuses H t (le_refl _))
      intro s encoded
      obtain ⟨length, -, -, sound⟩ := encodeFrames_ok encoded (by simp) (by simp)
      obtain ⟨f', here', encodes⟩ := sound i (List.getElem?_eq_some_iff.mp here).1
      rw [here] at here'
      injection here' with same
      subst same
      have bounds := encodes.children
      rw [length, List.length_replicate] at bounds
      exact absurd ⟨bounds, encodes.nestedCount⟩ unsound

/-! ### The estimator -/

section

variable {Db Spec : Type} (H : Hashes) (revm : Revm Db Spec) (estimatorCode : Bytes) (t : FrameTreeRun Spec)

theorem injectTargets_refuses (injected : List Address) (frames : List FrameProgram) (db : Db) :
    Outcome.Sat (fun e => e.panics = false) (fun _ => True) (injectTargets H revm estimatorCode injected frames db) := by
  induction frames generalizing injected db with
  | nil => trivial
  | cons frame frames ih =>
    rw [injectTargets]
    split
    · exact ih ..
    · have injects : Outcome.Sat (fun e => e.panics = false) (fun _ => True)
          (injectEstimator H revm estimatorCode db frame.target) := by
        unfold injectEstimator
        dsimp only
        cases revm.insertAccountStorage _ _ _ _ with
        | error e => rfl
        | ok db => trivial
      exact injects.bind fun _ _ => ih ..

theorem runPieces_refuses {pieces : List FramePiece} (inside : ∀ part ∈ pieces, part.index < t.frames.length) (db : Db) :
    Outcome.Sat (fun e => e.panics = false) (fun _ => True) (runPieces H revm t pieces db) := by
  induction pieces generalizing db with
  | nil => trivial
  | cons part pieces ih =>
    have piece : Outcome.Sat (fun e => e.panics = false) (fun _ => True)
        (t.piece H revm db part.index part.pieceIndex part.updates part.value) := by
      rw [FrameTreeRun.piece, List.getElem?_eq_getElem (inside part List.mem_cons_self)]
      dsimp only
      cases runEstimator H revm db _ _ _ _ _ true with
      | error e => rfl
      | ok ran => trivial
    rw [runPieces]
    exact piece.bind fun ran _ => ih (fun part member => inside part (List.mem_cons_of_mem _ member)) ran.2

/-- The run comes to a `NESTED` op whose child, a later one than its frame, is not there: every contract was injected,
and every piece the schedule puts before that op ran. -/
def MeetsMissingChild (db : Db) (rootValue : U256) : Prop :=
  ∃ child injected ran, (Schedule.ofTree t.frames rootValue).ending = some (.indexOutOfBounds child t.frames.length) ∧
    injectTargets H revm estimatorCode [] t.frames db = .ok injected ∧
    runPieces H revm t (Schedule.ofTree t.frames rootValue).pieces injected = .ok ran

theorem estimateFrameTreeGas_refused {rootValue : U256} {db : Db} (malformed : Malformed t.frames) :
    Refused EstimateError.panics (estimateFrameTreeGas H revm estimatorCode db t.frames t.caller rootValue t.simEnv) ↔
      ¬MeetsMissingChild H revm estimatorCode t db rootValue := by
  obtain ⟨e, stops⟩ := Option.ne_none_iff_exists'.mp
    (fun fine => (Schedule.ofTree_ending_iff rootValue).mp fine malformed)
  cases shape : t.frames with
  | nil =>
    constructor
    · intro _ meets
      obtain ⟨child, injected, ran, missing, -⟩ := meets
      rw [shape] at missing
      cases missing
    · exact fun _ => ⟨.noRootFrame, rfl, rfl⟩
  | cons root rest =>
    have pieces : ∀ part ∈ (Schedule.ofTree t.frames rootValue).pieces, part.index < t.frames.length := by
      rw [shape]
      exact Schedule.updates_pieces (Nat.succ_pos _)
    have there : t.frames.isEmpty = false := by
      rw [shape]
      rfl
    have injects := injectTargets_refuses H revm estimatorCode [] t.frames db
    rw [← shape, estimateFrameTreeGas, there, if_neg Bool.false_ne_true]
    cases injected : injectTargets H revm estimatorCode [] t.frames db with
    | error e =>
      rw [injected] at injects
      refine ⟨fun _ meets => ?_, fun _ => ⟨e, rfl, injects⟩⟩
      obtain ⟨child, db', ran, -, fine, -⟩ := meets
      rw [injected] at fine
      cases fine
    | ok db' =>
      have executes := run_execute H revm t shape rootValue ⟨db', List.replicate t.frames.length 0⟩
      have runs := runPieces_refuses H revm t pieces db'
      have refused : Refused EstimateError.panics
          (t.run H revm 0 rootValue ⟨db', List.replicate t.frames.length 0⟩) ↔
            ¬MeetsMissingChild H revm estimatorCode t db rootValue := by
        rw [← refused_map TreeState.db, executes, Schedule.execute]
        cases ran : runPieces H revm t (Schedule.ofTree t.frames rootValue).pieces db' with
        | error e' =>
          rw [ran] at runs
          refine ⟨fun _ meets => ?_, fun _ => ⟨e', rfl, runs⟩⟩
          obtain ⟨child, db'', done, -, fine, all⟩ := meets
          rw [injected] at fine
          injection fine with fine
          rw [← fine, ran] at all
          cases all
        | ok done =>
          rw [Outcome.ok_bind, stops]
          constructor
          · intro refused meets
            obtain ⟨e', same, spares⟩ := refused
            injection same with same
            obtain ⟨child, -, -, missing, -, -⟩ := meets
            rw [stops] at missing
            injection missing with missing
            rw [← same, missing] at spares
            cases spares
          · intro spared
            rcases Schedule.ofTree_stops stops with ⟨child, missing⟩ | fine
            · rw [missing] at stops
              exact absurd ⟨child, db', done, stops, injected, ran⟩ spared
            · exact ⟨e, rfl, fine⟩
      rw [← refused]
      exact refused_map TreeState.frameGas

end

/-! ### Both consumers -/

/-- Neither consumer accepts a malformed tree or aborts on it. -/
def RejectsMalformed {Db Spec : Type} (H : Hashes) (revm : Revm Db Spec) (estimatorCode : Bytes) (params : TreeParams)
    (frames : List FrameProgram) (db : Db) (caller : Address) (rootValue : U256) (simEnv : SimEnvOpts Spec) : Prop :=
  Malformed frames → Refused Failure.panics (encodeFrameTree H frames params) ∧
    Refused EstimateError.panics (estimateFrameTreeGas H revm estimatorCode db frames caller rootValue simEnv)

/-- Malformed trees are rejected exactly when the estimator does not come to a child that is not there. -/
theorem rejectsMalformed_iff {Db Spec : Type} (H : Hashes) (revm : Revm Db Spec) (estimatorCode : Bytes)
    (params : TreeParams) (frames : List FrameProgram) (db : Db) (caller : Address) (rootValue : U256)
    (simEnv : SimEnvOpts Spec) :
    RejectsMalformed H revm estimatorCode params frames db caller rootValue simEnv ↔
      ¬MeetsMissingChild H revm estimatorCode ⟨frames, caller, simEnv⟩ db rootValue := by
  let t : FrameTreeRun Spec := ⟨frames, caller, simEnv⟩
  by_cases malformed : Malformed frames
  · rw [← estimateFrameTreeGas_refused H revm estimatorCode t malformed]
    exact ⟨fun rejects => (rejects malformed).2, fun refused _ => ⟨encodeFrameTree_refuses H params malformed, refused⟩⟩
  · refine ⟨fun _ meets => ?_, fun _ some => absurd some malformed⟩
    obtain ⟨child, -, -, missing, -, -⟩ := meets
    rw [(Schedule.ofTree_ending_iff rootValue).mpr malformed] at missing
    cases missing

/-! A root with one `NESTED` op whose child id is past the end, on a state whose transactions all succeed. -/

def strayTree : List FrameProgram := [⟨1, 2, 0, 0, some 0, [.nested ⟨3, 0, 0⟩], [1]⟩]

def succeeding : Revm Unit Unit where
  basicRef := fun _ _ => none
  insertAccountInfo := fun db _ _ => db
  setCodeHash := fun db _ _ => db
  insertAccountStorage := fun db _ _ _ => .ok db
  osakaOrLater := fun _ => true
  transact := fun db _ _ => .ok (.success 21000, db)

def plainEnv : SimEnvOpts Unit := ⟨1, 1, 30000000, 0, 0, 0, 0, 0, (), 0⟩

theorem stray_child_aborts :
    ¬RejectsMalformed ⟨fun _ => 0, fun _ => 0⟩ succeeding [] ⟨0, 0, 1, 0⟩ strayTree () 9 0 plainEnv := by
  intro rejects
  have malformed : Malformed strayTree := Or.inr ⟨0, _, .root, rfl, fun sound => absurd sound.children (by decide)⟩
  have scheduled : Schedule.ofTree strayTree 0 = ⟨[⟨0, 0, [], 0⟩], some (.indexOutOfBounds 1 1)⟩ := by
    rw [strayTree, Schedule.ofTree, Schedule.updates]
    rfl
  apply (estimateFrameTreeGas_refused _ _ _ ⟨strayTree, 9, plainEnv⟩ malformed).mp (rejects malformed).2
  refine ⟨1, (), (), ?_, rfl, ?_⟩
  · rw [scheduled]
    rfl
  · rw [scheduled]
    rfl

end GasAnalyzer.Estimator
