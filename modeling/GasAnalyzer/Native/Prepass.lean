import GasAnalyzer.Native.Counters
import GasAnalyzer.Native.Single

/-!
# The pre-pass over a call tree

On a well-formed trace the pre-pass follows the call tree with frames of its own. The root's index is settled by the
first tracker write of the root's scope, and the candidate of a `CALL` by the steps of its callee's scope, unless a
`DELEGATECALL` or `CALLCODE` of that scope opens no frame: then the candidate is lost.
-/

namespace GasAnalyzer

/-! ### What a scope tells -/

/-- The value a step stores in the tracker slot. -/
def StructLog.moved? (log : StructLog) : Option B256 :=
  log.stored?.bind (fun e => if e.1 = stateTrackerSlot then some e.2 else none)

theorem StructLog.moved?_of_ne {log : StructLog} (other : log.op ≠ .sstore) : log.moved? = none := by
  unfold StructLog.moved? StructLog.stored?
  rw [if_neg fun both => other both.1]
  rfl

theorem StructLog.moved?_of_opens {log : StructLog} (opens : log.op.opensFrame = true) : log.moved? = none := by
  apply StructLog.moved?_of_ne
  intro kind
  rw [kind] at opens
  cases opens

/-- What a step of its scope makes of a candidate. -/
def StructLog.judge (log : StructLog) (c : Candidate) : Candidate :=
  if log.errored then c
  else
    match log.op with
    | .sstore => c.settle (match log.moved? with
        | some value => .first (U256.predSat value)
        | none => .disqualified)
    | .tstore | .selfdestruct => { c with unsupportedOp := true }
    | op => if Scan.observable op then c.settle .disqualified else c

/-- A `DELEGATECALL` or `CALLCODE` that executes. -/
def StructLog.delegates (log : StructLog) : Bool := !log.errored && log.op.isDelegate

namespace CallTree

/-- The first value a frame or one of its delegate frames stores in the tracker slot, whatever becomes of it. -/
def firstMove (n : Nat) (t : CallTree) : Option B256 :=
  (t.closure always n).findSome? (fun p => p.2.moved?)

/-- What the pre-pass makes of the candidate in whose scope `t` runs. -/
def judged : CallTree → Option Candidate → Option Candidate
  | done, c => c
  | step log rest, c => rest.judged (if log.delegates then none else c.map log.judge)
  | enter call body rest, c =>
    rest.judged (if call.op.isDelegate then body.judged (c.map call.judge) else c.map call.judge)

end CallTree

theorem firstMove_step (n : Nat) (log : StructLog) (rest : CallTree) :
    CallTree.firstMove n (.step log rest) = log.moved?.or (rest.firstMove (n + 1)) := by
  unfold CallTree.firstMove
  rw [CallTree.closure, List.findSome?_cons]
  cases log.moved? <;> rfl

theorem firstMove_enter (n : Nat) {call : StructLog} (body rest : CallTree) (opens : call.op.opensFrame = true) :
    CallTree.firstMove n (.enter call body rest) =
      (if call.op.isDelegate then body.firstMove (n + 1) else none).or (rest.firstMove (n + 1 + body.size)) := by
  unfold CallTree.firstMove
  rw [CallTree.closure, List.findSome?_cons, StructLog.moved?_of_opens opens, List.findSome?_append]
  cases call.op.isDelegate <;> rfl

/-! ### One step -/

namespace Scan

/-- What a step in `scope` does to the root's index. -/
def settled (scope : Option Scope) (move : Option B256) : Option U256 :=
  if scope = some .root then move.map U256.predSat else none

@[simp] theorem settled_none (scope : Option Scope) : settled scope none = none := by
  unfold settled
  split <;> rfl

theorem settled_or (scope : Option Scope) (first later : Option B256) :
    settled scope (first.or later) = (settled scope first).or (settled scope later) := by
  unfold settled
  split
  · cases first <;> rfl
  · rfl

/-- Candidate `k` once `f` was applied to the candidate of `scope`. -/
def judgedIn (scope : Option Scope) (f : Candidate → Candidate) (k : Nat) (c : Option Candidate) :
    Option Candidate :=
  if scope = some (.call k) then c.map f else c

@[simp] theorem judgedIn_id (scope : Option Scope) (k : Nat) (c : Option Candidate) : judgedIn scope id k c = c := by
  unfold judgedIn
  split <;> simp

theorem get_updateCandidate (s : Scan) (index : Nat) (f : Candidate → Candidate) (k : Nat) :
    (s.updateCandidate index f).candidates.get k =
      if index = k then (s.candidates.get k).map f else s.candidates.get k := by
  unfold updateCandidate
  split
  · rename_i c found
    show (s.candidates.insert index (f c)).get k = _
    rw [OrdMap.get_insert]
    by_cases here : k = index
    · rw [if_pos here, if_pos here.symm, here, found]
      rfl
    · rw [if_neg here, if_neg (Ne.symm here)]
  · rename_i none
    by_cases here : index = k
    · rw [if_pos here, ← here, none]
      rfl
    · rw [if_neg here]

/-- Only the candidate of `scope` changed, by `f`. -/
structure Judges (scope : Option Scope) (f : Candidate → Candidate) (s s' : Scan) : Prop where
  candidates : ∀ k, s'.candidates.get k = judgedIn scope f k (s.candidates.get k)
  frames : s'.frames = s.frames
  pending : s'.pending = s.pending

theorem judges_scope (index : Nat) (f : Candidate → Candidate) (s : Scan) :
    Judges (some (.call index)) f s (s.updateCandidate index f) ∧
      (s.updateCandidate index f).rootIndex = s.rootIndex := by
  refine ⟨⟨?_, s.updateCandidate_frames index f, ?_⟩, ?_⟩
  · intro k
    rw [get_updateCandidate]
    simp [judgedIn]
  · unfold updateCandidate
    split <;> rfl
  · unfold updateCandidate
    split <;> rfl

theorem judges_same {scope : Option Scope} {f : Candidate → Candidate}
    (other : ∀ index, scope ≠ some (.call index)) (s : Scan) : Judges scope f s s := by
  refine ⟨?_, rfl, rfl⟩
  intro k
  rw [judgedIn, if_neg (other k)]

theorem judges_id (scope : Option Scope) (s : Scan) : Judges scope id s s :=
  ⟨fun k => (judgedIn_id scope k _).symm, rfl, rfl⟩

theorem noteStore_judges (scope : Option Scope) (slot value : U256) (s : Scan) :
    Judges scope (Candidate.settle
        (if slot = stateTrackerSlot then .first (U256.predSat value) else .disqualified)) s
        (s.noteStore scope slot value) ∧
      (s.noteStore scope slot value).rootIndex =
        s.rootIndex.or (settled scope (if slot = stateTrackerSlot then some value else none)) := by
  unfold noteStore settled
  cases scope with
  | none => exact ⟨judges_same (fun _ same => by cases same) s, by simp⟩
  | some scope =>
    cases scope with
    | root =>
      have apart : ∀ index, some Scope.root ≠ some (.call index) := fun _ same => by cases same
      rw [if_pos rfl]
      dsimp only
      by_cases unset : slot = stateTrackerSlot ∧ s.rootIndex = none
      · obtain ⟨tracker, none⟩ := unset
        rw [if_pos (And.intro tracker none)]
        refine ⟨⟨(judges_same apart s).candidates, rfl, rfl⟩, ?_⟩
        rw [if_pos tracker, none]
        rfl
      · rw [if_neg unset]
        refine ⟨judges_same apart s, ?_⟩
        by_cases tracker : slot = stateTrackerSlot
        · cases known : s.rootIndex with
          | none => exact absurd ⟨tracker, known⟩ unset
          | some index => rfl
        · rw [if_neg tracker, Option.map_none, Option.or_none]
    | call index =>
      obtain ⟨judges, same⟩ := judges_scope index
        (Candidate.settle (if slot = stateTrackerSlot then .first (U256.predSat value) else .disqualified)) s
      exact ⟨judges, same.trans (by simp)⟩

theorem noteUnsupported_judges (scope : Option Scope) (s : Scan) :
    Judges scope (fun c => { c with unsupportedOp := true }) s (s.noteUnsupported scope) ∧
      (s.noteUnsupported scope).rootIndex = s.rootIndex := by
  unfold noteUnsupported
  split
  · exact judges_scope _ _ s
  · rename_i other
    exact ⟨judges_same (fun index same => other index same) s, rfl⟩

theorem noteEffect_judges (scope : Option Scope) (s : Scan) :
    Judges scope (Candidate.settle .disqualified) s (s.noteEffect scope) ∧
      (s.noteEffect scope).rootIndex = s.rootIndex := by
  unfold noteEffect
  split
  · exact judges_scope _ _ s
  · rename_i other
    exact ⟨judges_same (fun index same => other index same) s, rfl⟩

/-- What an un-errored step does: to the root's index, to its scope's candidate, and the frame it is about to open. -/
structure Stepped (log : StructLog) (scope : Option Scope) (index : Nat) (s s' : Scan) : Prop where
  rootIndex : s'.rootIndex = s.rootIndex.or (settled scope log.moved?)
  candidates : ∀ k, s'.candidates.get k =
    if log.op = .call ∧ k = index then some {} else judgedIn scope log.judge k (s.candidates.get k)
  frames : s'.frames = s.frames
  pending : s'.pending = if log.op.opensFrame then some ⟨log.depth,
    if log.op.isDelegate then scope else if log.op = .call then some (.call index) else none⟩ else s.pending

/-- What a step notes down, before it awaits a frame. -/
structure Noted (log : StructLog) (scope : Option Scope) (s s' : Scan) : Prop where
  judges : Judges scope log.judge s s'
  rootIndex : s'.rootIndex = s.rootIndex.or (settled scope log.moved?)

theorem noted {index : Nat} {log : StructLog} {scope : Option Scope} {s v : Scan} (fine : log.errored = false)
    (wrote : s.noteWrite index log scope = .ok v) : Noted log scope s (v.noteObservable log scope) := by
  have others : log.op ≠ .sstore → log.moved? = none := StructLog.moved?_of_ne
  unfold noteWrite at wrote
  unfold noteObservable
  cases op : log.op with
  | sstore =>
    rw [op] at wrote
    dsimp only at wrote
    split at wrote
    · rename_i slot value first second
      obtain rfl := Except.ok.inj wrote
      have moved : log.moved? = if slot = stateTrackerSlot then some value else none := by
        unfold StructLog.moved? StructLog.stored?
        rw [if_pos ⟨op, fine⟩, first, second]
        rfl
      have judge : log.judge = Candidate.settle
          (if slot = stateTrackerSlot then .first (U256.predSat value) else .disqualified) := by
        funext c
        unfold StructLog.judge
        rw [if_neg (by simp [fine]), op, moved]
        by_cases tracker : slot = stateTrackerSlot
        · simp [tracker]
        · simp [tracker]
      obtain ⟨judges, rootIndex⟩ := noteStore_judges scope slot value s
      exact ⟨judge ▸ judges, moved ▸ rootIndex⟩
    · cases wrote
  | tstore | selfdestruct =>
    rw [op] at wrote
    obtain rfl := Except.ok.inj wrote
    have judge : log.judge = fun c => { c with unsupportedOp := true } := by
      funext c
      simp [StructLog.judge, fine, op]
    obtain ⟨judges, rootIndex⟩ := noteUnsupported_judges scope s
    refine ⟨judge ▸ judges, ?_⟩
    rw [others (by rw [op]; exact Opcode.noConfusion), settled_none, Option.or_none]
    exact rootIndex
  | call | staticcall | create | create2 | log0 | log1 | log2 | log3 | log4 =>
    rw [op] at wrote
    obtain rfl := Except.ok.inj wrote
    have judge : log.judge = Candidate.settle .disqualified := by
      funext c
      simp [StructLog.judge, fine, op, observable, Opcode.isCreate, Opcode.isLog]
    obtain ⟨judges, rootIndex⟩ := noteEffect_judges scope s
    refine ⟨judge ▸ judges, ?_⟩
    rw [others (by rw [op]; exact Opcode.noConfusion), settled_none, Option.or_none]
    exact rootIndex
  | delegatecall | callcode | other =>
    rw [op] at wrote
    obtain rfl := Except.ok.inj wrote
    have judge : log.judge = id := by
      funext c
      simp [StructLog.judge, fine, op, observable, Opcode.isCreate, Opcode.isLog]
    refine ⟨judge ▸ judges_id scope s, ?_⟩
    rw [others (by rw [op]; exact Opcode.noConfusion), settled_none, Option.or_none]
    rfl

theorem exec_stepped {index : Nat} {log : StructLog} {scope : Option Scope} {s s' : Scan} (fine : log.errored = false)
    (ran : s.exec index log scope = .ok s') : Stepped log scope index s s' := by
  obtain ⟨v, wrote, ran⟩ := Outcome.bind_ok ran
  obtain rfl := Except.ok.inj ran
  obtain ⟨⟨candidates, frames, pending⟩, rootIndex⟩ := noted fine wrote
  generalize v.noteObservable log scope = u at candidates frames pending rootIndex
  unfold awaitFrame
  cases op : log.op with
  | call =>
    refine ⟨rootIndex, ?_, frames, ?_⟩
    · intro k
      show (u.candidates.insert index {}).get k = _
      rw [OrdMap.get_insert, candidates, op]
      by_cases here : k = index
      · rw [if_pos here, if_pos ⟨rfl, here⟩]
      · rw [if_neg here, if_neg (fun both => here both.2)]
    · rw [op]
      rfl
  | staticcall | create | create2 | delegatecall | callcode =>
    refine ⟨rootIndex, ?_, frames, ?_⟩
    · intro k
      rw [op, if_neg (by simp)]
      exact candidates k
    · rw [op]
      rfl
  | _ =>
    refine ⟨rootIndex, ?_, frames, ?_⟩
    · intro k
      rw [op, if_neg (by simp)]
      exact candidates k
    · rw [op]
      exact pending

/-! ### Following the tree -/

theorem run_cons {log : StructLog} {rest : List StructLog} {n : Nat} {s s' : Scan}
    (ran : run (log :: rest) n s = .ok s') : ∃ s₁, s.step n log = .ok s₁ ∧ run rest (n + 1) s₁ = .ok s' :=
  Outcome.bind_ok ran

theorem run_append (xs ys : List StructLog) (n : Nat) (s : Scan) :
    run (xs ++ ys) n s = run xs n s >>= run ys (n + xs.length) := by
  induction xs generalizing n s with
  | nil => rfl
  | cons log rest ih =>
    show (s.step n log >>= fun s => run (rest ++ ys) (n + 1) s) = (s.step n log >>= fun s => run rest (n + 1) s) >>= _
    rw [Outcome.bind_assoc]
    congr 1
    funext s'
    rw [ih, List.length_cons, Nat.add_assoc, Nat.add_comm 1]

/-- The scan stands in a frame at depth `d`, with nothing pending. -/
structure Stands (d : Nat) (scope : Option Scope) (below : List ScanFrame) (s : Scan) : Prop where
  frames : ∃ depth : UInt64, depth.toNat = d ∧ s.frames = ⟨depth, scope⟩ :: below
  pending : s.pending = none

/-- What the scan has found out: the root's index and the candidates. -/
def Knows (rootIndex : Option U256) (look : Nat → Option Candidate) (s : Scan) : Prop :=
  s.rootIndex = rootIndex ∧ s.candidates.get = look

/-- At the head of `t` the scan stands in its frame and knows what it knew before. -/
structure Arrives (d : Nat) (scope : Option Scope) (below : List ScanFrame) (rootIndex : Option U256)
    (look : Nat → Option Candidate) (t : CallTree) (s : Scan) : Prop where
  arrived : ∀ log, t.head? = some log → Stands d scope below ((s.enterPending log).popFrames log) ∧
    Knows rootIndex look ((s.enterPending log).popFrames log)
  ended : t.head? = none → Stands d scope below s ∧ Knows rootIndex look s

theorem Stands.stays {d : Nat} {scope : Option Scope} {below : List ScanFrame} {s : Scan} (stands : Stands d scope below s)
    {log : StructLog} (level : log.depth.toNat = d) : Stands d scope below (s.popFrames log) := by
  obtain ⟨⟨depth, isDepth, frames⟩, pending⟩ := stands
  refine ⟨⟨depth, isDepth, ?_⟩, pending⟩
  unfold popFrames
  rw [frames, List.dropWhile_cons, if_neg]
  rw [decide_eq_true_eq, UInt64.not_lt, UInt64.le_iff_toNat_le]
  show depth.toNat ≤ log.depth.toNat
  omega

/-- The frame of a body that ended is popped at the step that resumes its caller. -/
theorem Stands.returns {d : Nat} {scope scope' : Option Scope} {below : List ScanFrame} {s : Scan} {depth : UInt64}
    (stands : Stands (d + 1) scope' (⟨depth, scope⟩ :: below) s) (isDepth : depth.toNat = d) {log : StructLog}
    (level : log.depth.toNat = d) : Stands d scope below (s.popFrames log) := by
  obtain ⟨⟨inner, isInner, frames⟩, pending⟩ := stands
  refine ⟨⟨depth, isDepth, ?_⟩, pending⟩
  unfold popFrames
  rw [frames, List.dropWhile_cons, if_pos, List.dropWhile_cons, if_neg]
  · rw [decide_eq_true_eq, UInt64.not_lt, UInt64.le_iff_toNat_le]
    show depth.toNat ≤ log.depth.toNat
    omega
  · rw [decide_eq_true_eq, UInt64.lt_iff_toNat_lt]
    show log.depth.toNat < inner.toNat
    omega

/-- What an executed step at `n` knows of the candidates. -/
def looked (n : Nat) (scope : Option Scope) (log : StructLog) (look : Nat → Option Candidate) (k : Nat) :
    Option Candidate :=
  if log.errored = false ∧ log.op = .call ∧ k = n then some {} else judgedIn scope log.judge k (look k)

/-- The scope of the frame that step `n` is about to open. -/
def openedScope (n : Nat) (scope : Option Scope) (log : StructLog) : Option Scope :=
  if log.op.isDelegate then scope else if log.op = .call then some (.call n) else none

/-- One step from the state that arrived at it. -/
theorem step_arrived {d n : Nat} {scope : Option Scope} {below : List ScanFrame} {rootIndex : Option U256}
    {look : Nat → Option Candidate} {log : StructLog} {s s₁ : Scan}
    (stands : Stands d scope below ((s.enterPending log).popFrames log))
    (knows : Knows rootIndex look ((s.enterPending log).popFrames log)) (stepped : s.step n log = .ok s₁) :
    Knows (rootIndex.or (settled scope log.moved?)) (looked n scope log look) s₁ ∧
      (∃ depth : UInt64, depth.toNat = d ∧ s₁.frames = ⟨depth, scope⟩ :: below) ∧
      s₁.pending = if !log.errored && log.op.opensFrame then some ⟨log.depth, openedScope n scope log⟩ else none := by
  obtain ⟨⟨depth, isDepth, frames⟩, pending⟩ := stands
  obtain ⟨known, looks⟩ := knows
  unfold step at stepped
  split at stepped
  · cases stepped
  · dsimp only at stepped
    rw [frames] at stepped
    dsimp only at stepped
    split at stepped
    · rename_i errored
      obtain rfl := Except.ok.inj stepped
      have still : log.moved? = none := by
        unfold StructLog.moved? StructLog.stored?
        rw [errored]
        simp
      have lenient : log.judge = id := by
        funext c
        rw [StructLog.judge, if_pos errored]
        rfl
      refine ⟨⟨?_, ?_⟩, ⟨depth, isDepth, frames⟩, ?_⟩
      · rw [known, still, settled_none, Option.or_none]
      · rw [looks]
        funext k
        rw [looked, if_neg (by simp [errored]), lenient, judgedIn_id]
      · rw [errored]
        exact pending
    · rename_i errored
      have fine : log.errored = false := by simpa using errored
      have done := exec_stepped fine stepped
      refine ⟨⟨?_, ?_⟩, ⟨depth, isDepth, done.frames.trans frames⟩, ?_⟩
      · rw [done.rootIndex, known]
      · funext k
        rw [done.candidates, looks, looked]
        simp [fine]
      · rw [done.pending, fine, pending]
        rfl

/-- A call that opens no frame loses the candidate of the scope it would have run in. -/
theorem enterPending_inline {next : StructLog} {s : Scan}
    (elsewhere : ∀ p, s.pending = some p → next.depth ≠ p.parentDepth + 1) :
    (s.enterPending next).frames = s.frames ∧ (s.enterPending next).pending = none ∧
      (s.enterPending next).rootIndex = s.rootIndex ∧ ∀ k, (s.enterPending next).candidates.get k =
        if s.pending.bind ScanPending.scope = some (.call k) then none else s.candidates.get k := by
  unfold enterPending
  cases waits : s.pending with
  | none => exact ⟨rfl, waits, rfl, fun k => (if_neg (by simp)).symm⟩
  | some p =>
    dsimp only
    rw [if_neg (elsewhere p waits)]
    split
    · rename_i index isCall
      refine ⟨rfl, rfl, rfl, ?_⟩
      intro k
      show (s.candidates.erase index).get k = _
      rw [OrdMap.get_erase, Option.bind_some, isCall]
      by_cases here : k = index
      · rw [if_pos here, here, if_pos rfl]
      · rw [if_neg here, if_neg]
        intro same
        exact here (Scope.call.inj (Option.some.inj same)).symm
    · rename_i other
      refine ⟨rfl, rfl, rfl, ?_⟩
      intro k
      rw [Option.bind_some, if_neg (other k)]

/-- What running `t` in `scope` makes of the candidates: of its own scope's, of the earlier ones, and of those of the
calls in it that open a frame. -/
structure Judged (n : Nat) (scope : Option Scope) (t : CallTree) (look look' : Nat → Option Candidate) : Prop where
  own : ∀ k, k < n → scope = some (.call k) → look' k = t.judged (look k)
  kept : ∀ k, k < n → scope ≠ some (.call k) → look' k = look k
  opened : ∀ {k : Nat} {call : StructLog} {body rest : CallTree}, CallTree.Opens n t k call body rest →
    call.op = .call → look' k = body.judged (some {})

theorem Judged.done {n : Nat} {scope : Option Scope} {look : Nat → Option Candidate} :
    Judged n scope .done look look :=
  ⟨fun _ _ _ => rfl, fun _ _ _ => rfl, fun opens => by cases opens⟩

/-- A step that opens no frame. -/
theorem Judged.step {n : Nat} {scope : Option Scope} {log : StructLog} {rest : CallTree}
    {look look₁ look' : Nat → Option Candidate}
    (first : ∀ k, k < n → look₁ k = if scope = some (.call k) ∧ log.delegates then none
      else judgedIn scope log.judge k (look k))
    (tail : Judged (n + 1) scope rest look₁ look') : Judged n scope (.step log rest) look look' := by
  refine ⟨?_, ?_, ?_⟩
  · intro k before own
    rw [tail.own k (by omega) own, first k before, judgedIn, if_pos own, CallTree.judged]
    by_cases delegates : log.delegates = true
    · rw [if_pos ⟨own, delegates⟩, if_pos delegates]
    · rw [if_neg (fun both => delegates both.2), if_neg delegates]
  · intro k before other
    rw [tail.kept k (by omega) other, first k before, judgedIn, if_neg (fun both => other both.1), if_neg other]
  · intro k call body resumes opens isCall
    cases opens with
    | later opens => exact tail.opened opens isCall

/-- A call and the frame it opens. -/
theorem Judged.enter {n : Nat} {scope : Option Scope} {call : StructLog} {body rest : CallTree}
    {look look₂ look' : Nat → Option Candidate} (fine : call.errored = false)
    (older : ∀ k, scope = some (.call k) → k < n)
    (inner : Judged (n + 1) (openedScope n scope call) body (looked n scope call look) look₂)
    (tail : Judged (n + 1 + body.size) scope rest look₂ look') : Judged n scope (.enter call body rest) look look' := by
  -- Nothing after the body concerns the calls in it, or the call itself.
  have settledBy : ∀ k, n ≤ k → k < n + 1 + body.size → look' k = look₂ k := by
    intro k after before
    apply tail.kept k before
    intro own
    have := older k own
    omega
  have start : ∀ k, k < n → looked n scope call look k = judgedIn scope call.judge k (look k) := by
    intro k before
    rw [looked, if_neg]
    rintro ⟨-, -, rfl⟩
    omega
  refine ⟨?_, ?_, ?_⟩
  · intro k before own
    rw [tail.own k (by omega) own, CallTree.judged]
    congr 1
    have begun := start k before
    rw [judgedIn, if_pos own] at begun
    by_cases delegates : call.op.isDelegate = true
    · rw [if_pos delegates, ← begun]
      exact inner.own k (by omega) (by rw [openedScope, if_pos delegates]; exact own)
    · rw [if_neg delegates, ← begun]
      apply inner.kept k (by omega)
      rw [openedScope, if_neg delegates]
      split
      · intro same
        obtain rfl := Scope.call.inj (Option.some.inj same)
        omega
      · nofun
  · intro k before other
    have begun := start k before
    rw [judgedIn, if_neg other] at begun
    rw [tail.kept k (by omega) other, ← begun]
    apply inner.kept k (by omega)
    unfold openedScope
    split
    · exact other
    · split
      · intro same
        obtain rfl := Scope.call.inj (Option.some.inj same)
        omega
      · nofun
  · intro k call' body' rest' opens isCall
    cases opens with
    | here =>
      have plain : call.op.isDelegate = false := by rw [isCall]; rfl
      rw [settledBy n (Nat.le_refl n) (by omega),
        inner.own n (Nat.lt_succ_self n) (by rw [openedScope, plain, if_neg (by simp), if_pos isCall]),
        looked, if_pos ⟨fine, isCall, rfl⟩]
    | inside opens =>
      have := opens.bounds
      rw [settledBy k (by omega) (by omega)]
      exact inner.opened opens isCall
    | after opens => exact tail.opened opens isCall

theorem older_opened {n : Nat} {scope : Option Scope} (call : StructLog) (older : ∀ k, scope = some (.call k) → k < n)
    {k : Nat} (own : openedScope n scope call = some (.call k)) : k < n + 1 := by
  unfold openedScope at own
  split at own
  · exact Nat.lt_succ_of_lt (older k own)
  · split at own
    · obtain rfl := Scope.call.inj (Option.some.inj own)
      exact Nat.lt_succ_self n
    · cases own

theorem settled_opened (n : Nat) (scope : Option Scope) (call : StructLog) (move : Option B256) :
    settled (openedScope n scope call) move = settled scope (if call.op.isDelegate then move else none) := by
  unfold settled openedScope
  split
  · rfl
  · split <;> simp

/-- A step that opens no frame loses the candidate of its scope if it delegates. -/
theorem lost_iff {n k : Nat} {scope : Option Scope} {log : StructLog} (before : k < n) {waiting : Option ScanPending}
    (pending : waiting = if !log.errored && log.op.opensFrame then some ⟨log.depth, openedScope n scope log⟩ else none) :
    waiting.bind ScanPending.scope = some (.call k) ↔ scope = some (.call k) ∧ log.delegates = true := by
  rw [pending]
  unfold StructLog.delegates openedScope
  cases op : log.op <;> cases log.errored <;> simp [Opcode.opensFrame, Opcode.isDelegate]
  omega

section

variable {d n : Nat} {scope : Option Scope} {below : List ScanFrame} {rootIndex : Option U256}
variable {look : Nat → Option Candidate} {log call : StructLog} {body rest : CallTree} {s s₁ : Scan}

/-- Past a step that opens no frame. -/
theorem Arrives.next (arrives : Arrives d scope below rootIndex look (.step log rest) s)
    (wf : (CallTree.step log rest).WellFormed d) (stepped : s.step n log = .ok s₁) :
    ∃ look₁, Arrives d scope below (rootIndex.or (settled scope log.moved?)) look₁ rest s₁ ∧
      ∀ k, k < n → look₁ k = if scope = some (.call k) ∧ log.delegates then none
        else judgedIn scope log.judge k (look k) := by
  obtain ⟨carries, resumes, tailWf⟩ := wf
  obtain ⟨stands, knows⟩ := arrives.arrived log rfl
  obtain ⟨⟨rootIndex₁, looks₁⟩, frames, pending⟩ := step_arrived stands knows stepped
  refine ⟨fun k => if s₁.pending.bind ScanPending.scope = some (.call k) then none else looked n scope log look k,
    ⟨?_, ?_⟩, ?_⟩
  · intro next head
    have level := (tailWf.head head).depth
    have elsewhere : ∀ p, s₁.pending = some p → next.depth ≠ p.parentDepth + 1 := by
      -- The call opened no frame: the next step stands at its depth.
      intro p waits deeper
      rw [pending] at waits
      split at waits
      · obtain rfl := Option.some.inj waits
        have same := congrArg UInt64.toNat deeper
        rw [UInt64.toNat_add, level, carries.depth] at same
        have : (1 : UInt64).toNat = 1 := rfl
        omega
      · cases waits
    obtain ⟨frames', pending', rootIndex', looks'⟩ := enterPending_inline elsewhere
    refine ⟨Stands.stays ⟨frames' ▸ frames, pending'⟩ level, rootIndex'.trans rootIndex₁, ?_⟩
    funext k
    rw [← looks₁]
    exact looks' k
  · intro ended
    have idle : s₁.pending = none := by
      rw [pending, if_neg]
      intro both
      obtain ⟨fine, opens⟩ := Bool.and_eq_true_iff.mp both
      have resumed := resumes (by simpa using fine) opens
      unfold CallTree.outcome at resumed
      rw [ended] at resumed
      cases resumed
    refine ⟨⟨frames, idle⟩, rootIndex₁, ?_⟩
    funext k
    rw [idle, Option.bind_none, if_neg (by simp), looks₁]
  · intro k before
    dsimp only
    rw [looked, if_neg (fun all : _ ∧ _ ∧ k = n => absurd all.2.2 (by omega))]
    by_cases gone : scope = some (.call k) ∧ log.delegates = true
    · rw [if_pos gone, if_pos ((lost_iff before pending).mpr gone)]
    · rw [if_neg gone, if_neg (fun both => gone ((lost_iff before pending).mp both))]

/-- Inside the frame that a call opens. -/
theorem Arrives.inside (arrives : Arrives d scope below rootIndex look (.enter call body rest) s)
    (wf : (CallTree.enter call body rest).WellFormed d) (small : d + 1 < 2 ^ 64) (stepped : s.step n call = .ok s₁) :
    ∃ depth : UInt64, depth.toNat = d ∧ Arrives (d + 1) (openedScope n scope call) (⟨depth, scope⟩ :: below)
      rootIndex (looked n scope call look) body s₁ := by
  obtain ⟨carries, fine, opens, inhabited, innerWf, -, -⟩ := wf
  obtain ⟨stands, knows⟩ := arrives.arrived call rfl
  obtain ⟨⟨rootIndex₁, looks₁⟩, ⟨depth, isDepth, frames⟩, pending⟩ := step_arrived stands knows stepped
  rw [fine, opens] at pending
  change s₁.pending = some _ at pending
  rw [StructLog.moved?_of_opens opens, settled_none, Option.or_none] at rootIndex₁
  refine ⟨depth, isDepth, ?_, ?_⟩
  · intro first head
    have level := (innerWf.head head).depth
    have deeper : first.depth = call.depth + 1 := by
      apply UInt64.toNat_inj.mp
      rw [UInt64.toNat_add, level, carries.depth]
      exact (Nat.mod_eq_of_lt small).symm
    have entered : s₁.enterPending first =
        { s₁ with pending := none, frames := ⟨first.depth, openedScope n scope call⟩ :: s₁.frames } := by
      unfold enterPending
      rw [pending]
      exact if_pos deeper
    rw [entered]
    have pushed : Stands (d + 1) (openedScope n scope call) (⟨depth, scope⟩ :: below)
        { s₁ with pending := none, frames := ⟨first.depth, openedScope n scope call⟩ :: s₁.frames } :=
      ⟨⟨first.depth, level, by rw [frames]⟩, rfl⟩
    exact ⟨pushed.stays level, rootIndex₁, looks₁⟩
  · intro empty
    rw [empty] at inhabited
    cases inhabited

/-- Back in the caller of a frame that ended. -/
theorem Stands.resumes {scope' : Option Scope} {depth : UInt64}
    (stands : Stands (d + 1) scope' (⟨depth, scope⟩ :: below) s) (isDepth : depth.toNat = d)
    (wf : (CallTree.enter call body rest).WellFormed d) :
    Arrives d scope below s.rootIndex s.candidates.get rest s := by
  obtain ⟨-, -, -, -, -, resumed, tailWf⟩ := wf
  constructor
  · intro next head
    have free : s.enterPending next = s := by
      unfold enterPending
      rw [stands.pending]
    rw [free]
    exact ⟨stands.returns isDepth (tailWf.head head).depth, rfl, rfl⟩
  · intro ended
    unfold CallTree.outcome at resumed
    rw [ended] at resumed
    cases resumed

end

/-- The scan of a tree: the root's index is settled at the first move of a frame of the root's scope, and the
candidates by their own scopes. -/
theorem run_scope (t : CallTree) : ∀ {d n : Nat} {scope : Option Scope} {below : List ScanFrame}
    {rootIndex : Option U256} {look : Nat → Option Candidate} {s s' : Scan}, t.WellFormed d →
    d + t.size < 2 ^ 64 → (∀ k, scope = some (.call k) → k < n) → Arrives d scope below rootIndex look t s →
    run t.flatten n s = .ok s' → Stands d scope below s' ∧
      s'.rootIndex = rootIndex.or (settled scope (t.firstMove n)) ∧ Judged n scope t look s'.candidates.get := by
  induction t with
  | done =>
    intro d n scope below rootIndex look s s' _ _ _ arrives ran
    obtain rfl := Except.ok.inj ran
    obtain ⟨stands, known, looks⟩ := arrives.ended rfl
    refine ⟨stands, ?_, ?_⟩
    · rw [known, show CallTree.firstMove n .done = none from rfl, settled_none, Option.or_none]
    · rw [looks]
      exact Judged.done
  | step log rest ih =>
    intro d n scope below rootIndex look s s' wf small older arrives ran
    rw [CallTree.size] at small
    obtain ⟨s₁, stepped, ran⟩ := run_cons ran
    obtain ⟨look₁, arrives₁, first⟩ := arrives.next wf stepped
    obtain ⟨stands', rootIndex', judged⟩ :=
      ih wf.2.2 (by omega) (fun k own => Nat.lt_succ_of_lt (older k own)) arrives₁ ran
    refine ⟨stands', ?_, Judged.step first judged⟩
    rw [rootIndex', firstMove_step, settled_or, Option.or_assoc]
  | enter call body rest ihBody ihRest =>
    intro d n scope below rootIndex look s s' wf small older arrives ran
    rw [CallTree.size] at small
    rw [CallTree.flatten] at ran
    obtain ⟨s₁, stepped, ran⟩ := run_cons ran
    rw [run_append] at ran
    obtain ⟨s₂, ranBody, ran⟩ := Outcome.bind_ok ran
    obtain ⟨depth, isDepth, arrives₁⟩ := arrives.inside wf (by omega) stepped
    have parts := wf
    obtain ⟨-, fine, opens, -, innerWf, -, tailWf⟩ := parts
    obtain ⟨stands₂, rootIndex₂, judged₂⟩ :=
      ihBody innerWf (by omega) (fun _ own => older_opened call older own) arrives₁ ranBody
    have older' : ∀ k, scope = some (.call k) → k < n + 1 + body.size := by
      intro k own
      have := older k own
      omega
    rw [CallTree.length_flatten] at ran
    obtain ⟨stands', rootIndex', judged'⟩ :=
      ihRest tailWf (by omega) older' (stands₂.resumes isDepth wf) ran
    refine ⟨stands', ?_, Judged.enter fine older judged₂ judged'⟩
    rw [rootIndex', rootIndex₂, settled_opened, firstMove_enter n body rest opens, settled_or, Option.or_assoc]

end Scan

/-- The pre-pass of a whole well-formed trace. -/
theorem scanCandidates_scopes {t : CallTree} (wf : t.WellFormed 1) (small : t.size < 2 ^ 63)
    {candidates : OrdMap Nat Candidate} {rootIndex : Option U256}
    (scanned : scanCandidates t.flatten = .ok (candidates, rootIndex)) :
    rootIndex = (t.firstMove 0).map U256.predSat ∧
      ∀ {k : Nat} {call : StructLog} {body rest : CallTree}, CallTree.Opens 0 t k call body rest →
        call.op = .call → candidates.get k = body.judged (some {}) := by
  obtain ⟨s, ran, answer⟩ := Outcome.bind_ok scanned
  obtain ⟨rfl, rfl⟩ := Prod.mk.inj (Except.ok.inj answer)
  have starts : Scan.Stands 1 (some .root) [] {} := ⟨⟨1, rfl, rfl⟩, rfl⟩
  have knows : Scan.Knows none (OrdMap.empty.get) {} := ⟨rfl, rfl⟩
  have arrives : Scan.Arrives 1 (some .root) [] none OrdMap.empty.get t {} := by
    constructor
    · intro log head
      exact ⟨starts.stays (wf.head head).depth, knows⟩
    · intro _
      exact ⟨starts, knows⟩
  obtain ⟨-, known, judged⟩ := Scan.run_scope t wf (by omega) (fun k own => by cases own) arrives ran
  refine ⟨?_, judged.opened⟩
  rw [known, Option.none_or]
  rfl

end GasAnalyzer
