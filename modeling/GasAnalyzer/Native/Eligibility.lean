import GasAnalyzer.Native.Prepass

/-!
# Which callees get a frame of their own

The pre-pass means to admit a callee whose first effect, over its frame and the `DELEGATECALL` and `CALLCODE` frames
below it, is the increment of its counter. It also drops the candidate of a scope in which such a call opens no frame,
as if the candidate's own `CALL` had opened none, so a callee that delegates to an account without code is not admitted.
-/

namespace GasAnalyzer

/-! ### The rule -/

/-- An un-errored storage write, external call or log. -/
def StructLog.effects (log : StructLog) : Bool :=
  !log.errored && (log.op == .sstore || Scan.observable log.op)

/-- An un-errored step that no program replays. -/
def StructLog.unsupported (log : StructLog) : Bool :=
  !log.errored && (log.op == .tstore || log.op == .selfdestruct)

namespace CallTree

/-- The steps of a frame and of its `DELEGATECALL` and `CALLCODE` descendants. -/
def scope (t : CallTree) : List StructLog := (t.closure always 0).map Prod.snd

/-- The value the scope's first effect stores in the tracker slot, where the scope can be replayed. -/
def bump (t : CallTree) : Option B256 :=
  if t.scope.any StructLog.unsupported then none else (t.scope.find? StructLog.effects).bind StructLog.moved?

/-- A `DELEGATECALL` or `CALLCODE` of the scope executes but opens no frame. -/
def strands : CallTree → Bool
  | done => false
  | step log rest => log.delegates || rest.strands
  | enter call body rest => call.op.isDelegate && body.strands || rest.strands

/-- The `CALL`s that open a frame in a frame that emits, where `grant` gives the callee a frame of its own, with what
it grants. A callee without one emits nothing, and a delegate frame emits as its caller. -/
def framed {α : Type} (grant : Nat → StructLog → CallTree → Option α) : Nat → CallTree → List (Nat × α)
  | _, done => []
  | n, step _ rest => rest.framed grant (n + 1)
  | n, enter call body rest =>
    (if call.op = .call then
        match grant n call body with
        | some x => (n, x) :: body.framed grant (n + 1)
        | none => []
      else if call.op.isDelegate then body.framed grant (n + 1) else []) ++
      rest.framed grant (n + 1 + body.size)

end CallTree

/-- What the callee's first effect stores in its counter, if the callee is nestable and qualifies. -/
def qualifying (isNestable : Address → Bool) (_ : Nat) (call : StructLog) (body : CallTree) : Option B256 :=
  if call.callee.any isNestable then body.bump else none

/-- The index below a counter's new value. -/
def IndexBelow (value : B256) (index : U256) : Prop := if value = 0 then index = 0 else index + 1 = value

/-- The programs the walk opened besides the root's are those of the callees that qualify, with their indices. -/
def EligibilityExact (isNestable : Address → Bool) (t : CallTree) (programs : List ProgramState) : Prop :=
  List.Forall₂ (fun x p => p.step = x.1 ∧ ∃ index, p.transitionIndex = some index ∧ IndexBelow x.2 index)
    (t.framed (qualifying isNestable) 0) programs.tail

/-! ### Scopes -/

namespace CallTree

theorem closure_logs (keep : CallTree → Bool) (n m : Nat) (t : CallTree) :
    (t.closure keep n).map Prod.snd = (t.closure keep m).map Prod.snd := by
  induction t generalizing n m with
  | done => rfl
  | step log rest ih => simp only [closure, List.map_cons, ih (n + 1) (m + 1)]
  | enter call body rest ihBody ihRest =>
    simp only [closure, List.map_cons, List.map_append, ihRest (n + 1 + body.size) (m + 1 + body.size)]
    split
    · rw [ihBody (n + 1) (m + 1)]
    · rfl

theorem scope_step (log : StructLog) (rest : CallTree) : (step log rest).scope = log :: rest.scope := by
  unfold scope
  rw [closure, List.map_cons, closure_logs always 1 0]

theorem scope_enter (call : StructLog) (body rest : CallTree) :
    (enter call body rest).scope = call :: ((if call.op.isDelegate then body.scope else []) ++ rest.scope) := by
  unfold scope
  rw [closure, List.map_cons, List.map_append, closure_logs always (0 + 1 + body.size) 0 rest]
  cases call.op.isDelegate with
  | true =>
    rw [closure_logs always 0 (0 + 1) body]
    rfl
  | false => rfl

@[simp] theorem judged_none (t : CallTree) : t.judged none = none := by
  induction t with
  | done => rfl
  | step log rest ih =>
    rw [judged, Option.map_none, ite_self, ih]
  | enter call body rest ihBody ihRest =>
    rw [judged, Option.map_none, ihBody, ite_self, ihRest]

/-- A candidate is judged by its whole scope, in order, unless the scope strands it. -/
theorem judged_some (t : CallTree) (c : Candidate) :
    t.judged (some c) = if t.strands then none else some (t.scope.foldl (fun c log => log.judge c) c) := by
  induction t generalizing c with
  | done => rfl
  | step log rest ih =>
    rw [judged, strands, scope_step, List.foldl_cons]
    cases log.delegates with
    | true => simp
    | false => exact ih (log.judge c)
  | enter call body rest ihBody ihRest =>
    rw [judged, strands, scope_enter, List.foldl_cons, List.foldl_append, Option.map_some]
    cases call.op.isDelegate with
    | true =>
      rw [if_pos rfl, ihBody, if_pos rfl]
      cases body.strands with
      | true => simp
      | false => exact ihRest _
    | false => exact ihRest _

end CallTree

/-! ### Judging a scope -/

/-- How the first effect of a scope decides its candidate. -/
def verdict (first : Option StructLog) : Bump :=
  match first with
  | none => .undecided
  | some log =>
    match log.moved? with
    | some value => .first (U256.predSat value)
    | none => .disqualified

theorem StructLog.judge_unsupportedOp (log : StructLog) (c : Candidate) :
    (log.judge c).unsupportedOp = (c.unsupportedOp || log.unsupported) := by
  unfold StructLog.judge StructLog.unsupported
  cases log.errored with
  | true => simp
  | false =>
    cases op : log.op <;> simp [Candidate.settle, apply_ite Candidate.unsupportedOp]

theorem StructLog.judge_bump (log : StructLog) (c : Candidate) :
    (log.judge c).bump =
      if c.bump = .undecided ∧ log.effects = true then verdict (some log) else c.bump := by
  have settled : ∀ b, (c.settle b).bump = if c.bump = .undecided then b else c.bump := by
    intro b
    unfold Candidate.settle
    split <;> rfl
  unfold StructLog.judge StructLog.effects verdict
  cases errored : log.errored with
  | true => simp
  | false =>
    cases op : log.op with
    | sstore =>
      cases moved : log.moved? with
      | none => simp [settled, moved]
      | some value => simp [settled, moved]
    | call | staticcall | create | create2 | log0 | log1 | log2 | log3 | log4 =>
      have still : log.moved? = none := StructLog.moved?_of_ne (by rw [op]; exact Opcode.noConfusion)
      simp [settled, still, Scan.observable, Opcode.isCreate, Opcode.isLog]
    | _ => simp [Scan.observable, Opcode.isCreate, Opcode.isLog]

theorem judge_scope (logs : List StructLog) (c : Candidate) :
    (logs.foldl (fun c log => log.judge c) c).unsupportedOp =
        (c.unsupportedOp || logs.any StructLog.unsupported) ∧
      (logs.foldl (fun c log => log.judge c) c).bump =
        if c.bump = .undecided then verdict (logs.find? StructLog.effects) else c.bump := by
  induction logs generalizing c with
  | nil =>
    refine ⟨by simp, ?_⟩
    split
    · assumption
    · rfl
  | cons log rest ih =>
    obtain ⟨unsupported, bump⟩ := ih (log.judge c)
    refine ⟨?_, ?_⟩
    · rw [List.foldl_cons, unsupported, log.judge_unsupportedOp, List.any_cons, Bool.or_assoc]
    · rw [List.foldl_cons, bump, log.judge_bump, List.find?_cons]
      have decided : verdict (some log) ≠ .undecided := by
        unfold verdict
        dsimp only
        cases log.moved? <;> simp
      cases log.effects with
      | true =>
        by_cases open' : c.bump = .undecided
        · simp [open', decided]
        · simp [open']
      | false => simp

/-- A stranded scope admits no frame; any other admits the one that qualifies. -/
theorem frameIndex_judged (isNestable : Address → Bool) (n : Nat) (call : StructLog) (body : CallTree) :
    (Eligibility.consumers isNestable).frameIndex (body.judged (some {})) call.callee =
      if body.strands then none else (qualifying isNestable n call body).map U256.predSat := by
  rw [CallTree.judged_some]
  cases body.strands with
  | true => rfl
  | false =>
    obtain ⟨unsupported, bump⟩ := judge_scope body.scope {}
    generalize body.scope.foldl (fun c log => log.judge c) {} = c at unsupported bump
    rw [Bool.false_or] at unsupported
    rw [if_pos rfl] at bump
    rw [if_neg (by simp), if_neg (by simp)]
    unfold Eligibility.frameIndex qualifying CallTree.bump
    rw [← unsupported, Option.filter_some]
    cases c.unsupportedOp with
    | true => cases call.callee.any isNestable <;> rfl
    | false =>
      cases call.callee with
      | none => rfl
      | some callee =>
        cases first : body.scope.find? StructLog.effects with
        | none =>
          rw [first] at bump
          simp [bump, verdict]
        | some log =>
          rw [first] at bump
          unfold verdict at bump
          cases moved : log.moved? with
          | none => simp [bump, moved]
          | some value =>
            cases nestable : isNestable callee <;> simp [bump, moved, nestable]

/-! ### The callees given a frame -/

namespace CallTree

variable {α : Type} {grant grant' : Nat → StructLog → CallTree → Option α}

theorem framed_congr {t : CallTree} {n : Nat} (same : ∀ {j : Nat} {call : StructLog} {body rest : CallTree},
    Opens n t j call body rest → call.op = .call → grant j call body = grant' j call body) :
    t.framed grant n = t.framed grant' n := by
  induction t generalizing n with
  | done => rfl
  | step log rest ih => exact ih fun opens => same (.later opens)
  | enter call body rest ihBody ihRest =>
    rw [framed, framed, ihBody fun opens => same (.inside opens), ihRest fun opens => same (.after opens)]
    by_cases isCall : call.op = .call
    · rw [if_pos isCall, if_pos isCall, same .here isCall]
    · rw [if_neg isCall, if_neg isCall]

/-- A callee with a frame of its own was granted one. -/
theorem opens_of_framed {t : CallTree} {n : Nat} {x : Nat × α} (member : x ∈ t.framed grant n) :
    ∃ call body rest, Opens n t x.1 call body rest ∧ call.op = .call ∧ grant x.1 call body = some x.2 := by
  induction t generalizing n with
  | done => cases member
  | step log rest ih =>
    obtain ⟨call, body, rest', opens, granted⟩ := ih member
    exact ⟨call, body, rest', .later opens, granted⟩
  | enter call body rest ihBody ihRest =>
    rcases List.mem_append.mp member with first | after
    · split at first
      · rename_i isCall
        cases granted : grant n call body with
        | none =>
          rw [granted] at first
          cases first
        | some a =>
          rw [granted] at first
          rcases List.mem_cons.mp first with rfl | inside
          · exact ⟨call, body, rest, .here, isCall, granted⟩
          · obtain ⟨call', body', rest', opens, others⟩ := ihBody inside
            exact ⟨call', body', rest', .inside opens, others⟩
      · split at first
        · obtain ⟨call', body', rest', opens, others⟩ := ihBody first
          exact ⟨call', body', rest', .inside opens, others⟩
        · cases first
    · obtain ⟨call', body', rest', opens, others⟩ := ihRest after
      exact ⟨call', body', rest', .after opens, others⟩

/-- Where no callee that is granted a frame is refused, refusing changes nothing. -/
theorem framed_filter {β : Type} {f : α → β} {refuse : CallTree → Bool} {t : CallTree} {n : Nat}
    (fine : ∀ {j : Nat} {call : StructLog} {body rest : CallTree}, Opens n t j call body rest →
      (∃ a, (j, a) ∈ t.framed grant n) → refuse body = false) :
    t.framed (fun j call body => if refuse body then none else (grant j call body).map f) n =
      (t.framed grant n).map (fun x => (x.1, f x.2)) := by
  induction t generalizing n with
  | done => rfl
  | step log rest ih => exact ih fun opens => fine (.later opens)
  | enter call body rest ihBody ihRest =>
    have later := @ihRest (n + 1 + body.size) fun opens ⟨a, member⟩ =>
      fine (.after opens) ⟨a, List.mem_append_right _ member⟩
    rw [framed, framed, List.map_append, later]
    congr 1
    by_cases isCall : call.op = .call
    · rw [if_pos isCall, if_pos isCall]
      cases granted : grant n call body with
      | none => simp
      | some a =>
        have here : (enter call body rest).framed grant n =
            ((n, a) :: body.framed grant (n + 1)) ++ rest.framed grant (n + 1 + body.size) := by
          rw [framed, if_pos isCall, granted]
        have own : refuse body = false := fine .here ⟨a, by rw [here]; exact List.mem_cons_self⟩
        have inner := @ihBody (n + 1) fun opens ⟨b, member⟩ =>
          fine (.inside opens) ⟨b, by rw [here]; exact List.mem_append_left _ (List.mem_cons_of_mem _ member)⟩
        rw [if_neg (by simp [own]), Option.map_some, List.map_cons]
        exact congrArg _ inner
    · rw [if_neg isCall, if_neg isCall]
      by_cases delegates : call.op.isDelegate = true
      · rw [if_pos delegates, if_pos delegates]
        apply ihBody
        intro j call' body' rest' opens member
        obtain ⟨a, member⟩ := member
        apply fine (.inside opens)
        refine ⟨a, ?_⟩
        rw [framed, if_neg isCall, if_pos delegates]
        exact List.mem_append_left _ member
      · rw [if_neg delegates, if_neg delegates]
        rfl

end CallTree

/-! ### The programs the walk opens -/

variable {H : Hashes} {elig : Eligibility} {candidates : OrdMap Nat Candidate} {n : Nat} {w w' : Walk}

/-- The index the walk gives the callee of step `j`. -/
def granting (elig : Eligibility) (candidates : OrdMap Nat Candidate) (j : Nat) (call : StructLog) (_ : CallTree) :
    Option U256 :=
  elig.frameIndex (candidates.get j) call.callee

/-- The step that opened each program, with the program's index. -/
def Walk.openings (w : Walk) : List (Nat × Option U256) := w.programs.map (fun p => (p.step, p.transitionIndex))

theorem Walk.openings_texts (w : Walk) : w.openings = w.texts.map (fun p => (p.step, p.transitionIndex)) := by
  unfold openings texts
  rw [List.map_map]
  rfl

theorem openings_popFrame {log : StructLog} (popped : popFrame n log w = .ok w') : w'.openings = w.openings := by
  obtain ⟨flag, -, returns⟩ := texts_popFrame popped
  rw [Walk.openings_texts, Walk.openings_texts]
  split at returns
  · obtain ⟨id, p, start, -, -, -, same⟩ := returns
    rw [same]
    apply map_modify
    intro q
    rfl
  · rw [returns]

/-- The programs a walk opens are those its callees are granted. -/
theorem Walked.openings {d : Nat} {t : CallTree} (walked : Walked H elig candidates n t w w') (wf : t.WellFormed d)
    (free : w.pending = none) :
    w'.openings = w.openings ++ if w.top.program.isSome then
      (t.framed (granting elig candidates) n).map (fun x => (x.1, some x.2)) else [] := by
  induction walked generalizing d with
  | done => simp [CallTree.framed]
  | last executed free' =>
    rcases (exec_executed executed).texts with same | ⟨id, p, c, index, -, -, -, -, -, rfl, -⟩
    · rw [Walk.openings_texts, same, ← Walk.openings_texts]
      simp [CallTree.framed]
    · cases free'
  | @step n log next rest w w₁ w₂ w' executed head level entered tail ih =>
    have step := exec_executed executed
    have inline := frames_inline free executed level entered
    have same : w₁.texts = w.texts := by
      rcases step.texts with same | ⟨id, p, c, index, -, -, -, -, -, rfl, -⟩
      · exact same
      · cases plain_inline step free level entered rfl
    rw [ih wf.2.2 inline.free, inline.top.program, Walk.openings_texts w₂, texts_enterPending entered, same,
      ← Walk.openings_texts]
    rfl
  | @enter n call first next body rest pending w w₁ w₂ w₃ w' executed waits head inner resumes popped tail
      ihInner ihTail =>
    obtain ⟨carries, fine, opens, -, innerWf, -, tailWf⟩ := wf
    have step := exec_executed executed
    have ran := inner.frames rfl
    obtain ⟨g, others, flag, -, -, -, pop⟩ := popped_of_frames ran popped
    have program : w₃.top.program = w.top.program :=
      (program_of_frames ran popped).trans step.place.2.program
    have during : w₂.openings = w₁.openings ++ if pending.program.isSome then
        (body.framed (granting elig candidates) (n + 1)).map (fun x => (x.1, some x.2)) else [] :=
      ihInner innerWf rfl
    rw [ihTail tailWf (pop.pending.trans ran.free), program, openings_popFrame popped, during, CallTree.framed]
    cases step.role free waits with
    | delegate kind plain same =>
      have notCall : call.op ≠ .call := by
        intro isCall
        rw [isCall] at kind
        cases kind
      have still : w₁.openings = w.openings := by
        rcases step.texts with texts | ⟨id, p, c, index, isCall, -⟩
        · rw [Walk.openings_texts, texts, ← Walk.openings_texts]
        · exact absurd isCall notCall
      rw [still, same, if_neg notCall, if_pos kind]
      cases w.top.program.isSome <;> simp
    | native kind plain none stays =>
      have still : w₁.openings = w.openings := by
        rcases step.texts with texts | ⟨id, p, c, index, isCall, -, handed, emits, -⟩
        · rw [Walk.openings_texts, texts, ← Walk.openings_texts]
        · rw [stays isCall (by rw [emits]; nofun)] at handed
          cases handed
      rw [still, none]
      cases emits : w.top.program with
      | none => simp
      | some id =>
        have refused : call.op = .call → granting elig candidates n call body = Option.none := by
          intro isCall
          exact stays isCall (by rw [emits]; nofun)
        by_cases isCall : call.op = .call
        · simp [isCall, refused isCall]
        · simp [isCall, kind]
    | own kind isNested emits handed =>
      rcases step.texts with texts | ⟨id, p, c, index, -, -, granted, -, -, rfl, texts⟩
      · rw [step.plain free texts waits] at isNested
        cases isNested
      · have opening : (openNested H n id index c call { w with top := w.sliced n p.target }).openings =
            w.openings ++ [(n, some index)] := by
          rw [Walk.openings_texts, texts, List.map_append, ← Walk.openings_texts]
          rfl
        have isProgram : pending.program.isSome = true := by
          obtain rfl := Option.some.inj waits
          rfl
        have given : granting elig candidates n call body = some index := granted
        rw [opening, isProgram, if_pos kind, given, Option.isSome_iff_ne_none.mpr emits]
        simp

theorem indexBelow_predSat (value : B256) {index : U256} :
    IndexBelow value index ↔ index = U256.predSat value := by
  unfold IndexBelow U256.predSat
  split
  · rfl
  · rw [eq_sub_iff_add_eq]

/-- The programs opened are those of the callees that qualify exactly if no `DELEGATECALL` or `CALLCODE` in the scope of
such a callee opens no frame. -/
theorem eligibility_exact_iff (H : Hashes) (trace : DefaultFrame) (root : Address) (isNestable : Address → Bool)
    (t : CallTree) (candidates : OrdMap Nat Candidate) (rootIndex : Option U256) (last : Walk) (wf : t.WellFormed 1)
    (flat : trace.structLogs = t.flatten) (scanned : scanCandidates trace.structLogs = .ok (candidates, rootIndex))
    (walked : walk H (.consumers isNestable) candidates trace.structLogs 0 (initialWalk root rootIndex) = .ok last) :
    EligibilityExact isNestable t last.programs ↔
      ∀ j call body rest, CallTree.Opens 0 t j call body rest →
        (∃ value, (j, value) ∈ t.framed (qualifying isNestable) 0) → body.strands = false := by
  rw [flat] at scanned walked
  have small : t.size < 2 ^ 63 := by
    have bounded := trace.bounded
    rwa [flat, CallTree.length_flatten] at bounded
  obtain ⟨-, judged⟩ := scanCandidates_scopes wf small scanned
  have opened := (walked_of_trace wf walked).openings wf rfl
  have actual : t.framed (granting (.consumers isNestable) candidates) 0 =
      t.framed (fun j call body =>
        if body.strands then none else (qualifying isNestable j call body).map U256.predSat) 0 := by
    apply CallTree.framed_congr
    intro j call body rest opens isCall
    unfold granting
    rw [judged opens isCall]
    exact frameIndex_judged isNestable j call body
  have programs : last.programs.tail.map (fun p => (p.step, p.transitionIndex)) =
      (t.framed (fun j call body =>
        if body.strands then none else (qualifying isNestable j call body).map U256.predSat) 0).map
        (fun x => (x.1, some x.2)) := by
    rw [← actual, List.map_tail]
    show last.openings.tail = _
    rw [opened]
    rfl
  constructor
  · -- A stranded callee that qualifies is missing among the programs.
    intro exact' j call body rest opens member
    obtain ⟨value, member⟩ := member
    have steps : last.programs.tail.map ProgramState.step =
        (t.framed (qualifying isNestable) 0).map Prod.fst := by
      have same : List.Forall₂ Eq ((t.framed (qualifying isNestable) 0).map Prod.fst)
          (last.programs.tail.map ProgramState.step) :=
        List.forall₂_map_right_iff.mpr (List.forall₂_map_left_iff.mpr (exact'.imp fun x p both => both.1.symm))
      rw [List.forall₂_eq_eq_eq] at same
      exact same.symm
    have here : j ∈ (last.programs.tail.map (fun p => (p.step, p.transitionIndex))).map Prod.fst := by
      rw [List.map_map]
      show j ∈ last.programs.tail.map ProgramState.step
      rw [steps]
      exact List.mem_map.mpr ⟨_, member, rfl⟩
    rw [programs, List.map_map] at here
    obtain ⟨x, inside, rfl⟩ := List.mem_map.mp here
    obtain ⟨call', body', rest', opens', -, granted⟩ := CallTree.opens_of_framed inside
    obtain ⟨-, rfl, -⟩ := opens.unique opens'
    by_contra stranded
    rw [if_pos (by simpa using stranded)] at granted
    cases granted
  · intro fine
    rw [CallTree.framed_filter (fun opens member => fine _ _ _ _ opens member), List.map_map] at programs
    have same := programs.symm
    rw [← List.forall₂_eq_eq_eq, List.forall₂_map_left_iff, List.forall₂_map_right_iff] at same
    refine same.imp ?_
    intro x p equal
    obtain ⟨step, index⟩ := Prod.mk.inj equal
    exact ⟨step.symm, _, index.symm, (indexBelow_predSat x.2).mpr rfl⟩

theorem eligibility_exact_delegatedMove : ∃ candidates rootIndex last,
    scanCandidates (delegatedMoveTrace 1).structLogs = .ok (candidates, rootIndex) ∧
      walk ⟨fun _ => 0, fun _ => 0⟩ (.consumers fun _ => true) candidates (delegatedMoveTrace 1).structLogs 0
        (initialWalk 9 rootIndex) = .ok last ∧ EligibilityExact (fun _ => true) (delegatedMove 1) last.programs := by
  obtain ⟨tree, answer, -⟩ := delegatedMove_split 1 (Or.inr rfl)
  obtain ⟨run⟩ := splitFrameTree_run answer
  refine ⟨run.candidates, run.rootIndex, run.last, run.scanned, run.walked, ?_⟩
  refine (eligibility_exact_iff ⟨fun _ => 0, fun _ => 0⟩ (delegatedMoveTrace 1) 9 (fun _ => true) (delegatedMove 1)
    run.candidates run.rootIndex run.last (delegatedMove_wellFormed 1) rfl run.scanned run.walked).mpr ?_
  intro j call body rest opens _
  cases opens with
  | here => rfl
  | inside opens =>
    cases opens with
    | here => rfl
    | inside opens | after opens =>
      cases opens with
      | later opens => cases opens
  | after opens =>
    cases opens with
    | later opens => cases opens

/-- A consumer that delegates to an account without code, then increments its counter. -/
def strandedMove : CallTree :=
  .enter { op := .call, gas := 1000000, stack := some [0, 0, 0, 0, 0, 7, 0] }
    (.step { op := .delegatecall, gas := 900000, depth := 2, stack := some [0, 0, 0, 0, 8, 0] }
      (.step { op := .sstore, gas := 800000, depth := 2, stack := some [1, 5, stateTrackerSlot] }
        (.step { op := .other "STOP", gas := 700000, depth := 2, stack := some [1] } .done)))
    (.step { op := .other "STOP", gas := 500000, stack := some [1] } .done)

def strandedMoveTrace : DefaultFrame where
  structLogs := strandedMove.flatten
  bounded := by simp [strandedMove, CallTree.flatten]

/-- The counter is the consumer's only effect, and the walk opens no program for it. -/
theorem stranded_callee_not_admitted : strandedMove.WellFormed 1 ∧
    strandedMove.framed (qualifying fun _ => true) 0 = [(0, 5)] ∧
    ∃ candidates rootIndex last, scanCandidates strandedMoveTrace.structLogs = .ok (candidates, rootIndex) ∧
      walk ⟨fun _ => 0, fun _ => 0⟩ (.consumers fun _ => true) candidates strandedMoveTrace.structLogs 0
        (initialWalk 9 rootIndex) = .ok last ∧ ¬EligibilityExact (fun _ => true) strandedMove last.programs := by
  have framed : strandedMove.framed (qualifying fun _ => true) 0 = [(0, 5)] := by decide +kernel
  refine ⟨?_, framed, ?_⟩
  · refine ⟨⟨rfl, rfl, rfl⟩, rfl, rfl, rfl, ?_, rfl, ⟨rfl, rfl, rfl⟩, ?_, trivial⟩
    · refine ⟨⟨rfl, rfl, rfl⟩, fun _ _ => rfl, ⟨rfl, rfl, rfl⟩, ?_, ⟨rfl, rfl, rfl⟩, ?_, trivial⟩
      · intro _ opens
        cases opens
      · intro _ opens
        cases opens
    · intro _ opens
      cases opens
  · have shape : (splitFrameTree ⟨fun _ => 0, fun _ => 0⟩ strandedMoveTrace 9 (.consumers fun _ => true)
        nestingCostModelV1).toOption.isSome = true := by
      decide +kernel
    obtain ⟨tree, answer⟩ := Outcome.isSome_ok shape
    obtain ⟨run⟩ := splitFrameTree_run answer
    have alone : (scanCandidates strandedMoveTrace.structLogs >>= fun r =>
        walk ⟨fun _ => 0, fun _ => 0⟩ (.consumers fun _ => true) r.1 strandedMoveTrace.structLogs 0
          (initialWalk 9 r.2)).toOption.any (fun last => last.programs.length == 1) = true := by
      decide +kernel
    refine ⟨run.candidates, run.rootIndex, run.last, run.scanned, run.walked, ?_⟩
    intro exact'
    have lengths := exact'.length_eq
    have one : run.last.programs.length = 1 := by
      rw [run.scanned, Outcome.ok_bind, run.walked] at alone
      exact beq_iff_eq.mp alone
    rw [framed, List.length_tail, one] at lengths
    cases lengths

end GasAnalyzer
