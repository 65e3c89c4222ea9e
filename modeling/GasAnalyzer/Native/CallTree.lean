import GasAnalyzer.Effects.Positions

/-!
# Well-formed traces

A well-formed struct-log list is the flattening of an EVM call tree: a call step opens a frame whose steps
stand one deeper, and the step that resumes the caller carries the outcome on top of its stack.
-/

namespace GasAnalyzer

/-- The steps of a frame, with those of the frames it opens below the call steps that open them. -/
inductive CallTree where
  | done
  | step (log : StructLog) (rest : CallTree)
  | enter (call : StructLog) (body rest : CallTree)

namespace CallTree

def flatten : CallTree → List StructLog
  | done => []
  | step log rest => log :: rest.flatten
  | enter call body rest => call :: (body.flatten ++ rest.flatten)

def size : CallTree → Nat
  | done => 0
  | step _ rest => rest.size + 1
  | enter _ body rest => body.size + rest.size + 1

def head? : CallTree → Option StructLog
  | done => none
  | step log _ => some log
  | enter call _ _ => some call

/-- The outcome a caller finds when it resumes with `t`. -/
def outcome (t : CallTree) : Option U256 := t.head?.bind StructLog.flag

/-- Whether the frame that `t` resumes from succeeded. -/
def succeeds (t : CallTree) : Bool := t.outcome.any (· ≠ 0)

/-- A step of a frame at depth `d`, with its stack and memory. -/
structure Carries (d : Nat) (log : StructLog) : Prop where
  depth : log.depth.toNat = d
  stack : log.stack.isSome = true
  memory : log.memory.isSome = true

def WellFormed : Nat → CallTree → Prop
  | _, done => True
  | d, step log rest =>
    Carries d log ∧ (log.errored = false → log.op.opensFrame = true → rest.outcome.isSome = true) ∧
      rest.WellFormed d
  | d, enter call body rest =>
    Carries d call ∧ call.errored = false ∧ call.op.opensFrame = true ∧ body.head?.isSome = true ∧
      body.WellFormed (d + 1) ∧ rest.outcome.isSome = true ∧ rest.WellFormed d

@[simp] theorem length_flatten (t : CallTree) : t.flatten.length = t.size := by
  induction t with
  | done => rfl
  | step log rest ih => simp [flatten, size, ih]
  | enter call body rest ihBody ihRest => simp [flatten, size, ihBody, ihRest]

theorem head?_flatten (t : CallTree) : t.flatten.head? = t.head? := by
  cases t <;> rfl

theorem head?_of_outcome {t : CallTree} (resumes : t.outcome.isSome = true) :
    ∃ next flag, t.head? = some next ∧ next.flag = some flag := by
  obtain ⟨flag, outcome⟩ := Option.isSome_iff_exists.mp resumes
  obtain ⟨next, head, flagged⟩ := Option.bind_eq_some_iff.mp outcome
  exact ⟨next, flag, head, flagged⟩

theorem WellFormed.head {d : Nat} {t : CallTree} (wf : t.WellFormed d) {log : StructLog}
    (head : t.head? = some log) : Carries d log := by
  cases t with
  | done => cases head
  | step log' rest =>
    obtain rfl := Option.some.inj head
    exact wf.1
  | enter call body rest =>
    obtain rfl := Option.some.inj head
    exact wf.1

/-- Every step of a frame at depth `d` stands at `d` or deeper. -/
theorem WellFormed.deep {d : Nat} {t : CallTree} (wf : t.WellFormed d) :
    ∀ log ∈ t.flatten, d ≤ log.depth.toNat := by
  induction t generalizing d with
  | done => intro log member; cases member
  | step log rest ih =>
    obtain ⟨carries, -, tail⟩ := wf
    intro log' member
    rcases List.mem_cons.mp member with rfl | later
    · exact Nat.le_of_eq carries.depth.symm
    · exact ih tail log' later
  | enter call body rest ihBody ihRest =>
    obtain ⟨carries, -, -, -, inner, -, tail⟩ := wf
    intro log' member
    rcases List.mem_cons.mp member with rfl | later
    · exact Nat.le_of_eq carries.depth.symm
    · rcases List.mem_append.mp later with inside | after
      · exact Nat.le_of_succ_le (ihBody inner log' inside)
      · exact ihRest tail log' after

/-! ### Frames of a tree -/

theorem succeeds_of_flag {t : CallTree} {next : StructLog} {flag : U256} (head : t.head? = some next)
    (flagged : next.flag = some flag) : t.succeeds = decide (flag ≠ 0) := by
  simp [succeeds, outcome, head, flagged]

theorem succeeds_deployed {t : CallTree} {next : StructLog} (success : t.succeeds = true)
    (head : t.head? = some next) : next.deployedNothing = false := by
  unfold succeeds outcome at success
  rw [head] at success
  unfold StructLog.deployedNothing
  change (next.stack.bind List.getLast?).any _ = true at success
  cases found : next.stack.bind List.getLast? with
  | none => rw [found] at success; cases success
  | some address =>
    rw [found] at success
    simpa using success

theorem succeeds_of_deployed {t : CallTree} {next : StructLog} (head : t.head? = some next)
    (deployed : next.deployedNothing = false) : t.succeeds = true := by
  unfold succeeds outcome
  rw [head]
  show (next.stack.bind List.getLast?).any _ = true
  unfold StructLog.deployedNothing at deployed
  cases found : next.stack.bind List.getLast? with
  | none => rw [found] at deployed; cases deployed
  | some address =>
    rw [found] at deployed
    simpa using deployed

/-- In `t`, whose first step is step `n`, step `j` is the call that opens `body`; `rest` resumes from it. -/
inductive Opens : Nat → CallTree → Nat → StructLog → CallTree → CallTree → Prop where
  | here {n : Nat} {call : StructLog} {body rest : CallTree} : Opens n (.enter call body rest) n call body rest
  | later {n j : Nat} {log call : StructLog} {t body rest : CallTree} (opens : Opens (n + 1) t j call body rest) :
      Opens n (.step log t) j call body rest
  | inside {n j : Nat} {outer call : StructLog} {t t' body rest : CallTree}
      (opens : Opens (n + 1) t j call body rest) : Opens n (.enter outer t t') j call body rest
  | after {n j : Nat} {outer call : StructLog} {t t' body rest : CallTree}
      (opens : Opens (n + 1 + t.size) t' j call body rest) : Opens n (.enter outer t t') j call body rest

theorem Opens.bounds {n j : Nat} {t body rest : CallTree} {call : StructLog}
    (opens : Opens n t j call body rest) : n ≤ j ∧ j < n + t.size := by
  induction opens with
  | here => simp [size]
  | later _ ih => simp only [size]; omega
  | inside _ ih => simp only [size]; omega
  | after _ ih => simp only [size]; omega

/-- A step opens at most one frame. -/
theorem Opens.unique {n j : Nat} {t body rest body' rest' : CallTree} {call call' : StructLog}
    (first : Opens n t j call body rest) (second : Opens n t j call' body' rest') :
    call = call' ∧ body = body' ∧ rest = rest' := by
  induction first with
  | here =>
    cases second with
    | here => exact ⟨rfl, rfl, rfl⟩
    | inside second =>
      have := second.bounds
      omega
    | after second =>
      have := second.bounds
      omega
  | later _ ih =>
    cases second with
    | later second => exact ih second
  | inside first ih =>
    cases second with
    | here =>
      have := first.bounds
      omega
    | inside second => exact ih second
    | after second =>
      have := first.bounds
      have := second.bounds
      omega
  | after first ih =>
    cases second with
    | here =>
      have := first.bounds
      omega
    | inside second =>
      have := first.bounds
      have := second.bounds
      omega
    | after second => exact ih second

theorem Opens.wellFormed {n j : Nat} {t body rest : CallTree} {call : StructLog}
    (opens : Opens n t j call body rest) {d : Nat} (wf : t.WellFormed d) :
    ∃ d', (CallTree.enter call body rest).WellFormed d' := by
  induction opens generalizing d with
  | here => exact ⟨d, wf⟩
  | later _ ih => exact ih wf.2.2
  | inside _ ih => exact ih wf.2.2.2.2.1
  | after _ ih => exact ih wf.2.2.2.2.2.2

/-! ### Parts of a trace -/

section

variable {logs tail : List StructLog} {n : Nat} {log call : StructLog} {t body rest : CallTree}

theorem drop_flatten (flat : logs = t.flatten) : logs.drop 0 = t.flatten ++ [] := by
  rw [flat, List.drop_zero, List.append_nil]

theorem at_head (here : logs.drop n = t.flatten ++ tail) (head : t.head? = some log) : logs[n]? = some log := by
  obtain ⟨more, flat⟩ := List.head?_eq_some_iff.mp ((head?_flatten t).trans head)
  rw [← Nat.add_zero n, ← List.getElem?_drop, here, flat]
  rfl

theorem drop_step (here : logs.drop n = (step log rest).flatten ++ tail) :
    logs.drop (n + 1) = rest.flatten ++ tail := by
  rw [← List.drop_drop, here]
  rfl

theorem drop_body (here : logs.drop n = (enter call body rest).flatten ++ tail) :
    logs.drop (n + 1) = body.flatten ++ (rest.flatten ++ tail) := by
  rw [← List.drop_drop, here, ← List.append_assoc]
  rfl

theorem drop_rest (here : logs.drop n = (enter call body rest).flatten ++ tail) :
    logs.drop (n + 1 + body.size) = rest.flatten ++ tail := by
  rw [← List.drop_drop, drop_body here, ← length_flatten, List.drop_left]

end

/-- The part of the trace from the call on. -/
theorem Opens.suffix {n j : Nat} {t body rest : CallTree} {call : StructLog}
    (opens : Opens n t j call body rest) {logs tail : List StructLog} (here : logs.drop n = t.flatten ++ tail) :
    ∃ tail', logs.drop j = (enter call body rest).flatten ++ tail' := by
  induction opens generalizing tail with
  | here => exact ⟨tail, here⟩
  | later _ ih => exact ih (drop_step here)
  | inside _ ih => exact ih (drop_body here)
  | after _ ih => exact ih (drop_rest here)

end CallTree

/-! ### Outcomes by position -/

/-- The step that resumes the frame of step `i`: the first later one that is no deeper. -/
def resumeOf (logs : List StructLog) (i : Nat) : Option StructLog := do
  let log ← logs[i]?
  (logs.drop (i + 1)).find? (fun later => later.depth ≤ log.depth)

/-- The call of step `i` succeeded: its caller resumes with a nonzero flag. -/
def Succeeded (logs : List StructLog) (i : Nat) : Prop :=
  ∃ flag, (resumeOf logs i).bind StructLog.flag = some flag ∧ flag ≠ 0

/-- The frame's end is the first step that is no deeper than its call. -/
theorem resumeOf_enter {logs tail : List StructLog} {j d : Nat} {call : StructLog} {body rest : CallTree}
    (here : logs.drop j = (CallTree.enter call body rest).flatten ++ tail)
    (wf : (CallTree.enter call body rest).WellFormed d) : resumeOf logs j = rest.head? := by
  obtain ⟨carries, -, -, -, inner, resumes, tailWf⟩ := wf
  obtain ⟨next, flag, head, -⟩ := CallTree.head?_of_outcome resumes
  have found := CallTree.at_head here rfl
  have deeper : body.flatten.find? (fun later => later.depth ≤ call.depth) = none := by
    rw [List.find?_eq_none]
    intro log member
    have deep := inner.deep log member
    simp only [decide_eq_true_eq, UInt64.not_le]
    apply UInt64.lt_iff_toNat_lt.mpr
    rw [carries.depth]
    exact deep
  obtain ⟨more, flat⟩ := List.head?_eq_some_iff.mp ((CallTree.head?_flatten rest).trans head)
  have back : next.depth ≤ call.depth := by
    apply UInt64.le_iff_toNat_le.mpr
    rw [(tailWf.head head).depth, carries.depth]
  unfold resumeOf
  simp [found, CallTree.drop_body here, deeper, flat, back, head]

/-- A call that opens no frame resumes at the next step. -/
theorem resumeOf_step {logs tail : List StructLog} {j d : Nat} {log : StructLog} {rest : CallTree}
    (here : logs.drop j = (CallTree.step log rest).flatten ++ tail) (wf : (CallTree.step log rest).WellFormed d)
    (resumes : rest.outcome.isSome = true) : resumeOf logs j = rest.head? := by
  obtain ⟨carries, -, tailWf⟩ := wf
  obtain ⟨next, flag, head, -⟩ := CallTree.head?_of_outcome resumes
  have found := CallTree.at_head here rfl
  obtain ⟨more, flat⟩ := List.head?_eq_some_iff.mp ((CallTree.head?_flatten rest).trans head)
  have back : next.depth ≤ log.depth := by
    apply UInt64.le_iff_toNat_le.mpr
    rw [(tailWf.head head).depth, carries.depth]
  unfold resumeOf
  simp [found, CallTree.drop_step here, flat, back, head]

end GasAnalyzer
