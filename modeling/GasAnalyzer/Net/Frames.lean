import GasAnalyzer.Net.Canonical

/-!
# The call frame of an execution

The scan over a call frame rules out every `CALL` and `CREATE` made in the consumer's name. The logs collected from it,
interleaved by position and then sorted by index, are the events the execution emitted, in order.
-/

namespace GasAnalyzer

variable {client : Client} {n : Nat} {t : CallTree}

/-! ### The scan -/

theorem scanCalls_cons {c : CallFrame} {rest : List CallFrame} (none : scanCalls (c :: rest) = none) :
    (c.typ = .staticcall ∨ (c.typ = .delegatecall ∨ c.typ = .callcode) ∧ scanTargetDepth c = Option.none) ∧
      scanCalls rest = Option.none := by
  rw [scanCalls] at none
  cases typ : c.typ with
  | staticcall =>
    rw [typ] at none
    exact ⟨Or.inl rfl, none⟩
  | delegatecall =>
    rw [typ] at none
    cases inner : scanTargetDepth c with
    | none =>
      rw [inner] at none
      exact ⟨Or.inr ⟨Or.inl rfl, rfl⟩, none⟩
    | some reason =>
      rw [inner] at none
      cases none
  | callcode =>
    rw [typ] at none
    cases inner : scanTargetDepth c with
    | none =>
      rw [inner] at none
      exact ⟨Or.inr ⟨Or.inr rfl, rfl⟩, none⟩
    | some reason =>
      rw [inner] at none
      cases none
  | call | create | create2 | selfdestruct | other =>
    rw [typ] at none
    cases none

theorem ofOpcode_cases {op : Opcode} (typ : FrameType.ofOpcode op = .staticcall ∨
    FrameType.ofOpcode op = .delegatecall ∨ FrameType.ofOpcode op = .callcode) :
    op = .staticcall ∨ op.isDelegate = true := by
  cases op <;> simp_all [FrameType.ofOpcode, Opcode.isDelegate]

theorem StructLog.plain_of_scan {log : StructLog}
    (kind : log.shown = true → log.op = .staticcall ∨ log.op.isDelegate = true) : log.Plain := by
  intro fine
  have shown : log.op.opensFrame = true → log.shown = true := by
    intro opens
    rw [StructLog.shown, opens, fine]
    rfl
  cases op : log.op <;> simp_all [Opcode.opensFrame, Opcode.isDelegate, Opcode.isCreate]

/-- A frame the scan lets pass is plain. -/
theorem plain_of_scan {lost : Bool} {d : Nat} (wf : t.WellFormed d)
    (none : scanCalls (t.callFrames client lost n) = none) : t.Plain := by
  induction t generalizing lost d n with
  | done => exact trivial
  | step log rest ih =>
    rw [CallTree.callFrames] at none
    by_cases shown : log.shown = true
    · rw [if_pos shown] at none
      obtain ⟨first, later⟩ := scanCalls_cons none
      refine ⟨StructLog.plain_of_scan fun _ => ofOpcode_cases ?_, ih wf.2.2 later⟩
      exact first.imp_right And.left
    · rw [if_neg shown] at none
      exact ⟨StructLog.plain_of_scan fun is => absurd is shown, ih wf.2.2 none⟩
  | enter call body rest ihBody ihRest =>
    obtain ⟨-, fine, opens, -, innerWf, -, tailWf⟩ := wf
    rw [CallTree.callFrames] at none
    obtain ⟨first, later⟩ := scanCalls_cons none
    have kind := ofOpcode_cases (first.imp_right And.left)
    refine ⟨StructLog.plain_of_scan fun _ => kind, ?_, ihRest tailWf later⟩
    intro delegates
    rcases first with static | ⟨-, inner⟩
    · exfalso
      change FrameType.ofOpcode call.op = .staticcall at static
      cases op : call.op <;> simp_all [FrameType.ofOpcode, Opcode.isDelegate]
    · exact ihBody innerWf inner

/-! ### Positions -/

theorem place_logFrame {position : Nat} (small : position < 2 ^ 64) (n : Nat) (log : StructLog) :
    (client.logFrame position n log).place = position := by
  show (UInt64.ofNat position).toNat = position
  rw [UInt64.toNat_ofNat']
  exact Nat.mod_eq_of_lt small

/-- Later logs stand at the same position or a later one. -/
theorem le_place_frameLogs {position : Nat} (small : position + t.size < 2 ^ 64) :
    ∀ l ∈ t.frameLogs client position n, position ≤ l.place := by
  induction t generalizing position n with
  | done =>
    intro l member
    cases member
  | step log rest ih =>
    rw [CallTree.size] at small
    intro l member
    rcases List.mem_append.mp member with here | later
    · split at here
      · obtain rfl := List.mem_singleton.mp here
        exact Nat.le_of_eq (place_logFrame (by omega) n log).symm
      · cases here
    · split at later
      · have := ih (by omega) l later
        omega
      · exact ih (by omega) l later
  | enter call body rest ihBody ihRest =>
    rw [CallTree.size] at small
    intro l member
    have := ihRest (by omega) l member
    omega

theorem sorted_frameLogs {position : Nat} (small : position + t.size < 2 ^ 64) :
    (t.frameLogs client position n).Pairwise (fun a b => a.place ≤ b.place) := by
  induction t generalizing position n with
  | done => exact List.Pairwise.nil
  | step log rest ih =>
    rw [CallTree.size] at small
    have later : (rest.frameLogs client (if log.shown then position + 1 else position) (n + 1)).Pairwise
        (fun a b => a.place ≤ b.place) := ih (by split <;> omega)
    have bound : ∀ l ∈ rest.frameLogs client (if log.shown then position + 1 else position) (n + 1),
        position ≤ l.place := by
      intro l member
      have := le_place_frameLogs (by split <;> omega) l member
      split at this <;> omega
    rw [CallTree.frameLogs]
    split
    · rw [List.singleton_append, List.pairwise_cons]
      refine ⟨?_, later⟩
      intro l member
      rw [place_logFrame (by omega) n log]
      exact bound l member
    · exact later
  | enter call body rest ihBody ihRest =>
    rw [CallTree.size] at small
    exact ihRest (by omega)

/-! ### Collecting -/

/-- What a log frame says: the operation that emits it, and its index. -/
def CallLogFrame.report (l : CallLogFrame) : StateUpdate × Option UInt64 := (logToUpdate l, l.index)

/-- The same for the events of a frame and its delegate frames. -/
def CallTree.reports (client : Client) (n : Nat) (t : CallTree) : List (StateUpdate × Option UInt64) :=
  (t.emissions n).map (fun p => (p.2.event.update, client.index p.1))

/-- A log that stands no later than the next call comes first. -/
theorem collectCalls_cons {l : CallLogFrame} {index : Nat} (early : l.place ≤ index) (logs : List CallLogFrame)
    (calls : List CallFrame) : collectCalls (l :: logs) index calls = l :: collectCalls logs index calls := by
  cases calls with
  | nil => rfl
  | cons c rest =>
    rw [collectCalls, collectCalls, List.takeWhile_cons, List.dropWhile_cons]
    simp [early]

/-- Logs that stand after a call come after what is collected from it. -/
theorem collectCalls_late {logs : List CallLogFrame} {index : Nat} (late : ∀ l ∈ logs, index + 1 ≤ l.place)
    (c : CallFrame) (rest : List CallFrame) :
    collectCalls logs index (c :: rest) =
      (if (c.typ = .delegatecall || c.typ = .callcode) && (frameFailure c).isNone then collectTargetDepthLogs c
        else []) ++ collectCalls logs (index + 1) rest := by
  have none : ∀ l ∈ logs, decide (l.place ≤ index) = false := by
    intro l member
    have := late l member
    simp only [decide_eq_false_iff_not]
    omega
  have skipped : logs.takeWhile (fun l => l.place ≤ index) = [] := by
    cases logs with
    | nil => rfl
    | cons l more => rw [List.takeWhile_cons, none l List.mem_cons_self, if_neg Bool.false_ne_true]
  have kept : logs.dropWhile (fun l => l.place ≤ index) = logs := by
    cases logs with
    | nil => rfl
    | cons l more => rw [List.dropWhile_cons, none l List.mem_cons_self, if_neg Bool.false_ne_true]
  rw [collectCalls, skipped, kept, List.nil_append]

theorem frameFailure_frame (name : Option Nat) (typ : FrameType) (toAddr : Option Address) (failed : Bool)
    (logs : List CallLogFrame) (calls : List CallFrame) :
    (frameFailure (client.frame name typ toAddr failed logs calls)).isNone = !failed := by
  cases failed with
  | false => rfl
  | true =>
    show ((client.error name).or (client.revertReason name)).isNone = false
    rw [← Option.not_isSome, client.tells name]
    rfl

theorem delegates_ofOpcode (op : Opcode) :
    (decide (FrameType.ofOpcode op = .delegatecall) || decide (FrameType.ofOpcode op = .callcode)) = op.isDelegate := by
  cases op <;> rfl

/-- What is collected from a frame is what the execution emitted in it. -/
theorem report_collectCalls {d position : Nat} (wf : t.WellFormed d) (small : position + t.size < 2 ^ 64) :
    (collectCalls (t.frameLogs client position n) position (t.callFrames client false n)).map CallLogFrame.report =
      t.reports client n := by
  induction t generalizing d position n with
  | done => rfl
  | step log rest ih =>
    rw [CallTree.size] at small
    rw [CallTree.frameLogs, CallTree.callFrames, CallTree.reports, CallTree.emissions_step, List.map_append]
    by_cases emits : log.emits = true
    · have hidden : log.shown = false := by
        obtain ⟨kind, -⟩ := Bool.and_eq_true_iff.mp emits
        unfold StructLog.shown
        cases op : log.op <;> simp_all [Opcode.isLog, Opcode.opensFrame]
      rw [if_pos emits, if_pos emits, hidden, if_neg Bool.false_ne_true, if_neg Bool.false_ne_true, List.singleton_append,
        List.nil_append, collectCalls_cons (Nat.le_of_eq (place_logFrame (by omega) n log)), List.map_cons,
        ih wf.2.2 (by omega)]
      rfl
    · rw [if_neg emits, if_neg emits, List.nil_append, List.map_nil, List.nil_append]
      by_cases shown : log.shown = true
      · -- A call that opened no frame has no logs.
        rw [if_pos shown, if_pos shown, List.singleton_append,
          collectCalls_late (fun l member => le_place_frameLogs (by omega) l member), List.map_append,
          ih wf.2.2 (by omega)]
        have nothing : collectTargetDepthLogs (client.frame (some n) (.ofOpcode log.op) (CallTree.frameTo log rest)
            (log.op.opensFrame && !rest.succeeds) [] []) = [] := by
          show collectCalls (([] : List CallLogFrame).mergeSort _) 0 [] = []
          rw [List.mergeSort_nil]
          rfl
        rw [nothing]
        split <;> rfl
      · rw [if_neg shown, if_neg shown, List.nil_append]
        exact ih wf.2.2 (by omega)
  | enter call body rest ihBody ihRest =>
    obtain ⟨-, fine, opens, -, innerWf, -, tailWf⟩ := wf
    rw [CallTree.size] at small
    rw [CallTree.frameLogs, CallTree.callFrames, CallTree.reports, CallTree.emissions_enter n body rest opens,
      collectCalls_late (fun l member => le_place_frameLogs (by omega) l member), List.map_append,
      ihRest tailWf (by omega), frameFailure_frame]
    show List.map _ (if (decide (FrameType.ofOpcode call.op = .delegatecall) ||
      decide (FrameType.ofOpcode call.op = .callcode)) && _ then _ else _) ++ _ = _
    rw [delegates_ofOpcode, Bool.not_not]
    split
    · rename_i both
      have success := (Bool.and_eq_true_iff.mp both).2
      rw [success, Bool.not_true, Bool.or_false, Bool.and_false, if_neg Bool.false_ne_true]
      show List.map _ (collectCalls ((body.frameLogs client 0 (n + 1)).mergeSort _) 0 _) ++ _ = _
      have sorted : (body.frameLogs client 0 (n + 1)).Pairwise (fun a b => a.place ≤ b.place) :=
        sorted_frameLogs (by omega)
      rw [List.mergeSort_of_pairwise (by simpa using sorted), ihBody innerWf (by omega)]
      exact List.map_append.symm
    · rfl

end GasAnalyzer
