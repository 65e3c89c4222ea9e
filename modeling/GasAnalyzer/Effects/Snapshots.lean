import GasAnalyzer.Effects.Memory
import GasAnalyzer.Library.Comparing
import GasAnalyzer.Safety.Extraction

/-!
# Empty memory snapshots

A step that reads no memory may carry an empty snapshot or none. The canonical extractor never tells the
two apart; the legacy one does exactly on the stores it decodes.
-/

namespace GasAnalyzer

open Outcome

def StructLog.withSnapshot (log : StructLog) : StructLog := { log with memory := some [] }

/-- The trace with an empty memory snapshot on step `k`. -/
def DefaultFrame.withSnapshot (trace : DefaultFrame) (k : Nat) : DefaultFrame :=
  { trace with
    structLogs := trace.structLogs.modify k StructLog.withSnapshot
    bounded := by rw [List.length_modify]; exact trace.bounded }

variable {logs : List StructLog}

theorem exitCalls_withSnapshot (l : StructLog) (calls : List (UInt64 × Nat)) (s : Extracting) :
    Extracting.exitCalls l.withSnapshot calls s = Extracting.exitCalls l calls s := by
  induction calls generalizing s with
  | nil => rfl
  | cons call rest ih =>
    unfold Extracting.exitCalls
    simp only [ih]
    rfl

namespace Extracting

open Outcome

variable {origin : Option Address} {logs : List StructLog} {n : Nat} {log : StructLog} {s s' : Extracting}

/-! ### A program that is one op longer -/

def later (c : UInt64 × Nat) : UInt64 × Nat := (c.1, c.2 + 1)

theorem later_mono : StrictMono (fun i : Nat => i + 1) := fun _ _ lt => Nat.succ_lt_succ lt

/-- `s'` has one op more than `s`, so that its calls have the next index. -/
structure Ahead (s s' : Extracting) : Prop where
  count : s'.ops.length = s.ops.length + 1
  target : s'.targetDepth = s.targetDepth
  calls : s'.callStack = s.callStack.map later
  tracking : s'.callGasTracking = s.callGasTracking.mapKeys _ later_mono
  awaiting : s'.awaitingEntry = s.awaitingEntry.map later
  create : s'.pendingCreate = s.pendingCreate

theorem Ahead.noteEntry (ahead : Ahead s s') (log : StructLog) : Ahead (s.noteEntry log) (s'.noteEntry log) := by
  unfold Extracting.noteEntry
  rw [ahead.awaiting]
  cases s.awaitingEntry with
  | none => exact ahead
  | some entry =>
    have tracked : s'.callGasTracking.get (later entry).2 = s.callGasTracking.get entry.2 := by
      rw [ahead.tracking]
      exact OrdMap.get_mapKeys later_mono _ _
    simp only [Option.map_some, later] at tracked ⊢
    rw [tracked]
    split
    · cases s.callGasTracking.get entry.2 with
      | none => exact ⟨ahead.count, ahead.target, ahead.calls, ahead.tracking, rfl, ahead.create⟩
      | some call =>
        refine ⟨ahead.count, ahead.target, ahead.calls, ?_, rfl, ahead.create⟩
        show s'.callGasTracking.insert (entry.2 + 1) _ = _
        rw [ahead.tracking]
        exact OrdMap.insert_mapKeys later_mono _ _ _
    · exact ⟨ahead.count, ahead.target, ahead.calls, ahead.tracking, rfl, ahead.create⟩

theorem Ahead.settleCreate (ahead : Ahead s s') (log : StructLog) :
    Alike Ahead (s.settleCreate log) (s'.settleCreate log) := by
  unfold Extracting.settleCreate
  rw [ahead.create]
  cases s.pendingCreate with
  | none => exact ahead
  | some create =>
    dsimp only
    split
    · split
      · exact rfl
      · exact ⟨ahead.count, ahead.target, ahead.calls, ahead.tracking, ahead.awaiting, rfl⟩
    · exact ahead

theorem Ahead.exitCalls (log : StructLog) : ∀ (calls : List (UInt64 × Nat)) {s s' : Extracting}, Ahead s s' →
    Ahead (exitCalls log calls s) (exitCalls log (calls.map later) s') := by
  intro calls
  induction calls with
  | nil =>
    intro s s' ahead
    exact ⟨ahead.count, ahead.target, rfl, ahead.tracking, ahead.awaiting, ahead.create⟩
  | cons call rest ih =>
    intro s s' ahead
    have tracked : s'.callGasTracking.get (call.2 + 1) = s.callGasTracking.get call.2 := by
      rw [ahead.tracking]
      exact OrdMap.get_mapKeys later_mono _ _
    simp only [List.map_cons, later, Extracting.exitCalls, tracked]
    split
    · cases s.callGasTracking.get call.2 with
      | none => exact ih ahead
      | some open' =>
        refine ih ⟨ahead.count, ahead.target, ahead.calls, ?_, ahead.awaiting, ahead.create⟩
        show s'.callGasTracking.erase (call.2 + 1) = _
        rw [ahead.tracking]
        exact OrdMap.erase_mapKeys later_mono _ _
    · exact ⟨ahead.count, ahead.target, rfl, ahead.tracking, ahead.awaiting, ahead.create⟩

theorem Ahead.stepUp (ahead : Ahead s s') (log : StructLog) : Ahead (s.stepUp log) (s'.stepUp log) := by
  unfold Extracting.stepUp
  by_cases up : log.depth < s.targetDepth
  · rw [if_pos up, if_pos (by rw [ahead.target]; exact up), ahead.calls]
    have left := Ahead.exitCalls log s.callStack ahead
    exact ⟨left.count, rfl, left.calls, left.tracking, left.awaiting, left.create⟩
  · rw [if_neg up, if_neg (by rw [ahead.target]; exact up)]
    exact ahead

theorem Ahead.arrive (ahead : Ahead s s') (origin : Option Address) (log : StructLog) :
    Alike Ahead (s.arrive origin log) (s'.arrive origin log) := by
  unfold Extracting.arrive
  refine ((ahead.noteEntry log).settleCreate log).bind fun s₁ s₁' ahead₁ => ?_
  obtain ⟨r, reentry⟩ := detectReentry_eq origin log s₁
  obtain ⟨r', reentry'⟩ := detectReentry_eq origin log s₁'
  rw [reentry, reentry']
  refine Ahead.stepUp ?_ log
  exact ⟨ahead₁.count, ahead₁.target, ahead₁.calls, ahead₁.tracking, ahead₁.awaiting, ahead₁.create⟩

theorem Ahead.extractOp (ahead : Ahead s s') (n : Nat) (log : StructLog) :
    Alike Ahead (s.extractOp n log) (s'.extractOp n log) := by
  unfold Extracting.extractOp
  rw [ahead.target, show s'.callStack.isEmpty = s.callStack.isEmpty by rw [ahead.calls, List.isEmpty_map]]
  split
  · split
    · exact ⟨ahead.count, rfl, ahead.calls, ahead.tracking, ahead.awaiting, ahead.create⟩
    · split
      · unfold appendStateUpdateFromStructLog
        rw [bind_assoc, bind_assoc]
        cases decodeStructLog log with
        | error failure => exact rfl
        | ok decoded =>
          obtain ⟨update, skipped⟩ := decoded
          have count : ∀ new : List Op, (s'.ops ++ new).length = (s.ops ++ new).length + 1 := by
            intro new
            rw [List.length_append, List.length_append, ahead.count]
            omega
          simp only [ok_bind]
          cases skipped with
          | some op =>
            exact ⟨count _, rfl, ahead.calls, ahead.tracking, ahead.awaiting, ahead.create⟩
          | none =>
            have grows : (s'.ops.length < (s'.ops ++ update.toList.map (Op.mk · n)).length) =
                (s.ops.length < (s.ops ++ update.toList.map (Op.mk · n)).length) := by
              rw [count, ahead.count, Nat.add_lt_add_iff_right]
            simp only [grows]
            split
            · split
              · exact ⟨count _, rfl, ahead.calls, ahead.tracking, ahead.awaiting, ahead.create⟩
              · exact ⟨count _, rfl, ahead.calls, ahead.tracking, ahead.awaiting, rfl⟩
              · exact ⟨count _, rfl, ahead.calls, ahead.tracking, ahead.awaiting, rfl⟩
              · refine ⟨count _, rfl, ?_, ?_, ?_, ahead.create⟩
                · simp only [count, ahead.calls, List.map_cons, later]
                · simp only [count, ahead.tracking]
                  exact OrdMap.insert_mapKeys later_mono _ _ _
                · simp only [count, Option.map_some, later]
              · exact ⟨count _, rfl, ahead.calls, ahead.tracking, ahead.awaiting, ahead.create⟩
            · exact ⟨count _, rfl, ahead.calls, ahead.tracking, ahead.awaiting, ahead.create⟩
      · exact ahead
  · exact ahead

theorem Ahead.step (ahead : Ahead s s') (origin : Option Address) (n : Nat) (log : StructLog) :
    Alike Ahead (s.step origin n log) (s'.step origin n log) := by
  rw [step_eq, step_eq]
  exact (ahead.arrive origin log).bind fun s₁ s₁' ahead₁ => ahead₁.extractOp n log

theorem Ahead.run (origin : Option Address) : ∀ (logs : List StructLog) (n : Nat) {s s' : Extracting}, Ahead s s' →
    Alike Ahead (run origin logs n s) (run origin logs n s') := by
  intro logs
  induction logs with
  | nil =>
    intro n s s' ahead
    exact ahead
  | cons log rest ih =>
    intro n s s' ahead
    exact (ahead.step origin n log).bind fun s₁ s₁' ahead₁ => ih (n + 1) ahead₁

/-! ### The step with a snapshot -/

theorem run_at (origin : Option Address) (before after : List StructLog) (log : StructLog) (s : Extracting) :
    run origin (before ++ log :: after) 0 s = run origin before 0 s >>= fun s =>
      s.step origin before.length log >>= run origin after (before.length + 1) := by
  rw [run_append, Nat.zero_add]
  rfl

theorem run_withSnapshot_at {k : Nat} {l : StructLog} (found : logs[k]? = some l) (origin : Option Address) :
    run origin logs 0 {} = run origin (logs.take k) 0 {} >>= (fun s =>
      s.step origin k l >>= run origin (logs.drop (k + 1)) (k + 1)) ∧
    run origin (logs.modify k StructLog.withSnapshot) 0 {} = run origin (logs.take k) 0 {} >>= fun s =>
      s.step origin k l.withSnapshot >>= run origin (logs.drop (k + 1)) (k + 1) := by
  obtain ⟨inside, rfl⟩ := List.getElem?_eq_some_iff.mp found
  have size : (logs.take k).length = k := by rw [List.length_take, Nat.min_eq_left (Nat.le_of_lt inside)]
  have split := run_at origin (logs.take k) (logs.drop (k + 1))
  rw [size] at split
  constructor
  · rw [← split, ← List.drop_eq_getElem_cons inside, List.take_append_drop]
  · rw [← split, List.modify_eq_take_cons_drop inside]

theorem arrive_withSnapshot (origin : Option Address) (l : StructLog) (s : Extracting) :
    s.arrive origin l.withSnapshot = s.arrive origin l := by
  have climbs : ∀ s : Extracting, s.stepUp l.withSnapshot = s.stepUp l := by
    intro s
    unfold stepUp
    rw [exitCalls_withSnapshot]
    rfl
  unfold Extracting.arrive
  rw [show s.noteEntry l.withSnapshot = s.noteEntry l from rfl]
  congr 1
  funext s'
  rw [climbs]
  rfl

theorem extractOp_withSnapshot {l : StructLog} (untaken : ¬Taken l s) (n : Nat) :
    s.extractOp n l.withSnapshot = s.extractOp n l := by
  unfold extractOp
  by_cases here : l.depth = s.targetDepth
  · rw [if_pos here, if_pos (show l.withSnapshot.depth = s.targetDepth from here)]
    show (if l.op.isDelegate then _ else if extracts l.op && s.callStack.isEmpty then _ else _) = _
    split
    · rfl
    · split
      · rename_i kind
        obtain ⟨kind, free⟩ := Bool.and_eq_true_iff.mp kind
        exact absurd ⟨here, by simpa using free, kind⟩ untaken
      · rfl
  · rw [if_neg here, if_neg (show ¬l.withSnapshot.depth = s.targetDepth from here)]

/-- A snapshot on a step that does not go to the decoder changes nothing. -/
theorem run_untaken {k : Nat} {l : StructLog} (found : logs[k]? = some l) (untaken : ¬Takes origin logs k l) :
    run origin (logs.modify k StructLog.withSnapshot) 0 {} = run origin logs 0 {} := by
  obtain ⟨plain, snapped⟩ := run_withSnapshot_at found origin
  rw [plain, snapped]
  cases reached : run origin (logs.take k) 0 {} with
  | error failure => rfl
  | ok s =>
    rw [ok_bind, ok_bind, step_eq, step_eq, arrive_withSnapshot]
    cases arrived : s.arrive origin l with
    | error failure => rfl
    | ok s₁ =>
      have passes : ¬Taken l s₁ := fun taken => untaken ⟨found, s, s₁, reached, arrived, taken⟩
      rw [ok_bind, ok_bind, extractOp_withSnapshot passes]

theorem decode_bareStore {l : StructLog} (stores : l.op = .sstore) (missing : l.memory = none)
    (words : (l.top 1).isSome = true) : decodeStructLog l = .ok (none, none) ∧
      ∃ st, decodeStructLog l.withSnapshot = .ok (some (.store st), none) := by
  obtain ⟨value, second⟩ := Option.isSome_iff_exists.mp words
  obtain ⟨stack, hasStack⟩ : ∃ stack, l.stack = some stack := by
    cases hasStack : l.stack with
    | none =>
      rw [StructLog.top, hasStack] at second
      cases second
    | some stack => exact ⟨stack, rfl⟩
  have second : stack.reverse[1]? = some value := by rwa [StructLog.top, hasStack] at second
  obtain ⟨slot, first⟩ : ∃ slot, stack.reverse[0]? = some slot :=
    ⟨_, List.getElem?_eq_getElem (Nat.zero_lt_of_lt (List.getElem?_eq_some_iff.mp second).1)⟩
  unfold decodeStructLog
  rw [show l.withSnapshot.stack = l.stack from rfl, show l.withSnapshot.memory = some [] from rfl,
    show l.withSnapshot.op = l.op from rfl, missing, stores, hasStack]
  refine ⟨rfl, ⟨slot, value⟩, ?_⟩
  show (do
    let slot ← index stack.reverse 0
    let value ← index stack.reverse 1
    .ok (some (.store ⟨slot, value⟩), none) : Result (Option StateUpdate × Option Opcode)) = _
  unfold index
  rw [first, second]
  rfl

theorem decode_shortStore {l : StructLog} (stores : l.op = .sstore) (short : l.top 1 = none) :
    ∃ failure, decodeStructLog l.withSnapshot = .error failure := by
  have memory : l.withSnapshot.memory.isSome = true := rfl
  have effect : effectful l.withSnapshot.op = true := by
    rw [show l.withSnapshot.op = l.op from rfl, stores]
    rfl
  cases decoded : decodeStructLog l.withSnapshot with
  | error failure => exact ⟨failure, rfl⟩
  | ok r =>
    obtain ⟨stack, hasStack, long⟩ := ((decodes_iff effect memory).mp ⟨r, decoded⟩).stack
    rw [show l.withSnapshot.op = l.op from rfl, stores] at long
    unfold StructLog.top at short
    rw [show l.stack = some stack from hasStack, Option.getD_some, List.getElem?_eq_none_iff, List.length_reverse]
      at short
    exact absurd long (Nat.not_le.mpr (Nat.lt_of_le_of_lt short (Nat.lt_succ_self 1)))

/-! ### No call is tracked when a step is taken -/

theorem Tracked.extractOp (tracked : Tracked s) (extracted : s.extractOp n log = .ok s') : Tracked s' := by
  by_cases taken : Taken log s
  · obtain ⟨here, free, kind⟩ := taken
    have empty : s.callGasTracking = OrdMap.empty := by
      rcases tracked with ⟨-, empty⟩ | ⟨c, -, one, -⟩
      · exact empty
      · rw [free] at one
        cases one
    have still : ∀ {s₁ : Extracting}, s₁.callStack = s.callStack → s₁.callGasTracking = s.callGasTracking →
        Tracked s₁ := fun calls tracking => Or.inl ⟨calls.trans free, tracking.trans empty⟩
    unfold Extracting.extractOp at extracted
    rw [if_pos here] at extracted
    split at extracted
    · exact Except.ok.inj extracted ▸ still rfl rfl
    · split at extracted
      · obtain ⟨⟨ops, skipped⟩, -, extracted⟩ := Outcome.bind_ok extracted
        dsimp only at extracted
        split at extracted
        · exact Except.ok.inj extracted ▸ still rfl rfl
        · split at extracted
          · split at extracted <;> obtain rfl := Except.ok.inj extracted
            · exact still rfl rfl
            · exact still rfl rfl
            · exact still rfl rfl
            · refine Or.inr ⟨(log.depth, ops.length), ⟨log.gas, log.gasCost, none⟩, ?_, ?_⟩
              · exact congrArg (_ :: ·) free
              · exact congrArg (fun m : OrdMap Nat CallGas => m.insert ops.length _) empty
            · exact still rfl rfl
          · exact Except.ok.inj extracted ▸ still rfl rfl
      · exact Except.ok.inj extracted ▸ still rfl rfl
  · obtain ⟨s₁, answer, calls, tracking⟩ := @extractOp_untaken n log s taken
    obtain rfl : s' = s₁ := Except.ok.inj (extracted.symm.trans answer)
    unfold Tracked
    rw [calls, tracking]
    exact tracked

theorem tracked_reaches (short : logs.length < 2 ^ 63) :
    ∀ {n : Nat} {s : Extracting}, Reaches origin logs n s → n ≤ logs.length → Tracked s := by
  intro n
  induction n with
  | zero =>
    intro s reached _
    rw [← show ({} : Extracting) = s from Except.ok.inj reached]
    exact Or.inl ⟨rfl, rfl⟩
  | succ n ih =>
    intro s reached inside
    have found := List.getElem?_eq_getElem (show n < logs.length by omega)
    obtain ⟨s₀, before, stepped⟩ := Reaches.pred found reached
    rw [step_eq] at stepped
    obtain ⟨s₁, arrived, extracted⟩ := Outcome.bind_ok stepped
    have below := (floor_reaches short before (by omega)).below
    exact ((ih before (by omega)).arrive below arrived).1.extractOp extracted

theorem exitCalls_awaiting (log : StructLog) (calls : List (UInt64 × Nat)) (s : Extracting) :
    (exitCalls log calls s).awaitingEntry = s.awaitingEntry := by
  induction calls generalizing s with
  | nil => rfl
  | cons call rest ih =>
    unfold exitCalls
    split
    · split
      · exact ih _
      · exact ih s
    · rfl

theorem arrive_awaiting (arrived : s.arrive origin log = .ok s') : s'.awaitingEntry = none := by
  unfold Extracting.arrive at arrived
  obtain ⟨s₁, settled, arrived⟩ := Outcome.bind_ok arrived
  obtain rfl := Except.ok.inj arrived
  have kept : s₁.awaitingEntry = none := by
    rw [← noteEntry_awaiting log s]
    unfold Extracting.settleCreate at settled
    split at settled
    · exact Except.ok.inj settled ▸ rfl
    · split at settled
      · split at settled
        · cases settled
        · exact Except.ok.inj settled ▸ rfl
      · exact Except.ok.inj settled ▸ rfl
  obtain ⟨r, reentry⟩ := detectReentry_eq origin log s₁
  rw [reentry]
  unfold stepUp
  split
  · exact (exitCalls_awaiting log _ _).trans kept
  · exact kept

theorem Takes.untracked (short : logs.length < 2 ^ 63) (takes : Takes origin logs n log) :
    ∃ s s₁, Reaches origin logs n s ∧ s.arrive origin log = .ok s₁ ∧ Taken log s₁ ∧
      s₁.callGasTracking = OrdMap.empty ∧ s₁.awaitingEntry = none := by
  obtain ⟨found, s, s₁, reached, arrived, taken⟩ := takes
  have inside := Nat.le_of_lt (List.getElem?_eq_some_iff.mp found).1
  refine ⟨s, s₁, reached, arrived, taken, ?_, ?_⟩
  · have below := (floor_reaches short reached inside).below
    rcases ((tracked_reaches short reached inside).arrive below arrived).1 with ⟨-, empty⟩ | ⟨c, -, one, -⟩
    · exact empty
    · rw [taken.2.1] at one
      cases one
  · exact arrive_awaiting arrived

/-- What a taken store appends, given what the decoder says. -/
theorem extractOp_silent {l : StructLog} (taken : Taken l s) (stores : l.op = .sstore)
    (decoded : decodeStructLog l = .ok (none, none)) : s.extractOp n l = .ok s := by
  obtain ⟨here, free, -⟩ := taken
  unfold Extracting.extractOp appendStateUpdateFromStructLog
  rw [if_pos here, stores, free, decoded]
  simp only [ok_bind, Option.toList_none, List.map_nil, List.append_nil, Nat.lt_irrefl, if_false]
  rw [if_neg (by decide), if_pos (by decide), ← free]

theorem extractOp_store {l : StructLog} {st : Store} (taken : Taken l s) (stores : l.op = .sstore)
    (decoded : decodeStructLog l = .ok (some (.store st), none)) :
    s.extractOp n l = .ok { s with
      ops := s.ops ++ [⟨.store st, n⟩]
      sstoreGasTotal := s.sstoreGasTotal + l.gasCost } := by
  obtain ⟨here, free, -⟩ := taken
  unfold Extracting.extractOp appendStateUpdateFromStructLog
  rw [if_pos here, stores, free, decoded]
  simp only [ok_bind, Option.toList_some, List.map_cons, List.map_nil, List.length_append, List.length_singleton,
    Nat.lt_add_one, if_true]
  rfl

theorem extractOp_fails {l : StructLog} {failure : Failure} (taken : Taken l s) (stores : l.op = .sstore)
    (decoded : decodeStructLog l = .error failure) : s.extractOp n l = .error failure := by
  obtain ⟨here, free, -⟩ := taken
  unfold Extracting.extractOp appendStateUpdateFromStructLog
  rw [if_pos here, stores, free, decoded]
  rfl

/-- A taken store puts an op in front of the later ones if it has a snapshot, and nothing without one. -/
theorem run_taken {k : Nat} {l : StructLog} (short : logs.length < 2 ^ 63) (takes : Takes origin logs k l)
    (stores : l.op = .sstore) (missing : l.memory = none) :
    ((l.top 1).isSome = true →
      Alike Ahead (run origin logs 0 {}) (run origin (logs.modify k StructLog.withSnapshot) 0 {})) ∧
    (l.top 1 = none → ∃ failure, run origin (logs.modify k StructLog.withSnapshot) 0 {} = .error failure) := by
  obtain ⟨s, s₁, reached, arrived, taken, untracked, unawaited⟩ := takes.untracked short
  obtain ⟨plain, snapped⟩ := run_withSnapshot_at takes.1 origin
  have reached : run origin (logs.take k) 0 {} = .ok s := reached
  have taken' : Taken l.withSnapshot s₁ := taken
  rw [plain, snapped, reached, ok_bind, ok_bind, step_eq, step_eq, arrive_withSnapshot, arrived, ok_bind, ok_bind]
  constructor
  · intro words
    obtain ⟨bare, st, store⟩ := decode_bareStore stores missing words
    rw [extractOp_silent taken stores bare, extractOp_store taken' stores store]
    refine Ahead.run origin _ _ ⟨List.length_append, rfl, ?_, ?_, ?_, rfl⟩
    · exact taken.2.1.symm ▸ taken.2.1
    · exact untracked.trans (untracked.symm ▸ rfl)
    · exact unawaited.trans (unawaited.symm ▸ rfl)
  · intro few
    obtain ⟨failure, failed⟩ := decode_shortStore stores few
    exact ⟨failure, by rw [extractOp_fails taken' stores failed]; rfl⟩

end Extracting

/-! ### The canonical extractor -/

variable {H : Hashes} {root : Address} {elig : Eligibility} {candidates : OrdMap Nat Candidate}

theorem scanRun_withSnapshot {k : Nat} (m : Nat) (s : Scan) :
    Scan.run (logs.modify k StructLog.withSnapshot) m s = Scan.run logs m s := by
  induction logs generalizing k m s with
  | nil => rw [List.modify_nil]
  | cons head rest ih =>
    cases k with
    | zero => rfl
    | succ k =>
      rw [List.modify_succ_cons, Scan.run, Scan.run]
      congr 1
      funext s'
      exact ih _ s'

theorem popFrames_withSnapshot (l : StructLog) (step fuel : Nat) (w : Walk) :
    popFrames step l.withSnapshot fuel w = popFrames step l fuel w := by
  induction fuel generalizing w with
  | zero => rfl
  | succ fuel ih =>
    unfold popFrames
    split
    · rw [if_pos (by assumption)]
      congr 1
      funext w'
      exact ih w'
    · rw [if_neg (by assumption)]

theorem walkStep_withSnapshot {l : StructLog} (quiet : readsMemory l.op = false) (step : Nat) (w : Walk) :
    walkStep H elig candidates step l.withSnapshot w = walkStep H elig candidates step l w := by
  have executes : ∀ w : Walk, exec H elig candidates step l.withSnapshot w = exec H elig candidates step l w := by
    intro w
    unfold exec
    rw [show l.withSnapshot.op = l.op from rfl]
    cases op : l.op <;> first | rfl | (rw [op] at quiet; cases quiet)
  unfold walkStep arrive
  rw [show enterPending l.withSnapshot w = enterPending l w from rfl, Outcome.bind_assoc, Outcome.bind_assoc]
  congr 1
  funext w₁
  rw [popFrames_withSnapshot]
  congr 1
  funext w₂
  exact executes w₂

theorem walk_withSnapshot {k : Nat} {l : StructLog} (found : logs[k]? = some l) (quiet : readsMemory l.op = false)
    (step : Nat) (w : Walk) :
    walk H elig candidates (logs.modify k StructLog.withSnapshot) step w = walk H elig candidates logs step w := by
  induction logs generalizing k step w with
  | nil => cases found
  | cons head rest ih =>
    cases k with
    | zero =>
      obtain rfl : head = l := Option.some.inj found
      rw [List.modify_zero_cons, walk, walk, walkStep_withSnapshot quiet]
    | succ k =>
      rw [List.modify_succ_cons, walk, walk]
      congr 1
      funext w'
      exact ih found _ w'

theorem splitFrameTree_withSnapshot {k : Nat} {l : StructLog} (found : trace.structLogs[k]? = some l)
    (quiet : readsMemory l.op = false) :
    splitFrameTree H (trace.withSnapshot k) root elig cost = splitFrameTree H trace root elig cost := by
  unfold splitFrameTree scanCandidates
  rw [show (trace.withSnapshot k).structLogs = trace.structLogs.modify k StructLog.withSnapshot from rfl,
    scanRun_withSnapshot, List.length_modify]
  simp only [walk_withSnapshot found quiet]

/-! ### The legacy extractor -/

theorem refund_withSnapshot (trace : DefaultFrame) (k : Nat) :
    (trace.withSnapshot k).structLogs.getLast?.bind StructLog.refundCounter =
      trace.structLogs.getLast?.bind StructLog.refundCounter := by
  show ((trace.structLogs.modify k _).getLast?.bind _) = _
  rw [List.getLast?_eq_getElem?, List.getLast?_eq_getElem?, List.length_modify, List.getElem?_modify]
  cases trace.structLogs[trace.structLogs.length - 1]? with
  | none => rfl
  | some last =>
    simp only [Option.bind_some]
    split <;> rfl

/-- A snapshot on a step that does not go to the decoder changes nothing. -/
theorem computeStateUpdates_untaken (found : trace.structLogs[k]? = some log)
    (untaken : ¬Extracting.Takes origin trace.structLogs k log) :
    computeStateUpdates (trace.withSnapshot k) origin = computeStateUpdates trace origin := by
  unfold computeStateUpdates
  rw [refund_withSnapshot, show (trace.withSnapshot k).structLogs = trace.structLogs.modify k StructLog.withSnapshot from rfl,
    Extracting.run_untaken found untaken]

/-- A snapshot on a store that goes to the decoder adds its op, and no failure if it has its two words. -/
theorem computeStateUpdates_taken (takes : Extracting.Takes origin trace.structLogs k log) (stores : log.op = .sstore)
    (missing : log.memory = none) :
    ((log.top 1).isSome = true → Alike (fun extract extract' => extract'.stateUpdates.length = extract.stateUpdates.length + 1)
      (computeStateUpdates trace origin) (computeStateUpdates (trace.withSnapshot k) origin)) ∧
    (log.top 1 = none → ∃ failure, computeStateUpdates (trace.withSnapshot k) origin = .error failure) := by
  obtain ⟨wordy, short⟩ := Extracting.run_taken trace.bounded takes stores missing
  unfold computeStateUpdates
  constructor
  · intro words
    refine (wordy words).bind fun s s' ahead => ?_
    have entries : s'.callGasTracking.entries = s.callGasTracking.entries.map fun e => (e.1 + 1, e.2) := by
      rw [ahead.tracking]
      rfl
    rw [ahead.create, entries, List.isEmpty_map, List.length_map]
    cases s.pendingCreate with
    | some c => exact rfl
    | none =>
      dsimp only
      split
      · exact rfl
      · show (s'.ops.map _).length = (s.ops.map _).length + 1
        rw [List.length_map, List.length_map, ahead.count]
  · intro few
    obtain ⟨failure, failed⟩ := short few
    refine ⟨failure, ?_⟩
    rw [show (trace.withSnapshot k).structLogs = trace.structLogs.modify k StructLog.withSnapshot from rfl, failed]
    rfl

theorem snapshot_matters_iff (found : trace.structLogs[k]? = some log) (missing : log.memory = none)
    (quiet : readsMemory log.op = false) :
    (¬(log.op = .sstore ∧ Extracting.Takes origin trace.structLogs k log) →
      computeStateUpdates (trace.withSnapshot k) origin = computeStateUpdates trace origin) ∧
    (∀ extract, computeStateUpdates trace origin = .ok extract →
      (computeStateUpdates (trace.withSnapshot k) origin = .ok extract ↔
        ¬(log.op = .sstore ∧ Extracting.Takes origin trace.structLogs k log))) ∧
    ((log.top 1).isSome = true → ∀ failure, computeStateUpdates trace origin = .error failure →
      computeStateUpdates (trace.withSnapshot k) origin = .error failure) := by
  have stores : Extracting.Takes origin trace.structLogs k log → log.op = .sstore := by
    rintro ⟨-, s, s₁, -, -, -, -, kind⟩
    cases op : log.op <;> simp_all [readsMemory, Extracting.extracts, Opcode.isLog, Opcode.isCreate]
  have passes : ¬(log.op = .sstore ∧ Extracting.Takes origin trace.structLogs k log) →
      computeStateUpdates (trace.withSnapshot k) origin = computeStateUpdates trace origin :=
    fun untaken => computeStateUpdates_untaken found fun takes => untaken ⟨stores takes, takes⟩
  refine ⟨passes, ?_, ?_⟩
  · intro extract answer
    refine ⟨?_, fun untaken => (passes untaken).trans answer⟩
    rintro same ⟨kind, takes⟩
    obtain ⟨wordy, short⟩ := computeStateUpdates_taken takes kind missing
    cases words : log.top 1 with
    | none =>
      obtain ⟨failure, failed⟩ := short words
      rw [same] at failed
      cases failed
    | some value =>
      have longer := wordy (by rw [words]; rfl)
      rw [answer, same] at longer
      exact absurd (show extract.stateUpdates.length = _ from longer) (Nat.ne_of_lt (Nat.lt_succ_self _))
  · intro words failure failed
    by_cases takes : Extracting.Takes origin trace.structLogs k log
    · have alike := (computeStateUpdates_taken takes (stores takes) missing).1 words
      rw [failed] at alike
      cases result : computeStateUpdates (trace.withSnapshot k) origin with
      | ok extract =>
        rw [result] at alike
        exact alike.elim
      | error failure' =>
        rw [result] at alike
        exact congrArg _ alike.symm
    · rw [computeStateUpdates_untaken found takes, failed]

/-! ### The results -/

/-- Whenever an extractor answers, it kept every effect of the root's closure exactly if the steps carry
their memory; the canonical one does not need it for stores. An empty snapshot on a step that reads no
memory never matters to the canonical extractor, and to the legacy one exactly on a store it takes. -/
theorem effects_kept_iff_snapshots (H : Hashes) (trace : DefaultFrame) (root : Address)
    (origin : Option Address) (isNestable : Address → Bool) (cost : NestingCostModel) :
    (∀ extract, computeStateUpdates trace origin = .ok extract →
      ((∀ i log, Effect trace.structLogs i log → Holds extract.stateUpdates extract.opSteps i log.op) ↔
        ∀ i log, Effect trace.structLogs i log → log.memory ≠ none)) ∧
    (∀ tree, computeFrameTreeCanonical H trace root isNestable cost = .ok tree →
      ((∀ i log, Effect trace.structLogs i log →
          Represented (.consumers isNestable) trace.structLogs tree i log) ↔
        ∀ i log, Effect trace.structLogs i log → log.op ≠ .sstore → log.memory ≠ none)) ∧
    ∀ k log, trace.structLogs[k]? = some log → log.memory = none → readsMemory log.op = false →
      computeFrameTreeCanonical H (trace.withSnapshot k) root isNestable cost =
        computeFrameTreeCanonical H trace root isNestable cost ∧
      (¬(log.op = .sstore ∧ Extracting.Takes origin trace.structLogs k log) →
        computeStateUpdates (trace.withSnapshot k) origin = computeStateUpdates trace origin) ∧
      (∀ extract, computeStateUpdates trace origin = .ok extract →
        (computeStateUpdates (trace.withSnapshot k) origin = .ok extract ↔
          ¬(log.op = .sstore ∧ Extracting.Takes origin trace.structLogs k log))) ∧
      ((log.top 1).isSome = true → ∀ failure, computeStateUpdates trace origin = .error failure →
        computeStateUpdates (trace.withSnapshot k) origin = .error failure) := by
  refine ⟨?_, ?_, ?_⟩
  · intro extract answer
    constructor
    · intro all i log effect
      exact (computeStateUpdates_holds answer effect.scope effect.found effect.effect).mp (all i log effect)
    · intro all i log effect
      exact (computeStateUpdates_holds answer effect.scope effect.found effect.effect).mpr (all i log effect)
  · intro tree answer
    constructor
    · intro all i log effect kind
      exact ((splitFrameTree_represents answer effect).mp (all i log effect)).resolve_left kind
    · intro all i log effect
      apply (splitFrameTree_represents answer effect).mpr
      by_cases kind : log.op = .sstore
      · exact Or.inl kind
      · exact Or.inr (all i log effect kind)
  · intro k log found missing quiet
    exact ⟨splitFrameTree_withSnapshot found quiet, snapshot_matters_iff found missing quiet⟩

/-- One store without a memory snapshot. -/
def bareStore : DefaultFrame where
  structLogs := [{ op := .sstore, stack := some [5, 1], memory := none }]

/-- One create without a memory snapshot, resumed with the deployed address. -/
def bareCreate : DefaultFrame where
  structLogs := [
    { op := .create, stack := some [0, 0, 0], memory := none },
    { op := .other "STOP", stack := some [7] }]

/-- Both extractors answer and drop the effect of the only step that has one. -/
theorem bare_steps_dropped :
    (∃ extract log, computeStateUpdates bareStore none = .ok extract ∧ Effect bareStore.structLogs 0 log ∧
      log.op = .sstore ∧ ¬ Holds extract.stateUpdates extract.opSteps 0 log.op) ∧
    (∃ extract log, computeStateUpdates bareCreate none = .ok extract ∧ Effect bareCreate.structLogs 0 log ∧
      log.op = .create ∧ ¬ Holds extract.stateUpdates extract.opSteps 0 log.op) ∧
    (∃ tree log, computeFrameTreeCanonical ⟨fun _ => 0, fun _ => 0⟩ bareCreate 9 (fun _ => false)
        nestingCostModelV1 = .ok tree ∧ Effect bareCreate.structLogs 0 log ∧ log.op = .create ∧
      ¬ Represented (.consumers fun _ => false) bareCreate.structLogs tree 0 log) ∧
    computeStateUpdates (bareStore.withSnapshot 0) none ≠ computeStateUpdates bareStore none := by
  have store : Effect bareStore.structLogs 0 { op := .sstore, stack := some [5, 1], memory := none } :=
    ⟨.root rfl rfl (fun j _ before => absurd before (Nat.not_lt_zero j)), rfl, rfl, rfl⟩
  have create : Effect bareCreate.structLogs 0 { op := .create, stack := some [0, 0, 0], memory := none } :=
    ⟨.root rfl rfl (fun j _ before => absurd before (Nat.not_lt_zero j)), rfl, rfl, rfl⟩
  have split : ∃ tree, computeFrameTreeCanonical ⟨fun _ => 0, fun _ => 0⟩ bareCreate 9 (fun _ => false)
      nestingCostModelV1 = .ok tree := ⟨_, rfl⟩
  obtain ⟨tree, answer⟩ := split
  refine ⟨⟨_, _, rfl, store, rfl, ?_⟩, ⟨_, _, rfl, create, rfl, ?_⟩, ⟨tree, _, answer, create, rfl, ?_⟩, ?_⟩
  · rintro ⟨update, member, -⟩
    cases member
  · rintro ⟨update, member, -⟩
    cases member
  · intro represented
    rcases (splitFrameTree_represents answer create).mp represented with other | present
    · cases other
    · exact present rfl
  · intro same
    have steps := congrArg (fun r => (Except.toOption r).map TraceExtract.opSteps) same
    exact absurd steps (by decide)

end GasAnalyzer
