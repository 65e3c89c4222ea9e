import GasAnalyzer.Legacy.Recursion
import GasAnalyzer.Safety.Panics

/-!
# When the legacy extractor panics

Over any list of possible steps: it aborts exactly when it decodes a step whose memory range is out of reach, or
ends, with no create still open, while a call it extracted has not been resumed.
-/

namespace GasAnalyzer

namespace Extracting

variable {origin : Option Address} {logs : List StructLog} {n : Nat} {log : StructLog} {s s₁ s' : Extracting}

/-! ### The open call -/

/-- At most one call is open, and its gas is what is tracked. -/
def Tracked (s : Extracting) : Prop :=
  s.callStack = [] ∧ s.callGasTracking = OrdMap.empty ∨
    ∃ c g, s.callStack = [c] ∧ s.callGasTracking = OrdMap.empty.insert c.2 g

theorem insert_insert {κ ν : Type} [LinearOrder κ] (k : κ) (v v' : ν) :
    ((OrdMap.empty : OrdMap κ ν).insert k v).insert k v' = OrdMap.empty.insert k v' := by
  apply OrdMap.ext_get
  intro k'
  simp only [OrdMap.get_insert]
  split <;> rfl

theorem erase_insert {κ ν : Type} [LinearOrder κ] (k : κ) (v : ν) :
    ((OrdMap.empty : OrdMap κ ν).insert k v).erase k = OrdMap.empty := by
  apply OrdMap.ext_get
  intro k'
  simp only [OrdMap.get_erase, OrdMap.get_insert]
  split <;> simp_all

theorem Tracked.noteEntry (tracked : Tracked s) (log : StructLog) :
    Tracked (s.noteEntry log) ∧ (s.noteEntry log).callStack = s.callStack := by
  have calls := (same_noteEntry log s).calls
  refine ⟨?_, calls⟩
  unfold Tracked
  rw [calls]
  unfold Extracting.noteEntry
  split
  · exact tracked
  · dsimp only
    split
    · split
      · rename_i index _ _ _ call found
        rcases tracked with ⟨none, empty⟩ | ⟨c, g, one, single⟩
        · rw [empty] at found
          cases found
        · right
          rw [single, OrdMap.get_insert] at found
          have here : index = c.2 := by
            by_contra other
            rw [if_neg other] at found
            cases found
          refine ⟨c, { call with entryGas := some log.gas }, one, ?_⟩
          show s.callGasTracking.insert index _ = _
          rw [single, here, insert_insert]
      · exact tracked
    · exact tracked

theorem settleCreate_calls (settled : s.settleCreate log = .ok s') :
    s'.callStack = s.callStack ∧ s'.callGasTracking = s.callGasTracking := by
  unfold settleCreate at settled
  split at settled
  · exact Except.ok.inj settled ▸ ⟨rfl, rfl⟩
  · split at settled
    · split at settled
      · cases settled
      · exact Except.ok.inj settled ▸ ⟨rfl, rfl⟩
    · exact Except.ok.inj settled ▸ ⟨rfl, rfl⟩

theorem exitCalls_tracked (tracked : Tracked s) (log : StructLog) : Tracked (exitCalls log s.callStack s) := by
  rcases tracked with ⟨none, empty⟩ | ⟨c, g, one, single⟩
  · rw [none]
    exact Or.inl ⟨rfl, empty⟩
  · rw [one]
    unfold exitCalls
    split
    · have found : s.callGasTracking.get c.2 = some g := by
        rw [single, OrdMap.get_insert, if_pos rfl]
      rw [found]
      refine Or.inl ⟨rfl, ?_⟩
      show s.callGasTracking.erase c.2 = OrdMap.empty
      rw [single, erase_insert]
    · exact Or.inr ⟨c, g, rfl, single⟩

/-- A step closes the open call exactly when it is no deeper than it. -/
theorem Tracked.arrive (tracked : Tracked s) (below : ∀ c ∈ s.callStack, c.1 < s.targetDepth)
    (arrived : s.arrive origin log = .ok s₁) :
    Tracked s₁ ∧ s₁.callStack = s.callStack.dropWhile (fun c => log.depth ≤ c.1) := by
  unfold Extracting.arrive at arrived
  obtain ⟨s₂, settled, arrived⟩ := Outcome.bind_ok arrived
  obtain rfl := Except.ok.inj arrived
  obtain ⟨tracked₁, calls₁⟩ := tracked.noteEntry log
  obtain ⟨calls₂, tracking₂⟩ := settleCreate_calls settled
  obtain ⟨r, reentry⟩ := detectReentry_eq origin log s₂
  have tracked₂ : Tracked { s₂ with reentered := r } := by
    unfold Tracked
    rw [show _ = _ from calls₂, show _ = _ from tracking₂]
    exact tracked₁
  have calls : s₂.callStack = s.callStack := calls₂.trans calls₁
  have target : s₂.targetDepth = s.targetDepth :=
    (same_settleCreate settled).target.trans (same_noteEntry log s).target
  rw [reentry]
  unfold stepUp
  by_cases up : log.depth < s₂.targetDepth
  · rw [if_pos (show log.depth < ({ s₂ with reentered := r } : Extracting).targetDepth from up)]
    refine ⟨?_, ?_⟩
    · exact exitCalls_tracked tracked₂ log
    · rw [← calls]
      exact (exitCalls_spec log s₂.callStack { s₂ with reentered := r }).2
  · rw [if_neg (show ¬log.depth < ({ s₂ with reentered := r } : Extracting).targetDepth from up)]
    refine ⟨tracked₂, ?_⟩
    show s₂.callStack = _
    rw [calls]
    rcases tracked with ⟨none, -⟩ | ⟨c, -, one, -⟩
    · rw [none]
      rfl
    · rw [one, List.dropWhile_cons_of_neg]
      have low := below c (by rw [one]; exact List.mem_cons_self)
      rw [target] at up
      simpa using UInt64.lt_of_lt_of_le low (UInt64.not_lt.mp up)

theorem arrive_fails {failure : Failure} (failed : s.arrive origin log = .error failure) :
    failure.panics = false := by
  unfold Extracting.arrive at failed
  cases settled : (s.noteEntry log).settleCreate log with
  | ok s₂ =>
    rw [settled] at failed
    cases failed
  | error failure' =>
    rw [settled] at failed
    obtain rfl : failure' = failure := Except.error.inj failed
    unfold settleCreate at settled
    split at settled
    · cases settled
    · split at settled
      · split at settled
        · cases settled
          rfl
        · cases settled
      · cases settled

/-! ### One step -/

/-- The step goes to the decoder. -/
def Taken (log : StructLog) (s : Extracting) : Prop :=
  log.depth = s.targetDepth ∧ s.callStack = [] ∧ extracts log.op = true

theorem extractOp_untaken (untaken : ¬Taken log s) :
    ∃ s', s.extractOp n log = .ok s' ∧ s'.callStack = s.callStack ∧ s'.callGasTracking = s.callGasTracking := by
  unfold extractOp
  split
  · rename_i here
    split
    · exact ⟨_, rfl, rfl, rfl⟩
    · split
      · rename_i kind
        obtain ⟨kind, free⟩ := Bool.and_eq_true_iff.mp kind
        exact absurd ⟨here, by simpa using free, kind⟩ untaken
      · exact ⟨_, rfl, rfl, rfl⟩
  · exact ⟨_, rfl, rfl, rfl⟩

/-- What a taken step leaves of the calls: its own if it is one. -/
def Opens (log : StructLog) (s s' : Extracting) : Prop :=
  if log.op = .call then ∃ i g, s'.callStack = [(log.depth, i)] ∧ s'.callGasTracking = s.callGasTracking.insert i g
  else s'.callStack = [] ∧ s'.callGasTracking = s.callGasTracking

theorem extractOp_taken (possible : log.Possible) (taken : Taken log s) :
    log.InRange ∧ (∃ s', s.extractOp n log = .ok s' ∧ Opens log s s') ∨
      ¬log.InRange ∧ Panics (s.extractOp n log) := by
  obtain ⟨here, free, kind⟩ := taken
  have effect : effectful log.op = true := by
    cases op : log.op <;> simp_all [extracts, effectful]
  have plain : log.op.isDelegate = false := by
    cases op : log.op <;> simp_all [extracts, Opcode.isDelegate, Opcode.isLog, Opcode.isCreate]
  unfold extractOp
  rw [if_pos here, if_neg (by simp [plain]), if_pos (by simp [kind, free])]
  unfold appendStateUpdateFromStructLog
  rcases possible.decodes effect with ⟨inRange, u, decoded, -⟩ | ⟨outside, failure, decoded, aborts⟩
  · refine Or.inl ⟨inRange, ?_⟩
    rw [decoded]
    simp only [Outcome.ok_bind, Option.toList_some, List.map_cons, List.map_nil, List.length_append,
      List.length_singleton, Nat.lt_add_one, if_true]
    unfold Opens
    by_cases calls : log.op = .call
    · simp only [calls, if_true]
      refine ⟨_, rfl, s.ops.length + 1, ⟨log.gas, log.gasCost, none⟩, ?_, rfl⟩
      show (log.depth, s.ops.length + 1) :: s.callStack = _
      rw [free]
    · simp only [if_neg calls]
      cases op : log.op <;> first
        | exact absurd op calls
        | exact ⟨_, rfl, free, rfl⟩
  · refine Or.inr ⟨outside, failure, ?_, aborts⟩
    rw [decoded]
    rfl

/-! ### Runs -/

/-- The extractor hands step `n` to the decoder. -/
def Takes (origin : Option Address) (logs : List StructLog) (n : Nat) (log : StructLog) : Prop :=
  logs[n]? = some log ∧ ∃ s s₁, Reaches origin logs n s ∧ s.arrive origin log = .ok s₁ ∧ Taken log s₁

/-- Step `n` is resumed: a later step is no deeper. -/
def Resumed (logs : List StructLog) (n : Nat) (log : StructLog) : Prop :=
  ∃ m later, n < m ∧ logs[m]? = some later ∧ later.depth ≤ log.depth

/-- What the loop knows of the open call before step `n`. -/
structure Tracks (origin : Option Address) (logs : List StructLog) (n : Nat) (s : Extracting) : Prop where
  tracked : Tracked s
  opened : ∀ c ∈ s.callStack, ∃ k log, k < n ∧ Takes origin logs k log ∧ log.op = .call ∧ c.1 = log.depth ∧
    ∀ m later, k < m → m < n → logs[m]? = some later → log.depth < later.depth
  kept : ∀ k log, k < n → Takes origin logs k log → log.op = .call →
    (∀ m later, k < m → m < n → logs[m]? = some later → log.depth < later.depth) →
    ∃ c ∈ s.callStack, c.1 = log.depth

theorem floor_reaches (short : logs.length < 2 ^ 63) (reached : Reaches origin logs n s) (inside : n ≤ logs.length) :
    Floor 0 n s := by
  have start : Reaches origin logs 0 {} := rfl
  have floor : Floor 0 0 ({} : Extracting) := ⟨by decide, by decide, Or.inl rfl⟩
  have runs := floor.run short start n s (by rwa [Nat.zero_add]) (by omega)
    (fun m log _ _ _ => UInt64.le_iff_toNat_le.mpr (Nat.zero_le _))
  rwa [Nat.zero_add] at runs

theorem Floor.below {e : UInt64} (floor : Floor e n s) : ∀ c ∈ s.callStack, c.1 < s.targetDepth := by
  intro c member
  rcases floor.calls with none | ⟨c', one, -, high⟩
  · rw [none] at member
    cases member
  · rw [one] at member
    rw [List.mem_singleton.mp member]
    exact high

theorem tracks_start : Tracks origin logs 0 {} := by
  refine ⟨Or.inl ⟨rfl, rfl⟩, ?_, ?_⟩
  · intro c member
    cases member
  · intro k log low
    omega

/-- After a step the calls are those it left open and, if it was extracted, its own. -/
theorem Tracks.step (tracks : Tracks origin logs n s) (below : ∀ c ∈ s.callStack, c.1 < s.targetDepth)
    (found : logs[n]? = some log) (possible : log.Possible) (reached : Reaches origin logs n s)
    (stepped : s.step origin n log = .ok s') : Tracks origin logs (n + 1) s' := by
  rw [step_eq] at stepped
  obtain ⟨s₁, arrived, extracted⟩ := Outcome.bind_ok stepped
  obtain ⟨tracked₁, calls₁⟩ := tracks.tracked.arrive below arrived
  -- A call that survives the step is shallower than it, and one that does not is not.
  have survives : ∀ c, c ∈ s₁.callStack ↔ c ∈ s.callStack ∧ c.1 < log.depth := by
    intro c
    rw [calls₁]
    rcases tracks.tracked with ⟨none, -⟩ | ⟨c', -, one, -⟩
    · simp [none]
    · rw [one]
      by_cases deep : log.depth ≤ c'.1
      · rw [List.dropWhile_cons_of_pos (by simpa using deep)]
        simp only [List.dropWhile_nil, List.not_mem_nil, List.mem_singleton, false_iff, not_and, UInt64.not_lt]
        rintro rfl
        exact deep
      · rw [List.dropWhile_cons_of_neg (by simpa using deep)]
        simp only [List.mem_singleton]
        constructor
        · rintro rfl
          exact ⟨rfl, UInt64.not_le.mp deep⟩
        · exact fun both => both.1
  have extends' : ∀ {k : Nat} {call : StructLog}, call.depth < log.depth →
      (∀ m later, k < m → m < n → logs[m]? = some later → call.depth < later.depth) →
      ∀ m later, k < m → m < n + 1 → logs[m]? = some later → call.depth < later.depth := by
    intro k call lower sofar m later after before foundM
    rcases Nat.lt_succ_iff_lt_or_eq.mp before with earlier | rfl
    · exact sofar m later after earlier foundM
    · rw [found] at foundM
      cases foundM
      exact lower
  have untouched : ∀ {s₂ : Extracting}, Tracked s₂ → s₂.callStack = s₁.callStack →
      ¬(Taken log s₁ ∧ log.op = .call) → Tracks origin logs (n + 1) s₂ := by
    intro s₂ tracked₂ calls₂ notCall
    refine ⟨tracked₂, ?_, ?_⟩
    · intro c member
      rw [calls₂, survives] at member
      obtain ⟨k, call, low, takes, isCall, depth, since⟩ := tracks.opened c member.1
      exact ⟨k, call, by omega, takes, isCall, depth, extends' (depth ▸ member.2) since⟩
    · intro k call low takes isCall since
      rcases Nat.lt_succ_iff_lt_or_eq.mp low with earlier | rfl
      · obtain ⟨c, member, depth⟩ := tracks.kept k call earlier takes isCall
          (fun m later after before => since m later after (by omega))
        refine ⟨c, ?_, depth⟩
        rw [calls₂, survives]
        exact ⟨member, depth ▸ since n log earlier (by omega) found⟩
      · obtain ⟨foundK, s₀, s₀₁, reached₀, arrived₀, taken⟩ := takes
        obtain rfl : log = call := Option.some.inj (found.symm.trans foundK)
        obtain rfl : s = s₀ := Except.ok.inj (reached.symm.trans reached₀)
        obtain rfl : s₁ = s₀₁ := Except.ok.inj (arrived.symm.trans arrived₀)
        exact absurd ⟨taken, isCall⟩ notCall
  by_cases taken : Taken log s₁
  · have takes : Takes origin logs n log := ⟨found, s, s₁, reached, arrived, taken⟩
    have free : s₁.callGasTracking = OrdMap.empty := by
      rcases tracked₁ with ⟨-, empty⟩ | ⟨c, -, one, -⟩
      · exact empty
      · rw [taken.2.1] at one
        cases one
    rcases @extractOp_taken n log s₁ possible taken with ⟨-, s₂, answer, opens⟩ | ⟨-, failure, failed, -⟩
    · obtain rfl : s' = s₂ := Except.ok.inj (extracted.symm.trans answer)
      unfold Opens at opens
      by_cases isCall : log.op = .call
      · rw [if_pos isCall] at opens
        obtain ⟨i, g, one, tracking⟩ := opens
        rw [free] at tracking
        refine ⟨Or.inr ⟨(log.depth, i), g, one, tracking⟩, ?_, ?_⟩
        · intro c member
          rw [one] at member
          rw [List.mem_singleton.mp member]
          exact ⟨n, log, by omega, takes, isCall, rfl, fun m later after before => by omega⟩
        · intro k call low takesK isCallK since
          rcases Nat.lt_succ_iff_lt_or_eq.mp low with earlier | rfl
          · -- An older call still open would have kept this step from being taken.
            obtain ⟨c, member, depth⟩ := tracks.kept k call earlier takesK isCallK
              (fun m later after before => since m later after (by omega))
            have still : c ∈ s₁.callStack := by
              rw [survives]
              exact ⟨member, depth ▸ since n log earlier (by omega) found⟩
            rw [taken.2.1] at still
            cases still
          · obtain rfl : log = call := Option.some.inj (found.symm.trans takesK.1)
            exact ⟨(log.depth, i), by rw [one]; exact List.mem_cons_self, rfl⟩
      · rw [if_neg isCall] at opens
        refine untouched (Or.inl ⟨opens.1, opens.2.trans free⟩) (opens.1.trans taken.2.1.symm) ?_
        exact fun both => isCall both.2
    · rw [extracted] at failed
      cases failed
  · obtain ⟨s₂, answer, calls₂, tracking₂⟩ := @extractOp_untaken n log s₁ taken
    obtain rfl : s' = s₂ := Except.ok.inj (extracted.symm.trans answer)
    apply untouched ?_ calls₂ (fun both => taken both.1)
    unfold Tracked
    rw [calls₂, tracking₂]
    exact tracked₁

/-! ### A create being settled -/

/-- While a create is open no call is, and the loop looks at the create's own depth. -/
def Exclusive (s : Extracting) : Prop :=
  ∀ c, s.pendingCreate = some c → s.callStack = [] ∧ s.targetDepth = c.1

theorem noteEntry_pending (log : StructLog) (s : Extracting) :
    (s.noteEntry log).pendingCreate = s.pendingCreate := by
  unfold noteEntry
  split
  · rfl
  · dsimp only
    split
    · split <;> rfl
    · rfl

theorem exitCalls_pending (log : StructLog) (calls : List (UInt64 × Nat)) (s : Extracting) :
    (exitCalls log calls s).pendingCreate = s.pendingCreate := by
  induction calls generalizing s with
  | nil => rfl
  | cons call rest ih =>
    unfold exitCalls
    split
    · split
      · exact ih _
      · exact ih s
    · rfl

/-- A create stays open only under deeper steps. -/
theorem settleCreate_pending (settled : s.settleCreate log = .ok s') {c : UInt64 × UInt64}
    (pending : s'.pendingCreate = some c) : s.pendingCreate = some c ∧ c.1 < log.depth := by
  unfold settleCreate at settled
  split at settled
  · rename_i none
    obtain rfl := Except.ok.inj settled
    rw [none] at pending
    cases pending
  · rename_i createDepth gas here
    split at settled
    · split at settled
      · cases settled
      · obtain rfl := Except.ok.inj settled
        cases pending
    · rename_i deep
      obtain rfl := Except.ok.inj settled
      rw [here] at pending
      cases pending
      exact ⟨here, UInt64.not_le.mp deep⟩

theorem Exclusive.arrive (exclusive : Exclusive s) (arrived : s.arrive origin log = .ok s₁) {c : UInt64 × UInt64}
    (pending : s₁.pendingCreate = some c) : s₁.callStack = [] ∧ s₁.targetDepth = c.1 ∧ c.1 < log.depth := by
  unfold Extracting.arrive at arrived
  obtain ⟨s₂, settled, arrived⟩ := Outcome.bind_ok arrived
  obtain rfl := Except.ok.inj arrived
  have noted := same_noteEntry log s
  have settledSame := same_settleCreate settled
  obtain ⟨r, reentry⟩ := detectReentry_eq origin log s₂
  rw [reentry] at pending ⊢
  have pending₂ : s₂.pendingCreate = some c := by
    unfold stepUp at pending
    split at pending
    · exact (exitCalls_pending log s₂.callStack { s₂ with reentered := r }).symm.trans pending
    · exact pending
  obtain ⟨old, deep⟩ := settleCreate_pending settled pending₂
  obtain ⟨calls, target⟩ := exclusive c ((noteEntry_pending log s).symm.trans old)
  have target₂ : s₂.targetDepth = c.1 := (settledSame.target.trans noted.target).trans target
  unfold stepUp
  rw [if_neg (show ¬log.depth < ({ s₂ with reentered := r } : Extracting).targetDepth from ?_)]
  · exact ⟨(settledSame.calls.trans noted.calls).trans calls, target₂, deep⟩
  · show ¬log.depth < s₂.targetDepth
    rw [target₂, UInt64.not_lt]
    exact UInt64.le_of_lt deep

theorem Exclusive.step (exclusive : Exclusive s) (stepped : s.step origin n log = .ok s') : Exclusive s' := by
  rw [step_eq] at stepped
  obtain ⟨s₁, arrived, extracted⟩ := Outcome.bind_ok stepped
  have settled : log.depth = s₁.targetDepth → s₁.pendingCreate = none := by
    intro here
    cases pending : s₁.pendingCreate with
    | none => rfl
    | some c =>
      obtain ⟨-, target, deep⟩ := exclusive.arrive arrived pending
      rw [here, target] at deep
      exact absurd deep (UInt64.lt_irrefl _)
  intro c pending
  unfold extractOp at extracted
  split at extracted
  · rename_i here
    have none := settled here
    split at extracted
    · obtain rfl := Except.ok.inj extracted
      rw [show s₁.pendingCreate = some c from pending] at none
      cases none
    · split at extracted
      · rename_i kind
        obtain ⟨-, free⟩ := Bool.and_eq_true_iff.mp kind
        have free : s₁.callStack = [] := by simpa using free
        obtain ⟨⟨ops, skipped⟩, -, extracted⟩ := Outcome.bind_ok extracted
        -- Only a create leaves one open, and it does so at the depth the loop looks at.
        have opens : s'.pendingCreate = s₁.pendingCreate ∨
            s'.pendingCreate = some (log.depth, log.gas) ∧ s'.callStack = [] ∧ s'.targetDepth = log.depth := by
          dsimp only at extracted
          split at extracted
          · exact Or.inl (Except.ok.inj extracted ▸ rfl)
          · split at extracted
            · split at extracted <;> obtain rfl := Except.ok.inj extracted
              · exact Or.inl rfl
              · exact Or.inr ⟨rfl, free, here.symm⟩
              · exact Or.inr ⟨rfl, free, here.symm⟩
              · exact Or.inl rfl
              · exact Or.inl rfl
            · exact Or.inl (Except.ok.inj extracted ▸ rfl)
        rcases opens with kept | ⟨opened, calls, target⟩
        · rw [kept, none] at pending
          cases pending
        · rw [opened] at pending
          cases pending
          exact ⟨calls, target⟩
      · obtain rfl := Except.ok.inj extracted
        rw [pending] at none
        cases none
  · obtain rfl := Except.ok.inj extracted
    obtain ⟨calls, target, -⟩ := exclusive.arrive arrived pending
    exact ⟨calls, target⟩

/-! ### Whole runs -/

theorem invariants (short : logs.length < 2 ^ 63) (possible : ∀ log ∈ logs, log.Possible) :
    ∀ {n : Nat} {s : Extracting}, Reaches origin logs n s → n ≤ logs.length →
      Tracks origin logs n s ∧ Exclusive s := by
  intro n
  induction n with
  | zero =>
    intro s reached _
    rw [← show ({} : Extracting) = s from Except.ok.inj reached]
    exact ⟨tracks_start, fun c pending => by cases pending⟩
  | succ n ih =>
    intro s reached inside
    have found := List.getElem?_eq_getElem (show n < logs.length by omega)
    obtain ⟨s₀, before, stepped⟩ := Reaches.pred found reached
    obtain ⟨tracks, exclusive⟩ := ih before (by omega)
    have below := (floor_reaches short before (by omega)).below
    exact ⟨tracks.step below found (possible _ (List.getElem_mem _)) before stepped, exclusive.step stepped⟩

/-- A run fails at the first step that does. -/
theorem run_fails_iff (failure : Failure) : run origin logs 0 {} = .error failure ↔
    ∃ n s log, logs[n]? = some log ∧ Reaches origin logs n s ∧ s.step origin n log = .error failure := by
  constructor
  · intro failed
    -- Until the failure the state before each step exists.
    have here : ∀ n, n ≤ logs.length → (∃ s, Reaches origin logs n s) ∨
        ∃ m s log, logs[m]? = some log ∧ Reaches origin logs m s ∧ s.step origin m log = .error failure := by
      intro n
      induction n with
      | zero => exact fun _ => Or.inl ⟨{}, rfl⟩
      | succ n ih =>
        intro inside
        rcases ih (by omega) with ⟨s, reached⟩ | broken
        · have found := List.getElem?_eq_getElem (show n < logs.length by omega)
          cases stepped : s.step origin n logs[n] with
          | ok s' => exact Or.inl ⟨s', (reached.step found s').mpr stepped⟩
          | error failure' =>
            right
            refine ⟨n, s, logs[n], found, reached, ?_⟩
            rw [← List.take_append_drop n logs, run_append, show run origin (logs.take n) 0 {} = .ok s from reached,
              Outcome.ok_bind, List.length_take, Nat.min_eq_left (by omega), Nat.zero_add,
              List.drop_eq_getElem_cons (show n < logs.length by omega), run, stepped] at failed
            rw [stepped, Except.error.inj failed]
        · exact Or.inr broken
    rcases here logs.length (Nat.le_refl _) with ⟨s, reached⟩ | broken
    · unfold Reaches at reached
      rw [List.take_length, failed] at reached
      cases reached
    · exact broken
  · rintro ⟨n, s, log, found, reached, stepped⟩
    obtain ⟨inside, rfl⟩ := List.getElem?_eq_some_iff.mp found
    rw [← List.take_append_drop n logs, run_append, show run origin (logs.take n) 0 {} = .ok s from reached,
      Outcome.ok_bind, List.length_take, Nat.min_eq_left (by omega), Nat.zero_add,
      List.drop_eq_getElem_cons inside, run, stepped]
    rfl

/-- A call left open keeps the loop from failing: it takes no further step and no create is open. -/
theorem step_under_call (exclusive : Exclusive s) (tracked : Tracked s) (below : ∀ c ∈ s.callStack, c.1 < s.targetDepth)
    {c : UInt64 × Nat} (member : c ∈ s.callStack) (deep : c.1 < log.depth) : ∃ s', s.step origin n log = .ok s' := by
  have none : s.pendingCreate = none := by
    cases pending : s.pendingCreate with
    | none => rfl
    | some c' =>
      rw [(exclusive c' pending).1] at member
      cases member
  have settled : (s.noteEntry log).settleCreate log = .ok (s.noteEntry log) := by
    unfold settleCreate
    rw [noteEntry_pending, none]
  have arrives : ∃ s₁, s.arrive origin log = .ok s₁ := by
    unfold Extracting.arrive
    rw [settled]
    exact ⟨_, rfl⟩
  obtain ⟨s₁, arrived⟩ := arrives
  obtain ⟨-, calls⟩ := tracked.arrive below arrived
  have still : s₁.callStack ≠ [] := by
    rcases tracked with ⟨empty, -⟩ | ⟨c', -, one, -⟩
    · rw [empty] at member
      cases member
    · rw [one] at member calls
      obtain rfl := List.mem_singleton.mp member
      rw [calls, List.dropWhile_cons_of_neg (by simpa using deep)]
      exact List.cons_ne_nil _ _
  obtain ⟨s', answer, -⟩ := @extractOp_untaken n log s₁ (fun taken => still taken.2.1)
  refine ⟨s', ?_⟩
  rw [step_eq, arrived]
  exact answer

theorem reaches_last {last : Extracting} (answer : run origin logs 0 {} = .ok last) :
    Reaches origin logs logs.length last := by
  unfold Reaches
  rwa [List.take_length]

theorem reaches_earlier {m : Nat} (reached : Reaches origin logs n s) (before : m ≤ n) :
    ∃ s', Reaches origin logs m s' := by
  have shorter : (logs.take n).take m = logs.take m := by rw [List.take_take, Nat.min_eq_left before]
  obtain ⟨s', reached'⟩ := reaches_of_run (show run origin (logs.take n) 0 {} = .ok s from reached) m
  unfold Reaches at reached'
  rw [shorter] at reached'
  exact ⟨s', reached'⟩

/-- A loop that panics does so at a step out of range. -/
theorem takes_of_run_panics (possible : ∀ log ∈ logs, log.Possible) (panics : Panics (run origin logs 0 {})) :
    ∃ n log, Takes origin logs n log ∧ ¬log.InRange := by
  obtain ⟨failure, failed, panics⟩ := panics
  obtain ⟨n, s, log, found, reached, stepped⟩ := (run_fails_iff failure).mp failed
  rw [step_eq] at stepped
  cases arrived : s.arrive origin log with
  | error failure =>
    rw [arrived] at stepped
    obtain rfl := Except.error.inj stepped
    rw [arrive_fails arrived] at panics
    cases panics
  | ok s₁ =>
    rw [arrived, Outcome.ok_bind] at stepped
    by_cases taken : Taken log s₁
    · refine ⟨n, log, ⟨found, s, s₁, reached, arrived, taken⟩, ?_⟩
      rcases @extractOp_taken n log s₁ (possible log (List.mem_of_getElem? found)) taken with
        ⟨-, s', answers, -⟩ | ⟨outside, -⟩
      · rw [stepped] at answers
        cases answers
      · exact outside
    · obtain ⟨s', answers, -⟩ := @extractOp_untaken n log s₁ taken
      rw [stepped] at answers
      cases answers

theorem run_panics_of_takes (possible : ∀ log ∈ logs, log.Possible) (takes : Takes origin logs n log)
    (outside : ¬log.InRange) : Panics (run origin logs 0 {}) := by
  obtain ⟨found, s, s₁, reached, arrived, taken⟩ := takes
  rcases @extractOp_taken n log s₁ (possible log (List.mem_of_getElem? found)) taken with
    ⟨inRange, -⟩ | ⟨-, failure, failed, panics⟩
  · exact absurd inRange outside
  · refine ⟨failure, (run_fails_iff failure).mpr ⟨n, s, log, found, reached, ?_⟩, panics⟩
    rw [step_eq, arrived]
    exact failed

/-- An extracted call that is never resumed is still open at every later step. -/
theorem unresumed_open (short : logs.length < 2 ^ 63) (possible : ∀ log ∈ logs, log.Possible)
    (takes : Takes origin logs n log) (isCall : log.op = .call) (unresumed : ¬Resumed logs n log) {m : Nat}
    (after : n < m) (reached : Reaches origin logs m s) (inside : m ≤ logs.length) :
    ∃ c ∈ s.callStack, c.1 = log.depth := by
  obtain ⟨tracks, -⟩ := invariants short possible reached inside
  apply tracks.kept n log after takes isCall
  intro k later low _ found
  by_contra shallow
  exact unresumed ⟨k, later, low, found, UInt64.not_lt.mp shallow⟩

/-- Nothing fails once such a call is extracted. -/
theorem run_answers_of_unresumed (short : logs.length < 2 ^ 63) (possible : ∀ log ∈ logs, log.Possible)
    (takes : Takes origin logs n log) (inRange : log.InRange) (isCall : log.op = .call)
    (unresumed : ¬Resumed logs n log) : ∃ last, run origin logs 0 {} = .ok last := by
  cases result : run origin logs 0 {} with
  | ok last => exact ⟨last, rfl⟩
  | error failure =>
    obtain ⟨m, sm, logm, foundM, reachedM, steppedM⟩ := (run_fails_iff failure).mp result
    have insideM := (List.getElem?_eq_some_iff.mp foundM).1
    have openAfter := fun after => unresumed_open short possible takes isCall unresumed after reachedM (Nat.le_of_lt insideM)
    obtain ⟨found, s, s₁, reached, arrived, taken⟩ := takes
    rcases Nat.lt_trichotomy m n with before | rfl | after
    · obtain ⟨s', reached'⟩ := reaches_earlier reached (show m + 1 ≤ n from before)
      rw [reachedM.step foundM s', steppedM] at reached'
      cases reached'
    · obtain rfl : log = logm := Option.some.inj (found.symm.trans foundM)
      obtain rfl : s = sm := Except.ok.inj (reached.symm.trans reachedM)
      rw [step_eq, arrived, Outcome.ok_bind] at steppedM
      rcases @extractOp_taken m log s₁ (possible log (List.mem_of_getElem? found)) taken with
        ⟨-, s', answers, -⟩ | ⟨outside, -⟩
      · rw [steppedM] at answers
        cases answers
      · exact absurd inRange outside
    · obtain ⟨c, member, depth⟩ := openAfter after
      obtain ⟨tracks, exclusive⟩ := invariants short possible reachedM (Nat.le_of_lt insideM)
      have below := (floor_reaches short reachedM (Nat.le_of_lt insideM)).below
      have deep : c.1 < logm.depth := by
        rw [depth]
        by_contra shallow
        exact unresumed ⟨m, logm, after, foundM, UInt64.not_lt.mp shallow⟩
      obtain ⟨s', steps⟩ := @step_under_call origin m logm sm exclusive tracks.tracked below c member deep
      rw [steppedM] at steps
      cases steps

/-- A call open at the end is the panic over remaining calls. -/
theorem panics_of_open (trace : DefaultFrame) {last : Extracting}
    (answer : run origin trace.structLogs 0 {} = .ok last) (tracked : Tracked last) (exclusive : Exclusive last)
    {c : UInt64 × Nat} (member : c ∈ last.callStack) : Panics (computeStateUpdates trace origin) := by
  have free : last.pendingCreate = none := by
    cases pending : last.pendingCreate with
    | none => rfl
    | some c' =>
      rw [(exclusive c' pending).1] at member
      cases member
  rcases tracked with ⟨empty, -⟩ | ⟨c', g, -, single⟩
  · rw [empty] at member
    cases member
  · refine ⟨.remainingCalls last.callGasTracking.entries.length, ?_, rfl⟩
    unfold computeStateUpdates
    rw [answer, Outcome.ok_bind, free, if_pos]
    rw [single]
    rfl

theorem open_of_panics (trace : DefaultFrame) {last : Extracting}
    (answer : run origin trace.structLogs 0 {} = .ok last) (tracked : Tracked last)
    (panics : Panics (computeStateUpdates trace origin)) : ∃ c, c ∈ last.callStack := by
  obtain ⟨failure, failed, panics⟩ := panics
  unfold computeStateUpdates at failed
  rw [answer, Outcome.ok_bind] at failed
  split at failed
  · cases failed
    cases panics
  · split at failed
    · rename_i remaining
      rcases tracked with ⟨-, empty⟩ | ⟨c, -, one, -⟩
      · rw [empty] at remaining
        cases remaining
      · exact ⟨c, by rw [one]; exact List.mem_cons_self⟩
    · cases failed

/-- The extractor panics exactly when a step it decodes is out of range or a call it extracts is never resumed. -/
theorem panics_iff (trace : DefaultFrame) (possible : ∀ log ∈ trace.structLogs, log.Possible) :
    Panics (computeStateUpdates trace origin) ↔ ∃ n log, Takes origin trace.structLogs n log ∧
      (¬log.InRange ∨ log.op = .call ∧ ¬Resumed trace.structLogs n log) := by
  constructor
  · intro panics
    cases answer : run origin trace.structLogs 0 {} with
    | error failure =>
      have loop : Panics (run origin trace.structLogs 0 {}) := by
        obtain ⟨failure', failed, panics⟩ := panics
        unfold computeStateUpdates at failed
        rw [answer] at failed
        cases failed
        exact ⟨failure, answer, panics⟩
      obtain ⟨n, log, takes, outside⟩ := takes_of_run_panics possible loop
      exact ⟨n, log, takes, Or.inl outside⟩
    | ok last =>
      obtain ⟨tracks, -⟩ := invariants trace.bounded possible (reaches_last answer) (Nat.le_refl _)
      obtain ⟨c, member⟩ := open_of_panics trace answer tracks.tracked panics
      obtain ⟨n, log, -, takes, isCall, -, since⟩ := tracks.opened c member
      refine ⟨n, log, takes, Or.inr ⟨isCall, ?_⟩⟩
      rintro ⟨m, later, after, found, shallow⟩
      have inside := (List.getElem?_eq_some_iff.mp found).1
      exact absurd shallow (UInt64.not_le.mpr (since m later after inside found))
  · rintro ⟨n, log, takes, why⟩
    by_cases inRange : log.InRange
    · obtain ⟨isCall, unresumed⟩ := why.resolve_left (not_not_intro inRange)
      obtain ⟨last, answer⟩ := run_answers_of_unresumed trace.bounded possible takes inRange isCall unresumed
      have reached := reaches_last answer
      have inside := (List.getElem?_eq_some_iff.mp takes.1).1
      obtain ⟨c, member, -⟩ := unresumed_open trace.bounded possible takes isCall unresumed inside reached
        (Nat.le_refl _)
      obtain ⟨tracks, exclusive⟩ := invariants trace.bounded possible reached (Nat.le_refl _)
      exact panics_of_open trace answer tracks.tracked exclusive member
    · obtain ⟨failure, failed, panics⟩ := run_panics_of_takes possible takes inRange
      refine ⟨failure, ?_, panics⟩
      unfold computeStateUpdates
      rw [failed]
      rfl

end Extracting

end GasAnalyzer
