import GasAnalyzer.Legacy.Recursion

/-!
# The legacy extractor is a tree recursion

Over the flattening of a call tree the extractor adds, step by step of the root's closure, what `stepTally`
says, and answers exactly when every step it decodes decodes.
-/

namespace GasAnalyzer

namespace CallTree

/-- No create of the closure fails. -/
def CreatesDeploy : CallTree → Prop
  | done => True
  | step log rest => (log.op.isCreate = true → rest.succeeds = true) ∧ rest.CreatesDeploy
  | enter call body rest => (call.op.isCreate = true → rest.succeeds = true) ∧
      (call.op.isDelegate = true → body.CreatesDeploy) ∧ rest.CreatesDeploy

/-- Every step of the closure that the extractor decodes, decodes. -/
def Decodable (n : Nat) (t : CallTree) : Prop :=
  ∀ p ∈ t.closure always n, Extracting.extracts p.2.op = true → p.2.Decodes

/-- What the closure of a tree adds to an extraction. -/
def tally : Nat → CallTree → Extracting.Tally
  | _, done => {}
  | n, step log rest => (Extracting.stepTally n ⟨log, none, rest.startGas.getD 0⟩).add (rest.tally (n + 1))
  | n, enter call body rest => (Extracting.stepTally n ⟨call, body.startGas, rest.startGas.getD 0⟩).add
      ((if call.op.isDelegate then body.tally (n + 1) else {}).add (rest.tally (n + 1 + body.size)))

theorem decodable_step {n : Nat} {log : StructLog} {rest : CallTree} :
    (step log rest).Decodable n ↔
      (Extracting.extracts log.op = true → log.Decodes) ∧ rest.Decodable (n + 1) := by
  simp [Decodable, closure]

theorem decodable_enter {n : Nat} {call : StructLog} {body rest : CallTree} :
    (enter call body rest).Decodable n ↔ (Extracting.extracts call.op = true → call.Decodes) ∧
      (call.op.isDelegate = true → body.Decodable (n + 1)) ∧ rest.Decodable (n + 1 + body.size) := by
  unfold Decodable
  rw [closure]
  cases call.op.isDelegate <;> simp [always, or_imp, forall_and]

end CallTree

namespace Extracting

variable (origin : Option Address) {n d : Nat} {log next : StructLog} {s s' : Extracting}

theorem Extracted.adds {s₁ : Extracting} (extracted : Extracted n log s s₁) :
    Adds { ops := opsOf n log, sstoreGas := if log.op = .sstore then log.gasCost else 0 } s s₁ := by
  obtain ⟨callGas, calleeGas, createGas, skipped⟩ := extracted.same
  refine ⟨extracted.ops, ?_, ?_, ?_, extracted.sstoreGas, skipped⟩
  · simp [callGas]
  · simp [calleeGas]
  · simp [createGas]

theorem Adds.moved {a : Tally} (adds : Adds a s s') (t : UInt64) (r : Bool) :
    Adds a s { s' with targetDepth := t, reentered := r } :=
  ⟨adds.ops, adds.callGas, adds.calleeGas, adds.createGas, adds.sstoreGas, adds.skipped⟩

/-- What the step after an extracted `CALL` notes: the gas its callee starts with, if it opened a frame. -/
theorem Extracted.noted {s₁ : Extracting} (depth : log.depth.toNat = d)
    (extracted : Extracted n log s s₁) (calls : log.op = .call) (small : d + 1 < 2 ^ 64) (next : StructLog)
    (entry : Option UInt64)
    (noted : if next.depth.toNat = d + 1 then entry = some next.gas else entry = none) :
    InCall d log entry (s₁.noteEntry next) ∧ Adds {} s₁ (s₁.noteEntry next) := by
  obtain ⟨stack, awaiting, tracking⟩ := (if_pos calls ▸ extracted.calls :)
  have target : d < s₁.targetDepth.toNat := by
    rw [extracted.target, if_pos (Or.inl calls), UInt64.toNat_add]
    show d < (log.depth.toNat + 1) % 2 ^ 64
    omega
  have create : s₁.pendingCreate = none := by
    rw [extracted.create, calls]
    rfl
  have deeper : next.depth = log.depth + 1 ↔ next.depth.toNat = d + 1 := by
    rw [← UInt64.toNat_inj, UInt64.toNat_add, depth]
    show _ = (d + 1) % 2 ^ 64 ↔ _
    rw [Nat.mod_eq_of_lt small]
  unfold noteEntry
  rw [awaiting]
  by_cases opened : next.depth.toNat = d + 1
  · rw [if_pos opened] at noted
    have found : s₁.callGasTracking.get s₁.ops.length = some ⟨log.gas, log.gasCost, none⟩ := by
      rw [tracking, OrdMap.get_insert, if_pos rfl]
    simp only [if_pos (deeper.mpr opened), found]
    refine ⟨⟨target, depth, ⟨_, stack, ?_⟩, create⟩, ?_⟩
    · rw [noted]
      apply OrdMap.ext_get
      intro k
      rw [tracking]
      simp only [OrdMap.get_insert]
      split <;> simp_all
    · constructor <;> simp
  · rw [if_neg opened] at noted
    simp only [if_neg (fun same => opened (deeper.mp same))]
    refine ⟨⟨target, depth, ⟨_, stack, ?_⟩, create⟩, ?_⟩
    · rw [noted]
      exact tracking
    · constructor <;> simp

theorem Extracted.ready {s₁ : Extracting} (ready : Ready d s) (extracted : Extracted n log s s₁)
    (notCall : log.op ≠ .call) (notDelegate : log.op.isDelegate = false) (notCreate : log.op.isCreate = false) :
    Ready d s₁ := by
  obtain ⟨calls, awaiting, tracking⟩ := (if_neg notCall ▸ extracted.calls :)
  refine ⟨?_, calls, tracking, awaiting, ?_⟩
  · rw [extracted.target, if_neg (by simp [notCall, notDelegate])]
    exact ready.target
  · rw [extracted.create, notCreate]
    rfl

theorem Ready.inert (ready : Ready d s) : Inert d s := by
  refine ⟨ready.awaiting, ?_, Or.inl ⟨ready.calls, ready.target⟩⟩
  intro c g pending
  rw [ready.create] at pending
  cases pending

/-- What runs below an extracted `CALL` changes nothing, and the step that resumes accounts it. -/
theorem Extracted.called {s₁ : Extracting} (depth : log.depth.toNat = d) (extracted : Extracted n log s s₁)
    (calls : log.op = .call) (small : d + 1 < 2 ^ 64) (body : List StructLog)
    (deep : ∀ l ∈ body, d < l.depth.toNat) (shallow : ∀ l ∈ body, l.depth.toNat + 1 < 2 ^ 64)
    (first : ∀ l, body.head? = some l → l.depth.toNat = d + 1) (back : next.depth.toNat = d) :
    ∃ s₂ s₃, run origin body (n + 1) s₁ = .ok s₂ ∧ s₂.arrive origin next = .ok s₃ ∧ Ready d s₃ ∧
      Adds (stepTally n ⟨log, body.head?.map StructLog.gas, next.gas⟩) s s₃ := by
  have whole : ∀ {entry : Option UInt64} {s₂ s₃ : Extracting}, Adds {} s₁ s₂ →
      Adds { callGas := (CallTree.Record.mk log entry next.gas).gasUsed
             calleeGas := (CallTree.Record.mk log entry next.gas).calleeGas } s₂ s₃ →
      Adds (stepTally n ⟨log, entry, next.gas⟩) s s₃ := by
    intro entry s₂ s₃ between settled
    have adds := extracted.adds.trans (between.trans settled)
    have same : Tally.add { ops := opsOf n log, sstoreGas := if log.op = .sstore then log.gasCost else 0 }
        (Tally.add {} { callGas := (CallTree.Record.mk log entry next.gas).gasUsed
                        calleeGas := (CallTree.Record.mk log entry next.gas).calleeGas }) =
        stepTally n ⟨log, entry, next.gas⟩ := by
      ext <;> simp [Tally.add, stepTally, calls, Opcode.isCreate]
    exact same ▸ adds
  cases body with
  | nil =>
    obtain ⟨inCall, between⟩ := extracted.noted depth calls small next none
      (by rw [if_neg (by omega)])
    obtain ⟨s₃, arrived, ready, settled⟩ := inCall.back origin (noteEntry_awaiting next s₁) back
    rw [arrive_noteEntry] at arrived
    exact ⟨s₁, s₃, rfl, arrived, ready, whole between settled⟩
  | cons l rest =>
    obtain ⟨inCall, between⟩ := extracted.noted depth calls small l (some l.gas)
      (by rw [if_pos (first l rfl)])
    obtain ⟨t, r, ran, inert⟩ := Inert.run origin (l :: rest) deep shallow (n + 1) _
      (inCall.inert (noteEntry_awaiting l s₁))
    have ran' : run origin (l :: rest) (n + 1) s₁ =
        .ok { s₁.noteEntry l with targetDepth := t, reentered := r } := by
      rw [← ran]
      unfold run
      rw [step_noteEntry]
    have still : InCall d log (some l.gas) { s₁.noteEntry l with targetDepth := t, reentered := r } := by
      refine ⟨?_, inCall.made, inCall.calls, inCall.create⟩
      obtain ⟨i, one, -⟩ := inCall.calls
      rcases inert.calls with ⟨none, -⟩ | ⟨-, -, -, -, target⟩
      · rw [show _ = _ from none] at one
        cases one
      · exact target
    obtain ⟨s₃, arrived, ready, settled⟩ := still.back origin (noteEntry_awaiting l s₁) back
    exact ⟨_, s₃, ran', arrived, ready, whole (between.moved t r) settled⟩

/-- The state when the caller of an extracted create resumes. -/
structure Creating (d : Nat) (log : StructLog) (s : Extracting) : Prop where
  target : s.targetDepth.toNat = d
  calls : s.callStack = []
  tracking : s.callGasTracking = OrdMap.empty
  awaiting : s.awaitingEntry = none
  create : s.pendingCreate = some (log.depth, log.gas)

/-- Neither does what runs below an extracted create. -/
theorem Extracted.creating {s₁ : Extracting} (ready : Ready d s) (depth : log.depth.toNat = d)
    (extracted : Extracted n log s s₁) (creates : log.op.isCreate = true) (body : List StructLog)
    (deep : ∀ l ∈ body, d < l.depth.toNat) (shallow : ∀ l ∈ body, l.depth.toNat + 1 < 2 ^ 64) :
    ∃ s₂, run origin body (n + 1) s₁ = .ok s₂ ∧ Creating d log s₂ ∧
      Adds { ops := opsOf n log, sstoreGas := if log.op = .sstore then log.gasCost else 0 } s s₂ := by
  have notCall : log.op ≠ .call := by
    intro op
    rw [op] at creates
    cases creates
  have notDelegate : log.op.isDelegate = false := by
    cases op : log.op <;> simp_all [Opcode.isCreate, Opcode.isDelegate]
  obtain ⟨calls, awaiting, tracking⟩ := (if_neg notCall ▸ extracted.calls :)
  have target : s₁.targetDepth.toNat = d := by
    rw [extracted.target, if_neg (by simp [notCall, notDelegate])]
    exact ready.target
  have create : s₁.pendingCreate = some (log.depth, log.gas) := by
    rw [extracted.create, creates]
    rfl
  have inert : Inert d s₁ := by
    refine ⟨awaiting, ?_, Or.inl ⟨calls, target⟩⟩
    intro c g pending
    rw [create] at pending
    cases pending
    exact depth
  obtain ⟨t, r, ran, inert'⟩ := Inert.run origin body deep shallow (n + 1) s₁ inert
  have still : t.toNat = d := by
    rcases inert'.calls with ⟨-, same⟩ | ⟨_, _, one, -, -⟩
    · exact same
    · rw [show _ = _ from calls] at one
      cases one
  exact ⟨_, ran, ⟨still, calls, tracking, awaiting, create⟩, extracted.adds.moved t r⟩

theorem stepTally_create (r : CallTree.Record) (creates : r.log.op.isCreate = true) :
    Tally.add { ops := opsOf n r.log, sstoreGas := if r.log.op = .sstore then r.log.gasCost else 0 }
      { createGas := r.gasUsed } = stepTally n r := by
  have notCall : r.log.op ≠ .call := by
    intro op
    rw [op] at creates
    cases creates
  ext <;> simp [Tally.add, stepTally, notCall, creates]

/-- Every other step leaves the state ready. -/
theorem Extracted.passed {s₁ : Extracting} (ready : Ready d s) (extracted : Extracted n log s s₁)
    (notCall : log.op ≠ .call) (notDelegate : log.op.isDelegate = false) (notCreate : log.op.isCreate = false)
    (body : List StructLog) (deep : ∀ l ∈ body, d < l.depth.toNat)
    (shallow : ∀ l ∈ body, l.depth.toNat + 1 < 2 ^ 64) (entry : Option UInt64) (gas : UInt64) :
    ∃ s₂, run origin body (n + 1) s₁ = .ok s₂ ∧ Ready d s₂ ∧ Adds (stepTally n ⟨log, entry, gas⟩) s s₂ := by
  have ready' := extracted.ready ready notCall notDelegate notCreate
  obtain ⟨t, r, ran, inert⟩ := Inert.run origin body deep shallow (n + 1) s₁ ready'.inert
  have still : t.toNat = d := by
    rcases inert.calls with ⟨-, same⟩ | ⟨_, _, one, -, -⟩
    · exact same
    · rw [show _ = _ from ready'.calls] at one
      cases one
  refine ⟨_, ran, ⟨still, ready'.calls, ready'.tracking, ready'.awaiting, ready'.create⟩, ?_⟩
  have adds := extracted.adds.moved t r
  have same : ({ ops := opsOf n log, sstoreGas := if log.op = .sstore then log.gasCost else 0 } : Tally) =
      stepTally n ⟨log, entry, gas⟩ := by
    ext <;> simp [stepTally, notCall, notCreate]
  exact same ▸ adds

/-! ### Whole trees -/

/-- Running `t` from `s`, its first step finds the ready state `s₁`. -/
structure Lands (origin : Option Address) (d : Nat) (t : CallTree) (s s₁ : Extracting) : Prop where
  arrived : ∀ log, t.head? = some log → s.arrive origin log = .ok s₁
  ended : t.head? = none → s₁ = s
  ready : Ready d s₁

theorem Ready.lands {t : CallTree} (ready : Ready d s) (wf : t.WellFormed d) (origin : Option Address) :
    ∃ s₁, Lands origin d t s s₁ ∧ Adds {} s s₁ := by
  cases head : t.head? with
  | none =>
    refine ⟨s, ⟨?_, fun _ => rfl, ready⟩, Adds.nothing s⟩
    intro log found
    rw [head] at found
    cases found
  | some log =>
    obtain ⟨r, arrived⟩ := ready.arrive origin (wf.head head).depth
    refine ⟨_, ⟨?_, ?_, ready.reenter r⟩, (Adds.nothing s).reenter r⟩
    · intro log' found
      rw [head] at found
      cases found
      exact arrived
    · intro none
      rw [head] at none
      cases none

theorem lands_some {t : CallTree} {s₁ : Extracting} (head : t.head? = some next)
    (arrived : s.arrive origin next = .ok s₁) (ready : Ready d s₁) : Lands origin d t s s₁ := by
  refine ⟨?_, ?_, ready⟩
  · intro log found
    rw [head] at found
    cases found
    exact arrived
  · intro none
    rw [head] at none
    cases none

/-- The first step of a tree is extracted exactly when it decodes. -/
theorem step_decides {s₁ : Extracting} (arrived : s.arrive origin log = .ok s₁) (ready : Ready d s₁)
    (carries : CallTree.Carries d log) :
    Outcome.Decides (extracts log.op = true → log.Decodes) (Extracted n log s₁) (s.step origin n log) := by
  rw [step_eq, arrived, Outcome.ok_bind]
  constructor
  · intro decodes
    exact ready.extracted carries.depth carries.memory decodes
  · intro broken
    cases answer : s₁.extractOp n log with
    | error failure => exact ⟨failure, rfl⟩
    | ok s₂ => exact absurd (ready.decodes carries.depth answer) broken

/-- A step of the closure and all that runs below it when it is no delegate's: the extraction goes on where the
caller resumes, unless it was a create that failed. -/
theorem Extracted.resumes {s₁ : Extracting} {rest : CallTree} (ready : Ready d s) (depth : log.depth.toNat = d)
    (extracted : Extracted n log s s₁) (plain : log.op.isDelegate = false) (small : d + 1 < 2 ^ 64)
    (body : List StructLog) (deep : ∀ l ∈ body, d < l.depth.toNat)
    (shallow : ∀ l ∈ body, l.depth.toNat + 1 < 2 ^ 64)
    (first : ∀ l, body.head? = some l → l.depth.toNat = d + 1) (head : rest.head? = some next)
    (back : next.depth.toNat = d) :
    ∃ s₂, run origin body (n + 1) s₁ = .ok s₂ ∧
      ((log.op.isCreate = true → rest.succeeds = true) → ∃ s₃, s₂.arrive origin next = .ok s₃ ∧ Ready d s₃ ∧
        Adds (stepTally n ⟨log, body.head?.map StructLog.gas, next.gas⟩) s s₃) ∧
      (¬(log.op.isCreate = true → rest.succeeds = true) → ∃ failure, s₂.arrive origin next = .error failure) := by
  by_cases calls : log.op = .call
  · obtain ⟨s₂, s₃, ran, arrived, ready', adds⟩ :=
      extracted.called origin depth calls small body deep shallow first back
    refine ⟨s₂, ran, fun _ => ⟨s₃, arrived, ready', adds⟩, fun failed => absurd ?_ failed⟩
    intro create
    rw [calls] at create
    cases create
  · by_cases creates : log.op.isCreate = true
    · obtain ⟨s₂, ran, creating, adds⟩ := extracted.creating origin ready depth creates body deep shallow
      have same : next.depth = log.depth := UInt64.toNat_inj.mp (back.trans depth.symm)
      refine ⟨s₂, ran, ?_, ?_⟩
      · intro deploys
        obtain ⟨s₃, arrived, ready', settled⟩ := create_back origin creating.target creating.calls
          creating.tracking creating.awaiting creating.create depth back
          (CallTree.succeeds_deployed (deploys creates) head) (body.head?.map StructLog.gas)
        refine ⟨s₃, arrived, ready', ?_⟩
        rw [← stepTally_create ⟨log, body.head?.map StructLog.gas, next.gas⟩ creates]
        exact adds.trans settled
      · intro failed
        apply create_fails origin creating.awaiting creating.create same
        by_contra deployed
        apply failed
        intro _
        exact CallTree.succeeds_of_deployed head (by simpa using deployed)
    · obtain ⟨s₂, ran, ready', adds⟩ := extracted.passed origin ready calls plain
        (by simpa using creates) body deep shallow (body.head?.map StructLog.gas) next.gas
      obtain ⟨r, arrived⟩ := ready'.arrive origin back
      refine ⟨s₂, ran, fun _ => ⟨_, arrived, ready'.reenter r, adds.reenter r⟩, fun failed => absurd ?_ failed⟩
      intro create
      exact absurd create creates

/-- A delegate step moves the target one deeper. -/
theorem Extracted.delegated {s₁ : Extracting} (depth : log.depth.toNat = d)
    (extracted : Extracted n log s s₁) (delegates : log.op.isDelegate = true) (small : d + 1 < 2 ^ 64) :
    Ready (d + 1) s₁ ∧ ∀ entry gas, Adds (stepTally n ⟨log, entry, gas⟩) s s₁ := by
  have notCall : log.op ≠ .call := by
    intro op
    rw [op] at delegates
    cases delegates
  have notCreate : log.op.isCreate = false := by
    cases op : log.op <;> simp_all [Opcode.isDelegate, Opcode.isCreate]
  obtain ⟨calls, awaiting, tracking⟩ := (if_neg notCall ▸ extracted.calls :)
  constructor
  · refine ⟨?_, calls, tracking, awaiting, ?_⟩
    · rw [extracted.target, if_pos (Or.inr delegates), UInt64.toNat_add, depth]
      exact Nat.mod_eq_of_lt small
    · rw [extracted.create, notCreate]
      rfl
  · intro entry gas
    have same : ({ ops := opsOf n log, sstoreGas := if log.op = .sstore then log.gasCost else 0 } : Tally) =
        stepTally n ⟨log, entry, gas⟩ := by
      ext <;> simp [stepTally, notCall, notCreate]
    exact same ▸ extracted.adds

/-- The state a tree's steps leave. -/
def After (n d : Nat) (t : CallTree) (s s' : Extracting) : Prop := Ready d s' ∧ Adds (t.tally n) s s'

theorem run_fails {rest : CallTree} {failure : Failure} (head : rest.head? = some next)
    (failed : s.arrive origin next = .error failure) : run origin rest.flatten n s = .error failure := by
  obtain ⟨more, flat⟩ := List.head?_eq_some_iff.mp ((CallTree.head?_flatten rest).trans head)
  rw [flat, run, step_eq, failed]
  rfl

/-- A step that opens no frame, and the landing on what follows. -/
theorem run_step {log : StructLog} {rest : CallTree} {s₁ : Extracting}
    (wf : (CallTree.step log rest).WellFormed d) (clean : log.errored = false) (small : d + 1 < 2 ^ 64)
    (ready : Ready d s) (extracted : Extracted n log s s₁) :
    ((log.op.isCreate = true → rest.succeeds = true) →
      ∃ s₂, Lands origin d rest s₁ s₂ ∧ Adds (stepTally n ⟨log, none, rest.startGas.getD 0⟩) s s₂) ∧
    (¬(log.op.isCreate = true → rest.succeeds = true) →
      ∃ failure, run origin rest.flatten (n + 1) s₁ = .error failure) := by
  obtain ⟨carries, resumes, tail⟩ := wf
  cases head : rest.head? with
  | none =>
    -- Nothing resumes here, so this was no call.
    have plain : log.op.opensFrame = false := by
      by_contra opens
      obtain ⟨next, -, found, -⟩ := CallTree.head?_of_outcome (resumes clean (by simpa using opens))
      rw [head] at found
      cases found
    have notCreate : log.op.isCreate = false := by
      cases op : log.op <;> simp_all [Opcode.isCreate, Opcode.opensFrame]
    refine ⟨fun _ => ?_, fun failed => absurd ?_ failed⟩
    · obtain ⟨s₂, ran, ready', adds⟩ := extracted.passed origin ready
        (by intro op; rw [op] at plain; cases plain)
        (by cases op : log.op <;> simp_all [Opcode.isDelegate, Opcode.opensFrame]) notCreate
        [] (by simp) (by simp) none (rest.startGas.getD 0)
      obtain rfl : s₁ = s₂ := Except.ok.inj ran
      exact ⟨s₁, ⟨by simp [head], fun _ => rfl, ready'⟩, adds⟩
    · intro create
      rw [notCreate] at create
      cases create
  | some next =>
    have back := (tail.head head).depth
    have gas : rest.startGas.getD 0 = next.gas := by simp [CallTree.startGas, head]
    rw [gas]
    by_cases delegates : log.op.isDelegate = true
    · obtain ⟨ready', adds⟩ := extracted.delegated carries.depth delegates small
      obtain ⟨s₂, arrived, ready'', nothing⟩ := arrive_back origin ready'.target
        ready'.calls ready'.tracking ready'.awaiting ready'.create back
      refine ⟨fun _ => ⟨s₂, lands_some origin head arrived ready'', ?_⟩, fun failed => absurd ?_ failed⟩
      · have whole := (adds none next.gas).trans nothing
        have same : Tally.add (stepTally n ⟨log, none, next.gas⟩) {} = stepTally n ⟨log, none, next.gas⟩ := by
          ext <;> simp [Tally.add]
        exact same ▸ whole
      · intro create
        cases op : log.op <;> simp_all [Opcode.isCreate, Opcode.isDelegate]
    · obtain ⟨s₂, ran, goes, fails⟩ := extracted.resumes origin ready carries.depth
        (by simpa using delegates) small [] (by simp) (by simp) (by simp) head back
      obtain rfl : s₁ = s₂ := Except.ok.inj ran
      constructor
      · intro deploys
        obtain ⟨s₃, arrived, ready', adds⟩ := goes deploys
        exact ⟨s₃, lands_some origin head arrived ready', adds⟩
      · intro failed
        obtain ⟨failure, error⟩ := fails failed
        exact ⟨failure, run_fails origin head error⟩

theorem Tally.add_nothing (a : Tally) : a.add {} = a := by
  ext <;> simp [Tally.add]

theorem Tally.nothing_add (a : Tally) : Tally.add {} a = a := by
  ext <;> simp [Tally.add]

theorem Tally.add_assoc (a b c : Tally) : (a.add b).add c = a.add (b.add c) := by
  ext <;> simp [Tally.add, UInt64.add_assoc]

/-- A tree's steps are extracted as its closure says, exactly when the closure decodes and its creates deploy. -/
theorem run_tree (t : CallTree) : ∀ (d n : Nat) (s s₁ : Extracting), t.WellFormed d → t.NoStepErrs →
    d + t.size < 2 ^ 64 → Lands origin d t s s₁ →
    Outcome.Decides (t.Decodable n ∧ t.CreatesDeploy) (After n d t s₁) (run origin t.flatten n s) := by
  induction t with
  | done =>
    intro d n s s₁ _ _ _ lands
    obtain rfl := lands.ended rfl
    refine Outcome.decides_ok ⟨?_, trivial⟩ ⟨lands.ready, Adds.nothing s₁⟩
    intro p member
    cases member
  | step log rest ih =>
    intro d n s s₁ wf clean small lands
    rw [CallTree.size] at small
    have clean' := clean log List.mem_cons_self
    have parts : (CallTree.step log rest).Decodable n ∧ (CallTree.step log rest).CreatesDeploy ↔
        (extracts log.op = true → log.Decodes) ∧ (log.op.isCreate = true → rest.succeeds = true) ∧
          rest.Decodable (n + 1) ∧ rest.CreatesDeploy := by
      rw [CallTree.decodable_step, CallTree.CreatesDeploy]
      tauto
    refine Outcome.Decides.of_iff ?_ parts
    refine (step_decides origin (lands.arrived log rfl) lands.ready wf.1).bind ?_
    intro s₂ extracted
    obtain ⟨goes, fails⟩ := run_step origin wf clean' (by omega) lands.ready extracted
    by_cases deploys : log.op.isCreate = true → rest.succeeds = true
    · obtain ⟨s₃, lands', adds⟩ := goes deploys
      have after := (ih d (n + 1) s₂ s₃ wf.2.2 (fun l member => clean l (List.mem_cons_of_mem _ member)) (by omega)
        lands').of_iff (and_iff_right deploys)
      refine after.imp ?_
      rintro s' ⟨ready, more⟩
      exact ⟨ready, adds.trans more⟩
    · exact ⟨fun fine => absurd fine.1 deploys, fun _ => fails deploys⟩
  | enter call body rest ihBody ihRest =>
    intro d n s s₁ wf clean small lands
    have wf' := wf
    obtain ⟨carries, -, opens, inhabited, inner, resumes, tail⟩ := wf'
    rw [CallTree.size] at small
    have cleanBody : body.NoStepErrs := by
      intro l member
      exact clean l (List.mem_cons_of_mem _ (List.mem_append_left _ member))
    have cleanRest : rest.NoStepErrs := by
      intro l member
      exact clean l (List.mem_cons_of_mem _ (List.mem_append_right _ member))
    obtain ⟨next, flag, head, -⟩ := CallTree.head?_of_outcome resumes
    have back := (tail.head head).depth
    have gas : rest.startGas.getD 0 = next.gas := by simp [CallTree.startGas, head]
    by_cases delegates : call.op.isDelegate = true
    · -- The frame's own closure is extracted as it runs.
      have notCreate : call.op.isCreate = false := by
        cases op : call.op <;> simp_all [Opcode.isCreate, Opcode.isDelegate]
      have parts : (CallTree.enter call body rest).Decodable n ∧ (CallTree.enter call body rest).CreatesDeploy ↔
          (extracts call.op = true → call.Decodes) ∧ (body.Decodable (n + 1) ∧ body.CreatesDeploy) ∧
            rest.Decodable (n + 1 + body.size) ∧ rest.CreatesDeploy := by
        rw [CallTree.decodable_enter, CallTree.CreatesDeploy]
        simp only [delegates, notCreate, forall_const, Bool.false_eq_true, false_implies, true_and]
        tauto
      refine Outcome.Decides.of_iff ?_ parts
      refine (step_decides origin (lands.arrived call rfl) lands.ready carries).bind ?_
      intro s₂ extracted
      rw [run_append, CallTree.length_flatten]
      obtain ⟨readyBody, adds⟩ := extracted.delegated carries.depth delegates (by omega)
      obtain ⟨s₃, landsBody, moved⟩ := readyBody.lands inner origin
      refine (ihBody (d + 1) (n + 1) s₂ s₃ inner cleanBody (by omega) landsBody).bind ?_
      rintro s₄ ⟨readyEnd, addsBody⟩
      obtain ⟨s₅, arrived, ready', nothing⟩ := arrive_back origin readyEnd.target
        readyEnd.calls readyEnd.tracking readyEnd.awaiting readyEnd.create back
      refine (ihRest d _ s₄ s₅ tail cleanRest (by omega) (lands_some origin head arrived ready')).imp ?_
      rintro s' ⟨ready, more⟩
      refine ⟨ready, ?_⟩
      have whole := (adds body.startGas next.gas).trans (((moved.trans addsBody).trans nothing).trans more)
      rw [Tally.nothing_add, Tally.add_nothing] at whole
      unfold CallTree.tally
      rw [gas, if_pos delegates]
      exact whole
    · -- Below any other call the state stays as it is.
      have plain : call.op.isDelegate = false := by simpa using delegates
      have parts : (CallTree.enter call body rest).Decodable n ∧ (CallTree.enter call body rest).CreatesDeploy ↔
          (extracts call.op = true → call.Decodes) ∧ (call.op.isCreate = true → rest.succeeds = true) ∧
            rest.Decodable (n + 1 + body.size) ∧ rest.CreatesDeploy := by
        rw [CallTree.decodable_enter, CallTree.CreatesDeploy]
        simp only [plain, Bool.false_eq_true, false_implies, true_and]
        tauto
      refine Outcome.Decides.of_iff ?_ parts
      refine (step_decides origin (lands.arrived call rfl) lands.ready carries).bind ?_
      intro s₂ extracted
      rw [run_append, CallTree.length_flatten]
      obtain ⟨s₃, ran, goes, fails⟩ := extracted.resumes origin lands.ready carries.depth plain (by omega)
        body.flatten (fun l member => inner.deep l member)
        (fun l member => by have := inner.shallow l member; omega)
        (fun l found => (inner.head ((CallTree.head?_flatten body).symm.trans found)).depth) head back
      rw [ran, Outcome.ok_bind]
      by_cases deploys : call.op.isCreate = true → rest.succeeds = true
      · obtain ⟨s₄, arrived, ready', adds⟩ := goes deploys
        have after := (ihRest d (n + 1 + body.size) s₃ s₄ tail cleanRest (by omega)
          (lands_some origin head arrived ready')).of_iff (and_iff_right deploys)
        refine after.imp ?_
        rintro s' ⟨ready, more⟩
        refine ⟨ready, ?_⟩
        have whole := adds.trans more
        unfold CallTree.tally
        rw [gas, plain, if_neg (by simp), Tally.nothing_add]
        rw [CallTree.head?_flatten] at whole
        exact whole
      · obtain ⟨failure, failed⟩ := fails deploys
        exact ⟨fun fine => absurd fine.1 deploys, fun _ => ⟨failure, run_fails origin head failed⟩⟩

end Extracting

namespace CallTree

open Extracting

/-- The steps of the closure that the extractor turns into updates. -/
def effects (t : CallTree) : List (Nat × StructLog) := (t.closure always 0).filter (fun p => extracts p.2.op)

theorem tally_ops (t : CallTree) (n : Nat) :
    (t.tally n).ops = (t.closure always n).flatMap (fun p => opsOf p.1 p.2) := by
  induction t generalizing n with
  | done => rfl
  | step log rest ih =>
    rw [tally, Tally.add, ih, closure, List.flatMap_cons]
    rfl
  | enter call body rest ihBody ihRest =>
    rw [tally, closure, List.flatMap_cons, List.flatMap_append]
    simp only [Tally.add, ihRest]
    cases call.op.isDelegate <;> simp [always, ihBody, stepTally]

/-- A figure that adds up over the steps is a sum over the closure's records. -/
theorem tally_sum (gas : Tally → UInt64) {which : Opcode → Bool} {f : Record → UInt64} (nothing : gas {} = 0)
    (adds : ∀ a b, gas (a.add b) = gas a + gas b)
    (one : ∀ n r, gas (stepTally n r) = if which r.log.op then f r else 0) (t : CallTree) (n : Nat) :
    gas (t.tally n) = ((t.records always which).map f).sum := by
  induction t generalizing n with
  | done => exact nothing
  | step log rest ih =>
    rw [tally, records, adds, one, ih]
    cases which log.op <;> simp
  | enter call body rest ihBody ihRest =>
    rw [tally, records, adds, adds, one, ihRest]
    cases call.op.isDelegate <;> cases which call.op <;> simp [always, ihBody, nothing]

theorem tally_callGas (t : CallTree) (n : Nat) :
    (t.tally n).callGas = ((t.callRecords always).map Record.gasUsed).sum :=
  tally_sum Tally.callGas rfl (fun _ _ => rfl) (by simp [stepTally]) t n

theorem tally_calleeGas (t : CallTree) (n : Nat) :
    (t.tally n).calleeGas = ((t.callRecords always).map Record.calleeGas).sum :=
  tally_sum Tally.calleeGas rfl (fun _ _ => rfl) (by simp [stepTally]) t n

theorem tally_createGas (t : CallTree) (n : Nat) :
    (t.tally n).createGas = ((t.createRecords always).map Record.gasUsed).sum :=
  tally_sum Tally.createGas rfl (fun _ _ => rfl) (by simp [stepTally]) t n

theorem tally_sstoreGas (t : CallTree) (n : Nat) :
    (t.tally n).sstoreGas = ((t.records always (· == .sstore)).map (fun r => r.log.gasCost)).sum :=
  tally_sum Tally.sstoreGas rfl (fun _ _ => rfl) (by simp [stepTally]) t n

end CallTree

end GasAnalyzer
