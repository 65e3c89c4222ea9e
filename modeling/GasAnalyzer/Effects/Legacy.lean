import GasAnalyzer.Effects.Positions

/-!
# What the legacy extractor keeps

`computeStateUpdates` follows the root frame and its delegate frames by a target depth. At every step
of `InRoot` the target depth is the step's depth and no call is open, so the step goes to the decoder;
whether its update is kept is then decided by its memory alone.
-/

namespace GasAnalyzer

namespace Extracting

variable {origin : Option Address} {logs : List StructLog}

theorem run_append (origin : Option Address) (xs ys : List StructLog) (n : Nat) (s : Extracting) :
    run origin (xs ++ ys) n s = run origin xs n s >>= run origin ys (n + xs.length) := by
  induction xs generalizing n s with
  | nil => rfl
  | cons log rest ih =>
    rw [List.cons_append, run, run, Outcome.bind_assoc]
    congr 1
    funext s'
    rw [ih, List.length_cons, Nat.add_assoc, Nat.add_comm 1]

/-- The loop state before step `n`. -/
def Reaches (origin : Option Address) (logs : List StructLog) (n : Nat) (s : Extracting) : Prop :=
  run origin (logs.take n) 0 {} = .ok s

theorem Reaches.step {n : Nat} {s : Extracting} {log : StructLog} (found : logs[n]? = some log)
    (reached : Reaches origin logs n s) (s' : Extracting) :
    Reaches origin logs (n + 1) s' ↔ s.step origin n log = .ok s' := by
  have inside := (List.getElem?_eq_some_iff.mp found).1
  unfold Reaches at reached ⊢
  rw [List.take_add_one, found, run_append, reached, Outcome.ok_bind, List.length_take,
    Nat.min_eq_left (Nat.le_of_lt inside), Nat.zero_add]
  simp only [Option.toList_some, run]
  constructor
  · intro h
    obtain ⟨s'', stepped, last⟩ := Outcome.bind_ok h
    rw [stepped, Except.ok.inj last]
  · intro stepped
    rw [stepped]
    rfl

theorem reaches_of_run {last : Extracting} (answer : run origin logs 0 {} = .ok last) (n : Nat) :
    ∃ s, Reaches origin logs n s := by
  rw [← List.take_append_drop n logs, run_append] at answer
  obtain ⟨s, reached, -⟩ := Outcome.bind_ok answer
  exact ⟨s, reached⟩

/-! ### One step -/

/-- What decides the extraction: the ops so far, the target depth and the open calls. -/
structure Same (s s' : Extracting) : Prop where
  ops : s'.ops = s.ops
  target : s'.targetDepth = s.targetDepth
  calls : s'.callStack = s.callStack

theorem same_noteEntry (log : StructLog) (s : Extracting) : Same s (s.noteEntry log) := by
  unfold noteEntry
  split
  · exact ⟨rfl, rfl, rfl⟩
  · dsimp only
    split
    · split <;> exact ⟨rfl, rfl, rfl⟩
    · exact ⟨rfl, rfl, rfl⟩

theorem same_settleCreate {log : StructLog} {s s' : Extracting} (h : s.settleCreate log = .ok s') :
    Same s s' := by
  unfold settleCreate at h
  split at h
  · exact Except.ok.inj h ▸ ⟨rfl, rfl, rfl⟩
  · split at h
    · split at h
      · cases h
      · exact Except.ok.inj h ▸ ⟨rfl, rfl, rfl⟩
    · exact Except.ok.inj h ▸ ⟨rfl, rfl, rfl⟩

theorem same_detectReentry (origin : Option Address) (log : StructLog) (s : Extracting) :
    Same s (s.detectReentry origin log) := by
  unfold detectReentry
  split <;> exact ⟨rfl, rfl, rfl⟩

theorem exitCalls_spec (log : StructLog) (calls : List (UInt64 × Nat)) (s : Extracting) :
    (exitCalls log calls s).ops = s.ops ∧
      (exitCalls log calls s).callStack = calls.dropWhile (fun c => log.depth ≤ c.1) := by
  induction calls generalizing s with
  | nil => exact ⟨rfl, rfl⟩
  | cons call rest ih =>
    unfold exitCalls
    by_cases left : log.depth ≤ call.1
    · rw [if_pos left, List.dropWhile_cons_of_pos (by simpa using left)]
      split
      · exact ih _
      · exact ih _
    · rw [if_neg left, List.dropWhile_cons_of_neg (by simpa using left)]
      exact ⟨rfl, rfl⟩

/-- The target depth is at least `e`, and the open call, if any, was made between `e` and the target. -/
structure Floor (e : UInt64) (n : Nat) (s : Extracting) : Prop where
  target : e ≤ s.targetDepth
  small : s.targetDepth.toNat ≤ n + 1
  calls : s.callStack = [] ∨ ∃ c, s.callStack = [c] ∧ e ≤ c.1 ∧ c.1 < s.targetDepth

theorem Floor.same {e : UInt64} {n : Nat} {s s' : Extracting} (floor : Floor e n s) (same : Same s s') :
    Floor e n s' := by
  refine ⟨?_, ?_, ?_⟩
  · rw [same.target]
    exact floor.target
  · rw [same.target]
    exact floor.small
  · rw [same.target, same.calls]
    exact floor.calls

theorem stepUp_ops (log : StructLog) (s : Extracting) : (s.stepUp log).ops = s.ops := by
  unfold stepUp
  split
  · exact (exitCalls_spec log s.callStack s).1
  · rfl

theorem Floor.stepUp {e : UInt64} {n : Nat} {s : Extracting} {log : StructLog} (floor : Floor e n s)
    (deep : e ≤ log.depth) : Floor e n (s.stepUp log) := by
  unfold Extracting.stepUp
  by_cases up : log.depth < s.targetDepth
  · rw [if_pos up]
    refine ⟨deep, ?_, ?_⟩
    · have := UInt64.lt_iff_toNat_lt.mp up
      have := floor.small
      show log.depth.toNat ≤ n + 1
      omega
    · show (exitCalls log s.callStack s).callStack = [] ∨ _
      rw [(exitCalls_spec log s.callStack s).2]
      rcases floor.calls with none | ⟨c, one, low, high⟩
      · exact Or.inl (by rw [none]; rfl)
      · rw [one]
        by_cases left : log.depth ≤ c.1
        · exact Or.inl (List.dropWhile_cons_of_pos (by simpa using left))
        · refine Or.inr ⟨c, List.dropWhile_cons_of_neg (by simpa using left), low, ?_⟩
          exact UInt64.not_le.mp left
  · rw [if_neg up]
    exact floor

/-- At its own depth a step finds the target there and no call open. -/
theorem Floor.ready {n : Nat} {s : Extracting} {log : StructLog} (floor : Floor log.depth n s) :
    (s.stepUp log).targetDepth = log.depth ∧ (s.stepUp log).callStack = [] := by
  have above := floor.stepUp (UInt64.le_refl log.depth)
  have below : (s.stepUp log).targetDepth ≤ log.depth := by
    unfold Extracting.stepUp
    split
    · exact UInt64.le_refl _
    · rename_i up
      exact UInt64.not_lt.mp up
  refine ⟨UInt64.le_antisymm below above.target, ?_⟩
  rcases above.calls with none | ⟨c, -, low, high⟩
  · exact none
  · exact absurd (UInt64.lt_of_lt_of_le high below) (UInt64.not_lt.mpr low)

theorem extracts_of_effectful {op : Opcode} (effect : effectful op = true) : extracts op = true := by
  cases op <;> first | rfl | cases effect

theorem not_extracts_of_delegate {op : Opcode} (delegates : op.isDelegate = true) : extracts op = false := by
  cases op <;> first | rfl | cases delegates

/-- The three things a step can do. -/
inductive Extracts (n : Nat) (log : StructLog) (s s' : Extracting) : Prop where
  | passes (same : Same s s') (why : log.depth ≠ s.targetDepth ∨ s.callStack ≠ [] ∨
      log.op.isDelegate = false ∧ extracts log.op = false)
  | descends (here : log.depth = s.targetDepth) (delegates : log.op.isDelegate = true)
      (ops : s'.ops = s.ops) (target : s'.targetDepth = log.depth + 1) (calls : s'.callStack = s.callStack)
  | decodes (here : log.depth = s.targetDepth) (free : s.callStack = []) (kind : extracts log.op = true)
      {skipped : Option Opcode} (appended : appendStateUpdateFromStructLog s.ops n log = .ok (s'.ops, skipped))
      (next : s'.targetDepth = s.targetDepth ∧ s'.callStack = [] ∨
        s'.targetDepth = log.depth + 1 ∧ s'.callStack = [(log.depth, s'.ops.length)])

theorem extractOp_ok {n : Nat} {log : StructLog} {s s' : Extracting} (h : s.extractOp n log = .ok s') :
    Extracts n log s s' := by
  unfold extractOp at h
  split at h
  · rename_i here
    split at h
    · rename_i delegates
      obtain rfl := Except.ok.inj h
      exact .descends here delegates rfl rfl rfl
    · split at h
      · rename_i plain kind
        obtain ⟨kind, free⟩ := Bool.and_eq_true_iff.mp kind
        have free : s.callStack = [] := by simpa using free
        obtain ⟨⟨ops, skipped⟩, appended, h⟩ := Outcome.bind_ok h
        simp only at h
        split at h
        · obtain rfl := Except.ok.inj h
          exact .decodes here free kind appended (Or.inl ⟨rfl, free⟩)
        · split at h
          · split at h
            all_goals obtain rfl := Except.ok.inj h
            · exact .decodes here free kind appended (Or.inl ⟨rfl, free⟩)
            · exact .decodes here free kind appended (Or.inl ⟨rfl, free⟩)
            · exact .decodes here free kind appended (Or.inl ⟨rfl, free⟩)
            · refine .decodes here free kind appended (Or.inr ⟨rfl, ?_⟩)
              simp [free]
            · exact .decodes here free kind appended (Or.inl ⟨rfl, free⟩)
          · obtain rfl := Except.ok.inj h
            exact .decodes here free kind appended (Or.inl ⟨rfl, free⟩)
      · rename_i plain other
        obtain rfl := Except.ok.inj h
        refine .passes ⟨rfl, rfl, rfl⟩ (Or.inr ?_)
        by_cases free : s.callStack = []
        · right
          simp only [free, List.isEmpty_nil, Bool.and_true] at other
          exact ⟨by simpa using plain, by simpa using other⟩
        · exact Or.inl free
  · rename_i elsewhere
    obtain rfl := Except.ok.inj h
    exact .passes ⟨rfl, rfl, rfl⟩ (Or.inl elsewhere)

theorem step_ok {n : Nat} {log : StructLog} {s s' : Extracting} (h : s.step origin n log = .ok s') :
    ∃ s₁, Same s s₁ ∧ Extracts n log (s₁.stepUp log) s' := by
  unfold step at h
  obtain ⟨s₁, settled, h⟩ := Outcome.bind_ok h
  have first := same_noteEntry log s
  have second := same_settleCreate settled
  have third := same_detectReentry origin log s₁
  refine ⟨_, ⟨?_, ?_, ?_⟩, extractOp_ok h⟩
  · rw [third.ops, second.ops, first.ops]
  · rw [third.target, second.target, first.target]
  · rw [third.calls, second.calls, first.calls]

theorem toNat_succ {d : UInt64} {n : Nat} (small : d.toNat ≤ n + 1) (short : n < 2 ^ 63) :
    (d + 1).toNat = d.toNat + 1 := by
  rw [UInt64.toNat_add]
  simp only [UInt64.reduceToNat]
  omega

theorem Floor.extracts {e : UInt64} {n : Nat} {s s' : Extracting} {log : StructLog} (floor : Floor e n s)
    (step : Extracts n log s s') (short : n < 2 ^ 63) : Floor e (n + 1) s' := by
  have grows : ∀ {t : UInt64}, log.depth = s.targetDepth → t = log.depth + 1 →
      e ≤ t ∧ t.toNat ≤ n + 1 + 1 ∧ log.depth < t := by
    intro t here next
    have next' := toNat_succ (here ▸ floor.small) short
    have := UInt64.le_iff_toNat_le.mp floor.target
    have := floor.small
    rw [here] at next'
    subst next
    rw [here]
    refine ⟨UInt64.le_iff_toNat_le.mpr (by omega), by omega, UInt64.lt_iff_toNat_lt.mpr (by omega)⟩
  cases step with
  | passes same _ =>
    have kept := floor.same same
    exact ⟨kept.target, by have := kept.small; omega, kept.calls⟩
  | descends here _ _ target calls =>
    obtain ⟨low, small, deeper⟩ := grows here target
    refine ⟨low, small, ?_⟩
    rw [calls]
    rcases floor.calls with none | ⟨c, one, lowC, highC⟩
    · exact Or.inl none
    · exact Or.inr ⟨c, one, lowC, UInt64.lt_trans (here ▸ highC) deeper⟩
  | decodes here free kind appended next =>
    rcases next with ⟨target, calls⟩ | ⟨target, calls⟩
    · refine ⟨?_, ?_, Or.inl calls⟩
      · rw [target]
        exact floor.target
      · rw [target]
        have := floor.small
        omega
    · obtain ⟨low, small, deeper⟩ := grows here target
      exact ⟨low, small, Or.inr ⟨_, calls, here ▸ floor.target, deeper⟩⟩

theorem Floor.step {e : UInt64} {n : Nat} {s s' : Extracting} {log : StructLog} (floor : Floor e n s)
    (h : s.step origin n log = .ok s') (deep : e ≤ log.depth) (short : n < 2 ^ 63) : Floor e (n + 1) s' := by
  obtain ⟨s₁, same, extracted⟩ := step_ok h
  exact ((floor.same same).stepUp deep).extracts extracted short

/-! ### Runs -/

theorem Reaches.pred {n : Nat} {s' : Extracting} {log : StructLog} (found : logs[n]? = some log)
    (reached : Reaches origin logs (n + 1) s') :
    ∃ s, Reaches origin logs n s ∧ s.step origin n log = .ok s' := by
  have here : ∃ s, Reaches origin logs n s := by
    have taken : logs.take n = (logs.take (n + 1)).take n := by rw [List.take_take, Nat.min_eq_left (by omega)]
    obtain ⟨s, below⟩ := @reaches_of_run _ (logs.take (n + 1)) _ reached n
    exact ⟨s, by unfold Reaches at below ⊢; rwa [taken]⟩
  obtain ⟨s, before⟩ := here
  exact ⟨s, before, (before.step found s').mp reached⟩

/-- Along steps no shallower than `e` the floor stays. -/
theorem Floor.run {e : UInt64} {a : Nat} {s : Extracting} (short : logs.length < 2 ^ 63)
    (floor : Floor e a s) (start : Reaches origin logs a s) (count : Nat) :
    ∀ s', Reaches origin logs (a + count) s' → a + count ≤ logs.length →
      (∀ (m : Nat) (log : StructLog), a ≤ m → m < a + count → logs[m]? = some log → e ≤ log.depth) →
      Floor e (a + count) s' := by
  induction count with
  | zero =>
    intro s' reached _ _
    rw [show s' = s from Except.ok.inj (reached.symm.trans start)]
    exact floor
  | succ count ih =>
    intro s' reached inside deep
    have found := List.getElem?_eq_getElem (show a + count < logs.length by omega)
    obtain ⟨s₁, before, stepped⟩ := Reaches.pred found reached
    have floor₁ := ih s₁ before (by omega) fun m log low high => deep m log low (by omega)
    exact floor₁.step stepped (deep _ _ (by omega) (by omega) found) (by omega)

theorem floor_inRoot {i : Nat} (scope : InRoot logs i) (short : logs.length < 2 ^ 63) :
    ∀ (log : StructLog) (s : Extracting), logs[i]? = some log → Reaches origin logs i s →
      Floor log.depth i s := by
  induction scope with
  | @root i log' found depth above =>
    intro log s found' reached
    obtain rfl : log' = log := Option.some.inj (found.symm.trans found')
    have start : Reaches origin logs 0 {} := rfl
    have floor : Floor 1 0 ({} : Extracting) := ⟨by decide, by decide, Or.inl rfl⟩
    have inside := (List.getElem?_eq_some_iff.mp found).1
    have runs := floor.run short start i s (by rwa [Nat.zero_add]) (by omega) fun m before _ lt foundM => by
      have := above m before (by omega) foundM
      apply UInt64.le_iff_toNat_le.mpr
      have : before.depth.toNat ≠ 0 := fun zero => this (UInt64.toNat_inj.mp zero)
      show 1 ≤ before.depth.toNat
      omega
    rw [depth]
    rwa [Nat.zero_add] at runs
  | @delegate i j k log' call resume flag found caller frame delegates fine success nonzero after before depth ih =>
    intro log s found' reached
    obtain rfl : log' = log := Option.some.inj (found.symm.trans found')
    have inside := (List.getElem?_eq_some_iff.mp found).1
    have start : ∃ s₁, Reaches origin logs (j + 1) s₁ := by
      obtain ⟨s₁, below⟩ := @reaches_of_run _ (logs.take i) _ reached (j + 1)
      refine ⟨s₁, ?_⟩
      unfold Reaches at below ⊢
      rwa [List.take_take, Nat.min_eq_left (by omega)] at below
    obtain ⟨s₁, start⟩ := start
    obtain ⟨s₀, first, stepped⟩ := Reaches.pred frame.calls start
    have floor₀ := ih call s₀ frame.calls first
    obtain ⟨s₂, same, extracted⟩ := step_ok stepped
    obtain ⟨target, calls⟩ := (floor₀.same same).ready
    have small : call.depth.toNat ≤ j + 1 := by
      have low := UInt64.le_iff_toNat_le.mp floor₀.target
      have high := floor₀.small
      omega
    have grown := toNat_succ small (show j < 2 ^ 63 by omega)
    have next : log'.depth = call.depth + 1 := by
      apply UInt64.toNat_inj.mp
      rw [grown, depth]
    have floor₁ : Floor log'.depth (j + 1) s₁ := by
      cases extracted with
      | passes _ why =>
        rcases why with elsewhere | busy | ⟨plain, -⟩
        · exact absurd target.symm elsewhere
        · exact absurd calls busy
        · rw [delegates] at plain
          cases plain
      | descends here _ _ target' calls' =>
        refine ⟨?_, ?_, Or.inl (calls'.trans calls)⟩
        · rw [target', next]
          exact UInt64.le_refl _
        · rw [target', grown]
          omega
      | decodes _ _ kind _ _ =>
        rw [not_extracts_of_delegate delegates] at kind
        cases kind
    have runs := floor₁.run short start (i - (j + 1)) s (by rwa [show j + 1 + (i - (j + 1)) = i by omega])
      (by omega) fun m log low high foundM => by
        have deep := UInt64.lt_iff_toNat_lt.mp (frame.inside m log (by omega) (by omega) foundM)
        apply UInt64.le_iff_toNat_le.mpr
        omega
    rwa [show j + 1 + (i - (j + 1)) = i by omega] at runs

/-! ### Kept ops -/

/-- A step only adds ops of its own. -/
theorem step_ops {n : Nat} {s s' : Extracting} {log : StructLog} (h : s.step origin n log = .ok s') :
    ∃ new, s'.ops = s.ops ++ new ∧ ∀ o ∈ new, o.step = n := by
  obtain ⟨s₁, same, extracted⟩ := step_ok h
  have before : (s₁.stepUp log).ops = s.ops := (stepUp_ops log s₁).trans same.ops
  cases extracted with
  | passes same' _ => exact ⟨[], by rw [same'.ops, before, List.append_nil], by simp⟩
  | descends _ _ ops _ _ => exact ⟨[], by rw [ops, before, List.append_nil], by simp⟩
  | decodes _ _ _ appended _ =>
    obtain ⟨update, -, ops⟩ := append_ok appended
    refine ⟨_, by rw [ops, before], ?_⟩
    intro o member
    obtain ⟨u, -, rfl⟩ := List.mem_map.mp member
    rfl

/-- Ops of step `i` are those there right after it. -/
theorem mem_ops_later {i : Nat} {s : Extracting} (start : Reaches origin logs (i + 1) s) {o : Op}
    (here : o.step = i) (count : Nat) :
    ∀ s', Reaches origin logs (i + 1 + count) s' → i + 1 + count ≤ logs.length →
      (o ∈ s'.ops ↔ o ∈ s.ops) := by
  induction count with
  | zero =>
    intro s' reached _
    rw [show s' = s from Except.ok.inj (reached.symm.trans start)]
  | succ count ih =>
    intro s' reached inside
    have found := List.getElem?_eq_getElem (show i + 1 + count < logs.length by omega)
    obtain ⟨s₁, before, stepped⟩ := Reaches.pred found reached
    obtain ⟨new, ops, own⟩ := step_ops stepped
    rw [ops, List.mem_append, ih s₁ before (by omega)]
    constructor
    · rintro (old | added)
      · exact old
      · have := own o added
        omega
    · exact Or.inl

theorem ops_before {n : Nat} : ∀ {s : Extracting}, Reaches origin logs n s → n ≤ logs.length →
    ∀ o ∈ s.ops, o.step < n := by
  induction n with
  | zero =>
    intro s reached _ o member
    rw [← show ({} : Extracting) = s from Except.ok.inj reached] at member
    cases member
  | succ n ih =>
    intro s reached inside o member
    have found := List.getElem?_eq_getElem (show n < logs.length by omega)
    obtain ⟨s₁, before, stepped⟩ := Reaches.pred found reached
    obtain ⟨new, ops, own⟩ := step_ops stepped
    rw [ops, List.mem_append] at member
    rcases member with old | added
    · have := ih before (by omega) o old
      omega
    · have := own o added
      omega

/-- An effectful step of the root's closure is kept exactly when it carries its memory. -/
theorem kept_iff {last : Extracting} (answer : run origin logs 0 {} = .ok last)
    (short : logs.length < 2 ^ 63) {i : Nat} {log : StructLog} (scope : InRoot logs i)
    (found : logs[i]? = some log) (effect : effectful log.op = true) :
    (∃ o ∈ last.ops, o.step = i ∧ o.update.opcode = log.op) ↔ log.memory ≠ none := by
  have inside := (List.getElem?_eq_some_iff.mp found).1
  obtain ⟨s', after⟩ := reaches_of_run answer (i + 1)
  obtain ⟨s, before, stepped⟩ := Reaches.pred found after
  have finish : Reaches origin logs (i + 1 + (logs.length - (i + 1))) last := by
    unfold Reaches
    rwa [show i + 1 + (logs.length - (i + 1)) = logs.length by omega, List.take_length]
  have later : ∀ o : Op, o.step = i → (o ∈ last.ops ↔ o ∈ s'.ops) := fun o here =>
    mem_ops_later after here _ last finish (by omega)
  have kind := extracts_of_effectful effect
  obtain ⟨s₁, same, extracted⟩ := step_ok stepped
  have floor := floor_inRoot scope short log s found before
  obtain ⟨target, calls⟩ := (floor.same same).ready
  have ops : (s₁.stepUp log).ops = s.ops := (stepUp_ops log s₁).trans same.ops
  have old : ∀ o ∈ s.ops, o.step < i := ops_before before (by omega)
  cases extracted with
  | passes _ why =>
    rcases why with elsewhere | busy | ⟨-, other⟩
    · exact absurd target.symm elsewhere
    · exact absurd calls busy
    · rw [kind] at other
      cases other
  | descends _ delegates =>
    rw [not_extracts_of_delegate delegates] at kind
    cases kind
  | decodes _ _ _ appended _ =>
    obtain ⟨update, decoded, ops'⟩ := append_ok appended
    rw [ops] at ops'
    constructor
    · rintro ⟨o, member, here, -⟩ missing
      obtain ⟨rfl, -⟩ := Prod.mk.inj (decodeStructLog_noMemory decoded missing)
      rw [later o here, ops', List.mem_append] at member
      rcases member with before' | added
      · have := old o before'
        omega
      · cases added
    · intro present
      obtain ⟨words, memory⟩ := Option.ne_none_iff_exists'.mp present
      obtain ⟨u, same', opcode, -⟩ := decodeStructLog_effect decoded effect memory
      obtain ⟨rfl, -⟩ := Prod.mk.inj same'
      refine ⟨⟨u, i⟩, ?_, rfl, opcode⟩
      rw [later _ rfl, ops']
      simp

end Extracting

/-- The legacy program holds an effectful step of the root's closure exactly when the step carries its
memory. -/
theorem computeStateUpdates_holds {trace : DefaultFrame} {origin : Option Address} {extract : TraceExtract}
    (answer : computeStateUpdates trace origin = .ok extract) {i : Nat} {log : StructLog}
    (scope : InRoot trace.structLogs i) (found : trace.structLogs[i]? = some log)
    (effect : effectful log.op = true) :
    Holds extract.stateUpdates extract.opSteps i log.op ↔ log.memory ≠ none := by
  unfold computeStateUpdates at answer
  obtain ⟨last, ran, answer⟩ := Outcome.bind_ok answer
  split at answer
  · cases answer
  · split at answer
    · cases answer
    · obtain rfl := Except.ok.inj answer
      rw [holds_ops]
      exact Extracting.kept_iff ran trace.bounded scope found effect

end GasAnalyzer
