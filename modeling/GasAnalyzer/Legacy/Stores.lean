import GasAnalyzer.Legacy.Tree
import GasAnalyzer.Native.Views

/-!
# What the legacy program leaves

The extractor keeps every `SSTORE` of the root's closure, whether or not a frame around it fails: a delegate frame that
reverts leaves its stores in the program. Nothing below any other call is kept.
-/

namespace GasAnalyzer

/-- The slot and value of an `SSTORE`, errored or not. -/
def StructLog.sstore? (log : StructLog) : Option (B256 × B256) :=
  if log.op = .sstore then (log.top 0).bind fun slot => (log.top 1).map fun value => (slot, value) else none

/-- The value of the last `SSTORE` to a slot in a frame and its delegate frames, undone or not. -/
def CallTree.lastSstore (t : CallTree) (slot : B256) : Option B256 :=
  WriteLog.last slot ((t.closure always 0).filterMap (fun p => p.2.sstore?))

namespace Extracting

variable {origin : Option Address} {e : UInt64} {n d : Nat} {log : StructLog} {s s' : Extracting}

/-! ### Below a call -/

/-- Nothing deeper than `d` is kept from here: the open call was made at `d`, or none is and the target is `d`. -/
def Asleep (d : Nat) (s : Extracting) : Prop :=
  s.callStack = [] ∧ s.targetDepth.toNat = d ∨ ∃ c, s.callStack = [c] ∧ c.1.toNat = d ∧ d < s.targetDepth.toNat

theorem Asleep.same (asleep : Asleep d s) (same : Same s s') : Asleep d s' := by
  unfold Asleep
  rw [same.calls, same.target]
  exact asleep

theorem Asleep.stepUp (asleep : Asleep d s) (deep : d < log.depth.toNat) : Asleep d (s.stepUp log) := by
  unfold Extracting.stepUp
  split
  · rename_i up
    rcases asleep with ⟨-, target⟩ | ⟨c, one, made, -⟩
    · rw [UInt64.lt_iff_toNat_lt, target] at up
      omega
    · refine Or.inr ⟨c, ?_, made, deep⟩
      show (exitCalls log s.callStack s).callStack = [c]
      have stays : ¬log.depth ≤ c.1 := by
        rw [UInt64.le_iff_toNat_le, made]
        omega
      rw [(exitCalls_spec log s.callStack s).2, one, List.dropWhile_cons_of_neg (by simpa using stays)]
  · exact asleep

theorem Asleep.step (asleep : Asleep d s) (stepped : s.step origin n log = .ok s') (deep : d < log.depth.toNat)
    (small : log.depth.toNat + 1 < 2 ^ 64) : Asleep d s' ∧ s'.ops = s.ops := by
  obtain ⟨s₁, same, extracted⟩ := step_ok stepped
  have still := (asleep.same same).stepUp deep
  have ops := (stepUp_ops log s₁).trans same.ops
  cases extracted with
  | passes same' => exact ⟨still.same same', same'.ops.trans ops⟩
  | descends here _ ops' target calls =>
    refine ⟨?_, ops'.trans ops⟩
    rcases still with ⟨-, level⟩ | ⟨c, one, made, -⟩
    · rw [← here] at level
      omega
    · refine Or.inr ⟨c, calls.trans one, made, ?_⟩
      rw [target, UInt64.toNat_add]
      show d < (log.depth.toNat + 1) % 2 ^ 64
      omega
  | decodes here free =>
    rcases still with ⟨-, level⟩ | ⟨c, one, -, -⟩
    · rw [← here] at level
      omega
    · rw [free] at one
      cases one

theorem Asleep.run (logs : List StructLog) (deep : ∀ log ∈ logs, d < log.depth.toNat)
    (small : ∀ log ∈ logs, log.depth.toNat + 1 < 2 ^ 64) : ∀ (n : Nat) (s : Extracting), Asleep d s →
      Extracting.run origin logs n s = .ok s' → s'.ops = s.ops := by
  induction logs with
  | nil =>
    intro n s _ ran
    rw [← show s = s' from Except.ok.inj ran]
  | cons log rest ih =>
    intro n s asleep ran
    obtain ⟨s₁, stepped, ran⟩ := Outcome.bind_ok ran
    obtain ⟨asleep', ops⟩ := asleep.step stepped (deep log List.mem_cons_self) (small log List.mem_cons_self)
    rw [ih (fun l member => deep l (List.mem_cons_of_mem _ member))
      (fun l member => small l (List.mem_cons_of_mem _ member)) (n + 1) s₁ asleep' ran, ops]

/-! ### In the closure -/

theorem Floor.steps (logs : List StructLog) (deep : ∀ log ∈ logs, e ≤ log.depth) :
    ∀ (n : Nat) (s : Extracting), Floor e n s → n + logs.length < 2 ^ 63 →
      Extracting.run origin logs n s = .ok s' → Floor e (n + logs.length) s' := by
  induction logs with
  | nil =>
    intro n s floor _ ran
    rw [← show s = s' from Except.ok.inj ran]
    exact floor
  | cons log rest ih =>
    intro n s floor short ran
    rw [List.length_cons] at short ⊢
    obtain ⟨s₁, stepped, ran⟩ := Outcome.bind_ok ran
    have next := floor.step stepped (deep log List.mem_cons_self) (by omega)
    have later := ih (fun l member => deep l (List.mem_cons_of_mem _ member)) (n + 1) s₁ next (by omega) ran
    rwa [show n + (rest.length + 1) = n + 1 + rest.length by omega]

/-- At its own depth a step is decoded if its opcode is extracted; what runs deeper is kept for a delegate only. -/
theorem Floor.kept (floor : Floor log.depth n s) (stepped : s.step origin n log = .ok s') (short : n + 1 < 2 ^ 63) :
    s'.ops = s.ops ++ opsOf n log ∧ (Extracting.extracts log.op = true → log.Decodes) ∧
      (if log.op.isDelegate then Floor (log.depth + 1) (n + 1) s' else Asleep log.depth.toNat s') := by
  obtain ⟨s₁, same, extracted⟩ := step_ok stepped
  obtain ⟨target, calls⟩ := (floor.same same).ready
  have ops := (stepUp_ops log s₁).trans same.ops
  have below : log.depth.toNat ≤ n + 1 := by
    have low := UInt64.le_iff_toNat_le.mp floor.target
    have high := floor.small
    omega
  have grown := toNat_succ below (by omega)
  have silent : Extracting.extracts log.op = false → s'.ops = s.ops → s'.ops = s.ops ++ opsOf n log ∧
      (Extracting.extracts log.op = true → log.Decodes) := by
    intro other unchanged
    refine ⟨by simp [opsOf, other, unchanged], ?_⟩
    intro kind
    rw [other] at kind
    cases kind
  cases extracted with
  | passes same' why =>
    rcases why with elsewhere | busy | ⟨plain, other⟩
    · exact absurd target.symm elsewhere
    · exact absurd calls busy
    · obtain ⟨kept, decodes⟩ := silent other (same'.ops.trans ops)
      refine ⟨kept, decodes, ?_⟩
      rw [if_neg (by simp [plain])]
      exact Or.inl ⟨same'.calls.trans calls, congrArg UInt64.toNat (same'.target.trans target)⟩
  | descends here delegates ops' target' calls' =>
    obtain ⟨kept, decodes⟩ := silent (not_extracts_of_delegate delegates) (ops'.trans ops)
    refine ⟨kept, decodes, ?_⟩
    rw [if_pos delegates]
    refine ⟨?_, ?_, Or.inl (calls'.trans calls)⟩
    · rw [target']
      exact UInt64.le_refl _
    · rw [target', grown]
      omega
  | decodes here free kind appended next =>
    obtain ⟨update, decoded, ops'⟩ := append_ok appended
    have notDelegate : log.op.isDelegate = false := by
      by_contra delegates
      rw [not_extracts_of_delegate (by simpa using delegates)] at kind
      cases kind
    refine ⟨?_, fun _ => ⟨_, decoded⟩, ?_⟩
    · rw [ops', ops, opsOf, if_pos kind, StructLog.update?, decoded]
    · rw [if_neg (by simp [notDelegate])]
      rcases next with ⟨target', calls'⟩ | ⟨target', calls'⟩
      · exact Or.inl ⟨calls', congrArg UInt64.toNat (target'.trans target)⟩
      · refine Or.inr ⟨_, calls', rfl, ?_⟩
        rw [target', grown]
        omega

/-- The ops kept of a call tree are those of its closure, whatever fails in it. -/
theorem run_ops (t : CallTree) : ∀ {d n : Nat} {e : UInt64} {s s' : Extracting}, t.WellFormed d → e.toNat = d →
    n + t.size < 2 ^ 63 → Floor e n s → Extracting.run origin t.flatten n s = .ok s' →
      s'.ops = s.ops ++ (t.closure CallTree.always n).flatMap (fun p => opsOf p.1 p.2) ∧ t.Decodable n := by
  induction t with
  | done =>
    intro d n e s s' _ _ _ _ ran
    obtain rfl : s = s' := Except.ok.inj ran
    refine ⟨(List.append_nil _).symm, ?_⟩
    intro p member
    cases member
  | step log rest ih =>
    intro d n e s s' wf depth short floor ran
    obtain rfl : e = log.depth := UInt64.toNat_inj.mp (depth.trans wf.1.depth.symm)
    rw [CallTree.size] at short
    obtain ⟨s₁, stepped, ran⟩ := Outcome.bind_ok ran
    obtain ⟨ops, decodes, -⟩ := floor.kept stepped (by omega)
    obtain ⟨opsRest, decodable⟩ := ih wf.2.2 depth (by omega)
      (floor.step stepped (UInt64.le_refl _) (by omega)) ran
    refine ⟨?_, CallTree.decodable_step.mpr ⟨decodes, decodable⟩⟩
    rw [opsRest, ops, CallTree.closure, List.flatMap_cons, List.append_assoc]
  | enter call body rest ihBody ihRest =>
    intro d n e s s' wf depth short floor ran
    obtain ⟨carries, -, -, -, inner, -, tail⟩ := wf
    obtain rfl : e = call.depth := UInt64.toNat_inj.mp (depth.trans carries.depth.symm)
    rw [CallTree.size] at short
    obtain ⟨s₁, stepped, ran⟩ := Outcome.bind_ok ran
    rw [run_append, CallTree.length_flatten] at ran
    obtain ⟨s₂, inside, ran⟩ := Outcome.bind_ok ran
    obtain ⟨ops, decodes, opened⟩ := floor.kept stepped (by omega)
    have small : d ≤ n + 1 := by
      have low := UInt64.le_iff_toNat_le.mp floor.target
      have high := floor.small
      omega
    have floor₂ : Floor call.depth (n + 1 + body.size) s₂ := by
      rw [← CallTree.length_flatten]
      refine Floor.steps body.flatten ?_ (n + 1) s₁ (floor.step stepped (UInt64.le_refl _) (by omega)) ?_ inside
      · intro log member
        have := inner.deep log member
        exact UInt64.le_iff_toNat_le.mpr (by omega)
      · rw [CallTree.length_flatten]
        omega
    obtain ⟨opsRest, decodableRest⟩ := ihRest tail depth (by omega) floor₂ ran
    rw [CallTree.decodable_enter, opsRest, CallTree.closure, List.flatMap_cons, List.flatMap_append]
    by_cases delegates : call.op.isDelegate = true
    · rw [if_pos delegates] at opened
      have deeper : (call.depth + 1).toNat = d + 1 := by
        rw [toNat_succ (n := n) (by omega) (by omega), depth]
      obtain ⟨opsBody, decodableBody⟩ := ihBody inner deeper (by omega) opened inside
      refine ⟨?_, decodes, fun _ => decodableBody, decodableRest⟩
      rw [opsBody, ops, if_pos (by rw [delegates]; rfl)]
      simp only [List.append_assoc]
    · rw [if_neg delegates] at opened
      have nothing := Asleep.run body.flatten (fun log member => by
        have := inner.deep log member
        rw [carries.depth]
        omega) (fun log member => by
        have := inner.shallow log member
        omega) (n + 1) s₁ opened inside
      refine ⟨?_, decodes, fun kind => absurd kind delegates, decodableRest⟩
      rw [nothing, ops, if_neg (by simp [delegates])]
      simp only [List.flatMap_nil, List.nil_append, List.append_assoc]

/-! ### Stores -/

theorem opsOf_stored (decodes : extracts log.op = true → log.Decodes) (memory : log.memory.isSome = true) :
    ((opsOf n log).map Op.update).filterMap StateUpdate.stored? = log.sstore?.toList := by
  unfold opsOf
  by_cases kind : extracts log.op = true
  · obtain ⟨r, decoded⟩ := decodes kind
    rw [if_pos kind, StructLog.update?, decoded]
    by_cases store : log.op = .sstore
    · obtain ⟨words, hasMemory⟩ := Option.isSome_iff_exists.mp memory
      unfold decodeStructLog at decoded
      obtain ⟨stack, hasStack, decoded⟩ := Outcome.bind_ok decoded
      rw [hasMemory] at decoded
      obtain ⟨bytes, -, decoded⟩ := Outcome.bind_ok decoded
      rw [store] at decoded
      obtain ⟨slot, first, decoded⟩ := Outcome.bind_ok decoded
      obtain ⟨value, second, decoded⟩ := Outcome.bind_ok decoded
      obtain rfl := Except.ok.inj decoded
      have tops : ∀ i, log.top i = stack.reverse[i]? := by
        intro i
        unfold StructLog.top
        rw [Outcome.okOr_ok.mp hasStack]
        rfl
      rw [StructLog.sstore?, if_pos store, tops, tops, Outcome.okOr_ok.mp first, Outcome.okOr_ok.mp second]
      rfl
    · have plain := storeless_decoded (n := n) decoded (by cases op : log.op <;> simp_all [extracts, effectful]) store
      rw [StructLog.sstore?, if_neg store]
      apply List.filterMap_eq_nil_iff.mpr
      intro u member
      obtain ⟨op, inside, rfl⟩ := List.mem_map.mp member
      have := plain op inside
      cases update : op.update <;> simp_all [StateUpdate.stored?, StateUpdate.isStore]
  · rw [if_neg kind, StructLog.sstore?, if_neg]
    · rfl
    · intro store
      rw [store] at kind
      exact kind rfl

end Extracting

/-- The legacy program leaves what the last `SSTORE` of the root's closure wrote, undone or not. -/
theorem lastStored_computeStateUpdates {trace : DefaultFrame} {origin : Option Address} {extract : TraceExtract}
    {t : CallTree} (answer : computeStateUpdates trace origin = .ok extract) (wf : t.WellFormed 1)
    (flat : trace.structLogs = t.flatten) (s : B256) : lastStored extract.stateUpdates s = t.lastSstore s := by
  have short : 0 + t.size < 2 ^ 63 := by
    have bounded := trace.bounded
    rw [flat, CallTree.length_flatten] at bounded
    omega
  unfold computeStateUpdates at answer
  obtain ⟨last, ran, answer⟩ := Outcome.bind_ok answer
  rw [flat] at ran
  have start : Extracting.Floor 1 0 {} := ⟨by decide, by decide, Or.inl rfl⟩
  obtain ⟨ops, decodable⟩ := Extracting.run_ops t wf rfl short start ran
  have stored : (last.ops.map Op.update).filterMap StateUpdate.stored? =
      (t.closure CallTree.always 0).filterMap (fun p => p.2.sstore?) := by
    rw [ops, List.nil_append, List.map_flatMap, List.filterMap_flatMap, List.filterMap_eq_flatMap_toList]
    apply List.flatMap_congr
    intro p member
    exact Extracting.opsOf_stored (decodable p member) (wf.closure_memory CallTree.always 0 p member)
  split at answer
  · cases answer
  · split at answer
    · cases answer
    · obtain rfl := Except.ok.inj answer
      show WriteLog.last s ((last.ops.map Op.update).filterMap StateUpdate.stored?) = _
      rw [stored]
      rfl

end GasAnalyzer
