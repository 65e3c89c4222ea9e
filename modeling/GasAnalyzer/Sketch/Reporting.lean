import Mathlib
import GasAnalyzer.Core.Heuristic
import GasAnalyzer.Effects.Legacy
import GasAnalyzer.Sketch.Settlement

/-!
# The gate's bound and the reported estimate

The gate prices a write at the protocol's cap, the report at what the trace charged for it. The extractor's total of
write gas is tied to the stores of the program it emits, one by one, and with that the two schedules are compared op
by op: the gate's bound is never below the reported estimate.
-/

namespace GasAnalyzer

open Outcome

namespace Extracting

variable {origin : Option Address} {logs : List StructLog}

/-! ### The total of write gas -/

/-- What the trace charged for an emitted store. -/
def storeCharge (logs : List StructLog) (o : Op) : Nat :=
  match o.update with
  | .store _ => ((logs[o.step]?).map fun log => log.gasCost.toNat).getD 0
  | _ => 0

/-- The total a state carries is paid by the stores it holds. -/
def Paid (logs : List StructLog) (s : Extracting) : Prop :=
  s.sstoreGasTotal.toNat ≤ (s.ops.map (storeCharge logs)).sum

theorem noteEntry_sstoreGas (log : StructLog) (s : Extracting) :
    (s.noteEntry log).sstoreGasTotal = s.sstoreGasTotal := by
  unfold noteEntry
  split
  · rfl
  · dsimp only
    split
    · split <;> rfl
    · rfl

theorem settleCreate_sstoreGas {log : StructLog} {s s' : Extracting} (settled : s.settleCreate log = .ok s') :
    s'.sstoreGasTotal = s.sstoreGasTotal := by
  unfold settleCreate at settled
  split at settled
  · exact Except.ok.inj settled ▸ rfl
  · split at settled
    · split at settled
      · cases settled
      · exact Except.ok.inj settled ▸ rfl
    · exact Except.ok.inj settled ▸ rfl

theorem detectReentry_sstoreGas (log : StructLog) (s : Extracting) :
    (s.detectReentry origin log).sstoreGasTotal = s.sstoreGasTotal := by
  unfold detectReentry
  split <;> rfl

theorem exitCalls_sstoreGas (log : StructLog) (calls : List (UInt64 × Nat)) (s : Extracting) :
    (exitCalls log calls s).sstoreGasTotal = s.sstoreGasTotal := by
  induction calls generalizing s with
  | nil => rfl
  | cons call rest ih =>
    unfold exitCalls
    split
    · split
      · exact ih _
      · exact ih _
    · rfl

theorem stepUp_sstoreGas (log : StructLog) (s : Extracting) :
    (s.stepUp log).sstoreGasTotal = s.sstoreGasTotal := by
  unfold stepUp
  split
  · exact exitCalls_sstoreGas log s.callStack s
  · rfl

/-- An extracted op adds to the total only together with the store it was charged for. -/
theorem extractOp_sstoreGas {n : Nat} {log : StructLog} {s s' : Extracting} (h : s.extractOp n log = .ok s') :
    s'.sstoreGasTotal = s.sstoreGasTotal ∨
      s'.sstoreGasTotal = s.sstoreGasTotal + log.gasCost ∧
        ∃ u : Store, s'.ops = s.ops ++ [⟨.store u, n⟩] := by
  unfold extractOp at h
  split at h
  · split at h
    · exact Or.inl (Except.ok.inj h ▸ rfl)
    · split at h
      · obtain ⟨⟨ops, skipped⟩, appended, h⟩ := bind_ok h
        simp only at h
        split at h
        · exact Or.inl (Except.ok.inj h ▸ rfl)
        · split at h
          · rename_i grown
            split at h
            · rename_i write
              obtain rfl := Except.ok.inj h
              obtain ⟨update, decoded, shape⟩ := append_ok appended
              refine Or.inr ⟨rfl, ?_⟩
              cases memory : log.memory with
              | none =>
                obtain ⟨rfl, -⟩ := Prod.mk.inj (decodeStructLog_noMemory decoded memory)
                rw [shape] at grown
                simp at grown
              | some words =>
                have effect : effectful log.op = true := by
                  rw [write]
                  rfl
                obtain ⟨u, same, opcode, -⟩ := decodeStructLog_effect decoded effect memory
                obtain ⟨rfl, -⟩ := Prod.mk.inj same
                rw [write] at opcode
                cases u with
                | store u => exact ⟨u, shape⟩
                | _ => cases opcode
            all_goals exact Or.inl (Except.ok.inj h ▸ rfl)
          · exact Or.inl (Except.ok.inj h ▸ rfl)
      · exact Or.inl (Except.ok.inj h ▸ rfl)
  · exact Or.inl (Except.ok.inj h ▸ rfl)

theorem Paid.step {n : Nat} {log : StructLog} {s s' : Extracting} (paid : Paid logs s)
    (found : logs[n]? = some log) (h : s.step origin n log = .ok s') : Paid logs s' := by
  obtain ⟨new, grown, -⟩ := step_ops h
  unfold Paid at paid ⊢
  unfold Extracting.step at h
  obtain ⟨s₁, settled, extracted⟩ := bind_ok h
  have before : ((s₁.detectReentry origin log).stepUp log).sstoreGasTotal = s.sstoreGasTotal := by
    rw [stepUp_sstoreGas, detectReentry_sstoreGas, settleCreate_sstoreGas settled, noteEntry_sstoreGas]
  have kept : ((s₁.detectReentry origin log).stepUp log).ops = s.ops := by
    rw [stepUp_ops, (same_detectReentry origin log s₁).ops, (same_settleCreate settled).ops,
      (same_noteEntry log s).ops]
  rcases extractOp_sstoreGas extracted with same | ⟨total, u, ops⟩
  · rw [same, before, grown, List.map_append, List.sum_append]
    omega
  · have charged : storeCharge logs ⟨.store u, n⟩ = log.gasCost.toNat := by simp [storeCharge, found]
    rw [total, before, ops, kept, List.map_append, List.sum_append, List.map_singleton, List.sum_singleton, charged,
      UInt64.toNat_add]
    exact Nat.le_trans (Nat.mod_le _ _) (Nat.add_le_add_right paid _)

theorem Paid.run {rest : List StructLog} {n : Nat} {s s' : Extracting} (paid : Paid logs s)
    (here : logs.drop n = rest) (answer : run origin rest n s = .ok s') : Paid logs s' := by
  induction rest generalizing n s with
  | nil => exact Except.ok.inj answer ▸ paid
  | cons log rest ih =>
    obtain ⟨s₁, stepped, ran⟩ := bind_ok answer
    have found : logs[n]? = some log := by
      rw [← List.head?_drop, here]
      rfl
    refine ih (paid.step found stepped) ?_ ran
    rw [← List.drop_drop, here]
    rfl

end Extracting

theorem computeStateUpdates_paid {trace : DefaultFrame} {origin : Option Address} {extract : TraceExtract}
    (answer : computeStateUpdates trace origin = .ok extract) :
    ∃ ops : List Op, extract.stateUpdates = ops.map Op.update ∧ extract.opSteps = ops.map Op.step ∧
      extract.sstoreGasTotal.toNat ≤ (ops.map (Extracting.storeCharge trace.structLogs)).sum := by
  unfold computeStateUpdates at answer
  obtain ⟨last, ran, answer⟩ := bind_ok answer
  split at answer
  · cases answer
  · split at answer
    · cases answer
    · obtain rfl := Except.ok.inj answer
      have start : Extracting.Paid trace.structLogs {} := Nat.le_refl 0
      exact ⟨last.ops, rfl, rfl, start.run List.drop_zero ran⟩

/-! ### The two schedules -/

/-- Apart from writes, the report adds for an op what the gate charges for it. -/
theorem reportedGas_eq (update : StateUpdate) :
    (reportedGas update).toNat = if update.opcode = .sstore then 0 else (applyGas update).toNat := by
  cases update with
  | store s | call c | nested n | create value code | create2 salt value code => rfl
  | _ => simp [reportedGas, applyGas, logGas, logBaseCost, logTopicCost, logDataCostPerByte, logBase, logTopic, logByte,
      StateUpdate.opcode]

theorem calldataGas_le (data : Bytes) :
    (calldataGas data).toNat ≤ 4 * zeroBytes data + 16 * nonzeroBytes data := by
  induction data with
  | nil => rfl
  | cons b rest ih =>
    unfold calldataGas at ih ⊢
    rw [List.map_cons, List.sum_cons, UInt64.toNat_add]
    refine Nat.le_trans (Nat.mod_le _ _) ?_
    rw [← List.singleton_append, zeroBytes_append, nonzeroBytes_append]
    by_cases zero : b = 0
    · subst zero
      have zeros : zeroBytes [0] = 1 ∧ nonzeroBytes [0] = 0 := by decide
      have cost : calldataZeroByteCost.toNat = 4 := rfl
      rw [if_pos rfl]
      omega
    · have zeros : zeroBytes [b] = 0 := by simp [zeroBytes, zero]
      have nonzeros : nonzeroBytes [b] = 1 := by
        unfold nonzeroBytes
        rw [zeros]
        rfl
      have cost : calldataNonzeroByteCost.toNat = 16 := rfl
      rw [if_neg zero]
      omega

theorem foldl_reportedGas_le (updates : List StateUpdate) (gas : UInt64) :
    (updates.foldl (fun gas update => gas + reportedGas update) gas).toNat ≤
      gas.toNat + (updates.map fun u => (reportedGas u).toNat).sum := by
  induction updates generalizing gas with
  | nil => exact Nat.le_refl _
  | cons update rest ih =>
    rw [List.foldl_cons, List.map_cons, List.sum_cons]
    have head : (gas + reportedGas update).toNat ≤ gas.toNat + (reportedGas update).toNat := by
      rw [UInt64.toNat_add]
      exact Nat.mod_le _ _
    have tail := ih (gas + reportedGas update)
    omega

theorem foldl_applyGas_toNat (updates : List StateUpdate) (gas : UInt64) :
    (updates.foldl (fun gas update => satAdd gas (applyGas update)) gas).toNat =
      min (2 ^ 64 - 1) (gas.toNat + (updates.map fun u => (applyGas u).toNat).sum) := by
  induction updates generalizing gas with
  | nil =>
    have bound := gas.toNat_lt
    rw [List.foldl_nil, List.map_nil, List.sum_nil]
    omega
  | cons update rest ih =>
    rw [List.foldl_cons, List.map_cons, List.sum_cons, ih, toNat_satAdd]
    omega

/-- The execution part of the bound, before it saturates. -/
theorem executionGas_toNat (updates : List StateUpdate) (externalCallGas signatureFloor : UInt64) :
    (executionGas updates externalCallGas signatureFloor).toNat =
      min (2 ^ 64 - 1) (21000 + signatureFloor.toNat + externalCallGas.toNat + 2000 +
        (updates.map fun u => (applyGas u).toNat).sum) := by
  unfold executionGas
  rw [foldl_applyGas_toNat, toNat_satAdd, toNat_satAdd, toNat_satAdd, show txBase.toNat = 21000 from rfl,
    show unboundedApplyBaseGas.toNat = 2000 from rfl]
  omega

theorem applyRefund_le (gross refundCounter : UInt64) : applyRefund gross refundCounter ≤ gross := by
  have part : min refundCounter (gross / maxRefundQuotient) ≤ gross := by
    have quotient : gross / maxRefundQuotient ≤ gross := by
      rw [UInt64.le_iff_toNat_le, UInt64.toNat_div]
      exact Nat.div_le_self _ _
    show (if refundCounter ≤ gross / maxRefundQuotient then _ else _) ≤ _
    split
    · rename_i less
      exact UInt64.le_trans less quotient
    · exact quotient
  rw [UInt64.le_iff_toNat_le] at part ⊢
  unfold applyRefund
  rw [UInt64.toNat_sub_of_le _ _ (UInt64.le_iff_toNat_le.mpr part)]
  exact Nat.sub_le _ _

/-- Op by op: what the trace charged and what the report adds fit the gate's price. -/
theorem charges_le {logs : List StructLog} {ops : List Op}
    (capped : ∀ o ∈ ops, o.update.opcode = .sstore → ∀ log, logs[o.step]? = some log →
      log.gasCost ≤ unboundedColdSstoreCost) :
    (ops.map (Extracting.storeCharge logs)).sum + ((ops.map Op.update).map fun u => (reportedGas u).toNat).sum ≤
      ((ops.map Op.update).map fun u => (applyGas u).toNat).sum := by
  rw [List.map_map, List.map_map, ← List.sum_map_add]
  refine List.sum_le_sum fun o member => ?_
  have cap := capped o member
  show Extracting.storeCharge logs o + (reportedGas o.update).toNat ≤ (applyGas o.update).toNat
  rw [reportedGas_eq]
  unfold Extracting.storeCharge
  cases update : o.update with
  | store s =>
    rw [update] at cap
    rw [if_pos (show (StateUpdate.store s).opcode = .sstore from rfl)]
    cases found : logs[o.step]? with
    | none => exact Nat.zero_le _
    | some log => exact UInt64.le_iff_toNat_le.mp (cap rfl log found)
  | _ => simp [StateUpdate.opcode]

/-- The gate never prices an extracted program below its reported estimate, whatever the refund and the floor. The
payload is a byte vector, which no allocation lets grow to 2 ^ 63 bytes. -/
theorem reported_le_bound {trace : DefaultFrame} {origin : Option Address} {extract : TraceExtract}
    (answer : computeStateUpdates trace origin = .ok extract)
    (capped : ∀ (i : Nat) (log : StructLog), trace.structLogs[i]? = some log →
      Holds extract.stateUpdates extract.opSteps i .sstore → log.gasCost ≤ coldSload + sstoreSet)
    (short : (encodeStateUpdatesToAbi extract.stateUpdates).length < 2 ^ 63) (signatureFloor : UInt64) :
    estimateGasFromStateUpdates extract ≤
      estimateAppliedPayloadGas extract.stateUpdates (extract.callGasTotal + extract.createGasTotal)
        signatureFloor := by
  obtain ⟨ops, updates, steps, paid⟩ := computeStateUpdates_paid answer
  have charges := @charges_le trace.structLogs ops (by
    intro o member store log found
    refine capped o.step log found ?_
    rw [updates, steps, holds_ops]
    exact ⟨o, member, rfl, store⟩)
  rw [← updates] at charges
  refine UInt64.le_trans (applyRefund_le _ _) ?_
  rw [UInt64.le_iff_toNat_le, estimateAppliedPayloadGas_eq, payloadGas_toNat short, executionGas_toNat]
  have gross := foldl_reportedGas_le extract.stateUpdates (baseTxCost +
    calldataGas (encodeStateUpdatesToAbi extract.stateUpdates) + extract.callGasTotal + extract.createGasTotal +
      extract.sstoreGasTotal)
  have fits := (extract.stateUpdates.foldl (fun gas update => gas + reportedGas update) (baseTxCost +
    calldataGas (encodeStateUpdatesToAbi extract.stateUpdates) + extract.callGasTotal + extract.createGasTotal +
      extract.sstoreGasTotal)).toNat_lt
  have calldata := calldataGas_le (encodeStateUpdatesToAbi extract.stateUpdates)
  -- The report adds the two totals one by one, the gate receives their sum: both wrap.
  have start : (baseTxCost + calldataGas (encodeStateUpdatesToAbi extract.stateUpdates) + extract.callGasTotal +
      extract.createGasTotal + extract.sstoreGasTotal).toNat ≤
        21000 + (calldataGas (encodeStateUpdatesToAbi extract.stateUpdates)).toNat +
          (extract.callGasTotal + extract.createGasTotal).toNat + extract.sstoreGasTotal.toNat := by
    rw [UInt64.add_assoc (_ + _) extract.callGasTotal, UInt64.toNat_add, UInt64.toNat_add, UInt64.toNat_add,
      show baseTxCost.toNat = 21000 from rfl]
    omega
  unfold price
  omega

/-- A root that writes a fresh slot at the cap and logs. -/
def cappedWriteTrace : DefaultFrame where
  structLogs := [
    { op := .sstore, gas := 90000, gasCost := 22100, stack := some [5, 1] },
    { op := .log1, gas := 60000, gasCost := 750, stack := some [9, 0, 0], refundCounter := some 4800 }]

theorem reported_le_bound_cappedWrite : ∃ extract, computeStateUpdates cappedWriteTrace none = .ok extract ∧
    extract.sstoreGasTotal = 22100 ∧
    estimateGasFromStateUpdates extract ≤
      estimateAppliedPayloadGas extract.stateUpdates (extract.callGasTotal + extract.createGasTotal) 250000 := by
  have shape : (computeStateUpdates cappedWriteTrace none).toOption.any (fun extract =>
      extract.sstoreGasTotal == 22100 && decide ((encodeStateUpdatesToAbi extract.stateUpdates).length < 2 ^ 63)) =
        true := by
    decide +kernel
  obtain ⟨extract, answer, shape⟩ := Outcome.any_ok shape
  obtain ⟨total, short⟩ := Bool.and_eq_true_iff.mp shape
  have cheap : ∀ log ∈ cappedWriteTrace.structLogs, log.gasCost ≤ coldSload + sstoreSet := by decide
  refine ⟨extract, answer, by simpa using total, ?_⟩
  exact reported_le_bound answer (fun i log found _ => cheap log (List.mem_of_getElem? found))
    (of_decide_eq_true short) 250000

end GasAnalyzer
