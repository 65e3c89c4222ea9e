import GasAnalyzer.Legacy.Tree

/-!
# What the legacy extractor returns

On the flattening of a call tree it returns the closure of the root frame, in order, and its gas.
-/

namespace GasAnalyzer

open Extracting CallTree

/-- A trace that is the flattening of `t`, with no errored step. -/
structure FlatTrace (trace : DefaultFrame) (t : CallTree) : Prop where
  flat : trace.structLogs = t.flatten
  wellFormed : t.WellFormed 1
  clean : t.NoStepErrs

/-- The extract is the tree recursion of the closure. -/
structure ExtractsClosure (t : CallTree) (extract : TraceExtract) : Prop where
  steps : extract.opSteps = t.effects.map Prod.fst
  updates : extract.stateUpdates.map some = t.effects.map (fun p => p.2.update?)
  callGas : extract.callGasTotal = ((t.callRecords always).map Record.gasUsed).sum
  calleeGas : extract.calleeGasTotal =
    (((t.callRecords always).filter (fun r => r.entryGas.isSome)).map Record.calleeGas).sum
  createGas : extract.createGasTotal = ((t.createRecords always).map Record.gasUsed).sum
  sstoreGas : extract.sstoreGasTotal = ((t.records always (· == .sstore)).map (fun r => r.log.gasCost)).sum

/-- A `CALL` that opened no frame spent nothing in a callee. -/
theorem sum_calleeGas (rs : List Record) :
    ((rs.filter (fun r => r.entryGas.isSome)).map Record.calleeGas).sum = (rs.map Record.calleeGas).sum := by
  induction rs with
  | nil => rfl
  | cons r rest ih =>
    rw [List.filter_cons]
    cases entry : r.entryGas with
    | none =>
      have nothing : r.calleeGas = 0 := by simp [Record.calleeGas, entry, GasAnalyzer.calleeGas]
      simp [ih, nothing]
    | some gas => simp [ih]

theorem update?_isSome {log : StructLog} (decodes : log.Decodes) (memory : log.memory.isSome = true)
    (kind : extracts log.op = true) : ∃ u, log.update? = some u := by
  obtain ⟨r, decoded⟩ := decodes
  obtain ⟨words, hasMemory⟩ := Option.isSome_iff_exists.mp memory
  have effect : effectful log.op = true := by
    cases op : log.op <;> simp_all [extracts, effectful]
  obtain ⟨u, rfl, -, -⟩ := decodeStructLog_effect decoded effect hasMemory
  exact ⟨u, by simp [StructLog.update?, decoded]⟩

theorem flatMap_opsOf (ps : List (Nat × StructLog))
    (decoded : ∀ p ∈ ps, extracts p.2.op = true → ∃ u, p.2.update? = some u) :
    (ps.flatMap (fun p => opsOf p.1 p.2)).map Op.step =
        (ps.filter (fun p => extracts p.2.op)).map Prod.fst ∧
      ((ps.flatMap (fun p => opsOf p.1 p.2)).map Op.update).map some =
        (ps.filter (fun p => extracts p.2.op)).map (fun p => p.2.update?) := by
  induction ps with
  | nil => exact ⟨rfl, rfl⟩
  | cons p rest ih =>
    obtain ⟨steps, updates⟩ := ih (fun q member => decoded q (List.mem_cons_of_mem _ member))
    by_cases kind : extracts p.2.op = true
    · obtain ⟨u, update⟩ := decoded p List.mem_cons_self kind
      have one : opsOf p.1 p.2 = [⟨u, p.1⟩] := by simp [opsOf, kind, update]
      rw [List.flatMap_cons, List.filter_cons, if_pos kind, one]
      constructor
      · simp [steps]
      · simpa [update] using updates
    · have none : opsOf p.1 p.2 = [] := by simp [opsOf, kind]
      rw [List.flatMap_cons, List.filter_cons, if_neg kind, none]
      exact ⟨steps, updates⟩

/-- The root's closure is extracted, exactly when its steps decode and its creates deploy. -/
theorem computeStateUpdates_decides {trace : DefaultFrame} {t : CallTree} (flat : FlatTrace trace t)
    (origin : Option Address) :
    Outcome.Decides (t.Decodable 0 ∧ t.CreatesDeploy) (fun extract =>
        extract.stateUpdates = (t.tally 0).ops.map Op.update ∧ extract.skippedOpcodes = ∅ ∧
        extract.refundCounter = (trace.structLogs.getLast?.bind StructLog.refundCounter).getD 0 ∧
        ExtractsClosure t extract) (computeStateUpdates trace origin) := by
  have short : 1 + t.size < 2 ^ 64 := by
    have bounded := trace.bounded
    rw [flat.flat, length_flatten] at bounded
    omega
  have start : Ready 1 {} := ⟨rfl, rfl, rfl, rfl, rfl⟩
  obtain ⟨s₁, lands, moved⟩ := start.lands flat.wellFormed origin
  have decides := run_tree origin t 1 0 {} s₁ flat.wellFormed flat.clean short lands
  unfold computeStateUpdates
  rw [flat.flat]
  by_cases fine : t.Decodable 0 ∧ t.CreatesDeploy
  · have both : t.Decodable 0 ∧ t.CreatesDeploy ↔ (t.Decodable 0 ∧ t.CreatesDeploy) ∧ True := by simp
    rw [both]
    refine decides.bind ?_
    rintro s ⟨ready, adds⟩
    have all := moved.trans adds
    rw [Tally.nothing_add] at all
    rw [ready.create, ready.tracking]
    refine Outcome.decides_ok trivial ⟨?_, all.skipped, rfl, ?_⟩
    · show s.ops.map Op.update = _
      rw [all.ops]
      rfl
    · have found := flatMap_opsOf (t.closure always 0) (fun p member kind =>
        update?_isSome (fine.1 p member kind) (flat.wellFormed.closure_memory always 0 p member) kind)
      have ops : s.ops = (t.closure always 0).flatMap (fun p => opsOf p.1 p.2) := by
        rw [all.ops, tally_ops]
        rfl
      refine ⟨?_, ?_, ?_, ?_, ?_, ?_⟩
      · show s.ops.map Op.step = _
        rw [ops]
        exact found.1
      · show (s.ops.map Op.update).map some = _
        rw [ops]
        exact found.2
      · exact all.callGas.trans ((UInt64.zero_add _).trans (tally_callGas t 0))
      · rw [sum_calleeGas]
        exact all.calleeGas.trans ((UInt64.zero_add _).trans (tally_calleeGas t 0))
      · exact all.createGas.trans ((UInt64.zero_add _).trans (tally_createGas t 0))
      · exact all.sstoreGas.trans ((UInt64.zero_add _).trans (tally_sstoreGas t 0))
  · obtain ⟨failure, failed⟩ := decides.2 fine
    rw [failed]
    exact ⟨fun both => absurd both fine, fun _ => ⟨failure, rfl⟩⟩

/-- Every step of the root's closure that is extracted can be read off its stack and memory. -/
def CallTree.Legible (t : CallTree) : Prop := ∀ p ∈ t.effects, p.2.Readable

theorem legible_iff {t : CallTree} {d : Nat} (wf : t.WellFormed d) : t.Decodable 0 ↔ t.Legible := by
  have readable : ∀ p ∈ t.closure always 0, extracts p.2.op = true → (p.2.Decodes ↔ p.2.Readable) := by
    intro p member kind
    apply decodes_iff
    · cases op : p.2.op <;> simp_all [extracts, effectful]
    · exact wf.closure_memory always 0 p member
  constructor
  · intro decodable p member
    obtain ⟨inside, kind⟩ := List.mem_filter.mp member
    exact (readable p inside kind).mp (decodable p inside kind)
  · intro legible p inside kind
    exact (readable p inside kind).mpr (legible p (List.mem_filter.mpr ⟨inside, kind⟩))

/-- The extractor is the tree recursion of the root's closure exactly when the closure is legible. -/
theorem computeStateUpdates_closure_iff (trace : DefaultFrame) (t : CallTree) (flat : FlatTrace trace t)
    (deploys : t.CreatesDeploy) (origin : Option Address) :
    (∃ extract, computeStateUpdates trace origin = .ok extract ∧ ExtractsClosure t extract) ↔ t.Legible := by
  rw [← legible_iff flat.wellFormed]
  have decides := computeStateUpdates_decides flat origin
  constructor
  · rintro ⟨extract, answer, -⟩
    exact (decides.iff.mp ⟨extract, answer⟩).1
  · intro decodable
    obtain ⟨extract, answer, -, -, -, extracts⟩ := decides.1 ⟨decodable, deploys⟩
    exact ⟨extract, answer, extracts⟩

/-- A root that delegates to code which logs nothing's bytes, then stops. -/
def delegatedLog : CallTree :=
  .enter { op := .delegatecall, stack := some [0, 0, 0, 0, 7, 0] }
    (.step { op := .log0, depth := 2, stack := some [0, 0] } .done)
    (.step { op := .other "STOP", stack := some [1] } .done)

theorem delegatedLog_flat : FlatTrace { structLogs := delegatedLog.flatten } delegatedLog where
  flat := rfl
  wellFormed := by
    refine ⟨⟨rfl, rfl, rfl⟩, rfl, rfl, rfl, ⟨⟨rfl, rfl, rfl⟩, ?_, trivial⟩, rfl, ⟨rfl, rfl, rfl⟩, ?_, trivial⟩
    · intro _ opens
      cases opens
    · intro _ opens
      cases opens
  clean := by
    intro log member
    simp only [delegatedLog, flatten, List.cons_append, List.nil_append, List.mem_cons, List.not_mem_nil,
      or_false] at member
    rcases member with rfl | rfl | rfl <;> rfl

theorem delegatedLog_legible : delegatedLog.Legible := by
  intro p member
  have one : delegatedLog.effects = [(1, { op := .log0, depth := 2, stack := some [0, 0] })] := rfl
  rw [one, List.mem_singleton] at member
  subst member
  refine ⟨⟨_, rfl, by decide⟩, ?_, ?_⟩
  · rintro words ⟨⟩ word member
    cases member
  · rintro i ⟨⟩ offset length first second
    cases first
    cases second
    exact ⟨by decide, by decide⟩

theorem computeStateUpdates_delegatedLog :
    ∃ extract, computeStateUpdates { structLogs := delegatedLog.flatten } none = .ok extract ∧
      ExtractsClosure delegatedLog extract := by
  apply (computeStateUpdates_closure_iff _ delegatedLog delegatedLog_flat ?_ none).mpr delegatedLog_legible
  exact ⟨nofun, fun _ => ⟨nofun, trivial⟩, nofun, trivial⟩

/-- An empty log whose offset is no machine word. -/
def farLog : CallTree := .step { op := .log0, stack := some [0, 2 ^ 64] } .done

theorem farLog_flat : FlatTrace { structLogs := farLog.flatten } farLog := by
  refine ⟨rfl, ⟨⟨rfl, rfl, rfl⟩, ?_, trivial⟩, ?_⟩
  · intro _ opens
    cases opens
  · intro log member
    rw [List.mem_singleton.mp member]
    rfl

/-- The extractor aborts on it: it converts the offset before it looks at the length. -/
theorem computeStateUpdates_farLog : ¬∀ (trace : DefaultFrame) (t : CallTree) (origin : Option Address),
    FlatTrace trace t → t.CreatesDeploy →
      ∃ extract, computeStateUpdates trace origin = .ok extract ∧ ExtractsClosure t extract := by
  intro always
  obtain ⟨extract, answer, -⟩ := always _ farLog none farLog_flat ⟨nofun, trivial⟩
  cases answer

end GasAnalyzer
