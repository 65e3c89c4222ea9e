import GasAnalyzer.Legacy.Extraction
import GasAnalyzer.Native.Single

/-!
# The two extractors agree

The legacy extractor and the canonical one with nothing nested are two recursions over the same closure. They
differ in their stores, and in what they report as skipped: the legacy one reports nothing.
-/

namespace GasAnalyzer

open Extracting CallTree

theorem unhanded_consumers (candidates : OrdMap Nat Candidate) :
    Unhanded (.consumers fun _ => false) candidates := fun n callee => frameIndex_none (candidates.get n) callee

/-- Every store of a tree has the two stack words it takes. -/
def CallTree.StoresReadable (t : CallTree) : Prop :=
  ∀ log ∈ t.flatten, log.op = .sstore → 2 ≤ (log.stack.getD []).length

/-! ### What the canonical walk needs -/

theorem extracts_emitted {op : Opcode} (emitted : op.emitted = true) : extracts op = true := by
  cases op <;> first | rfl | cases emitted

/-- Below a call that stays native the walk only reads stores. -/
theorem walkable_native {t : CallTree} {d : Nat} (wf : t.WellFormed d) (stores : t.StoresReadable) :
    t.Walkable false := by
  induction t generalizing d with
  | done => trivial
  | step log rest ih =>
    obtain ⟨carries, -, tail⟩ := wf
    refine ⟨⟨carries.stack, carries.memory, fun store _ => stores log List.mem_cons_self store, nofun⟩, nofun, ?_⟩
    exact ih tail (fun l member => stores l (List.mem_cons_of_mem _ member))
  | enter call body rest ihBody ihRest =>
    obtain ⟨carries, -, -, -, inner, -, tail⟩ := wf
    refine ⟨⟨carries.stack, carries.memory, fun store _ => stores call List.mem_cons_self store, nofun⟩, nofun, ?_, ?_⟩
    · exact ihBody inner (fun l member => stores l (List.mem_cons_of_mem _ (List.mem_append_left _ member)))
    · exact ihRest tail (fun l member => stores l (List.mem_cons_of_mem _ (List.mem_append_right _ member)))

theorem walkable_of_decodable {t : CallTree} {d n : Nat} (wf : t.WellFormed d) (stores : t.StoresReadable)
    (decodable : t.Decodable n) (deploys : t.CreatesDeploy) : t.Walkable true := by
  induction t generalizing d n with
  | done => trivial
  | step log rest ih =>
    obtain ⟨carries, -, tail⟩ := wf
    obtain ⟨here, later⟩ := decodable_step.mp decodable
    refine ⟨⟨carries.stack, carries.memory, fun store _ => stores log List.mem_cons_self store, ?_⟩, ?_, ?_⟩
    · intro _ emitted _
      exact here (extracts_emitted emitted)
    · intro _ create _
      exact deploys.1 create
    · exact ih tail (fun l member => stores l (List.mem_cons_of_mem _ member)) later deploys.2
  | enter call body rest ihBody ihRest =>
    obtain ⟨carries, -, -, -, inner, -, tail⟩ := wf
    obtain ⟨here, inside, later⟩ := decodable_enter.mp decodable
    obtain ⟨created, deployed, more⟩ := deploys
    have storesBody : body.StoresReadable := fun l member =>
      stores l (List.mem_cons_of_mem _ (List.mem_append_left _ member))
    refine ⟨⟨carries.stack, carries.memory, fun store _ => stores call List.mem_cons_self store, ?_⟩, ?_, ?_, ?_⟩
    · intro _ emitted _
      exact here (extracts_emitted emitted)
    · intro _ create
      exact created create
    · rw [Bool.true_and]
      cases delegates : call.op.isDelegate with
      | false => exact walkable_native inner storesBody
      | true => exact ihBody inner storesBody (inside delegates) (deployed delegates)
    · exact ihRest tail (fun l member => stores l (List.mem_cons_of_mem _ (List.mem_append_right _ member))) later more

/-! ### What the two yield -/

/-- A step's ops but its store. -/
theorem nonStores_opsOf {log : StructLog} (memory : log.memory.isSome = true) (fine : log.errored = false) (n : Nat) :
    nonStores (Extracting.opsOf n log) = stepOps n log := by
  obtain ⟨words, hasMemory⟩ := Option.isSome_iff_exists.mp memory
  unfold Extracting.opsOf stepOps
  rw [fine]
  by_cases kind : extracts log.op = true
  · rw [if_pos kind]
    cases update : log.update? with
    | none => cases log.op.emitted <;> rfl
    | some u =>
      have decoded : ∃ skipped, decodeStructLog log = .ok (some u, skipped) := by
        unfold StructLog.update? at update
        cases answer : decodeStructLog log with
        | error failure =>
          rw [answer] at update
          cases update
        | ok r =>
          rw [answer] at update
          exact ⟨r.2, by rw [← update]⟩
      obtain ⟨skipped, decoded⟩ := decoded
      have effect : effectful log.op = true := by
        cases op : log.op <;> simp_all [extracts, effectful]
      obtain ⟨u', same, opcode, -⟩ := decodeStructLog_effect decoded effect hasMemory
      obtain rfl := Option.some.inj (Prod.mk.inj same).1
      have emitted : log.op.emitted = !u.isStore := by
        rw [← opcode]
        rw [← opcode] at effect
        cases u <;> rfl
      rw [emitted]
      cases store : u.isStore <;> simp [nonStores, store]
  · have quiet : log.op.emitted = false := by
      by_contra emitted
      exact kind (extracts_emitted (by simpa using emitted))
    rw [if_neg kind, quiet]
    rfl

/-- What the walk yields of a tree is what the extractor tallies, less its stores. -/
structure SameYield (y : Yield) (tally : Tally) : Prop where
  ops : nonStores tally.ops = y.ops
  callGas : tally.callGas = y.callGas
  calleeGas : tally.calleeGas = y.calleeGas
  createGas : tally.createGas = y.createGas

theorem SameYield.add {a b : Yield} {c e : Tally} (first : SameYield a c) (second : SameYield b e) :
    SameYield (a.add b) (c.add e) where
  ops := by rw [Tally.add, nonStores_append, first.ops, second.ops]; rfl
  callGas := by rw [Tally.add, first.callGas, second.callGas]; rfl
  calleeGas := by rw [Tally.add, first.calleeGas, second.calleeGas]; rfl
  createGas := by rw [Tally.add, first.createGas, second.createGas]; rfl

theorem sameYield_step {r : Record} (memory : r.log.memory.isSome = true) (fine : r.log.errored = false) (n : Nat) :
    SameYield (stepYield n r) (stepTally n r) := by
  refine ⟨nonStores_opsOf memory fine n, ?_, ?_, ?_⟩
  · simp [stepTally, stepYield, fine]
  · simp [stepTally, stepYield, fine]
  · simp [stepTally, stepYield, fine]

theorem sameYield {t : CallTree} {d : Nat} (wf : t.WellFormed d) (clean : t.NoStepErrs) (fine : t.NoFrameFails)
    (n : Nat) : SameYield (t.yield n) (t.tally n) := by
  induction t generalizing d n with
  | done => exact ⟨rfl, rfl, rfl, rfl⟩
  | step log rest ih =>
    rw [yield, tally]
    refine (sameYield_step wf.1.memory (clean log List.mem_cons_self) n).add ?_
    exact ih wf.2.2 (fun l member => clean l (List.mem_cons_of_mem _ member)) fine (n + 1)
  | enter call body rest ihBody ihRest =>
    obtain ⟨carries, -, -, -, inner, -, tail⟩ := wf
    obtain ⟨fineBody, success, fineRest⟩ := fine
    have cleanBody : body.NoStepErrs := fun l member =>
      clean l (List.mem_cons_of_mem _ (List.mem_append_left _ member))
    have cleanRest : rest.NoStepErrs := fun l member =>
      clean l (List.mem_cons_of_mem _ (List.mem_append_right _ member))
    rw [yield, tally, success]
    refine (sameYield_step carries.memory (clean call List.mem_cons_self) n).add (SameYield.add ?_ ?_)
    · cases call.op.isDelegate with
      | false => exact ⟨rfl, rfl, rfl, rfl⟩
      | true => exact ihBody inner cleanBody fineBody (n + 1)
    · exact ihRest tail cleanRest fineRest _

/-- The opcodes of a tree's closure that the walk cannot replay. -/
theorem yield_skipped (t : CallTree) (n : Nat) (op : Opcode) :
    op ∈ (t.yield n).skipped ↔ op.unsupported = true ∧ ∃ p ∈ t.closure always n, p.2.op = op := by
  have one : ∀ log : StructLog, op ∈ stepSkips log ↔ op.unsupported = true ∧ log.op = op := by
    intro log
    unfold stepSkips
    by_cases kind : log.op.unsupported = true
    · rw [if_pos kind, Finset.mem_singleton]
      constructor
      · rintro rfl
        exact ⟨kind, rfl⟩
      · rintro ⟨-, same⟩
        exact same.symm
    · rw [if_neg kind]
      simp only [Finset.notMem_empty, false_iff, not_and]
      rintro kind' rfl
      exact kind kind'
  induction t generalizing n with
  | done => simp [yield, CallTree.closure]
  | step log rest ih =>
    rw [yield, CallTree.closure]
    simp only [Yield.add, Finset.mem_union, ih, List.mem_cons]
    rw [show (stepYield n ⟨log, none, rest.startGas.getD 0⟩).skipped = stepSkips log from rfl, one]
    constructor
    · rintro (⟨kind, same⟩ | ⟨kind, p, member, same⟩)
      · exact ⟨kind, _, Or.inl rfl, same⟩
      · exact ⟨kind, p, Or.inr member, same⟩
    · rintro ⟨kind, p, rfl | member, same⟩
      · exact Or.inl ⟨kind, same⟩
      · exact Or.inr ⟨kind, p, member, same⟩
  | enter call body rest ihBody ihRest =>
    have inside : op ∈ (if call.op.isDelegate then
          if rest.succeeds then body.yield (n + 1) else { skipped := (body.yield (n + 1)).skipped }
        else {} : Yield).skipped ↔ op.unsupported = true ∧
          ∃ p ∈ (if call.op.isDelegate && always rest then body.closure always (n + 1) else []), p.2.op = op := by
      cases call.op.isDelegate with
      | false => simp
      | true =>
        have skips : (if rest.succeeds then body.yield (n + 1) else
            { skipped := (body.yield (n + 1)).skipped } : Yield).skipped = (body.yield (n + 1)).skipped := by
          split <;> rfl
        rw [if_pos rfl, skips]
        exact ihBody (n + 1)
    rw [yield, CallTree.closure]
    simp only [Yield.add, Finset.mem_union, ihRest, List.mem_cons, List.mem_append, inside]
    rw [show (stepYield n ⟨call, body.startGas, rest.startGas.getD 0⟩).skipped = stepSkips call from rfl, one]
    constructor
    · rintro (⟨kind, same⟩ | ⟨kind, p, member, same⟩ | ⟨kind, p, member, same⟩)
      · exact ⟨kind, _, Or.inl rfl, same⟩
      · exact ⟨kind, p, Or.inr (Or.inl member), same⟩
      · exact ⟨kind, p, Or.inr (Or.inr member), same⟩
    · rintro ⟨kind, p, rfl | member | member, same⟩
      · exact Or.inl ⟨kind, same⟩
      · exact Or.inr (Or.inl ⟨kind, p, member, same⟩)
      · exact Or.inr (Or.inr ⟨kind, p, member, same⟩)

/-! ### Agreement -/

/-- No frame that a step opens fails, and no create fails, whether or not it opened a frame. -/
def CallTree.NoSubFrameFails : CallTree → Prop
  | done => True
  | step log rest => (log.op.isCreate = true → rest.succeeds = true) ∧ rest.NoSubFrameFails
  | enter _ body rest => body.NoSubFrameFails ∧ rest.succeeds = true ∧ rest.NoSubFrameFails

theorem CallTree.NoSubFrameFails.frames {t : CallTree} (fine : t.NoSubFrameFails) : t.NoFrameFails := by
  induction t with
  | done => trivial
  | step log rest ih => exact ih fine.2
  | enter call body rest ihBody ihRest => exact ⟨ihBody fine.1, fine.2.1, ihRest fine.2.2⟩

theorem CallTree.NoSubFrameFails.creates {t : CallTree} (fine : t.NoSubFrameFails) : t.CreatesDeploy := by
  induction t with
  | done => trivial
  | step log rest ih => exact ⟨fine.1, ih fine.2⟩
  | enter call body rest ihBody ihRest => exact ⟨fun _ => fine.2.1, fun _ => ihBody fine.1, ihRest fine.2.2⟩

/-- The same ops but for stores, and the same gas. -/
structure Agree (extract : TraceExtract) (tree : FrameTreeExtract) : Prop where
  updates : ∃ frame, tree.frames = [frame] ∧
    extract.stateUpdates.filter (fun u => !u.isStore) = frame.updates.filter (fun u => !u.isStore)
  callGas : extract.callGasTotal = tree.callGasTotal
  calleeGas : extract.calleeGasTotal = tree.calleeGasTotal
  createGas : extract.createGasTotal = tree.createGasTotal

/-- A short stack below a store stops the pre-pass. -/
theorem storesReadable_of_scan {logs : List StructLog} : ∀ {index : Nat} {s s' : Scan},
    Scan.run logs index s = .ok s' → ∀ log ∈ logs, log.op = .sstore → log.errored = false →
      2 ≤ (log.stack.getD []).length := by
  induction logs with
  | nil =>
    intro index s s' _ log member
    cases member
  | cons first rest ih =>
    intro index s s' ran log member store fine
    obtain ⟨s₁, stepped, ran⟩ := Outcome.bind_ok ran
    rcases List.mem_cons.mp member with rfl | later
    · unfold Scan.step at stepped
      split at stepped
      · cases stepped
      · dsimp only at stepped
        split at stepped
        · cases stepped
        · rw [if_neg (by simp [fine])] at stepped
          obtain ⟨s₂, wrote, -⟩ := Outcome.bind_ok stepped
          unfold Scan.noteWrite at wrote
          rw [store] at wrote
          dsimp only at wrote
          split at wrote
          · rename_i slot value first second
            have found : 1 < (log.stack.getD []).reverse.length := (List.getElem?_eq_some_iff.mp second).1
            rw [List.length_reverse] at found
            omega
          · cases wrote
    · exact ih ran log later store fine

theorem filter_updates (ops : List Op) :
    (ops.map Op.update).filter (fun u => !u.isStore) = (nonStores ops).map Op.update := by
  rw [List.filter_map]
  rfl

variable {H : Hashes} {trace : DefaultFrame} {t : CallTree}

theorem storesReadable_of_answer {root : Address} {elig : Eligibility} {cost : NestingCostModel}
    {tree : FrameTreeExtract} (flat : FlatTrace trace t) (answer : splitFrameTree H trace root elig cost = .ok tree) :
    t.StoresReadable := by
  unfold splitFrameTree at answer
  obtain ⟨r, scanned, -⟩ := Outcome.bind_ok answer
  obtain ⟨s, ran, -⟩ := Outcome.bind_ok scanned
  rw [flat.flat] at ran
  intro log member store
  exact storesReadable_of_scan ran log member store (flat.clean log member)

/-- Both extractors answer, as the closure says. -/
theorem extractors_answer (flat : FlatTrace trace t) (fine : t.NoSubFrameFails) (legible : t.Legible)
    (stores : t.StoresReadable) (origin : Option Address) (root : Address) (cost : NestingCostModel) :
    ∃ extract tree, computeStateUpdates trace origin = .ok extract ∧
      computeFrameTreeCanonical H trace root (fun _ => false) cost = .ok tree ∧ Agree extract tree ∧
      extract.skippedOpcodes = ∅ ∧ tree.skippedOpcodes = (t.yield 0).skipped := by
  have decodable := (legible_iff flat.wellFormed).mpr legible
  obtain ⟨extract, answer, tallied, skipped, -, extracts⟩ :=
    (computeStateUpdates_decides flat origin).1 ⟨decodable, fine.creates⟩
  obtain ⟨tree, split, single⟩ := splitFrameTree_single (H := H) unhanded_consumers flat.flat flat.wellFormed
    (walkable_of_decodable flat.wellFormed stores decodable fine.creates) root cost
  have same := sameYield flat.wellFormed flat.clean fine.frames 0
  refine ⟨extract, tree, answer, split, ⟨?_, ?_, ?_, ?_⟩, skipped, single.skipped⟩
  · obtain ⟨frame, ops, frames, updates, yielded⟩ := single.frame
    refine ⟨frame, frames, ?_⟩
    rw [tallied, updates, filter_updates, filter_updates, yielded, same.ops]
  · rw [extracts.callGas, single.callGas, ← same.callGas, tally_callGas]
  · rw [extracts.calleeGas, single.calleeGas, ← same.calleeGas, tally_calleeGas, sum_calleeGas]
  · rw [extracts.createGas, single.createGas, ← same.createGas, tally_createGas]

/-- The two extractors answer and agree exactly on the traces they can read. -/
theorem extractors_agree_iff (H : Hashes) (trace : DefaultFrame) (t : CallTree) (flat : FlatTrace trace t)
    (fine : t.NoSubFrameFails) (origin : Option Address) (root : Address) (cost : NestingCostModel) :
    (∃ extract tree, computeStateUpdates trace origin = .ok extract ∧
      computeFrameTreeCanonical H trace root (fun _ => false) cost = .ok tree ∧ Agree extract tree) ↔
    t.Legible ∧ t.StoresReadable := by
  constructor
  · rintro ⟨extract, tree, answer, split, -⟩
    have decodable := ((computeStateUpdates_decides flat origin).iff.mp ⟨extract, answer⟩).1
    exact ⟨(legible_iff flat.wellFormed).mp decodable, storesReadable_of_answer flat split⟩
  · rintro ⟨legible, stores⟩
    obtain ⟨extract, tree, answer, split, agree, -⟩ :=
      extractors_answer (H := H) flat fine legible stores origin root cost
    exact ⟨extract, tree, answer, split, agree⟩

theorem extractors_agree_delegatedLog : ∃ extract tree,
    computeStateUpdates { structLogs := delegatedLog.flatten } none = .ok extract ∧
    computeFrameTreeCanonical ⟨fun _ => 0, fun _ => 0⟩ { structLogs := delegatedLog.flatten } 7 (fun _ => false)
      nestingCostModelV1 = .ok tree ∧ Agree extract tree := by
  apply (extractors_agree_iff _ _ delegatedLog delegatedLog_flat ?_ none 7 nestingCostModelV1).mpr
  · refine ⟨delegatedLog_legible, ?_⟩
    intro log member store
    simp only [delegatedLog, flatten, List.cons_append, List.nil_append, List.mem_cons, List.not_mem_nil,
      or_false] at member
    rcases member with rfl | rfl | rfl <;> cases store
  · refine ⟨⟨?_, trivial⟩, rfl, ?_, trivial⟩
    · intro lost
      cases lost
    · intro lost
      cases lost

/-- Neither extractor answers for an empty log at an offset that is no machine word. -/
theorem extractors_abort_farLog : ¬∀ (H : Hashes) (trace : DefaultFrame) (t : CallTree) (origin : Option Address)
    (root : Address) (cost : NestingCostModel), FlatTrace trace t → t.NoSubFrameFails →
      ∃ extract tree, computeStateUpdates trace origin = .ok extract ∧
        computeFrameTreeCanonical H trace root (fun _ => false) cost = .ok tree ∧ Agree extract tree := by
  intro always
  obtain ⟨extract, tree, answer, -⟩ := always ⟨fun _ => 0, fun _ => 0⟩ _ farLog none 7 nestingCostModelV1
    farLog_flat ⟨nofun, trivial⟩
  cases answer

/-! ### Skipped opcodes -/

/-- The extractor reports the unsupported opcodes of the closure, and so does the canonical one. -/
def ReportsSkipped (t : CallTree) (extract : TraceExtract) (tree : FrameTreeExtract) : Prop :=
  (∀ op, op.unsupported = true → (op ∈ extract.skippedOpcodes ↔ ∃ p ∈ t.closure always 0, p.2.op = op)) ∧
    extract.skippedOpcodes = tree.skippedOpcodes

/-- The extractors report the same skipped opcodes exactly when there are none to report. -/
theorem skipped_reported_iff (H : Hashes) (trace : DefaultFrame) (t : CallTree) (flat : FlatTrace trace t)
    (fine : t.NoSubFrameFails) (origin : Option Address) (root : Address) (cost : NestingCostModel) :
    (∃ extract tree, computeStateUpdates trace origin = .ok extract ∧
      computeFrameTreeCanonical H trace root (fun _ => false) cost = .ok tree ∧ ReportsSkipped t extract tree) ↔
    (t.Legible ∧ t.StoresReadable) ∧ ∀ p ∈ t.closure always 0, p.2.op.unsupported = false := by
  constructor
  · rintro ⟨extract, tree, answer, split, reports, -⟩
    have decides := computeStateUpdates_decides flat origin
    have decodable := (decides.iff.mp ⟨extract, answer⟩)
    obtain ⟨extract', answer', -, none, -⟩ := decides.1 decodable
    obtain rfl := Except.ok.inj (answer.symm.trans answer')
    refine ⟨⟨(legible_iff flat.wellFormed).mp decodable.1, storesReadable_of_answer flat split⟩, ?_⟩
    intro p member
    by_contra kind
    have reported := (reports p.2.op (by simpa using kind)).mpr ⟨p, member, rfl⟩
    rw [none] at reported
    exact absurd reported (Finset.notMem_empty _)
  · rintro ⟨⟨legible, stores⟩, quiet⟩
    obtain ⟨extract, tree, answer, split, -, none, skipped⟩ :=
      extractors_answer (H := H) flat fine legible stores origin root cost
    refine ⟨extract, tree, answer, split, ?_, ?_⟩
    · intro op kind
      rw [none]
      constructor
      · intro member
        exact absurd member (Finset.notMem_empty _)
      · rintro ⟨p, member, rfl⟩
        rw [quiet p member] at kind
        cases kind
    · rw [none, skipped]
      symm
      apply Finset.eq_empty_of_forall_notMem
      intro op member
      obtain ⟨kind, p, inside, rfl⟩ := (yield_skipped t 0 op).mp member
      rw [quiet p inside] at kind
      cases kind

theorem skipped_reported_delegatedLog : ∃ extract tree,
    computeStateUpdates { structLogs := delegatedLog.flatten } none = .ok extract ∧
    computeFrameTreeCanonical ⟨fun _ => 0, fun _ => 0⟩ { structLogs := delegatedLog.flatten } 7 (fun _ => false)
      nestingCostModelV1 = .ok tree ∧ ReportsSkipped delegatedLog extract tree := by
  apply (skipped_reported_iff _ _ delegatedLog delegatedLog_flat ?_ none 7 nestingCostModelV1).mpr
  · refine ⟨⟨delegatedLog_legible, ?_⟩, ?_⟩
    · intro log member store
      simp only [delegatedLog, flatten, List.cons_append, List.nil_append, List.mem_cons, List.not_mem_nil,
        or_false] at member
      rcases member with rfl | rfl | rfl <;> cases store
    · decide
  · refine ⟨⟨?_, trivial⟩, rfl, ?_, trivial⟩
    · intro lost
      cases lost
    · intro lost
      cases lost

/-- A transient store in the root frame. -/
def transientStore : CallTree := .step { op := .tstore, stack := some [1, 2] } .done

/-- The legacy extractor does not report it. -/
theorem skipped_unreported : ¬∀ (H : Hashes) (trace : DefaultFrame) (t : CallTree) (origin : Option Address)
    (root : Address) (cost : NestingCostModel), FlatTrace trace t → t.NoSubFrameFails →
      ∃ extract tree, computeStateUpdates trace origin = .ok extract ∧
        computeFrameTreeCanonical H trace root (fun _ => false) cost = .ok tree ∧ ReportsSkipped t extract tree := by
  intro always
  have flat : FlatTrace { structLogs := transientStore.flatten } transientStore := by
    refine ⟨rfl, ⟨⟨rfl, rfl, rfl⟩, ?_, trivial⟩, ?_⟩
    · intro _ opens
      cases opens
    · intro log member
      rw [List.mem_singleton.mp member]
      rfl
  obtain ⟨extract, tree, answer, -, reports, -⟩ := always ⟨fun _ => 0, fun _ => 0⟩ _ transientStore none 7
    nestingCostModelV1 flat ⟨nofun, trivial⟩
  have reported := (reports .tstore rfl).mpr ⟨_, List.mem_singleton_self _, rfl⟩
  obtain rfl := Except.ok.inj answer
  exact absurd reported (Finset.notMem_empty _)

end GasAnalyzer
