import GasAnalyzer.Legacy.Stores
import GasAnalyzer.Replay.FrameTree

/-!
# Replaying the legacy program

The legacy extractor keeps every store where it was made and follows every delegate frame, whatever becomes of it. While
no delegate frame fails, its program too takes the chain a call found to the chain the call left.
-/

namespace GasAnalyzer

open Extracting CallTree

variable {sees : Nat → Chain} {does : Nat → Chain → Chain} {target : Address} {c : Chain} {n d : Nat} {log : StructLog}

/-- The delegate frames of a frame succeed, and theirs. -/
def CallTree.DelegatesSucceed : CallTree → Prop
  | done => True
  | step _ rest => rest.DelegatesSucceed
  | enter call body rest =>
    (call.op.isDelegate = true → rest.succeeds = true ∧ body.DelegatesSucceed) ∧ rest.DelegatesSucceed

theorem Opcode.native_of_delegate {op : Opcode} (delegate : op.isDelegate = true) :
    ¬(op = .call ∨ op.isCreate = true) := by
  cases op <;> simp_all [Opcode.isDelegate, Opcode.isCreate]

theorem Opcode.static_of_opens {op : Opcode} (opens : op.opensFrame = true) (delegate : ¬op.isDelegate = true)
    (native : ¬(op = .call ∨ op.isCreate = true)) : op = .staticcall := by
  cases op <;> simp_all [Opcode.isDelegate, Opcode.isCreate, Opcode.opensFrame]

/-! ### Steps -/

/-- An `SSTORE` that does not error stores what the decoder reads. -/
theorem update?_sstore (kind : log.op = .sstore) (fine : log.errored = false) (decodes : log.Decodes)
    (memory : log.memory.isSome = true) :
    ∃ slot value, log.stored? = some (slot, value) ∧ log.update? = some (.store ⟨slot, value⟩) := by
  obtain ⟨r, decoded⟩ := decodes
  have update : log.update? = r.1 := by rw [StructLog.update?, decoded]
  obtain ⟨words, hasMemory⟩ := Option.isSome_iff_exists.mp memory
  unfold decodeStructLog at decoded
  obtain ⟨stack, hasStack, decoded⟩ := Outcome.bind_ok decoded
  rw [hasMemory] at decoded
  obtain ⟨bytes, -, decoded⟩ := Outcome.bind_ok decoded
  rw [kind] at decoded
  obtain ⟨slot, first, decoded⟩ := Outcome.bind_ok decoded
  obtain ⟨value, second, decoded⟩ := Outcome.bind_ok decoded
  obtain rfl := Except.ok.inj decoded
  have tops : ∀ i, log.top i = stack.reverse[i]? := by
    intro i
    unfold StructLog.top
    rw [Outcome.okOr_ok.mp hasStack]
    rfl
  refine ⟨slot, value, ?_, update⟩
  rw [StructLog.stored?, if_pos ⟨kind, fine⟩, tops, tops, Outcome.okOr_ok.mp first, Outcome.okOr_ok.mp second]
  rfl

theorem update?_boundary (kind : log.op = .call ∨ log.op.isCreate = true) (decodes : log.Decodes)
    (memory : log.memory.isSome = true) : ∃ u, log.update? = some u ∧ u.isBoundary = true := by
  obtain ⟨r, decoded⟩ := decodes
  obtain ⟨words, hasMemory⟩ := Option.isSome_iff_exists.mp memory
  obtain ⟨u, rfl, opcode, -⟩ := decodeStructLog_effect decoded
    (by rcases kind with call | create <;> simp [effectful, *]) hasMemory
  refine ⟨u, by rw [StructLog.update?, decoded], ?_⟩
  rw [← opcode] at kind
  cases u <;> first | rfl | (rcases kind with kind | kind <;> cases kind)

/-- The op of a step does what the step does: what its call did, if it makes one, else its own store or log. -/
theorem opsOf_follows (does : Nat → Chain → Chain) (target : Address) (fine : log.errored = false)
    (memory : log.memory.isSome = true) (decodes : extracts log.op = true → log.Decodes) (finds : c = sees n) :
    Follows sees does target (Extracting.opsOf n log) c
      (if log.op = .call ∨ log.op.isCreate = true then does n c else log.acts (some target) c) := by
  by_cases hands : log.op = .call ∨ log.op.isCreate = true
  · have kind : extracts log.op = true := by rcases hands with call | create <;> simp [extracts, *]
    obtain ⟨u, update, boundary⟩ := update?_boundary hands (decodes kind) memory
    rw [if_pos hands, Extracting.opsOf, if_pos kind, update]
    exact .boundary boundary finds .done
  · rw [if_neg hands]
    by_cases store : log.op = .sstore
    · have kind : extracts log.op = true := by rw [store]; rfl
      obtain ⟨slot, value, stores, update⟩ := update?_sstore store fine (decodes kind) memory
      have acts : log.acts (some target) c = c.store target slot value := by
        unfold StructLog.acts
        rw [stores]
      rw [acts, Extracting.opsOf, if_pos kind, update]
      exact .store .done
    · have stores : log.stored? = none := by
        unfold StructLog.stored?
        exact if_neg fun both => store both.1
      by_cases logs : log.op.isLog = true
      · have kind : extracts log.op = true := by simp [extracts, logs]
        obtain ⟨r, decoded⟩ := decodes kind
        have update : log.update? = some log.event.update := by
          rw [StructLog.update?, decoded]
          exact decodeStructLog_event logs memory decoded
        have acts : log.acts (some target) c = c.emit target log.event := by
          unfold StructLog.acts
          rw [stores]
          dsimp only
          rw [if_pos]
          simp [StructLog.emits, logs, fine]
        rw [acts, Extracting.opsOf, if_pos kind, update]
        exact .event (event?_update _ log.event_topics) .done
      · have plain : extracts log.op = false := by simp_all [extracts]
        rw [StructLog.acts_of_silent _ c stores (by simp [StructLog.emits, logs]), Extracting.opsOf, if_neg (by simp [plain])]
        exact .done

/-! ### Frames -/

/-- The ops of a closure follow the execution of its frame. -/
theorem CallTree.closure_follows {t : CallTree} (wf : t.WellFormed d)
    (clean : ∀ p ∈ t.closure always n, p.2.errored = false)
    (decodable : ∀ p ∈ t.closure always n, extracts p.2.op = true → p.2.Decodes) (delegates : t.DelegatesSucceed)
    (reads : t.ReadOnly) (hushed : t.Hushed) (shows : t.Shows sees does (some target) n c) :
    Follows sees does target ((t.closure always n).flatMap (fun p => Extracting.opsOf p.1 p.2)) c (t.run (some target) c) := by
  induction t generalizing d n c with
  | done => exact .done
  | step log rest ih =>
    rw [closure] at clean decodable ⊢
    have first := opsOf_follows does target (clean _ List.mem_cons_self) wf.1.memory
      (decodable _ List.mem_cons_self) shows.1.symm
    have after := ih wf.2.2 (fun p member => clean p (List.mem_cons_of_mem _ member))
      (fun p member => decodable p (List.mem_cons_of_mem _ member)) delegates reads hushed shows.2.2
    have acts : (if log.op = .call ∨ log.op.isCreate = true then does n c else log.acts (some target) c) =
        log.acts (some target) c := by
      split
      · rename_i hands
        rw [shows.2.1, acts_of_opens]
        rcases hands with call | create
        · rw [call]; rfl
        · cases op : log.op <;> simp_all [Opcode.isCreate, Opcode.opensFrame]
      · rfl
    rw [acts] at first
    rw [List.flatMap_cons, run]
    exact first.append after
  | enter call body rest ihBody ihRest =>
    obtain ⟨carries, fine, opens, -, innerWf, -, tailWf⟩ := wf
    obtain ⟨finds, did, showsBody, showsRest⟩ := shows
    rw [closure] at clean decodable ⊢
    have first := opsOf_follows does target fine carries.memory (decodable _ List.mem_cons_self)
      finds.symm
    have after := ihRest tailWf (fun p member => clean p (List.mem_cons_of_mem _ (List.mem_append_right _ member)))
      (fun p member => decodable p (List.mem_cons_of_mem _ (List.mem_append_right _ member))) delegates.2 reads.2.2
      hushed.2.2 showsRest
    rw [List.flatMap_cons, List.flatMap_append, run]
    refine first.append (Follows.append ?_ after)
    by_cases delegate : call.op.isDelegate = true
    · obtain ⟨success, inner⟩ := delegates.1 delegate
      have inside : ∀ p ∈ body.closure always (n + 1),
          p ∈ (n, call) :: ((if call.op.isDelegate && always rest then body.closure always (n + 1) else []) ++
            rest.closure always (n + 1 + body.size)) := by
        intro p member
        refine List.mem_cons_of_mem _ (List.mem_append_left _ ?_)
        rw [delegate]
        exact member
      have context : CallTree.context CallTree.deployed (some target) call rest = some target := if_pos delegate
      rw [context] at showsBody
      have followsBody := ihBody innerWf (fun p member => clean p (inside p member))
        (fun p member => decodable p (inside p member)) inner reads.2.1 hushed.2.1 showsBody
      rw [if_neg (Opcode.native_of_delegate delegate), acts_of_opens _ _ opens,
        if_pos success, context, delegate]
      exact followsBody
    · rw [if_neg (by simp [delegate])]
      rw [List.flatMap_nil]
      split
      · rw [did]
        exact .done
      · rename_i native
        -- What is left is a `STATICCALL`.
        have static := Opcode.static_of_opens opens delegate native
        rw [acts_of_opens _ _ opens, run_silent _ c (reads.1 static) (hushed.1 static), ite_self]
        exact .done

theorem opsOf_steps (ps : List (Nat × StructLog)) :
    ((ps.flatMap (fun p => Extracting.opsOf p.1 p.2)).map Op.step).Sublist (ps.map Prod.fst) := by
  induction ps with
  | nil => exact .slnil
  | cons p rest ih =>
    rw [List.flatMap_cons, List.map_append, List.map_cons]
    have one : ((Extracting.opsOf p.1 p.2).map Op.step).Sublist [p.1] := by
      unfold Extracting.opsOf
      split
      · cases p.2.update? with
        | none => exact List.nil_sublist _
        | some u => exact .refl _
      · exact List.nil_sublist _
    exact one.append ih

theorem opsOf_unnested (memory : log.memory.isSome = true) :
    ∀ op ∈ Extracting.opsOf n log, op.update.isNested = false := by
  intro op member
  unfold Extracting.opsOf at member
  split at member
  · rename_i kind
    obtain ⟨u, update, rfl⟩ := List.mem_map.mp member
    have update : log.update? = some u := by simpa using update
    obtain ⟨words, hasMemory⟩ := Option.isSome_iff_exists.mp memory
    unfold StructLog.update? at update
    split at update
    · rename_i r decoded
      obtain ⟨v, rfl, -, plain⟩ := decodeStructLog_effect decoded
        (by cases op : log.op <;> simp_all [extracts, effectful]) hasMemory
      obtain rfl := Option.some.inj update
      exact plain
    · cases update
  · cases member

/-- The legacy program of a call, run on the chain the call found, leaves the chain the call left, if no step it is read
off errs and no delegate frame it follows fails. Every call is made on the chain that the execution's was, in its order. -/
theorem computeStateUpdates_replays (x : Execution) (origin : Option Address) (extract : TraceExtract)
    (fine : x.failed = false) (hushed : x.tree.Hushed)
    (clean : ∀ p ∈ x.tree.closure always 0, p.2.errored = false) (delegates : x.tree.DelegatesSucceed)
    (answer : computeStateUpdates x.trace origin = .ok extract) :
    ∃ seen, replayOps x.perform (fun _ _ => none) x.consumer (List.zipWith Op.mk extract.stateUpdates extract.opSteps) []
        x.start = some (x.finish, seen) ∧ x.finish.storage = x.after ∧
      (∀ found ∈ seen, found.2 = x.atStep found.1) ∧ (seen.map Prod.fst).Pairwise (· < ·) := by
  have small := x.bounded
  unfold computeStateUpdates at answer
  obtain ⟨last, ran, answer⟩ := Outcome.bind_ok answer
  have floor : Floor 1 0 {} := ⟨by decide, by decide, Or.inl rfl⟩
  obtain ⟨ops, decodable⟩ := run_ops x.tree x.wellFormed rfl (by omega) floor ran
  have ops : last.ops = (x.tree.closure always 0).flatMap (fun p => Extracting.opsOf p.1 p.2) := ops
  have extracted : List.zipWith Op.mk extract.stateUpdates extract.opSteps = last.ops := by
    split at answer
    · cases answer
    · split at answer
      · cases answer
      · obtain rfl := Except.ok.inj answer
        show List.zipWith Op.mk (last.ops.map Op.update) (last.ops.map Op.step) = _
        rw [List.zipWith_map, List.zipWith_self]
        exact List.map_id _
  have shows : x.tree.Shows x.atStep x.perform (some x.consumer) 0 x.start :=
    CallTree.shows_of_agree (fun _ _ _ => rfl) (fun _ _ _ _ => rfl)
  have follows := CallTree.closure_follows x.wellFormed clean decodable delegates x.readOnly hushed shows
  rw [← ops] at follows
  have steps : (last.ops.map Op.step).Sublist ((x.tree.closure always 0).map Prod.fst) := by
    rw [ops]
    exact opsOf_steps _
  have spent : (spendsOf last.ops).Sublist ((x.tree.closure always 0).map Prod.fst) :=
    (List.filter_sublist.map Op.step).trans steps
  have nests : nestsOf last.ops = [] := by
    unfold nestsOf
    rw [List.map_eq_nil_iff, List.filter_eq_nil_iff]
    intro op member
    rw [ops] at member
    obtain ⟨p, inside, member⟩ := List.mem_flatMap.mp member
    rw [opsOf_unnested (x.wellFormed.closure_memory always 0 p inside) op member]
    exact Bool.false_ne_true
  have within : ∀ m ∈ spendsOf last.ops, 0 ≤ m ∧ m < x.tree.size := by
    intro m member
    obtain ⟨p, inside, rfl⟩ := List.mem_map.mp (spent.subset member)
    have := closure_bounds inside
    omega
  obtain ⟨seen, replays, sightings⟩ := @Follows.replayed _ _ _ _ _ _ (fun _ _ => none) [] follows 0 x.tree.size within
    ((closure_sorted always 0 x.tree).sublist spent) (Nat.zero_le _) (by rw [nests]; exact .nil)
  refine ⟨seen, ?_, x.finish_storage, sightings.found, sightings.ordered⟩
  rw [extracted, replays, Execution.finish, fine]
  rfl

/-- The consumer `9` stores and delegates to code that logs and calls `7`, which calls back into `9` to store over it; `9`
then stores its first value again. -/
def delegatedCall : Execution where
  consumer := 9
  tree := .step { op := .sstore, stack := some [3, 1] }
    (.enter { op := .delegatecall, stack := some [0, 0, 0, 0, 8, 0] }
      (.step { op := .log0, depth := 2, stack := some [0, 0] }
        (.enter { op := .call, depth := 2, stack := some [0, 0, 0, 0, 0, 7, 0] }
          (.step { op := .sstore, depth := 3, stack := some [1, stateTrackerSlot] }
            (.enter { op := .call, depth := 3, stack := some [0, 0, 0, 0, 0, 9, 0] }
              (.step { op := .sstore, depth := 4, stack := some [4, 1] } .done)
              (.step { op := .other "STOP", depth := 3, stack := some [1] } .done)))
          (.step { op := .other "STOP", depth := 2, stack := some [1] } .done)))
      (.step { op := .other "POP", stack := some [1] } (.step { op := .sstore, stack := some [3, 1] } .done)))
  before := fun _ _ => 0
  wellFormed := by
    have plain : ∀ {op : Opcode}, op.opensFrame = false → ∀ {p : Prop}, op.opensFrame = true → p := by
      intro op closed p opens
      rw [closed] at opens
      cases opens
    exact ⟨⟨rfl, rfl, rfl⟩, fun _ => plain rfl, ⟨rfl, rfl, rfl⟩, rfl, rfl, rfl,
      ⟨⟨rfl, rfl, rfl⟩, fun _ => plain rfl, ⟨rfl, rfl, rfl⟩, rfl, rfl, rfl,
        ⟨⟨rfl, rfl, rfl⟩, fun _ => plain rfl, ⟨rfl, rfl, rfl⟩, rfl, rfl, rfl,
          ⟨⟨rfl, rfl, rfl⟩, fun _ => plain rfl, trivial⟩, rfl, ⟨rfl, rfl, rfl⟩, fun _ => plain rfl, trivial⟩, rfl,
        ⟨rfl, rfl, rfl⟩, fun _ => plain rfl, trivial⟩, rfl,
      ⟨rfl, rfl, rfl⟩, fun _ => plain rfl, ⟨rfl, rfl, rfl⟩, fun _ => plain rfl, trivial⟩
  readOnly := by simp [CallTree.ReadOnly]
  bounded := by decide

/-- The delegate frame's call finds the chain its step found, and what it leaves is stored over. -/
theorem computeStateUpdates_replays_delegatedCall : ∃ extract seen,
    computeStateUpdates delegatedCall.trace none = .ok extract ∧
      extract.stateUpdates.map StateUpdate.type = [.store, .log0, .call, .store] ∧
      replayOps delegatedCall.perform (fun _ _ => none) 9 (List.zipWith Op.mk extract.stateUpdates extract.opSteps) []
        delegatedCall.start = some (delegatedCall.finish, seen) ∧
      seen.map Prod.fst = [3] ∧ (∀ found ∈ seen, found.2 = delegatedCall.atStep found.1) ∧
      (delegatedCall.perform 3 delegatedCall.start).storage 9 1 = 4 ∧ delegatedCall.finish.storage 9 1 = 3 := by
  have answers : (computeStateUpdates delegatedCall.trace none).toOption.any (fun extract =>
      extract.stateUpdates.map StateUpdate.type == [.store, .log0, .call, .store] &&
        (replayOps delegatedCall.perform (fun _ _ => none) 9 (List.zipWith Op.mk extract.stateUpdates extract.opSteps) []
          delegatedCall.start).any (fun r => r.2.map Prod.fst == [3])) = true := by
    decide +kernel
  obtain ⟨extract, answer, shape⟩ := Outcome.any_ok answers
  obtain ⟨types, listed⟩ := Bool.and_eq_true_iff.mp shape
  obtain ⟨seen, replays, -, found, -⟩ := computeStateUpdates_replays delegatedCall none extract rfl
    (by simp [CallTree.Hushed, delegatedCall]) (by decide) (by
      simp [CallTree.DelegatesSucceed, delegatedCall, Opcode.isDelegate, CallTree.succeeds, CallTree.outcome,
        CallTree.head?, StructLog.flag]) answer
  have replays : replayOps delegatedCall.perform (fun _ _ => none) 9 _ [] delegatedCall.start = _ := replays
  rw [replays] at listed
  exact ⟨extract, seen, answer, beq_iff_eq.mp types, replays, beq_iff_eq.mp listed, found, by decide +kernel,
    by decide +kernel⟩

end GasAnalyzer
