import GasAnalyzer.Core.EvmSketch
import GasAnalyzer.Native.Prepass
import GasAnalyzer.Net.Equivalence

/-!
# Counters of the net form

The canonical split pins the root at its first tracker write and reports the counters that committed writes move. The
net form reads its index off the tracker's final value and always reports the root.
-/

namespace GasAnalyzer

/-! ### The counters of the net form -/

/-- In a plain execution every write is the consumer's, made in its own scope. -/
theorem mem_writes_plain {t : CallTree} {d n : Nat} (wf : t.WellFormed d) (plain : t.Plain) (reads : t.ReadOnly)
    {born : CallTree → Option Address} {a : Address} {w : Write} (member : w ∈ t.writes born (some a) n) :
    w.account = a ∧ ∃ log, (w.step, log) ∈ t.closure CallTree.always n ∧ log.stored? = some (w.slot, w.value) := by
  induction t generalizing d n with
  | done => cases member
  | step log rest ih =>
    rcases List.mem_append.mp member with here | later
    · obtain ⟨rfl, context, stores⟩ := StructLog.mem_writes.mp here
      exact ⟨(Option.some.inj context).symm, log, List.mem_cons_self, stores⟩
    · obtain ⟨account, log', inside, stores⟩ := ih wf.2.2 plain.2 reads later
      exact ⟨account, log', List.mem_cons_of_mem _ inside, stores⟩
  | enter call body rest ihBody ihRest =>
    obtain ⟨-, fine, opens, -, innerWf, -, tailWf⟩ := wf
    rcases List.mem_append.mp member with inside | after
    · split at inside
      · by_cases delegates : call.op.isDelegate = true
        · unfold CallTree.context at inside
          rw [if_pos delegates] at inside
          obtain ⟨account, log', within, stores⟩ := ihBody innerWf (plain.2.1 delegates) reads.2.1 inside
          refine ⟨account, log', List.mem_cons_of_mem _ (List.mem_append_left _ ?_), stores⟩
          rw [delegates]
          exact within
        · have static := static_of_plain plain.1 fine opens delegates
          rw [writes_of_stores_nothing _ _ _ (reads.1 static)] at inside
          cases inside
      · cases inside
    · obtain ⟨account, log', within, stores⟩ := ihRest tailWf plain.2.2 reads.2.2 after
      exact ⟨account, log', List.mem_cons_of_mem _ (List.mem_append_right _ within), stores⟩

theorem firstMove_isSome {t : CallTree} {n i : Nat} {log : StructLog} {value : B256}
    (member : (i, log) ∈ t.closure CallTree.always n) (stores : log.stored? = some (stateTrackerSlot, value)) :
    (t.firstMove n).isSome = true := by
  unfold CallTree.firstMove
  rw [List.findSome?_isSome_iff]
  refine ⟨(i, log), member, ?_⟩
  unfold StructLog.moved?
  rw [stores]
  rfl

variable {x : Execution} {client : Client} {diff : DiffMode}

theorem trackerIndex_append (us vs : List StateUpdate) :
    trackerIndex (us ++ vs) = (trackerIndex us).or (trackerIndex vs) := by
  unfold trackerIndex
  exact List.findSome?_append

theorem trackerIndex_logs (logs : List CallLogFrame) : trackerIndex (logs.map logToUpdate) = none := by
  unfold trackerIndex
  rw [List.findSome?_eq_none_iff]
  intro u member
  obtain ⟨l, -, rfl⟩ := List.mem_map.mp member
  unfold logToUpdate
  generalize l.topics.getD [] = topics
  match topics with
  | [] => rfl
  | [_] => rfl
  | [_, _] => rfl
  | [_, _, _] => rfl
  | _ :: _ :: _ :: _ :: _ => rfl

/-- A program's tracker store, where each slot is stored at most once. -/
theorem trackerIndex_stores {es : List (B256 × B256)} {value : B256}
    (stores : ∀ v, (stateTrackerSlot, v) ∈ es → v = value) :
    trackerIndex (es.map storeUpdate) =
      if (stateTrackerSlot, value) ∈ es then some (U256.predSat value) else none := by
  induction es with
  | nil => rfl
  | cons e es ih =>
    have later := ih fun v member => stores v (List.mem_cons_of_mem _ member)
    obtain ⟨slot, v⟩ := e
    have here : trackerIndex [storeUpdate (slot, v)] =
        if slot = stateTrackerSlot then some (U256.predSat v) else none := by
      unfold trackerIndex
      rw [List.findSome?_singleton]
      rfl
    rw [List.map_cons, ← List.singleton_append, trackerIndex_append, here, later]
    by_cases tracker : slot = stateTrackerSlot
    · subst tracker
      obtain rfl := stores v List.mem_cons_self
      rw [if_pos rfl, if_pos List.mem_cons_self, Option.some_or]
    · rw [if_neg tracker, Option.none_or]
      have same : ((stateTrackerSlot, value) ∈ (slot, v) :: es) ↔ (stateTrackerSlot, value) ∈ es := by
        rw [List.mem_cons]
        constructor
        · rintro (here | later)
          · exact absurd (Prod.mk.inj here).1.symm tracker
          · exact later
        · exact Or.inr
      simp only [same]

/-- The index of a net form is that of the tracker's final value, if it changed. -/
theorem trackerIndex_net (diffs : x.Diffs diff) (frame : CallFrame) :
    trackerIndex (buildStateUpdatesFromPrestate x.consumer diff frame) =
      if x.before x.consumer stateTrackerSlot ≠ x.after x.consumer stateTrackerSlot then
        some (U256.predSat (x.after x.consumer stateTrackerSlot))
      else none := by
  have member := mem_changedSlots diffs x.consumer stateTrackerSlot
  unfold buildStateUpdatesFromPrestate
  rw [trackerIndex_append, trackerIndex_logs, Option.or_none]
  refine (trackerIndex_stores fun v listed => ((member v).mp listed).2).trans ?_
  simp only [member, and_true]

/-- The counters the canonical split of an eligible call reports: the consumer's, if it commits a tracker write. -/
theorem Passes.counterMoves (passes : Passes x client diff) {H : Hashes} {elig : Eligibility} {cost : NestingCostModel}
    {tree : FrameTreeExtract} (split : splitFrameTree H x.trace x.consumer elig cost = .ok tree) :
    tree.counterMoves = {x.consumer} ↔
      (wrote (x.tree.writes CallTree.unborn (some x.consumer) 0) x.consumer stateTrackerSlot).isSome = true := by
  obtain ⟨run⟩ := splitFrameTree_run split
  have counters := run.counters x.wellFormed rfl
  constructor
  · intro same
    have member : x.consumer ∈ tree.counterMoves := by
      rw [same]
      exact Finset.mem_singleton_self _
    rw [wrote_isSome_iff]
    exact (counters x.consumer).mp member
  · intro moved
    ext a
    rw [counters a, Finset.mem_singleton]
    constructor
    · rintro ⟨w, member, rfl, -⟩
      exact (mem_writes_plain x.wellFormed passes.plain x.readOnly member).1
    · rintro rfl
      exact (wrote_isSome_iff _ _ _).mp moved

/-- A committed tracker write is preceded by a first one. -/
theorem Passes.firstMove (passes : Passes x client diff)
    (moved : (wrote (x.tree.writes CallTree.unborn (some x.consumer) 0) x.consumer stateTrackerSlot).isSome = true) :
    (x.tree.firstMove 0).isSome = true := by
  obtain ⟨w, member, -, tracker⟩ := (wrote_isSome_iff _ _ _).mp moved
  obtain ⟨-, log, inside, stores⟩ := mem_writes_plain x.wellFormed passes.plain x.readOnly member
  rw [tracker] at stores
  exact firstMove_isSome inside stores

/-- The answer of the net route. -/
theorem callToFrameTree_net {H : Hashes} {a : Answers} {root : Address} {profile : SimProfile}
    {cost : NestingCostModel} {frame : CallFrame} {encoded : EncodedFrameTree}
    (asked : prestateDiffAndCallFrame a = .ok (diff, frame))
    (eligible : classifyPrestateEligibility frame diff root = .eligible) (fine : frameFailure frame = none)
    (returned : callToFrameTreeWithEvmsketch H a (some root) .prestateNet profile cost = .ok encoded) :
    encoded.frames = [netFrame root (buildStateUpdatesFromPrestate root diff frame)] ∧ encoded.counterMoves = {root} := by
  unfold callToFrameTreeWithEvmsketch at returned
  rw [if_neg (by decide)] at returned
  obtain ⟨root', isRoot, returned⟩ := Outcome.bind_ok returned
  obtain rfl := Option.some.inj ((Outcome.okOr_ok).mp isRoot)
  obtain ⟨net, formed, returned⟩ := Outcome.bind_ok returned
  have form : net = some (buildStateUpdatesFromPrestate root diff frame) := by
    unfold netForm tryPrestateNet at formed
    rw [show StateEncoding.prestateNet.signsPrestateNet = true from rfl, if_pos rfl, asked] at formed
    simp only [Outcome.ok_bind, fine, eligible] at formed
    exact (Except.ok.inj formed).symm
  subst form
  obtain ⟨-, -, returned⟩ := Outcome.bind_ok returned
  obtain ⟨gas, -, returned⟩ := Outcome.bind_ok returned
  obtain rfl := Except.ok.inj returned
  exact ⟨rfl, rfl⟩

/-- The two routes pin the same counters exactly when the call changes the tracker's value and its first tracker write,
committed or not, gives the index its final value does. -/
theorem netCounters_agree_iff (H : Hashes) (x : Execution) (client : Client) (diff : DiffMode) (a : Answers)
    (profile : SimProfile) (cost : NestingCostModel) (isNestable : Address → Bool) (encoded : EncodedFrameTree)
    (tree : FrameTreeExtract) (diffs : x.Diffs diff)
    (asked : prestateDiffAndCallFrame a = .ok (diff, x.callFrame client))
    (eligible : classifyPrestateEligibility (x.callFrame client) diff x.consumer = .eligible)
    (returned : callToFrameTreeWithEvmsketch H a (some x.consumer) .prestateNet profile cost = .ok encoded)
    (split : computeFrameTreeCanonical H x.trace x.consumer isNestable cost = .ok tree) :
    (encoded.frames.map FrameProgram.transitionIndex = tree.frames.map FrameProgram.transitionIndex ∧
      encoded.counterMoves = tree.counterMoves) ↔
    x.before x.consumer stateTrackerSlot ≠ x.after x.consumer stateTrackerSlot ∧
      (x.tree.firstMove 0).map U256.predSat = some (U256.predSat (x.after x.consumer stateTrackerSlot)) := by
  have passes := passes_of_eligible eligible
  have fine : frameFailure (x.callFrame client) = none := by
    have none := @frameFailure_frame client Option.none .call (some x.consumer) x.failed
      (if client.strips && x.failed then [] else x.tree.frameLogs client 0 0) (x.tree.callFrames client x.failed 0)
    rw [passes.succeeded] at none
    rw [Execution.callFrame, passes.succeeded]
    exact Option.isNone_iff_eq_none.mp none
  obtain ⟨net, counter⟩ := callToFrameTree_net asked eligible fine returned
  obtain ⟨candidates, rootIndex, image, scanned, plain⟩ := splitFrameTree_plain x.wellFormed rfl passes.plain split
  obtain ⟨frame, frames, index, -⟩ := plain.frame
  have first := (scanCandidates_scopes x.wellFormed x.bounded scanned).1
  have moves : {x.consumer} = tree.counterMoves ↔ _ := eq_comm.trans (passes.counterMoves split)
  have indices : encoded.frames.map FrameProgram.transitionIndex = tree.frames.map FrameProgram.transitionIndex ↔
      (if x.before x.consumer stateTrackerSlot ≠ x.after x.consumer stateTrackerSlot then
        some (U256.predSat (x.after x.consumer stateTrackerSlot)) else none) = (x.tree.firstMove 0).map U256.predSat := by
    rw [net, frames, List.map_singleton, List.map_singleton, List.singleton_inj, index, first,
      ← trackerIndex_net diffs (x.callFrame client)]
    rfl
  rw [indices, counter, moves]
  constructor
  · rintro ⟨same, moved⟩
    obtain ⟨value, isFirst⟩ := Option.isSome_iff_exists.mp (passes.firstMove moved)
    rw [isFirst] at same ⊢
    split at same
    · rename_i differ
      exact ⟨differ, same.symm⟩
    · cases same
  · rintro ⟨differ, same⟩
    refine ⟨by rw [if_pos differ, same], ?_⟩
    by_contra unmoved
    rw [Bool.not_eq_true, Option.isSome_eq_false_iff, Option.isNone_iff_eq_none] at unmoved
    rw [passes.after, unmoved] at differ
    exact differ rfl

/-- The consumer stores `values` in its tracker slot, one after the other. -/
def trackerStores : List B256 → CallTree
  | [] => .step { op := .other "STOP" } .done
  | v :: values => .step { op := .sstore, stack := some [v, stateTrackerSlot] } (trackerStores values)

theorem trackerStores_wellFormed (values : List B256) : (trackerStores values).WellFormed 1 := by
  induction values with
  | nil =>
    refine ⟨⟨rfl, rfl, rfl⟩, ?_, trivial⟩
    intro _ opens
    cases opens
  | cons v values ih =>
    refine ⟨⟨rfl, rfl, rfl⟩, ?_, ih⟩
    intro _ opens
    cases opens

theorem trackerStores_readOnly (values : List B256) : (trackerStores values).ReadOnly := by
  induction values with
  | nil => exact trivial
  | cons v values ih => exact ih

theorem trackerStores_size (values : List B256) : (trackerStores values).size = values.length + 1 := by
  induction values with
  | nil => rfl
  | cons v values ih => rw [trackerStores, CallTree.size, ih, List.length_cons]

/-- A call of a consumer whose counter stands at four. -/
def countingCall (values : List B256) (short : values.length < 2 ^ 32) : Execution where
  consumer := 7
  tree := trackerStores values
  before := fun a s => if a = 7 ∧ s = stateTrackerSlot then 4 else 0
  wellFormed := trackerStores_wellFormed values
  readOnly := trackerStores_readOnly values
  bounded := by
    rw [trackerStores_size]
    omega

/-- The counter moves from four to `v`. -/
def countingDiff (v : B256) : DiffMode where
  pre := OrdMap.empty.insert 7 { storage := OrdMap.empty.insert stateTrackerSlot 4 }
  post := OrdMap.empty.insert 7 { storage := OrdMap.empty.insert stateTrackerSlot v }

theorem get_countingStorage (v : B256) (a : Address) (s : B256) :
    (storageOf (OrdMap.empty.insert 7 { storage := OrdMap.empty.insert stateTrackerSlot v }) a).get s =
      if a = 7 ∧ s = stateTrackerSlot then some v else none := by
  unfold storageOf
  rw [OrdMap.get_insert]
  by_cases here : a = 7
  · rw [if_pos here, Option.map_some, Option.getD_some, OrdMap.get_insert]
    simp [here]
  · rw [if_neg here]
    simp [here]

theorem countingDiff_diffs {values : List B256} {short : values.length < 2 ^ 32} {v : B256} (moved : v ≠ 4)
    (after : ∀ a s, (countingCall values short).after a s = if a = 7 ∧ s = stateTrackerSlot then v else 0) :
    (countingCall values short).Diffs (countingDiff v) := by
  have before : ∀ a s, (countingCall values short).before a s = if a = 7 ∧ s = stateTrackerSlot then 4 else 0 :=
    fun _ _ => rfl
  constructor
  · intro a s same
    rw [before, after] at same
    rw [countingDiff, get_countingStorage, get_countingStorage]
    split at same
    · exact absurd same.symm moved
    · rename_i other
      exact ⟨if_neg other, if_neg other⟩
  · intro a s differ
    rw [before, after] at differ ⊢
    rw [countingDiff, get_countingStorage, get_countingStorage]
    split at differ
    · rename_i here
      rw [if_pos here, if_pos here, if_pos here, if_pos here]
      exact ⟨rfl, rfl⟩
    · exact absurd rfl differ

/-- A node that answers the two cheap tracers, and an executor that prices everything at zero. -/
def netAnswers (x : Execution) (diff : DiffMode) : Answers where
  muxPaused := true
  muxed := .ok .unsupported
  prestateDiff := .ok diff
  callFrame := .ok (x.callFrame keepingClient)
  trace := .ok x.trace
  nestedRegistry := fun _ => .ok none
  executor := .ok ()
  estimateStateChangesGas := fun _ _ => .ok 0
  estimateFrameTreeGas := fun _ => .ok []

theorem countingCall_after (values : List B256) (short : values.length < 2 ^ 32) (v : B256)
    (last : WriteLog.last (7, stateTrackerSlot) ((countingCall values short).writes.map Write.entry) = some v)
    (own : ∀ w ∈ (countingCall values short).writes, w.account = 7 ∧ w.slot = stateTrackerSlot) (a : Address) (s : B256) :
    (countingCall values short).after a s = if a = 7 ∧ s = stateTrackerSlot then v else 0 := by
  unfold Execution.after
  by_cases here : a = 7 ∧ s = stateTrackerSlot
  · obtain ⟨rfl, rfl⟩ := here
    rw [if_pos ⟨rfl, rfl⟩]
    show (WriteLog.last _ _).getD _ = v
    rw [last]
    rfl
  · have none : wrote (countingCall values short).writes a s = none := by
      rw [← Option.not_isSome_iff_eq_none, wrote_isSome_iff]
      rintro ⟨w, member, rfl, rfl⟩
      exact here (own w member)
    rw [none, if_neg here]
    show (countingCall values short).before a s = 0
    exact if_neg here

def oneIncrement : Execution := countingCall [5] (by decide)

def twoIncrements : Execution := countingCall [5, 6] (by decide)

theorem oneIncrement_after (a : Address) (s : B256) :
    oneIncrement.after a s = if a = 7 ∧ s = stateTrackerSlot then 5 else 0 :=
  countingCall_after [5] _ 5 (by decide +kernel) (by decide +kernel) a s

theorem twoIncrements_after (a : Address) (s : B256) :
    twoIncrements.after a s = if a = 7 ∧ s = stateTrackerSlot then 6 else 0 :=
  countingCall_after [5, 6] _ 6 (by decide +kernel) (by decide +kernel) a s

/-- Both routes answer for a counting call. -/
theorem countingCall_answers (x : Execution) (v : B256)
    (net : (callToFrameTreeWithEvmsketch ⟨fun _ => 0, fun _ => 0⟩ (netAnswers x (countingDiff v)) (some 7) .prestateNet
      .chain nestingCostModelV1).toOption.isSome = true)
    (split : (computeFrameTreeCanonical ⟨fun _ => 0, fun _ => 0⟩ x.trace 7 (fun _ => true)
      nestingCostModelV1).toOption.isSome = true) :
    ∃ encoded tree, callToFrameTreeWithEvmsketch ⟨fun _ => 0, fun _ => 0⟩ (netAnswers x (countingDiff v)) (some 7)
        .prestateNet .chain nestingCostModelV1 = .ok encoded ∧
      computeFrameTreeCanonical ⟨fun _ => 0, fun _ => 0⟩ x.trace 7 (fun _ => true) nestingCostModelV1 = .ok tree := by
  obtain ⟨encoded, returned⟩ := Outcome.isSome_ok net
  obtain ⟨tree, answer⟩ := Outcome.isSome_ok split
  exact ⟨encoded, tree, returned, answer⟩

theorem netCounters_oneIncrement : ∃ encoded tree,
    callToFrameTreeWithEvmsketch ⟨fun _ => 0, fun _ => 0⟩ (netAnswers oneIncrement (countingDiff 5)) (some 7)
        .prestateNet .chain nestingCostModelV1 = .ok encoded ∧
      computeFrameTreeCanonical ⟨fun _ => 0, fun _ => 0⟩ oneIncrement.trace 7 (fun _ => true) nestingCostModelV1 =
        .ok tree ∧
      encoded.frames.map FrameProgram.transitionIndex = tree.frames.map FrameProgram.transitionIndex ∧
      encoded.counterMoves = tree.counterMoves := by
  obtain ⟨encoded, tree, returned, split⟩ := countingCall_answers oneIncrement 5 (by decide +kernel) (by decide +kernel)
  refine ⟨encoded, tree, returned, split, ?_⟩
  have agree := netCounters_agree_iff ⟨fun _ => 0, fun _ => 0⟩ oneIncrement keepingClient (countingDiff 5)
    (netAnswers oneIncrement (countingDiff 5)) .chain nestingCostModelV1 (fun _ => true) encoded tree
    (countingDiff_diffs (by decide) oneIncrement_after) rfl (by decide +kernel) returned split
  rw [agree]
  show oneIncrement.before 7 stateTrackerSlot ≠ oneIncrement.after 7 stateTrackerSlot ∧
    _ = some (U256.predSat (oneIncrement.after 7 stateTrackerSlot))
  rw [oneIncrement_after]
  exact ⟨by decide +kernel, by decide +kernel⟩

/-- After two increments the net frame pins the last index, the canonical one the first. -/
theorem netCounters_twoIncrements : ∃ encoded tree, twoIncrements.Diffs (countingDiff 6) ∧
    classifyPrestateEligibility (twoIncrements.callFrame keepingClient) (countingDiff 6) 7 = .eligible ∧
    callToFrameTreeWithEvmsketch ⟨fun _ => 0, fun _ => 0⟩ (netAnswers twoIncrements (countingDiff 6)) (some 7)
        .prestateNet .chain nestingCostModelV1 = .ok encoded ∧
      computeFrameTreeCanonical ⟨fun _ => 0, fun _ => 0⟩ twoIncrements.trace 7 (fun _ => true) nestingCostModelV1 =
        .ok tree ∧
      encoded.frames.map FrameProgram.transitionIndex = [some 5] ∧
      tree.frames.map FrameProgram.transitionIndex = [some 4] := by
  have net : (callToFrameTreeWithEvmsketch ⟨fun _ => 0, fun _ => 0⟩ (netAnswers twoIncrements (countingDiff 6)) (some 7)
      .prestateNet .chain nestingCostModelV1).toOption.map (fun e => e.frames.map FrameProgram.transitionIndex) =
      some [some 5] := by
    decide +kernel
  have canonical : (computeFrameTreeCanonical ⟨fun _ => 0, fun _ => 0⟩ twoIncrements.trace 7 (fun _ => true)
      nestingCostModelV1).toOption.map (fun t => t.frames.map FrameProgram.transitionIndex) = some [some 4] := by
    decide +kernel
  obtain ⟨encoded, tree, returned, split⟩ := countingCall_answers twoIncrements 6 (by decide +kernel) (by decide +kernel)
  rw [returned] at net
  rw [split] at canonical
  exact ⟨encoded, tree, countingDiff_diffs (by decide) twoIncrements_after, by decide +kernel, returned, split,
    Option.some.inj net, Option.some.inj canonical⟩

end GasAnalyzer
