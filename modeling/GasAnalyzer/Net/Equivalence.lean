import GasAnalyzer.Net.Frames

/-!
# The net form and the canonical form

Where the net form applies, replaying it leaves the consumer's storage and logs as replaying the canonical program
does: both leave what the execution itself left.
-/

namespace GasAnalyzer

/-! ### Replaying -/

theorem replay_append (us vs : List StateUpdate) (r : Replayed) :
    replay (us ++ vs) r = (replay us r).bind (replay vs) := by
  induction us generalizing r with
  | nil => rfl
  | cons u us ih =>
    rw [List.cons_append, replay, replay]
    cases r.apply u with
    | none => rfl
    | some r' => exact ih r'

theorem replay_stores (es : List (B256 × B256)) (r : Replayed) :
    replay (es.map storeUpdate) r = some { r with storage := WriteLog.apply r.storage es } := by
  induction es generalizing r with
  | nil => rfl
  | cons e es ih =>
    rw [List.map_cons, replay]
    show replay (es.map storeUpdate) { r with storage := Function.update r.storage e.1 e.2 } = _
    rw [ih, ← List.singleton_append, WriteLog.apply_append, WriteLog.apply_singleton]

theorem apply_event (e : Event) (few : e.topics.length ≤ 4) (r : Replayed) :
    r.apply e.update = some { r with logs := r.logs ++ [e] } := by
  obtain ⟨data, topics⟩ := e
  match topics, few with
  | [], _ => rfl
  | [_], _ => rfl
  | [_, _], _ => rfl
  | [_, _, _], _ => rfl
  | [_, _, _, _], _ => rfl

theorem StructLog.event_topics (log : StructLog) : log.event.topics.length ≤ 4 := by
  have count : log.op.topicCount ≤ 4 := by
    cases log.op <;> simp [Opcode.topicCount]
  exact (List.length_take_le _ _).trans count

theorem replay_events (ps : List (Nat × StructLog)) (r : Replayed) :
    replay (ps.map (fun p => p.2.event.update)) r = some { r with logs := r.logs ++ ps.map (fun p => p.2.event) } := by
  induction ps generalizing r with
  | nil => simp [replay]
  | cons p ps ih =>
    rw [List.map_cons, replay, apply_event _ p.2.event_topics]
    show replay _ { r with logs := r.logs ++ [p.2.event] } = _
    rw [ih, List.append_assoc, List.map_cons]
    rfl

/-! ### Writes of a plain execution -/

/-- A frame below a `STATICCALL` writes nothing. -/
theorem writes_of_stores_nothing {t : CallTree} (born : CallTree → Option Address) (ctx : Option Address) (n : Nat)
    (none : ∀ log ∈ t.flatten, log.errored = false → log.op ≠ .sstore) : t.writes born ctx n = [] := by
  have quiet : ∀ log : StructLog, (log.errored = false → log.op ≠ .sstore) → ∀ ctx n, log.writes ctx n = [] := by
    intro log never ctx n
    have stores : log.stored? = Option.none := by
      unfold StructLog.stored?
      rw [if_neg]
      rintro ⟨kind, fine⟩
      exact never fine kind
    unfold StructLog.writes
    rw [stores]
    cases ctx <;> rfl
  induction t generalizing ctx n with
  | done => rfl
  | step log rest ih =>
    rw [CallTree.writes, quiet log (none log List.mem_cons_self),
      ih _ _ (fun log' member => none log' (List.mem_cons_of_mem _ member))]
    rfl
  | enter call body rest ihBody ihRest =>
    rw [CallTree.writes, ihBody _ _ (fun log' member =>
        none log' (List.mem_cons_of_mem _ (List.mem_append_left _ member))),
      ihRest _ _ (fun log' member => none log' (List.mem_cons_of_mem _ (List.mem_append_right _ member)))]
    split <;> rfl

/-- A plain frame opens delegate frames and `STATICCALL`s. -/
theorem static_of_plain {call : StructLog} (plain : call.Plain) (fine : call.errored = false)
    (opens : call.op.opensFrame = true) (own : ¬call.op.isDelegate = true) : call.op = .staticcall := by
  obtain ⟨notCall, notCreate⟩ := plain fine
  cases op : call.op <;> simp_all [Opcode.opensFrame, Opcode.isCreate, Opcode.isDelegate]

/-- No constructor writes in a plain execution: its creator would have run a `CREATE`. -/
theorem writes_plain {t : CallTree} {d : Nat} (wf : t.WellFormed d) (plain : t.Plain) (reads : t.ReadOnly)
    (born born' : CallTree → Option Address) (ctx : Option Address) (n : Nat) :
    t.writes born ctx n = t.writes born' ctx n := by
  induction t generalizing d ctx n with
  | done => rfl
  | step log rest ih => rw [CallTree.writes, CallTree.writes, ih wf.2.2 plain.2 reads]
  | enter call body rest ihBody ihRest =>
    obtain ⟨-, fine, opens, -, innerWf, -, tailWf⟩ := wf
    rw [CallTree.writes, CallTree.writes, ihRest tailWf plain.2.2 reads.2.2]
    by_cases delegates : call.op.isDelegate = true
    · have same : ∀ b, CallTree.context b ctx call rest = ctx := by
        intro b
        unfold CallTree.context
        rw [if_pos delegates]
      rw [same, same, ihBody innerWf (plain.2.1 delegates) reads.2.1]
    · have static := static_of_plain plain.1 fine opens delegates
      rw [writes_of_stores_nothing _ _ _ (reads.1 static), writes_of_stores_nothing _ _ _ (reads.1 static)]

/-! ### Eligible executions -/

variable {x : Execution} {client : Client} {diff : DiffMode}

/-- The checks an eligible call passed. -/
structure Passes (x : Execution) (client : Client) (diff : DiffMode) : Prop where
  succeeded : x.failed = false
  alone : ∀ a ∈ unionKeys diff.pre diff.post, a ≠ x.consumer → accountStorageChanged diff a = false
  scanned : scanCalls (x.tree.callFrames client false 0) = none

theorem passes_of_eligible
    (eligible : classifyPrestateEligibility (x.callFrame client) diff x.consumer = .eligible) : Passes x client diff := by
  unfold classifyPrestateEligibility at eligible
  have own : (x.callFrame client).toAddr.filter (· ≠ x.consumer) = none := by
    show (some x.consumer).filter (· ≠ x.consumer) = none
    simp
  rw [own] at eligible
  cases failure : frameFailure (x.callFrame client) with
  | some reason =>
    rw [failure] at eligible
    cases eligible
  | none =>
    rw [failure] at eligible
    have succeeded : x.failed = false := by
      have none := @frameFailure_frame client Option.none .call (some x.consumer) x.failed
        (if client.strips && x.failed then [] else x.tree.frameLogs client 0 0)
        (x.tree.callFrames client x.failed 0)
      change (frameFailure (x.callFrame client)).isNone = _ at none
      rw [failure] at none
      simpa using none.symm
    dsimp only at eligible
    split at eligible
    · cases eligible
    · rename_i unfound
      cases scanned : scanTargetDepth (x.callFrame client) with
      | some reason =>
        rw [scanned] at eligible
        cases eligible
      | none =>
        refine ⟨succeeded, ?_, ?_⟩
        · intro a member other
          have this := List.find?_eq_none.mp unfound a member
          simpa [other] using this
        · rw [← succeeded]
          exact scanned

theorem Passes.plain (passes : Passes x client diff) : x.tree.Plain := plain_of_scan x.wellFormed passes.scanned

/-- An eligible call leaves what the analyzer finds it committed. -/
theorem Passes.after (passes : Passes x client diff) (a : Address) (s : B256) :
    x.after a s = (wrote (x.tree.writes CallTree.unborn (some x.consumer) 0) a s).getD (x.before a s) := by
  unfold Execution.after Execution.writes
  rw [passes.succeeded, if_neg Bool.false_ne_true,
    writes_plain x.wellFormed passes.plain x.readOnly CallTree.deployed CallTree.unborn]

/-! ### Stores -/

theorem mem_unionKeys {κ ν : Type} [LinearOrder κ] (a b : OrdMap κ ν) (k : κ) :
    k ∈ unionKeys a b ↔ a.get k ≠ none ∨ b.get k ≠ none := by
  unfold unionKeys
  rw [OrdMap.mem_keys, OrdMap.get_extend]
  cases b.get k <;> simp

/-- A diff lists a slot exactly when its value changed, and with it the value it ends at. -/
theorem mem_changedSlots (diffs : x.Diffs diff) (a : Address) (s v : B256) :
    (s, v) ∈ changedSlots diff a ↔ x.before a s ≠ x.after a s ∧ v = x.after a s := by
  unfold changedSlots
  simp only [List.mem_map, List.mem_filter, mem_unionKeys, Prod.mk.injEq, decide_eq_true_eq]
  constructor
  · rintro ⟨s', ⟨-, differ⟩, here, rfl⟩
    subst here
    by_cases same : x.before a s' = x.after a s'
    · obtain ⟨pre, post⟩ := diffs.unchanged a s' same
      rw [pre, post] at differ
      exact absurd rfl differ
    · exact ⟨same, (diffs.changed a s' same).2⟩
  · rintro ⟨differ, rfl⟩
    obtain ⟨pre, post⟩ := diffs.changed a s differ
    refine ⟨s, ⟨?_, ?_⟩, rfl, post⟩
    · by_contra absent
      simp only [not_or, not_not] at absent
      rw [absent.1] at pre
      rw [absent.2] at post
      exact differ (pre.symm.trans post)
    · rw [pre, post]
      exact differ

theorem changedSlots_sorted (diff : DiffMode) (a : Address) :
    (changedSlots diff a).Pairwise (fun e e' => e.1 < e'.1) := by
  unfold changedSlots
  rw [List.pairwise_map]
  apply List.Pairwise.filter
  unfold unionKeys OrdMap.keys
  rw [List.pairwise_map]
  exact OrdMap.sorted _

theorem nodup_of_sorted {es : List (B256 × B256)} (sorted : es.Pairwise (fun e e' => e.1 < e'.1)) :
    (es.map Prod.fst).Nodup := by
  rw [List.Nodup, List.pairwise_map]
  exact sorted.imp fun lt => ne_of_lt lt

/-- Applying the changed slots to the storage before the call gives the storage after it. -/
theorem apply_changedSlots (diffs : x.Diffs diff) (a : Address) :
    WriteLog.apply (x.before a) (changedSlots diff a) = x.after a := by
  funext s
  by_cases same : x.before a s = x.after a s
  · rw [WriteLog.apply_of_last_none, same]
    rw [WriteLog.last_none_iff]
    rintro ⟨s', v⟩ member rfl
    exact ((mem_changedSlots diffs a s' v).mp member).1 same
  · unfold WriteLog.apply
    rw [WriteLog.last_of_mem (nodup_of_sorted (changedSlots_sorted diff a))
      ((mem_changedSlots diffs a s (x.after a s)).mpr ⟨same, rfl⟩)]
    rfl

/-- Applying a map's entries looks each slot up in it. -/
theorem apply_entries (storage : B256 → B256) (image : Slots) (s : B256) :
    WriteLog.apply storage image.entries s = (image.get s).getD (storage s) := by
  unfold WriteLog.apply
  cases found : image.get s with
  | some v => rw [WriteLog.last_of_mem (nodup_of_sorted image.sorted) (OrdMap.mem_entries.mpr found)]
  | none =>
    have none : WriteLog.last s image.entries = none := by
      rw [WriteLog.last_none_iff]
      rintro ⟨s', v⟩ member rfl
      rw [OrdMap.mem_entries.mp member] at found
      cases found
    rw [none]

/-! ### Logs -/

theorem report_collected (small : x.failed = false) :
    (collectTargetDepthLogs (x.callFrame client)).map CallLogFrame.report = x.tree.reports client 0 := by
  have bounded := x.bounded
  have sorted : (x.tree.frameLogs client 0 0).Pairwise (fun a b => a.place ≤ b.place) := sorted_frameLogs (by omega)
  unfold Execution.callFrame
  rw [small, Bool.and_false, if_neg Bool.false_ne_true]
  show (collectCalls ((x.tree.frameLogs client 0 0).mergeSort _) 0 _).map _ = _
  rw [List.mergeSort_of_pairwise (by simpa using sorted)]
  exact report_collectCalls x.wellFormed (by omega)

/-- Where logs carry an index it puts them in the order they already stand in. -/
theorem report_ordered (fine : x.failed = false) (indexed : x.Indexed client) :
    (orderedTargetDepthLogs (x.callFrame client)).map CallLogFrame.report = x.tree.reports client 0 := by
  have collected : (collectTargetDepthLogs (x.callFrame client)).map CallLogFrame.report = x.tree.reports client 0 :=
    report_collected fine
  unfold orderedTargetDepthLogs
  dsimp only
  split
  · rename_i all
    rcases indexed with none | ⟨-, increasing⟩
    · exfalso
      obtain ⟨l, member⟩ := List.exists_mem_of_length_pos (Nat.lt_trans Nat.zero_lt_one all.1)
      have some := List.all_eq_true.mp all.2 l member
      have reported : l.report ∈ x.tree.reports client 0 := by
        rw [← collected]
        exact List.mem_map_of_mem member
      obtain ⟨p, -, same⟩ := List.mem_map.mp reported
      have index : l.index = client.index p.1 := (congrArg Prod.snd same).symm
      rw [index, none p.1] at some
      cases some
    · have sorted : ((collectTargetDepthLogs (x.callFrame client)).map CallLogFrame.report).Pairwise
          (fun a b => a.2.getD 0 < b.2.getD 0) := by
        rw [collected, CallTree.reports, List.pairwise_map]
        exact increasing
      rw [List.pairwise_map] at sorted
      rw [List.mergeSort_of_pairwise, collected]
      exact sorted.imp fun lt => decide_eq_true (UInt64.le_of_lt lt)
  · exact collected

/-! ### Both forms -/

/-- The stores of a program. -/
def storesOf (us : List StateUpdate) : List Store :=
  us.filterMap fun
    | .store s => some s
    | _ => none

theorem storesOf_append (us vs : List StateUpdate) : storesOf (us ++ vs) = storesOf us ++ storesOf vs :=
  List.filterMap_append

theorem storesOf_stores (es : List (B256 × B256)) : storesOf (es.map storeUpdate) = es.map (fun e => ⟨e.1, e.2⟩) := by
  unfold storesOf
  rw [List.filterMap_map]
  exact congrFun List.filterMap_eq_map' es

theorem storesOf_events (ps : List (Nat × StructLog)) : storesOf (ps.map (fun p => p.2.event.update)) = [] := by
  unfold storesOf
  rw [List.filterMap_eq_nil_iff]
  intro u member
  obtain ⟨p, -, rfl⟩ := List.mem_map.mp member
  have few := p.2.event_topics
  generalize p.2.event = e at few
  obtain ⟨data, topics⟩ := e
  match topics, few with
  | [], _ => rfl
  | [_], _ => rfl
  | [_, _], _ => rfl
  | [_, _, _], _ => rfl
  | [_, _, _, _], _ => rfl

/-- The net form of an eligible call: its changed slots, then its events. -/
theorem Passes.net (passes : Passes x client diff) (indexed : x.Indexed client) :
    buildStateUpdatesFromPrestate x.consumer diff (x.callFrame client) =
      (changedSlots diff x.consumer).map storeUpdate ++ (x.tree.emissions 0).map (fun p => p.2.event.update) := by
  have logs : (orderedTargetDepthLogs (x.callFrame client)).map logToUpdate =
      (x.tree.emissions 0).map (fun p => p.2.event.update) := by
    have reported := congrArg (List.map Prod.fst) (report_ordered passes.succeeded indexed)
    rw [List.map_map, CallTree.reports, List.map_map] at reported
    exact reported
  unfold buildStateUpdatesFromPrestate
  rw [logs]
  rfl

theorem Passes.canonical (passes : Passes x client diff) {H : Hashes} {updates : List StateUpdate}
    {skipped : Finset Opcode} {callGas : UInt64}
    (answer : computeStateUpdatesCanonical H x.trace x.consumer = .ok (updates, skipped, callGas)) :
    ∃ image : Slots, updates = (x.tree.emissions 0).map (fun p => p.2.event.update) ++ image.entries.map storeUpdate ∧
      ∀ s, image.get s = wrote (x.tree.writes CallTree.unborn (some x.consumer) 0) x.consumer s := by
  obtain ⟨tree, split, answer⟩ := Outcome.bind_ok answer
  obtain ⟨root, first, answer⟩ := Outcome.bind_ok answer
  obtain ⟨rfl, -⟩ := Prod.mk.inj (Except.ok.inj answer)
  rw [Outcome.okOr_ok] at first
  obtain ⟨candidates, rootIndex, image, -, plain⟩ := splitFrameTree_plain x.wellFormed rfl passes.plain split
  obtain ⟨frame, frames, -, ops⟩ := plain.frame
  rw [frames] at first
  obtain rfl := Option.some.inj first
  refine ⟨image, ?_, plain.committed⟩
  rw [ops, CallTree.logOps, List.map_map]
  rfl

/-- Where the net form applies, replaying it and replaying the canonical program leave the same storage and the same
logs; its stores are one for each slot that changed, in slot order, and nobody else's storage changed. -/
theorem netForm_equivalent (H : Hashes) (x : Execution) (client : Client) (diff : DiffMode)
    (indexed : x.Indexed client) (diffs : x.Diffs diff)
    (eligible : classifyPrestateEligibility (x.callFrame client) diff x.consumer = .eligible)
    (updates : List StateUpdate) (skipped : Finset Opcode) (callGas : UInt64)
    (answer : computeStateUpdatesCanonical H x.trace x.consumer = .ok (updates, skipped, callGas)) :
    (∃ final, replay (buildStateUpdatesFromPrestate x.consumer diff (x.callFrame client)) ⟨x.before x.consumer, []⟩ =
        some final ∧ replay updates ⟨x.before x.consumer, []⟩ = some final ∧ final.storage = x.after x.consumer ∧
        final.logs = (x.tree.emissions 0).map (fun p => p.2.event)) ∧
    (storesOf (buildStateUpdatesFromPrestate x.consumer diff (x.callFrame client))).Pairwise
      (fun s s' => s.slot < s'.slot) ∧
    (∀ s : Store, s ∈ storesOf (buildStateUpdatesFromPrestate x.consumer diff (x.callFrame client)) ↔
      x.before x.consumer s.slot ≠ x.after x.consumer s.slot ∧ s.value = x.after x.consumer s.slot) ∧
    ∀ a, a ≠ x.consumer → x.after a = x.before a := by
  have passes := passes_of_eligible eligible
  have net := passes.net indexed
  obtain ⟨image, canonical, committed⟩ := passes.canonical answer
  have stores : storesOf (buildStateUpdatesFromPrestate x.consumer diff (x.callFrame client)) =
      (changedSlots diff x.consumer).map (fun e => ⟨e.1, e.2⟩) := by
    rw [net, storesOf_append, storesOf_stores, storesOf_events, List.append_nil]
  refine ⟨⟨⟨x.after x.consumer, (x.tree.emissions 0).map (fun p => p.2.event)⟩, ?_, ?_, rfl, rfl⟩, ?_, ?_, ?_⟩
  · rw [net, replay_append, replay_stores]
    show replay _ { storage := _, logs := [] } = _
    rw [replay_events, apply_changedSlots diffs]
    rfl
  · rw [canonical, replay_append, replay_events]
    show replay _ { storage := _, logs := _ } = _
    rw [replay_stores]
    congr 2
    funext s
    rw [apply_entries, committed, passes.after]
  · rw [stores, List.pairwise_map]
    exact changedSlots_sorted diff x.consumer
  · rintro ⟨slot, value⟩
    rw [stores]
    simp only [List.mem_map, Prod.exists, Store.mk.injEq]
    constructor
    · rintro ⟨s, v, member, rfl, rfl⟩
      exact (mem_changedSlots diffs x.consumer s v).mp member
    · intro changed
      exact ⟨slot, value, (mem_changedSlots diffs x.consumer slot value).mpr changed, rfl, rfl⟩
  · intro a other
    funext s
    by_contra differ
    have listed := (mem_changedSlots diffs a s _).mpr ⟨Ne.symm differ, rfl⟩
    have member : a ∈ unionKeys diff.pre diff.post := by
      rw [mem_unionKeys]
      by_contra absent
      simp only [not_or, not_not] at absent
      have empty : changedSlots diff a = [] := by
        unfold changedSlots storageOf
        rw [absent.1, absent.2]
        rfl
      rw [empty] at listed
      cases listed
    have unchanged := passes.alone a member other
    unfold accountStorageChanged at unchanged
    rw [Bool.not_eq_false', List.isEmpty_iff] at unchanged
    rw [unchanged] at listed
    cases listed

/-- The consumer stores, logs in a delegate frame and logs again. -/
def delegatedEvent : Execution where
  consumer := 7
  tree := .step { op := .sstore, stack := some [5, 1] }
    (.enter { op := .delegatecall, stack := some [0, 0, 0, 0, 8, 0] }
      (.step { op := .log1, depth := 2, stack := some [3, 2, 0] } .done)
      (.step { op := .other "POP", stack := some [1] } (.step { op := .log0, stack := some [0, 0] } .done)))
  before := fun _ _ => 0
  wellFormed := by
    have plain : ∀ {op : Opcode}, op.opensFrame = false → ∀ {p : Prop}, op.opensFrame = true → p := by
      intro op closed p opens
      rw [closed] at opens
      cases opens
    exact ⟨⟨rfl, rfl, rfl⟩, fun _ => plain rfl, ⟨rfl, rfl, rfl⟩, rfl, rfl, rfl,
      ⟨⟨rfl, rfl, rfl⟩, fun _ => plain rfl, trivial⟩, rfl, ⟨rfl, rfl, rfl⟩, fun _ => plain rfl, ⟨rfl, rfl, rfl⟩,
      fun _ => plain rfl, trivial⟩
  readOnly := ⟨fun static => (nomatch static), trivial, trivial⟩
  bounded := by decide

/-- A client that keeps the logs of failed frames and gives no index. -/
def keepingClient : Client where
  error := fun _ => some "execution reverted"
  revertReason := fun _ => none
  tells := fun _ => rfl
  index := fun _ => none
  strips := false

def delegatedEventDiff : DiffMode where
  pre := OrdMap.empty.insert 7 {}
  post := OrdMap.empty.insert 7 { storage := OrdMap.empty.insert 1 5 }

theorem delegatedEvent_diffs : delegatedEvent.Diffs delegatedEventDiff := by
  have after : ∀ a s, delegatedEvent.after a s = if a = 7 ∧ s = 1 then 5 else 0 := by
    intro a s
    show (wrote [⟨0, 7, 1, 5⟩] a s).getD 0 = _
    unfold wrote
    rw [List.map_singleton, WriteLog.last_singleton]
    by_cases here : a = 7 ∧ s = 1
    · obtain ⟨rfl, rfl⟩ := here
      rfl
    · rw [if_neg here, if_neg]
      · rfl
      · intro same
        obtain ⟨rfl, rfl⟩ := Prod.mk.inj same
        exact here ⟨rfl, rfl⟩
  have pre : ∀ a s, (storageOf delegatedEventDiff.pre a).get s = none := by
    intro a s
    unfold storageOf delegatedEventDiff
    rw [OrdMap.get_insert]
    split <;> rfl
  have post : ∀ a s, (storageOf delegatedEventDiff.post a).get s = if a = 7 ∧ s = 1 then some 5 else none := by
    intro a s
    unfold storageOf delegatedEventDiff
    rw [OrdMap.get_insert]
    by_cases here : a = 7
    · rw [if_pos here, Option.map_some, Option.getD_some, OrdMap.get_insert]
      simp [here]
    · rw [if_neg here]
      simp [here]
  constructor
  · intro a s same
    refine ⟨pre a s, ?_⟩
    rw [after] at same
    rw [post]
    split at same
    · cases same
    · rename_i other
      rw [if_neg other]
  · intro a s differ
    rw [after] at differ ⊢
    rw [pre, post]
    split
    · exact ⟨rfl, rfl⟩
    · rename_i other
      rw [if_neg other] at differ
      exact absurd rfl differ

theorem netForm_equivalent_delegatedEvent : ∃ updates skipped callGas,
    computeStateUpdatesCanonical ⟨fun _ => 0, fun _ => 0⟩ delegatedEvent.trace 7 = .ok (updates, skipped, callGas) ∧
    ∃ final, replay (buildStateUpdatesFromPrestate 7 delegatedEventDiff (delegatedEvent.callFrame keepingClient))
        ⟨fun _ => 0, []⟩ = some final ∧ replay updates ⟨fun _ => 0, []⟩ = some final ∧
      final.logs = [⟨[0, 0], [3]⟩, ⟨[], []⟩] := by
  have answers : (computeStateUpdatesCanonical ⟨fun _ => 0, fun _ => 0⟩ delegatedEvent.trace 7).toOption.isSome = true := by
    decide +kernel
  obtain ⟨⟨updates, skipped, callGas⟩, answer⟩ := Outcome.isSome_ok answers
  obtain ⟨⟨final, net, canonical, -, logs⟩, -⟩ := netForm_equivalent ⟨fun _ => 0, fun _ => 0⟩ delegatedEvent keepingClient
    delegatedEventDiff (Or.inl fun _ => rfl) delegatedEvent_diffs (by decide +kernel) updates skipped callGas answer
  exact ⟨updates, skipped, callGas, answer, final, net, canonical, logs.trans (by decide +kernel)⟩

end GasAnalyzer
