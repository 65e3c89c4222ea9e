import GasAnalyzer.Native.Calls

/-!
# Segments of a program

Between two boundaries a program logs, and then stores in ascending order of slots. A slice is followed by the op of its
boundary, so this holds as long as no op is retracted: a callee with a frame of its own that reverts takes its `NESTED`
op with it, and leaves the slice behind.
-/

namespace GasAnalyzer

/-- An op at which other code runs. -/
def StateUpdate.isBoundary : StateUpdate → Bool
  | call _ | create _ _ | create2 _ _ _ | nested _ => true
  | _ => false

/-- After a store comes a store of a higher slot. -/
def StateUpdate.Precedes (a b : StateUpdate) : Prop :=
  ∀ s, a = .store s → ∃ s', b = .store s' ∧ s.slot < s'.slot

/-- Between boundaries, stores ascend and no log follows a store. -/
def Collapsed (updates : List StateUpdate) : Prop :=
  ∀ before segment after, updates = before ++ (segment ++ after) → (∀ u ∈ segment, u.isBoundary = false) →
    segment.Pairwise StateUpdate.Precedes

/-! ### Scanning a program -/

/-- The last slot stored since the last boundary, or nothing if an op is out of order. -/
def scanSegment (last : Option B256) : List StateUpdate → Option (Option B256)
  | [] => some last
  | .store s :: rest => if last.all (· < s.slot) then scanSegment (some s.slot) rest else none
  | u :: rest => if u.isBoundary || last.isNone then scanSegment none rest else none

theorem scanSegment_append (last : Option B256) (xs ys : List StateUpdate) :
    scanSegment last (xs ++ ys) = (scanSegment last xs).bind fun last => scanSegment last ys := by
  fun_induction scanSegment last xs with
  | case1 last => rfl
  | case2 last s rest above ih =>
    rw [List.cons_append, scanSegment, if_pos above]
    exact ih
  | case3 last s rest below =>
    rw [List.cons_append, scanSegment, if_neg below]
    rfl
  | case4 last u rest plain fine ih =>
    rw [List.cons_append, scanSegment, if_pos fine]
    · exact ih
    · exact plain
  | case5 last u rest plain broken =>
    rw [List.cons_append, scanSegment, if_neg broken]
    · rfl
    · exact plain

/-- An ordered stretch without boundaries is ordered pairwise, above what was stored before it. -/
theorem scanSegment_pairwise {last : Option B256} {xs : List StateUpdate} (fine : (scanSegment last xs).isSome = true)
    (within : ∀ u ∈ xs, u.isBoundary = false) :
    xs.Pairwise StateUpdate.Precedes ∧ ∀ slot, last = some slot → ∀ u ∈ xs, ∃ s, u = .store s ∧ slot < s.slot := by
  fun_induction scanSegment last xs with
  | case1 last => exact ⟨.nil, fun _ _ u member => absurd member List.not_mem_nil⟩
  | case2 last s rest above ih =>
    obtain ⟨ordered, higher⟩ := ih fine fun u member => within u (List.mem_cons_of_mem _ member)
    constructor
    · refine List.pairwise_cons.mpr ⟨?_, ordered⟩
      intro u member s' same
      injection same with same
      rw [← same]
      exact higher s.slot rfl u member
    · intro slot same u member
      subst same
      have below : slot < s.slot := by simpa using above
      rcases List.mem_cons.mp member with here | later
      · exact ⟨s, here, below⟩
      · obtain ⟨s', shape, beyond⟩ := higher s.slot rfl u later
        exact ⟨s', shape, lt_trans below beyond⟩
  | case3 last s rest below => cases fine
  | case4 last u rest plain between ih =>
    have log := within u List.mem_cons_self
    rw [log, Bool.false_or, Option.isNone_iff_eq_none] at between
    obtain ⟨ordered, -⟩ := ih fine fun v member => within v (List.mem_cons_of_mem _ member)
    refine ⟨List.pairwise_cons.mpr ⟨?_, ordered⟩, ?_⟩
    · exact fun v _ s same => absurd same (plain s)
    · intro slot same
      rw [between] at same
      cases same
  | case5 last u rest plain broken => cases fine

theorem scanSegment_parts {last : Option B256} {xs ys : List StateUpdate}
    (fine : (scanSegment last (xs ++ ys)).isSome = true) :
    ∃ mid, scanSegment last xs = some mid ∧ (scanSegment mid ys).isSome = true := by
  rw [scanSegment_append] at fine
  cases reached : scanSegment last xs with
  | none =>
    rw [reached] at fine
    cases fine
  | some mid =>
    rw [reached] at fine
    exact ⟨mid, rfl, fine⟩

theorem collapsed_of_scan {updates : List StateUpdate} (fine : (scanSegment none updates).isSome = true) :
    Collapsed updates := by
  intro before segment after shape within
  rw [shape] at fine
  obtain ⟨mid, -, fine⟩ := scanSegment_parts fine
  obtain ⟨last, reached, -⟩ := scanSegment_parts fine
  exact (scanSegment_pairwise (by rw [reached]; rfl) within).1

/-- What is open at the end of a scan is the last op. -/
theorem scanSegment_last {last : Option B256} {xs : List StateUpdate} {slot : B256}
    (ends : scanSegment last xs = some (some slot)) (some : xs ≠ []) : xs.getLast?.any StateUpdate.isStore = true := by
  obtain ⟨ys, u, rfl⟩ := List.eq_nil_or_concat xs |>.resolve_left some
  rw [List.concat_eq_append, scanSegment_append] at ends
  rw [List.concat_eq_append, List.getLast?_concat]
  obtain ⟨mid, -, ends⟩ := Option.bind_eq_some_iff.mp ends
  cases u with
  | store s => rfl
  | _ =>
    rw [scanSegment] at ends
    · split at ends <;> cases ends
    · exact nofun

/-! ### Ops -/

/-- In order, and not ending in a store. -/
def Tidy (ops : List Op) : Prop := scanSegment none (ops.map Op.update) = some none

def InOrder (ops : List Op) : Prop := (scanSegment none (ops.map Op.update)).isSome = true

theorem tidy_nil : Tidy [] := rfl

theorem Tidy.inOrder {ops : List Op} (tidy : Tidy ops) : InOrder ops := by
  rw [InOrder, tidy]
  rfl

theorem Tidy.append {xs ys : List Op} (first : Tidy xs) (second : Tidy ys) : Tidy (xs ++ ys) := by
  rw [Tidy, List.map_append, scanSegment_append, first]
  exact second

theorem Tidy.then_inOrder {xs ys : List Op} (first : Tidy xs) (second : InOrder ys) : InOrder (xs ++ ys) := by
  rw [InOrder, List.map_append, scanSegment_append, first]
  exact second

theorem InOrder.boundary {ops : List Op} (fine : InOrder ops) {op : Op} (boundary : op.update.isBoundary = true) :
    Tidy (ops ++ [op]) := by
  obtain ⟨last, reached⟩ := Option.isSome_iff_exists.mp fine
  rw [Tidy, List.map_append, scanSegment_append, reached]
  change scanSegment last [op.update] = some none
  cases update : op.update with
  | store s =>
    rw [update] at boundary
    cases boundary
  | _ =>
    rw [update] at boundary
    rw [scanSegment, boundary, Bool.true_or, if_pos rfl]
    · rfl
    · exact nofun

/-- A boundary that is taken back leaves its slice, which must be empty for the rest to be tidy. -/
theorem Tidy.retract {ops : List Op} {op : Op} (tidy : Tidy (ops ++ [op]))
    (empty : ops.getLast?.any (fun op => op.update.isStore) = false) : Tidy ops := by
  have fine : InOrder (ops ++ [op]) := tidy.inOrder
  rw [InOrder, List.map_append] at fine
  obtain ⟨mid, reached, -⟩ := scanSegment_parts fine
  cases mid with
  | none => exact reached
  | some slot =>
    have last := scanSegment_last reached
    cases ops with
    | nil => cases reached
    | cons first rest =>
      have stored := last (by simp)
      rw [List.getLast?_map, Option.any_map] at stored
      exact absurd (stored.symm.trans empty) Bool.true_eq_false.mp

theorem inOrder_stores {step : Nat} {entries : List (B256 × B256)} (sorted : entries.Pairwise fun a b => a.1 < b.1) :
    InOrder (entries.map (storeOp step)) := by
  have ordered : ∀ last : Option B256, (∀ slot, last = some slot → ∀ e ∈ entries, slot < e.1) →
      (scanSegment last ((entries.map (storeOp step)).map Op.update)).isSome = true := by
    induction entries with
    | nil => exact fun _ _ => rfl
    | cons entry rest ih =>
      obtain ⟨above, tail⟩ := List.pairwise_cons.mp sorted
      intro last below
      have fits : last.all (· < entry.1) = true := by
        cases last with
        | none => rfl
        | some slot => simpa using below slot rfl entry List.mem_cons_self
      rw [List.map_cons, List.map_cons]
      change (scanSegment last (.store ⟨entry.1, entry.2⟩ :: _)).isSome = true
      rw [scanSegment, if_pos fits]
      apply ih tail
      intro slot same e member
      injection same with same
      rw [← same]
      exact above e member
  exact ordered none fun _ none => by cases none

theorem inOrder_stale (step : Nat) (view image : Slots) : InOrder (staleStores step view image) :=
  inOrder_stores (image.sorted.filter _)

theorem InOrder.collapsed {ops : List Op} (fine : InOrder ops) : Collapsed (ops.map Op.update) := collapsed_of_scan fine

theorem scanSegment_cons (last : Option B256) (u : StateUpdate) (xs : List StateUpdate) :
    scanSegment last (u :: xs) = (scanSegment last [u]).bind fun last => scanSegment last xs :=
  scanSegment_append last [u] xs

theorem scanSegment_sameOrCall {ops ops' : List Op} (same : List.Forall₂ SameOrCall ops ops') (last : Option B256) :
    scanSegment last (ops'.map Op.update) = scanSegment last (ops.map Op.update) := by
  induction same generalizing last with
  | nil => rfl
  | @cons op op' rest rest' one _ ih =>
    have head : scanSegment last [op'.update] = scanSegment last [op.update] := by
      cases one <;> rfl
    calc scanSegment last (op'.update :: rest'.map Op.update)
        = (scanSegment last [op'.update]).bind fun mid => scanSegment mid (rest'.map Op.update) := scanSegment_cons ..
      _ = (scanSegment last [op.update]).bind fun mid => scanSegment mid (rest.map Op.update) := by
        rw [head]
        exact Option.bind_congr fun mid _ => ih mid
      _ = scanSegment last (op.update :: rest.map Op.update) := (scanSegment_cons ..).symm

/-- Turning frames back into calls keeps the order. -/
theorem InOrder.sameOrCall {ops ops' : List Op} (fine : InOrder ops) (same : List.Forall₂ SameOrCall ops ops') :
    InOrder ops' := by
  rw [InOrder, scanSegment_sameOrCall same]
  exact fine

/-! ### The walk -/

section

variable {H : Hashes} {elig : Eligibility} {candidates : OrdMap Nat Candidate} {n : Nat} {log : StructLog}
variable {w w' : Walk}

structure Ordered (w : Walk) : Prop where
  frames : ∀ f ∈ w.top :: w.below, Tidy f.out
  programs : ∀ p ∈ w.texts, ∀ ops, p.updates = some ops → InOrder ops

theorem tidy_of_kept {fs fs' : List WalkFrame} (kept : List.Forall₂ Kept fs fs') (tidy : ∀ f ∈ fs, Tidy f.out) :
    ∀ f ∈ fs', Tidy f.out := by
  induction kept with
  | nil => exact tidy
  | @cons f f' rest rest' one _ ih =>
    intro g member
    rcases List.mem_cons.mp member with same | later
    · rw [same, one.out]
      exact tidy f List.mem_cons_self
    · exact ih (fun f inside => tidy f (List.mem_cons_of_mem _ inside)) g later

theorem InOrder.sliced (tidy : Tidy w.top.out) (step : Nat) (target : Address) :
    InOrder (w.sliced step target).out := by
  rw [Walk.sliced_out]
  exact tidy.then_inOrder (inOrder_stale ..)

/-- A step that carries its memory adds a log, or a slice and the op of its boundary. -/
theorem Executed.tidy (executed : Executed H elig candidates n log w w') (carries : log.memory.isSome = true)
    (tidy : Tidy w.top.out) : Tidy w'.top.out := by
  obtain ⟨words, memory⟩ := Option.isSome_iff_exists.mp carries
  cases executed with
  | stored =>
    rw [Walk.stored_top]
    exact tidy
  | @logged id update skipped kind fine emits decoded =>
    obtain ⟨u, same, opcode, -⟩ := decodeStructLog_effect decoded (by simp [effectful, kind]) memory
    injection same with same _
    subst same
    refine tidy.append ?_
    cases u with
    | log0 | log1 | log2 | log3 | log4 => rfl
    | _ =>
      rw [← opcode] at kind
      cases kind
  | @emitted id p c => exact (InOrder.sliced tidy n p.target).boundary rfl
  | @opened id p c => exact (InOrder.sliced tidy n p.target).boundary rfl
  | @deployed id p update kind fine emits found decoded =>
    obtain ⟨u, same, opcode, -⟩ := decodeStructLog_effect decoded (by simp [effectful, kind]) memory
    injection same with same _
    subst same
    refine (InOrder.sliced tidy n p.target).boundary ?_
    cases u with
    | create | create2 => rfl
    | _ =>
      rw [← opcode] at kind
      cases kind
  | _ => exact tidy

theorem Executed.ordered (executed : Executed H elig candidates n log w w') (carries : log.memory.isSome = true)
    (ordered : Ordered w) : Ordered w' := by
  constructor
  · intro f member
    rcases List.mem_cons.mp member with same | below
    · rw [same]
      exact executed.tidy carries (ordered.frames _ List.mem_cons_self)
    · rw [executed.place.1] at below
      exact ordered.frames f (List.mem_cons_of_mem _ below)
  · intro p member ops closed
    rcases executed.texts with same | ⟨id, parent, c, index, -, -, -, -, -, -, texts⟩
    · rw [same] at member
      exact ordered.programs p member ops closed
    · rw [texts] at member
      rcases List.mem_append.mp member with old | new
      · exact ordered.programs p old ops closed
      · rw [List.mem_singleton.mp new] at closed
        cases closed

theorem Ordered.entered (ordered : Ordered w) (entered : enterPending log w = .ok w') : Ordered w' := by
  constructor
  · cases enterPending_entered entered with
    | idle => exact ordered.frames
    | pushed =>
      intro f member
      rcases List.mem_cons.mp member with same | below
      · rw [same]
        exact tidy_nil
      · exact ordered.frames f below
    | inline _ _ _ _ top below =>
      intro f member
      rcases List.mem_cons.mp member with same | inside
      · rw [same, top.out]
        exact ordered.frames _ List.mem_cons_self
      · rw [below] at inside
        exact ordered.frames f (List.mem_cons_of_mem _ inside)
  · rw [texts_enterPending entered]
    exact ordered.programs

/-- The states that arriving at a step passes through. -/
inductive Arriving (n : Nat) (log : StructLog) (w : Walk) : Walk → Prop where
  | entered {v : Walk} (entered : enterPending log w = .ok v) : Arriving n log w v
  | popped {v v' : Walk} (before : Arriving n log w v) (popped : popFrame n log v = .ok v') : Arriving n log w v'

/-- A callee with a frame of its own returns with a failure, and its boundary's slice stored something. -/
def Walk.LeavesStore (log : StructLog) (w : Walk) : Prop :=
  log.depth < w.top.depth ∧ w.top.nestedStartGas.isSome = true ∧ log.flag = some 0 ∧
    ∃ caller rest, w.below = caller :: rest ∧
      caller.out.dropLast.getLast?.any (fun op => op.update.isStore) = true

theorem Ordered.popped (ordered : Ordered w) (deeper : log.depth < w.top.depth) (spared : ¬w.LeavesStore log)
    (popped : popFrame n log w = .ok w') : Ordered w' := by
  obtain ⟨g, rest, flag, -, flagged, -, pop⟩ := popFrame_popped popped
  have top := ordered.frames w.top List.mem_cons_self
  have caller := ordered.frames g (by rw [pop.below]; exact List.mem_cons_of_mem _ List.mem_cons_self)
  have others : ∀ f ∈ rest, Tidy f.out := fun f inside =>
    ordered.frames f (by rw [pop.below]; exact List.mem_cons_of_mem _ (List.mem_cons_of_mem _ inside))
  constructor
  · intro f member
    rcases List.mem_cons.mp member with same | inside
    · rw [same]
      have returned := pop.returned
      generalize w'.top = g' at returned
      cases returned with
      | absorbed kept success plain =>
        refine Tidy.append ?_ top
        rw [kept.out]
        exact caller
      | discarded kept failure plain =>
        rw [kept.out]
        exact caller
      | merged kept success nested =>
        rw [← kept.out] at caller
        exact caller
      | @retracted g₁ ops x step kept failure nested last =>
        have none : ops.getLast?.any (fun op => op.update.isStore) = false := by
          rw [← Bool.not_eq_true]
          intro stores
          refine spared ⟨deeper, nested, by rw [StructLog.flag, flagged, failure], g, rest, pop.below, ?_⟩
          rw [last, List.dropLast_concat]
          exact stores
        rw [last] at caller
        exact caller.retract none
    · exact tidy_of_kept pop.others others f inside
  · obtain ⟨flag', -, returns⟩ := texts_popFrame popped
    split at returns
    · obtain ⟨id, q, start, -, -, -, closes⟩ := returns
      rw [closes]
      intro p member ops closed
      obtain ⟨i, found⟩ := List.mem_iff_getElem?.mp member
      obtain ⟨p₀, here, same⟩ := found_modify found
      split at same
      · rw [← same] at closed
        injection closed with closed
        rw [← closed]
        exact InOrder.sliced top _ _
      · rw [← same] at closed
        exact ordered.programs p₀ (List.mem_of_getElem? here) ops closed
    · rw [returns]
      exact ordered.programs

theorem Ordered.arrived (ordered : Ordered w) (spared : ∀ v, Arriving n log w v → ¬v.LeavesStore log)
    (arrived : arrive n log w = .ok w') : Ordered w' := by
  have pops : ∀ fuel v, Arriving n log w v → Ordered v → popFrames n log fuel v = .ok w' → Ordered w' := by
    intro fuel
    induction fuel with
    | zero =>
      intro v _ ordered popped
      obtain rfl := Except.ok.inj popped
      exact ordered
    | succ fuel ih =>
      intro v arriving ordered popped
      unfold popFrames at popped
      split at popped
      · rename_i deeper
        obtain ⟨v', first, popped⟩ := Outcome.bind_ok popped
        exact ih v' (.popped arriving first) (ordered.popped deeper (spared v arriving) first) popped
      · obtain rfl := Except.ok.inj popped
        exact ordered
  unfold arrive at arrived
  obtain ⟨v, entered, popped⟩ := Outcome.bind_ok arrived
  exact pops _ v (.entered entered) (ordered.entered entered) popped

/-- No step of the trace arrives at a state whose return leaves a store behind. -/
def SparesSlices (H : Hashes) (elig : Eligibility) (candidates : OrdMap Nat Candidate) (logs : List StructLog)
    (start : Walk) : Prop :=
  ∀ before log after w, logs = before ++ log :: after → walk H elig candidates before 0 start = .ok w →
    ∀ v, Arriving before.length log w v → ¬v.LeavesStore log

theorem walk_ordered {logs : List StructLog} {start last : Walk} (carries : ∀ log ∈ logs, log.memory.isSome = true)
    (spares : SparesSlices H elig candidates logs start) (ordered : Ordered start)
    (walked : walk H elig candidates logs 0 start = .ok last) : Ordered last := by
  induction logs using List.reverseRecOn generalizing last with
  | nil =>
    obtain rfl := Except.ok.inj walked
    exact ordered
  | append_singleton logs log ih =>
    rw [walk_append] at walked
    obtain ⟨w, before, walked⟩ := Outcome.bind_ok walked
    obtain ⟨w', stepped, same⟩ := Outcome.bind_ok walked
    obtain rfl := Except.ok.inj same
    have earlier : Ordered w := by
      apply ih (fun log inside => carries log (List.mem_append_left _ inside)) _ before
      intro before' log' after w' shape
      exact spares before' log' (after ++ [log]) w' (by rw [shape, List.append_assoc, List.cons_append])
    unfold walkStep at stepped
    obtain ⟨v, arrived, executed⟩ := Outcome.bind_ok stepped
    rw [Nat.zero_add] at arrived
    have here := earlier.arrived (spares logs log [] w rfl before) arrived
    exact (exec_executed executed).ordered (carries log (List.mem_append_right _ List.mem_cons_self)) here

end

/-! ### The split -/

variable {H : Hashes} {trace : DefaultFrame} {root : Address} {elig : Eligibility} {cost : NestingCostModel}
variable {tree : FrameTreeExtract}

/-- In no run of the walk over the trace does a return leave a store behind. -/
def SplitSpares (H : Hashes) (trace : DefaultFrame) (root : Address) (elig : Eligibility) : Prop :=
  ∀ candidates rootIndex, scanCandidates trace.structLogs = .ok (candidates, rootIndex) →
    SparesSlices H elig candidates trace.structLogs (initialWalk root rootIndex)

theorem CallTree.WellFormed.memory {d : Nat} {t : CallTree} (wf : t.WellFormed d) :
    ∀ log ∈ t.flatten, log.memory.isSome = true := by
  induction t generalizing d with
  | done => exact fun log none => absurd none List.not_mem_nil
  | step log rest ih =>
    obtain ⟨carries, -, tail⟩ := wf
    exact List.forall_mem_cons.mpr ⟨carries.memory, ih tail⟩
  | enter call body rest ihBody ihRest =>
    obtain ⟨carries, -, -, -, inner, -, tail⟩ := wf
    refine List.forall_mem_cons.mpr ⟨carries.memory, ?_⟩
    intro log member
    rcases List.mem_append.mp member with inside | after
    · exact ihBody inner log inside
    · exact ihRest tail log after

theorem SplitRun.ordered (run : SplitRun H trace root elig cost tree)
    (carries : ∀ log ∈ trace.structLogs, log.memory.isSome = true) (spares : SplitSpares H trace root elig) :
    ∀ p ∈ run.closed.programs, ∀ ops, p.updates = some ops → InOrder ops := by
  have start : Ordered (initialWalk root run.rootIndex) := by
    constructor
    · intro f member
      rw [List.mem_singleton.mp member]
      exact tidy_nil
    · intro p member ops closed
      rw [List.mem_singleton.mp member] at closed
      cases closed
  have last := walk_ordered carries (spares _ _ run.scanned) start run.walked
  obtain ⟨-, id, p, -, -, top, programs, -⟩ := closeRoot_ok run.closes
  rw [programs]
  intro p member ops closed
  obtain ⟨i, found⟩ := List.mem_iff_getElem?.mp member
  obtain ⟨p₀, here, same⟩ := found_modify found
  split at same
  · rw [← same] at closed
    injection closed with closed
    rw [← closed, top]
    exact (last.frames _ List.mem_cons_self).then_inOrder (inOrder_stale ..)
  · rw [← same] at closed
    exact last.programs p₀.text (List.mem_map_of_mem (List.mem_of_getElem? here)) ops closed

/-! ### Following a trace -/

instance decidableLeavesStore (log : StructLog) (w : Walk) : Decidable (w.LeavesStore log) :=
  decidable_of_iff (log.depth < w.top.depth ∧ w.top.nestedStartGas.isSome = true ∧ log.flag = some 0 ∧
      w.below.head?.any (fun caller => caller.out.dropLast.getLast?.any (fun op => op.update.isStore)) = true) (by
    unfold Walk.LeavesStore
    cases w.below <;> simp)

/-- Whether no state on the way from `w` leaves a store behind; each return takes a frame. -/
def Walk.spares (n : Nat) (log : StructLog) : Nat → Walk → Bool
  | 0, w => !decide (w.LeavesStore log)
  | fuel + 1, w => !decide (w.LeavesStore log) && (popFrame n log w).toOption.all (Walk.spares n log fuel)

/-- Whether no step of the trace arrives at a state whose return leaves a store behind. -/
def walkSpares (H : Hashes) (elig : Eligibility) (candidates : OrdMap Nat Candidate) :
    List StructLog → Nat → Walk → Bool
  | [], _, _ => true
  | log :: rest, n, w => (enterPending log w).toOption.all (fun v => v.spares n log v.below.length) &&
      (walkStep H elig candidates n log w).toOption.all (walkSpares H elig candidates rest (n + 1))

def splitSpares (H : Hashes) (trace : DefaultFrame) (root : Address) (elig : Eligibility) : Bool :=
  (scanCandidates trace.structLogs).toOption.all fun scanned =>
    walkSpares H elig scanned.1 trace.structLogs 0 (initialWalk root scanned.2)

theorem Arriving.spared {n : Nat} {log : StructLog} {w v : Walk}
    (spares : (enterPending log w).toOption.all (fun v => v.spares n log v.below.length) = true)
    (arriving : Arriving n log w v) : ¬v.LeavesStore log := by
  have along : v.spares n log v.below.length = true := by
    induction arriving with
    | entered entered =>
      rw [entered] at spares
      exact spares
    | popped before popped ih =>
      obtain ⟨g, rest, flag, -, -, -, pop⟩ := popFrame_popped popped
      rw [pop.below, List.length_cons, Walk.spares, popped] at ih
      rw [← pop.others.length_eq]
      exact (Bool.and_eq_true_iff.mp ih).2
  generalize v.below.length = fuel at along
  cases fuel with
  | zero => simpa [Walk.spares] using along
  | succ fuel =>
    rw [Walk.spares] at along
    simpa using (Bool.and_eq_true_iff.mp along).1

theorem walkSpares_sound {candidates : OrdMap Nat Candidate} {logs : List StructLog} {n : Nat} {start : Walk}
    (spares : walkSpares H elig candidates logs n start = true)
    {before after : List StructLog} {log : StructLog} {w v : Walk} (shape : logs = before ++ log :: after)
    (walked : walk H elig candidates before n start = .ok w) (arriving : Arriving (n + before.length) log w v) :
    ¬v.LeavesStore log := by
  induction before generalizing logs n start with
  | nil =>
    obtain rfl := Except.ok.inj walked
    rw [shape, List.nil_append, walkSpares] at spares
    exact arriving.spared (Bool.and_eq_true_iff.mp spares).1
  | cons first before ih =>
    obtain ⟨w', stepped, walked⟩ := Outcome.bind_ok walked
    rw [shape, List.cons_append, walkSpares, stepped] at spares
    refine ih (Bool.and_eq_true_iff.mp spares).2 rfl walked ?_
    rw [List.length_cons, Nat.add_comm before.length, ← Nat.add_assoc] at arriving
    exact arriving

theorem splitSpares_sound (spares : splitSpares H trace root elig = true) : SplitSpares H trace root elig := by
  intro candidates rootIndex scanned before log after w shape walked v arriving
  unfold splitSpares at spares
  rw [scanned] at spares
  rw [← Nat.zero_add before.length] at arriving
  exact walkSpares_sound spares shape walked arriving

/-! ### The programs of a split -/

/-- On a well-formed trace the programs of a split are collapsed unless a return leaves a store behind. -/
theorem splitFrameTree_collapsed {t : CallTree} (wf : t.WellFormed 1) (flat : trace.structLogs = t.flatten)
    (answer : splitFrameTree H trace root elig cost = .ok tree) (spares : SplitSpares H trace root elig) :
    ∀ f ∈ tree.frames, Collapsed f.updates := by
  obtain ⟨run⟩ := splitFrameTree_run answer
  have ordered := run.ordered (by rw [flat]; exact wf.memory) spares
  intro f member
  rw [run.frames] at member
  obtain ⟨p, kept, rfl⟩ := List.mem_map.mp member
  obtain ⟨id, found⟩ := List.mem_iff_getElem?.mp (List.mem_filter.mp kept).1
  obtain ⟨p₀, found₀, -, related⟩ := run.program_ops found
  have fine : InOrder (p.updates.getD []) := by
    cases updates : p.updates with
    | none => exact rfl
    | some ops =>
      cases updates₀ : p₀.updates with
      | none =>
        rw [updates, updates₀] at related
        cases related
      | some ops₀ =>
        rw [updates, updates₀] at related
        cases related with
        | some same => exact (ordered p₀ (List.mem_of_getElem? found₀) ops₀ updates₀).sameOrCall same
  exact fine.collapsed

/-- The root logs, calls a consumer that moves its counter and reverts, stores two slots, calls a consumer that moves
its counter, logs and stores again. -/
def storesAround : CallTree :=
  .step { op := .log0, stack := some [0, 0] } <|
  .enter { op := .call, stack := some [0, 0, 0, 0, 0, 7, 0] }
    (.step { op := .sstore, depth := 2, stack := some [1, stateTrackerSlot] } <|
      .step { op := .other "REVERT", depth := 2, stack := some [0, 0] } .done) <|
  .step { op := .other "POP", stack := some [0] } <|
  .step { op := .sstore, stack := some [5, 2] } <|
  .step { op := .sstore, stack := some [6, 1] } <|
  .enter { op := .call, gas := 900000, stack := some [0, 0, 0, 0, 0, 8, 0] }
    (.step { op := .sstore, gas := 800000, depth := 2, stack := some [1, stateTrackerSlot] } <|
      .step { op := .other "STOP", gas := 500000, depth := 2, stack := some [] } .done) <|
  .step { op := .other "POP", gas := 400000, stack := some [1] } <|
  .step { op := .log0, stack := some [0, 0] } <|
  .step { op := .sstore, stack := some [7, 1] } <|
  .step { op := .other "STOP", stack := some [] } .done

def storesAroundTrace : DefaultFrame where
  structLogs := storesAround.flatten

/-- The first callee's op is taken back and its slice stored nothing; the second's slice stands before its op. -/
theorem splitFrameTree_collapsed_storesAround : ∃ tree,
    splitFrameTree ⟨fun _ => 0, fun _ => 0⟩ storesAroundTrace 9 (.consumers fun a => a = 7 || a = 8)
        nestingCostModelV1 = .ok tree ∧
      (tree.frames.map fun f => f.updates.map StateUpdate.type) =
        [[.log0, .store, .store, .nested, .log0, .store], [.store]] ∧
      ∀ f ∈ tree.frames, Collapsed f.updates := by
  have wf : storesAround.WellFormed 1 :=
    ⟨⟨rfl, rfl, rfl⟩, nofun, ⟨rfl, rfl, rfl⟩, rfl, rfl, rfl,
      ⟨⟨rfl, rfl, rfl⟩, nofun, ⟨rfl, rfl, rfl⟩, nofun, trivial⟩, rfl,
      ⟨rfl, rfl, rfl⟩, nofun, ⟨rfl, rfl, rfl⟩, nofun, ⟨rfl, rfl, rfl⟩, nofun, ⟨rfl, rfl, rfl⟩, rfl, rfl, rfl,
      ⟨⟨rfl, rfl, rfl⟩, nofun, ⟨rfl, rfl, rfl⟩, nofun, trivial⟩, rfl,
      ⟨rfl, rfl, rfl⟩, nofun, ⟨rfl, rfl, rfl⟩, nofun, ⟨rfl, rfl, rfl⟩, nofun, ⟨rfl, rfl, rfl⟩, nofun, trivial⟩
  have spares : SplitSpares ⟨fun _ => 0, fun _ => 0⟩ storesAroundTrace 9 (.consumers fun a => a = 7 || a = 8) :=
    splitSpares_sound (by decide +kernel)
  have answers : (splitFrameTree ⟨fun _ => 0, fun _ => 0⟩ storesAroundTrace 9 (.consumers fun a => a = 7 || a = 8)
      nestingCostModelV1).toOption.any (fun tree => (tree.frames.map fun f => f.updates.map StateUpdate.type) ==
        [[.log0, .store, .store, .nested, .log0, .store], [.store]]) = true := by decide +kernel
  obtain ⟨tree, answer, types⟩ := Outcome.any_ok answers
  exact ⟨tree, answer, by simpa using types, splitFrameTree_collapsed wf rfl answer spares⟩

/-- The root stores, calls a consumer that moves its counter and reverts, and logs. -/
def revertedCallee : CallTree :=
  .step { op := .sstore, stack := some [5, 1] } <|
  .enter { op := .call, stack := some [0, 0, 0, 0, 0, 7, 0] }
    (.step { op := .sstore, depth := 2, stack := some [1, stateTrackerSlot] } <|
      .step { op := .other "REVERT", depth := 2, stack := some [0, 0] } .done) <|
  .step { op := .log0, stack := some [0, 0] } <|
  .step { op := .other "STOP", stack := some [] } .done

def revertedCalleeTrace : DefaultFrame where
  structLogs := revertedCallee.flatten

/-- The slice of the retracted op stays in front of the log. -/
theorem slice_left_behind : revertedCallee.WellFormed 1 ∧
    ∃ tree, splitFrameTree ⟨fun _ => 0, fun _ => 0⟩ revertedCalleeTrace 9 (.consumers fun a => a = 7)
      nestingCostModelV1 = .ok tree ∧ ¬∀ f ∈ tree.frames, Collapsed f.updates := by
  constructor
  · exact ⟨⟨rfl, rfl, rfl⟩, nofun, ⟨rfl, rfl, rfl⟩, rfl, rfl, rfl,
      ⟨⟨rfl, rfl, rfl⟩, nofun, ⟨rfl, rfl, rfl⟩, nofun, trivial⟩, rfl,
      ⟨rfl, rfl, rfl⟩, nofun, ⟨rfl, rfl, rfl⟩, nofun, trivial⟩
  · refine ⟨_, rfl, ?_⟩
    intro collapsed
    have ordered := collapsed _ List.mem_cons_self [] [.store ⟨1, 5⟩, .log0 []] [] rfl (by decide)
    obtain ⟨log, same, -⟩ := (List.pairwise_cons.mp ordered).1 _ List.mem_cons_self _ rfl
    cases same

end GasAnalyzer
