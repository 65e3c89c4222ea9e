import GasAnalyzer.Native.Segments
import GasAnalyzer.Net.Equivalence
import GasAnalyzer.Replay.Journal

/-!
# Replaying one program

A program follows an execution if each of its boundary ops finds the chain as the execution's step found it; between
boundaries its own stores may lag behind. What lags is what the frame's view lacks, and a slice makes up for it.
-/

namespace GasAnalyzer

def StateUpdate.event? : StateUpdate → Option Event
  | log0 data => some ⟨data, []⟩
  | log1 data topic1 => some ⟨data, [topic1]⟩
  | log2 data topic1 topic2 => some ⟨data, [topic1, topic2]⟩
  | log3 data topic1 topic2 topic3 => some ⟨data, [topic1, topic2, topic3]⟩
  | log4 data topic1 topic2 topic3 topic4 => some ⟨data, [topic1, topic2, topic3, topic4]⟩
  | _ => none

theorem event?_update (e : Event) (few : e.topics.length ≤ 4) : e.update.event? = some e := by
  obtain ⟨data, topics⟩ := e
  match topics, few with
  | [], _ => rfl
  | [_], _ => rfl
  | [_, _], _ => rfl
  | [_, _, _], _ => rfl
  | [_, _, _, _], _ => rfl

/-- `ops`, run for `target`, take the first chain to the second; what is called at a boundary finds what step by step the
execution does (`sees`) and does the same there (`does`). -/
inductive Follows (sees : Nat → Chain) (does : Nat → Chain → Chain) (target : Address) : List Op → Chain → Chain → Prop where
  | done {c : Chain} : Follows sees does target [] c c
  | store {s : Store} {n : Nat} {ops : List Op} {c c' : Chain}
      (rest : Follows sees does target ops (c.store target s.slot s.value) c') :
      Follows sees does target (⟨.store s, n⟩ :: ops) c c'
  | event {u : StateUpdate} {e : Event} {n : Nat} {ops : List Op} {c c' : Chain} (logs : u.event? = some e)
      (rest : Follows sees does target ops (c.emit target e) c') : Follows sees does target (⟨u, n⟩ :: ops) c c'
  | boundary {u : StateUpdate} {n : Nat} {ops : List Op} {c c' : Chain} (hands : u.isBoundary = true) (finds : c = sees n)
      (rest : Follows sees does target ops (does n c) c') : Follows sees does target (⟨u, n⟩ :: ops) c c'

section

variable {sees : Nat → Chain} {does : Nat → Chain → Chain} {target : Address} {ops more : List Op} {c c' c'' : Chain}

theorem Follows.append (first : Follows sees does target ops c c') (second : Follows sees does target more c' c'') :
    Follows sees does target (ops ++ more) c c'' := by
  induction first with
  | done => exact second
  | store _ ih => exact .store (ih second)
  | event logs _ ih => exact .event logs (ih second)
  | boundary hands finds _ ih => exact .boundary hands finds (ih second)

/-- Stores leave in the target's storage what they last store. -/
theorem follows_stores (sees : Nat → Chain) (does : Nat → Chain → Chain) (target : Address)
    (stores : ∀ op ∈ ops, op.update.isStore = true) (c : Chain) :
    ∃ c', Follows sees does target ops c c' ∧ c'.events = c.events ∧
      ∀ a s, c'.storage a s = if a = target then (leftBy ops s).getD (c.storage a s) else c.storage a s := by
  induction ops generalizing c with
  | nil => exact ⟨c, .done, rfl, fun a s => (ite_self _).symm⟩
  | cons op ops ih =>
    obtain ⟨u, n⟩ := op
    cases u with
    | store st =>
      obtain ⟨c', follows, events, storage⟩ := ih (fun o member => stores o (List.mem_cons_of_mem _ member))
        (c.store target st.slot st.value)
      refine ⟨c', .store follows, events, ?_⟩
      intro a s
      rw [storage, show (⟨.store st, n⟩ : Op) :: ops = [⟨.store st, n⟩] ++ ops from rfl, leftBy_append,
        Chain.store_storage]
      by_cases here : a = target
      · rw [if_pos here, if_pos here]
        cases leftBy ops s with
        | some v => rfl
        | none =>
          show _ = (WriteLog.last s [(st.slot, st.value)]).getD _
          rw [WriteLog.last_singleton]
          by_cases slot : s = st.slot
          · rw [if_pos slot.symm]
            simp [here, slot]
          · rw [if_neg (Ne.symm slot)]
            simp [slot]
      · simp [here]
    | _ => cases stores _ List.mem_cons_self

end

/-! ### Where a replay stands -/

/-- A replay of the top frame's program that holds `r`, where the execution holds `c`: it differs from it in slots of the
target alone, and there only where the view does not hold the image's value. -/
structure InStep (target : Address) (w : Walk) (c r : Chain) : Prop where
  events : r.events = c.events
  others : ∀ a, a ≠ target → ∀ s, r.storage a s = c.storage a s
  viewed : ∀ s v, w.top.emittedView.get s = some v → r.storage target s = v ∧ (w.image target s).isSome = true
  unwritten : ∀ s, w.image target s = none → r.storage target s = c.storage target s

variable {H : Hashes} {elig : Eligibility} {candidates : OrdMap Nat Candidate} {n id : Nat} {log next : StructLog}
variable {w w₁ w₂ w₃ : Walk} {target : Address} {c r : Chain} {ws : List Write}
variable {sees : Nat → Chain} {does : Nat → Chain → Chain}

/-- After a slice a replay holds what the execution does. -/
theorem InStep.slice (inStep : InStep target w c r) (imaged : ∀ s, w.image target s = wrote ws target s)
    (reflected : CallTree.Reflected ws c) : Follows sees does target (w.slice n target) r c := by
  have stores : ∀ op ∈ w.slice n target, op.update.isStore = true := by
    intro op member
    obtain ⟨e, -, rfl⟩ := List.mem_map.mp member
    rfl
  obtain ⟨r', follows, events, storage⟩ := follows_stores sees does target stores r
  suffices same : r' = c by rwa [same] at follows
  apply Chain.ext_at
  · intro a s
    rw [storage]
    by_cases here : a = target
    · subst here
      rw [if_pos rfl, Walk.slice, leftBy_stale]
      show (if w.top.emittedView.get s = w.image a s then none else w.image a s).getD _ = _
      cases image : w.image a s with
      | none =>
        rw [ite_self]
        exact inStep.unwritten s image
      | some v =>
        rw [reflected a s v (by rw [← imaged, image])]
        by_cases held : w.top.emittedView.get s = some v
        · rw [if_pos held]
          exact (inStep.viewed s v held).1
        · rw [if_neg held]
          rfl
    · rw [if_neg here]
      exact inStep.others a here s
  · exact events.trans inStep.events

/-- A replay that holds what the execution does, with a view that does too. -/
theorem InStep.level (viewed : ∀ s v, w.top.emittedView.get s = some v →
    c.storage target s = v ∧ (w.image target s).isSome = true) : InStep target w c c :=
  ⟨rfl, fun _ _ _ => rfl, viewed, fun _ _ => rfl⟩

theorem InStep.same (inStep : InStep target w c r)
    (view : ∀ s v, w₁.top.emittedView.get s = some v → w.top.emittedView.get s = some v)
    (image : ∀ s, w₁.image target s = w.image target s) : InStep target w₁ c r where
  events := inStep.events
  others := inStep.others
  viewed s v held := by
    rw [image]
    exact inStep.viewed s v (view s v held)
  unwritten s none := inStep.unwritten s (by rw [← image, none])

/-- A frame that was sliced holds its image in view. -/
theorem InStep.sliced (inStep : InStep target w c r) (imaged : ∀ s, w.image target s = wrote ws target s)
    (reflected : CallTree.Reflected ws c) (view : w₁.top.emittedView = (w.sliced n target).emittedView)
    (image : ∀ s, w₁.image target s = w.image target s) : InStep target w₁ c c := by
  apply InStep.level
  intro s v held
  rw [view] at held
  have held : (w.image target s).or (w.top.emittedView.get s) = some v := by
    rw [← held]
    exact (OrdMap.get_extend _ _ _).symm
  rw [image]
  cases found : w.image target s with
  | some u =>
    rw [found] at held
    obtain rfl := Option.some.inj held
    exact ⟨reflected target s u (by rw [← imaged, found]), rfl⟩
  | none =>
    rw [found, Option.none_or] at held
    have there := (inStep.viewed s v held).2
    rw [found] at there
    cases there

/-! ### Steps -/

/-- A step that opens no frame keeps the replay in step. -/
theorem Executed.follows (executed : Executed H elig candidates n log w w₁)
    (closed : ¬(log.errored = false ∧ log.op.opensFrame = true)) (memory : log.memory.isSome = true)
    (emits : w.top.program = some id) (context : w.top.storageCtx = some target) (inStep : InStep target w c r) :
    ∃ ops r', w₁.top.out = w.top.out ++ ops ∧ Follows sees does target ops r r' ∧
      InStep target w₁ (log.acts (some target) c) r' := by
  have image := fun s => executed.image target s
  rw [context] at image
  -- A step that neither stores nor logs.
  have quiet : log.stored? = none → log.emits = false → w₁.top.out = w.top.out →
      w₁.top.emittedView = w.top.emittedView → ∃ ops r', w₁.top.out = w.top.out ++ ops ∧
        Follows sees does target ops r r' ∧ InStep target w₁ (log.acts (some target) c) r' := by
    intro stores logs out view
    rw [StructLog.acts_of_silent _ c stores logs]
    refine ⟨[], r, by rw [out, List.append_nil], .done, inStep.same (fun s v held => by rwa [view] at held) ?_⟩
    intro s
    rw [image, StructLog.writes_of_unstored stores, wrote_nil, Option.none_or]
  have opens : ∀ {p : Prop}, log.errored = false → log.op.opensFrame = true → p := fun fine kind =>
    absurd ⟨fine, kind⟩ closed
  cases executed with
  | quiet silent =>
    rw [emits] at silent
    apply quiet
    · unfold StructLog.stored?
      rw [if_neg]
      rintro ⟨kind, fine⟩
      simp [StructLog.silent, kind, fine] at silent
    · unfold StructLog.emits
      cases kind : log.op.isLog with
      | false => rfl
      | true =>
        cases fine : log.errored with
        | true => rfl
        | false => simp [StructLog.silent, kind, fine] at silent
    · rfl
    · rfl
  | unowned _ _ none =>
    rw [context] at none
    cases none
  | @stored ctx slot value kind fine host first second =>
    rw [context] at host
    obtain rfl := Option.some.inj host
    have stores : log.stored? = some (slot, value) := by
      unfold StructLog.stored?
      rw [if_pos ⟨kind, fine⟩, first, second]
      rfl
    have acts : log.acts (some target) c = c.store target slot value := by
      unfold StructLog.acts
      rw [stores]
    have writes : ∀ s, wrote (log.writes (some target) n) target s = if slot = s then some value else none := by
      intro s
      unfold StructLog.writes wrote
      rw [stores, List.map_singleton, WriteLog.last_singleton]
      simp [Write.entry]
    rw [acts]
    refine ⟨[], r, by rw [Walk.stored_top]; exact (List.append_nil _).symm, .done, ?_⟩
    constructor
    · exact inStep.events
    · intro a other s
      rw [Chain.store_storage, if_neg (fun both => other both.1)]
      exact inStep.others a other s
    · intro s v held
      rw [Walk.stored_top] at held
      obtain ⟨recalled, there⟩ := inStep.viewed s v held
      refine ⟨recalled, ?_⟩
      rw [image, Option.isSome_or, there, Bool.or_true]
    · intro s none
      rw [image, writes] at none
      rw [Chain.store_storage]
      by_cases here : slot = s
      · rw [if_pos here] at none
        cases none
      · rw [if_neg here, Option.none_or] at none
        rw [if_neg (fun both => here both.2.symm)]
        exact inStep.unwritten s none
  | @logged id update skipped kind fine _ decoded =>
    have isEvent : update = some log.event.update := decodeStructLog_event kind memory decoded
    have stores : log.stored? = none := by
      unfold StructLog.stored?
      rw [if_neg]
      rintro ⟨store, -⟩
      rw [store] at kind
      cases kind
    have acts : log.acts (some target) c = c.emit target log.event := by
      unfold StructLog.acts
      rw [stores]
      dsimp only
      rw [if_pos]
      simp [StructLog.emits, kind, fine]
    rw [acts]
    refine ⟨[⟨log.event.update, n⟩], r.emit target log.event, ?_, ?_, ?_⟩
    · rw [isEvent]
      rfl
    · exact .event (event?_update _ log.event_topics) .done
    · refine ⟨?_, inStep.others, inStep.viewed, inStep.unwritten⟩
      show r.events ++ _ = c.events ++ _
      rw [inStep.events]
  | delegated kind fine | creates kind fine | deployed kind fine =>
    exact opens fine (by cases op : log.op <;> simp_all [Opcode.opensFrame, Opcode.isDelegate, Opcode.isCreate])
  | observed kind fine | called kind fine | emitted kind fine | opened kind fine =>
    exact opens fine (by rw [kind]; rfl)

end GasAnalyzer
