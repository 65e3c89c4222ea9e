import GasAnalyzer.Effects.Executing
import GasAnalyzer.Effects.Legacy
import GasAnalyzer.Nested.Split

/-!
# Missing memory snapshots

Both extractors keep an effect of the root's closure exactly when its step carries a memory snapshot;
the canonical one reads stores off the stack and keeps them in any case.
-/

namespace GasAnalyzer

open Outcome

variable {root : Address} {elig : Eligibility} {candidates : OrdMap Nat Candidate} {logs : List StructLog}
variable {n : Nat} {log : StructLog} {w w' : Walk}

theorem Arrived.executes (arrived : Arrived root elig candidates logs n log w) (found : logs[n]? = some log)
    (executes : Executes root elig candidates n log w w') : Tracks root elig candidates logs (n + 1) w' := by
  have grew := executes.grew
  -- Frames keep their place; only the top one grows.
  have grows : ∀ f ∈ w.top :: w.below, ∃ f' ∈ w'.top :: w'.below, Grew root f f' := by
    intro f member
    rcases List.mem_cons.mp member with rfl | below
    · exact ⟨w'.top, List.mem_cons_self, grew⟩
    · exact ⟨f, List.mem_cons_of_mem _ (executes.below ▸ below), Grew.refl f⟩
  refine ⟨?_, ?_, ?_, ?_, ?_⟩
  · rw [executes.below]
    exact arrived.layers.replaceTop grew.depth grew.program grew.plain grew.context
      (grew.stored arrived.layers.stored)
  · intro p waits
    obtain ⟨parent, nested, view⟩ := executes.waiting p waits
    refine ⟨n, log, rfl, found, parent, ?_, nested, fun _ => view⟩
    rw [grew.depth]
    exact arrived.low
  · intro i l live
    rcases Nat.lt_or_ge i n with earlier | here
    · obtain ⟨f, member, depth, isRoot⟩ := arrived.live i l earlier live
      obtain ⟨f', member', grew'⟩ := grows f member
      exact ⟨f', member', grew'.depth.trans depth, isRoot.congr grew'.program grew'.plain grew'.context⟩
    · obtain rfl : i = n := by have := live.before; omega
      obtain rfl : log = l := Option.some.inj (found.symm.trans live.found)
      obtain ⟨depth, isRoot⟩ := arrived.here live.scope
      exact ⟨w'.top, List.mem_cons_self, grew.depth.trans depth,
        isRoot.congr grew.program grew.plain grew.context⟩
  · intro j call here scope foundJ delegates fine
    obtain rfl : j = n := by omega
    obtain rfl : log = call := Option.some.inj (found.symm.trans foundJ)
    exact executes.delegated (arrived.here scope).2 delegates fine
  · intro i l readable before
    rcases Nat.lt_or_ge i n with earlier | here
    · rcases arrived.carried i l readable earlier with retracted | ⟨i', l', f, live, member, depth, held⟩
      · exact Or.inl retracted
      · obtain ⟨f', member', grew'⟩ := grows f member
        refine Or.inr ⟨i', l', f', live, member', grew'.depth.trans depth, ?_⟩
        exact held.mono grew'.journal fun o inside _ _ => grew'.out o inside
    · obtain rfl : i = n := by omega
      obtain rfl : log = l := Option.some.inj (found.symm.trans readable.found)
      obtain ⟨depth, isRoot⟩ := arrived.here readable.scope
      refine Or.inr ⟨i, log, w'.top, ⟨readable.scope, found, by omega, ?_⟩, List.mem_cons_self,
        grew.depth.trans depth, executes.held isRoot readable.fine readable.effect readable.memory⟩
      intro m l' after before'
      omega

/-- Ops other than stores come from steps that carry their memory. -/
def Remembered (logs : List StructLog) (o : Op) : Prop :=
  o.update.isStore = true ∨ ∃ log, logs[o.step]? = some log ∧ log.memory ≠ none

def AllRemembered (logs : List StructLog) (w : Walk) : Prop :=
  ∀ f ∈ w.top :: w.below, ∀ o ∈ f.out, Remembered logs o

theorem AllRemembered.entered (all : AllRemembered logs w) (entered : Entered log w w') :
    AllRemembered logs w' := by
  cases entered with
  | idle _ => exact all
  | pushed _ _ =>
    intro f member o inside
    rcases List.mem_cons.mp member with rfl | below
    · cases inside
    · exact all f below o inside
  | inline _ _ _ _ top below _ =>
    intro f member o inside
    rw [below] at member
    rcases List.mem_cons.mp member with rfl | further
    · rw [top.out] at inside
      exact all w.top List.mem_cons_self o inside
    · exact all f (List.mem_cons_of_mem _ further) o inside

theorem AllRemembered.popped {flag : U256} {g : WalkFrame} {rest : List WalkFrame}
    (all : AllRemembered logs w) (popped : PoppedWith flag w g rest w') : AllRemembered logs w' := by
  have caller : ∀ o ∈ g.out, Remembered logs o :=
    all g (List.mem_cons_of_mem _ (popped.below ▸ List.mem_cons_self))
  intro f member
  rcases List.mem_cons.mp member with rfl | below
  · have returned := popped.returned
    generalize w'.top = g' at returned
    cases returned with
    | absorbed kept _ _ =>
      intro o inside
      rcases List.mem_append.mp inside with mine | theirs
      · exact caller o (kept.out ▸ mine)
      · exact all w.top List.mem_cons_self o theirs
    | discarded kept _ _ =>
      intro o inside
      exact caller o (kept.out ▸ inside)
    | merged kept _ _ =>
      intro o inside
      have inside : o ∈ _ := inside
      exact caller o (kept.out ▸ inside)
    | retracted kept _ _ last =>
      intro o inside
      exact caller o (by rw [last]; exact List.mem_append_left _ inside)
  · intro o inside
    obtain ⟨i, lt, here⟩ := List.mem_iff_getElem.mp below
    have length := popped.others.length_eq
    have kept := (List.forall₂_iff_get.mp popped.others).2 i (by omega) lt
    simp only [List.get_eq_getElem, here] at kept
    rw [kept.out] at inside
    refine all _ (List.mem_cons_of_mem _ ?_) o inside
    rw [popped.below]
    exact List.mem_cons_of_mem _ (List.getElem_mem _)

/-! ### The walk -/

theorem scanRun_depths {rest : List StructLog} {step : Nat} {s s' : Scan} (ran : Scan.run rest step s = .ok s') :
    ∀ log ∈ rest, log.depth ≠ 0 := by
  induction rest generalizing step s with
  | nil => intro log member; cases member
  | cons log rest ih =>
    obtain ⟨s₁, stepped, ran⟩ := Outcome.bind_ok ran
    intro log' member
    rcases List.mem_cons.mp member with rfl | later
    · intro zero
      unfold Scan.step at stepped
      rw [if_pos zero] at stepped
      cases stepped
    · exact ih ran log' later

theorem scanCandidates_depths {r : OrdMap Nat Candidate × Option U256} (scanned : scanCandidates logs = .ok r) :
    ∀ log ∈ logs, log.depth ≠ 0 := by
  unfold scanCandidates at scanned
  obtain ⟨s, ran, -⟩ := Outcome.bind_ok scanned
  exact scanRun_depths ran

/-- What the walk has kept of the first `n` steps. -/
structure Keeps (root : Address) (elig : Eligibility) (candidates : OrdMap Nat Candidate)
    (logs : List StructLog) (n : Nat) (w : Walk) : Prop where
  tracks : Tracks root elig candidates logs n w
  all : AllRemembered logs w
  calls : ∀ (i : Nat) (l : StructLog), i < n → InRoot logs i → logs[i]? = some l → l.op = .call →
    l.errored = false → l.memory ≠ none

variable {node : Node}

theorem Keeps.walkStep {H : Hashes} (keeps : Keeps root elig candidates logs n w) (sound : w.outline.Sound node)
    (follows : w.Follows (some log)) (found : logs[n]? = some log) (positive : log.depth ≠ 0)
    (stepped : walkStep H elig candidates n log w = .ok w') : Keeps root elig candidates logs (n + 1) w' := by
  unfold GasAnalyzer.walkStep at stepped
  obtain ⟨w₂, arrives, executed⟩ := Outcome.bind_ok stepped
  unfold arrive at arrives
  obtain ⟨w₁, entering, popping⟩ := Outcome.bind_ok arrives
  obtain ⟨sound₁, free₁⟩ := (enterPending_upheld sound follows).of_ok entering
  have entered := enterPending_entered entering
  have linked : ∀ p, w.pending = some p → p.program = some 0 → w.top.program = some 0 := by
    intro p waits program
    have waiting := sound.waiting p waits
    by_cases nested : p.nestedStartGas.isSome = true
    · obtain ⟨id, q, m, program', -, foundM, -, -, parent, -⟩ := waiting.nested nested
      obtain rfl : 0 = id := Option.some.inj (program.symm.trans program')
      have := sound.books.forest.parent_lt foundM parent
      omega
    · rcases waiting.plain (by simpa using nested) with none | ⟨same, -⟩
      · rw [none] at program
        cases program
      · exact same.symm.trans program
  have settles := keeps.tracks.settles found positive linked entered
  have all₁ := keeps.all.entered entered
  have arrived : Arrived root elig candidates logs n log w₂ ∧ AllRemembered logs w₂ := by
    rcases popFrames_one (fun g rest below => settles.layers.lt g (below ▸ List.mem_cons_self)) popping with
      ⟨rfl, low⟩ | ⟨above, popped, low⟩
    · exact ⟨settles.stays found low, all₁⟩
    · obtain ⟨g, rest, flag, depth, flagged, -, stack⟩ := popFrame_popped popped
      refine ⟨settles.returns found positive ?_ above depth flagged stack low, all₁.popped stack⟩
      intro plain
      have layered := sound₁.stack
      rw [show w₁.outline.below = g.shape :: rest.map WalkFrame.shape by
        simp [Walk.outline, stack.below]] at layered
      exact layered.2.1.plain (by simp [Walk.outline, WalkFrame.shape, plain])
  obtain ⟨arrived, all₂⟩ := arrived
  obtain ⟨executes, memory⟩ := @exec_executes root _ _ _ _ _ _ _ arrived.free executed
  refine ⟨arrived.executes found executes, ?_, ?_⟩
  · intro f member o inside
    rcases List.mem_cons.mp member with rfl | below
    · rcases executes.own o inside with old | store | ⟨here, present⟩
      · exact all₂ w₂.top List.mem_cons_self o old
      · exact Or.inl store
      · exact Or.inr ⟨log, here ▸ found, present⟩
    · exact all₂ f (List.mem_cons_of_mem _ (executes.below ▸ below)) o inside
  · intro i l before scope foundL isCall fine
    rcases Nat.lt_or_ge i n with earlier | here
    · exact keeps.calls i l earlier scope foundL isCall fine
    · obtain rfl : i = n := by omega
      obtain rfl : log = l := Option.some.inj (found.symm.trans foundL)
      refine memory isCall fine ?_
      rw [(arrived.here scope).2.program]
      exact Option.some_ne_none 0

theorem Keeps.walk {H : Hashes} (enters : Enters candidates logs) (depths : ∀ log ∈ logs, log.depth ≠ 0)
    (rest : List StructLog) : ∀ (step : Nat) (w w' : Walk), logs.drop step = rest →
      Keeps root elig candidates logs step w → w.outline.Sound node → w.Follows rest.head? →
      GasAnalyzer.walk H elig candidates rest step w = .ok w' →
      Keeps root elig candidates logs (step + rest.length) w' := by
  induction rest with
  | nil =>
    intro step w w' _ keeps _ _ walked
    obtain rfl := Except.ok.inj walked
    exact keeps
  | cons log rest ih =>
    intro step w w' suffix keeps sound follows walked
    obtain ⟨w₁, stepped, walked⟩ := Outcome.bind_ok walked
    have found : logs[step]? = some log := by
      rw [← Nat.add_zero step, ← List.getElem?_drop, suffix]
      rfl
    have suffix' : logs.drop (step + 1) = rest := by
      rw [← List.drop_drop, suffix]
      rfl
    have next : ∀ log', rest.head? = some log' → logs[step + 1]? = some log' := by
      intro log' head
      rw [← Nat.add_zero (step + 1), ← List.getElem?_drop, suffix', ← List.head?_eq_getElem?]
      exact head
    obtain ⟨sound', follows'⟩ := (walkStep_upheld H elig sound follows
      (fun c log' candidate head => enters step c log log' candidate found (next log' head))).of_ok stepped
    have kept := keeps.walkStep sound follows found (depths log (List.mem_of_getElem? found)) stepped
    have done := ih (step + 1) w₁ w' suffix' kept sound' follows' walked
    rwa [List.length_cons, Nat.add_comm rest.length, ← Nat.add_assoc]

theorem initialWalk_keeps (root : Address) (rootIndex : Option U256) :
    Keeps root elig candidates logs 0 (initialWalk root rootIndex) := by
  refine ⟨⟨⟨rfl, ⟨rfl, rfl, rfl⟩, ?_⟩, ?_, ?_, ?_, ?_⟩, ?_, ?_⟩
  · intro _ s v held
    cases held
  · intro p waits
    cases waits
  · intro i l live
    exact absurd live.before (Nat.not_lt_zero i)
  · intro j call here
    omega
  · intro i l _ before
    exact absurd before (Nat.not_lt_zero i)
  · intro f member o inside
    rw [List.mem_singleton.mp member] at inside
    cases inside
  · intro i l before
    exact absurd before (Nat.not_lt_zero i)

theorem SplitRun.keeps {H : Hashes} {trace : DefaultFrame} {cost : NestingCostModel} {tree : FrameTreeExtract}
    (run : SplitRun H trace root elig cost tree) :
    Keeps root elig run.candidates trace.structLogs trace.structLogs.length run.last := by
  have kept := Keeps.walk run.enters (scanCandidates_depths run.scanned) trace.structLogs 0 _ _ rfl
    (initialWalk_keeps root run.rootIndex) (initialWalk_sound root run.rootIndex)
    (fun _ _ waits => by cases waits) run.walked
  rwa [Nat.zero_add] at kept

/-! ### The program -/

/-- An un-errored effect of the root's closure, in frames that all commit. -/
structure Effect (logs : List StructLog) (i : Nat) (log : StructLog) : Prop where
  scope : InRoot logs i
  found : logs[i]? = some log
  fine : log.errored = false
  effect : effectful log.op = true

def RootHolds (tree : FrameTreeExtract) (i : Nat) (op : Opcode) : Prop :=
  ∃ frame steps, tree.frames[0]? = some frame ∧ tree.opSteps[0]? = some steps ∧ Holds frame.updates steps i op

def RootStores (tree : FrameTreeExtract) (slot : B256) : Prop :=
  ∃ frame value, tree.frames[0]? = some frame ∧ .store ⟨slot, value⟩ ∈ frame.updates

/-- A store's slot is in the root's program, and any other effect is there as its op. -/
def Represented (elig : Eligibility) (logs : List StructLog) (tree : FrameTreeExtract) (i : Nat)
    (log : StructLog) : Prop :=
  if log.op = .sstore then ∃ slot, log.top 0 = some slot ∧ RootStores tree slot
  else RootHolds tree i log.op ∨
    ∃ r, scanCandidates logs = .ok r ∧ Retracted elig r.1 logs i log

theorem mem_sameOrCall {ops ops' : List Op} (same : List.Forall₂ SameOrCall ops ops') {i : Nat} {op : Opcode} :
    (∃ o ∈ ops', o.step = i ∧ o.update.opcode = op) ↔ ∃ o ∈ ops, o.step = i ∧ o.update.opcode = op := by
  have kind : ∀ {o o' : Op}, SameOrCall o o' → o'.step = o.step ∧ o'.update.opcode = o.update.opcode := by
    intro o o' same
    cases same <;> exact ⟨rfl, rfl⟩
  induction same with
  | nil => simp
  | cons first _ ih =>
    obtain ⟨step, opcode⟩ := kind first
    simp only [List.mem_cons, exists_eq_or_imp, ih, step, opcode]

theorem stores_sameOrCall {ops ops' : List Op} (same : List.Forall₂ SameOrCall ops ops') {slot : B256}
    (stores : StoresSlot ops slot) : StoresSlot ops' slot := by
  obtain ⟨v, st, member⟩ := stores
  induction same with
  | nil => cases member
  | cons first _ ih =>
    rcases List.mem_cons.mp member with rfl | later
    · cases first with
      | same => exact ⟨v, st, List.mem_cons_self⟩
    · obtain ⟨u, st', member'⟩ := ih later
      exact ⟨u, st', List.mem_cons_of_mem _ member'⟩

variable {H : Hashes} {trace : DefaultFrame} {cost : NestingCostModel} {tree : FrameTreeExtract}

theorem SplitRun.target (run : SplitRun H trace root elig cost tree) {p : ProgramState}
    (found : run.last.programs[0]? = some p) : p.target = root := by
  obtain ⟨l, foundL, isRoot⟩ := run.sound.books.first
  rw [show run.last.outline.ledgers = run.last.programs.map ProgramState.ledger from rfl, List.getElem?_map,
    found] at foundL
  obtain rfl := Option.some.inj foundL
  exact congrArg Node.target isRoot

/-- The closed root holds every readable effect. -/
theorem SplitRun.held (run : SplitRun H trace root elig cost tree) {i : Nat}
    (readable : Readable trace.structLogs i log) :
    Retracted elig run.candidates trace.structLogs i log ∨
      if log.op = .sstore then ∃ slot, log.top 0 = some slot ∧ StoresSlot run.closed.top.out slot
      else ∃ o ∈ run.closed.top.out, o.step = i ∧ o.update.opcode = log.op := by
  have keeps := run.keeps
  obtain ⟨below, id, p, emits, found, top, -⟩ := closeRoot_ok run.closes
  have inside := (List.getElem?_eq_some_iff.mp readable.found).1
  rcases keeps.tracks.carried i log readable inside with retracted | ⟨i', l', f, -, member, -, held⟩
  · exact Or.inl retracted
  right
  rw [below, List.mem_singleton] at member
  subst member
  have layers := keeps.tracks.layers
  rw [below] at layers
  obtain ⟨-, isRoot, stored⟩ := layers
  have grew : Grew root run.last.top run.closed.top := top ▸ Grew.flush _ _ _
  unfold HeldIn at held
  split at held
  · rename_i kind
    obtain ⟨slot, first, journaled⟩ := held
    rw [if_pos kind]
    refine ⟨slot, first, ?_⟩
    obtain rfl : id = 0 := Option.some.inj (emits.symm.trans isRoot.program)
    -- The slot is in the image, hence in the view after the last slice, hence stored.
    have imaged : ∃ v, run.closed.top.emittedView.get slot = some v := by
      rw [top, WalkFrame.flushed]
      obtain ⟨v, written⟩ := Option.isSome_iff_exists.mp journaled
      refine ⟨v, ?_⟩
      rw [OrdMap.get_extend, get_visibleImage_cons, run.target found]
      have written : (run.last.top.journal.slots root).get slot = some v := written
      rw [written]
      rfl
    obtain ⟨v, viewed⟩ := imaged
    rcases grew.view slot v viewed with before | stores
    · obtain ⟨h, memberH, u, st, kept⟩ := stored isRoot.program slot v before
      rw [List.mem_singleton.mp memberH] at kept
      exact ⟨u, st, grew.out _ kept⟩
    · exact stores
  · rename_i kind
    obtain ⟨o, kept, step, opcode⟩ := held
    rw [if_neg kind]
    exact ⟨o, grew.out o kept, step, opcode⟩

theorem splitFrameTree_represents (answer : splitFrameTree H trace root elig cost = .ok tree) {i : Nat}
    (effect : Effect trace.structLogs i log) :
    Represented elig trace.structLogs tree i log ↔ log.op = .sstore ∨ log.memory ≠ none := by
  obtain ⟨run⟩ := splitFrameTree_run answer
  obtain ⟨frame, ops, first, updates, steps, same⟩ := run.rootProgram
  have inside := (List.getElem?_eq_some_iff.mp effect.found).1
  unfold Represented
  constructor
  · intro represented
    by_cases kind : log.op = .sstore
    · exact Or.inl kind
    · rw [if_neg kind] at represented
      right
      rcases represented with ⟨frame', steps', first', isSteps, holds⟩ | ⟨r, -, isCall, -⟩
      · obtain rfl : frame = frame' := Option.some.inj (first.symm.trans first')
        obtain rfl : ops.map Op.step = steps' := Option.some.inj (steps.symm.trans isSteps)
        rw [updates, holds_ops, mem_sameOrCall same] at holds
        obtain ⟨o, member, step, opcode⟩ := holds
        obtain ⟨below, id, p, -, -, top, -⟩ := closeRoot_ok run.closes
        rw [top] at member
        rcases own_flushed o member with old | store
        · rcases run.keeps.all run.last.top List.mem_cons_self o old with store | ⟨l, foundL, present⟩
          · cases update : o.update <;> simp_all [StateUpdate.isStore, StateUpdate.opcode]
          · rw [step, effect.found] at foundL
            rw [Option.some.inj foundL]
            exact present
        · cases update : o.update <;> simp_all [StateUpdate.isStore, StateUpdate.opcode]
      · exact run.keeps.calls i log inside effect.scope effect.found isCall effect.fine
  · intro memory
    rcases run.held ⟨effect.scope, effect.found, effect.fine, effect.effect, memory⟩ with retracted | held
    · have kind : log.op ≠ .sstore := by
        rw [retracted.1]
        intro other
        cases other
      rw [if_neg kind]
      exact Or.inr ⟨_, run.scanned, retracted⟩
    · split at held
      · rename_i kind
        rw [if_pos kind]
        obtain ⟨slot, isSlot, stores⟩ := held
        obtain ⟨v, st, member⟩ := stores_sameOrCall same stores
        exact ⟨slot, isSlot, frame, v, first, by rw [updates]; exact List.mem_map.mpr ⟨_, member, rfl⟩⟩
      · rename_i kind
        rw [if_neg kind]
        refine Or.inl ⟨frame, _, first, steps, ?_⟩
        rw [updates, holds_ops, mem_sameOrCall same]
        exact held

end GasAnalyzer
