import GasAnalyzer.Native.Single
import GasAnalyzer.Safety.Extraction

/-!
# When the split panics

Over any list of possible steps, and whatever may nest: the split aborts exactly when its walk decodes a step whose
memory range is out of reach. The stack of frames never runs out, a frame that flushes has its program, and pruning
finds every op it turns back into a call.
-/

namespace GasAnalyzer

open Outcome (Sat sat_okOr)

variable {root : Node}

/-! ### Computations that do not panic -/

/-- A computation that never panics. -/
abbrev Spared {α : Type} (post : α → Prop) (x : Result α) : Prop :=
  Sat (fun failure => failure.panics = false) post x

theorem Spared.not_panics {α : Type} {post : α → Prop} {x : Result α} (spared : Spared post x) : ¬Panics x := by
  rintro ⟨failure, failed, panics⟩
  rw [spared.of_error failed] at panics
  cases panics

theorem not_panics_ok {α : Type} (a : α) : ¬Panics (.ok a) := by
  rintro ⟨failure, failed, -⟩
  cases failed

theorem panics_bind {α β : Type} {x : Result α} {f : α → Result β} :
    Panics (x >>= f) ↔ Panics x ∨ ∃ a, x = .ok a ∧ Panics (f a) := by
  cases x with
  | error failure =>
    constructor
    · rintro ⟨failure', failed, panics⟩
      cases failed
      exact Or.inl ⟨failure, rfl, panics⟩
    · rintro (⟨failure', failed, panics⟩ | ⟨a, answer, -⟩)
      · cases failed
        exact ⟨failure, rfl, panics⟩
      · cases answer
  | ok a =>
    constructor
    · exact fun panics => Or.inr ⟨a, rfl, panics⟩
    · rintro (⟨failure, failed, -⟩ | ⟨a', answer, panics⟩)
      · cases failed
      · cases answer
        exact panics

/-- A computation that does not panic and whose answers are known. -/
theorem Spared.knowing {α : Type} {some post : α → Prop} {x : Result α} (spared : Spared some x)
    (knows : ∀ a, x = .ok a → post a) : Spared post x :=
  spared.self.imp fun a both => knows a both.1

theorem Upheld.spared {α : Type} {some post : α → Prop} {x : Result α} (upheld : Upheld post x)
    (spared : Spared some x) : Spared post x :=
  spared.knowing fun _ answer => upheld.of_ok answer

/-! ### The pre-pass -/

theorem Scan.run_spared (logs : List StructLog) (possible : ∀ log ∈ logs, log.Possible) :
    ∀ (index : Nat) (s : Scan), Scan.HasRoot s →
      Spared (fun _ => ∀ log ∈ logs, log.depth ≠ 0) (Scan.run logs index s) := by
  induction logs with
  | nil =>
    intro index s _ log member
    cases member
  | cons log rest ih =>
    intro index s root
    rw [Scan.run]
    by_cases zero : log.depth = 0
    · unfold Scan.step
      rw [if_pos zero]
      rfl
    · have scannable : Scan.Scannable log := by
        constructor
        · by_contra low
          exact zero (UInt64.toNat_inj.mp (by simpa using low))
        · intro kind _
          obtain ⟨words, hasStack, long⟩ := (possible log List.mem_cons_self).stack
          rw [kind] at long
          rw [hasStack]
          exact long
      obtain ⟨s₁, stepped, root₁⟩ := @Scan.HasRoot.step index log s scannable root
      rw [stepped, Outcome.ok_bind]
      apply (ih (fun l member => possible l (List.mem_cons_of_mem _ member)) (index + 1) s₁ root₁).imp
      intro _ positive l member
      rcases List.mem_cons.mp member with rfl | later
      · exact zero
      · exact positive l later

theorem scanCandidates_spared {logs : List StructLog} (possible : ∀ log ∈ logs, log.Possible) :
    Spared (fun _ => ∀ log ∈ logs, log.depth ≠ 0) (scanCandidates logs) := by
  have root : Scan.HasRoot {} := ⟨⟨1, some .root⟩, List.mem_singleton_self _, Nat.le_refl 1⟩
  exact Sat.bind (Scan.run_spared logs possible 0 {} root) fun _ positive => positive

/-! ### The bottom of the stack -/

/-- The root's frame, at depth 1, is below all others. -/
def Grounded (w : Walk) : Prop := (w.top.depth :: w.below.map WalkFrame.depth).getLast? = some 1

theorem Grounded.entered {log : StructLog} {w w' : Walk} (grounded : Grounded w) (entered : Entered log w w') :
    Grounded w' := by
  cases entered with
  | idle => exact grounded
  | pushed _ _ =>
    unfold Grounded pushFrame
    rw [List.map_cons, List.getLast?_cons_cons]
    exact grounded
  | inline _ _ _ _ top below _ =>
    unfold Grounded
    rw [top.depth, below]
    exact grounded

theorem map_depth_kept {frames frames' : List WalkFrame} (kept : List.Forall₂ Kept frames frames') :
    frames'.map WalkFrame.depth = frames.map WalkFrame.depth := by
  induction kept with
  | nil => rfl
  | cons first _ ih => rw [List.map_cons, List.map_cons, ih, first.depth]

theorem Grounded.popped {flag : U256} {w w' : Walk} {g : WalkFrame} {rest : List WalkFrame} (grounded : Grounded w)
    (popped : PoppedWith flag w g rest w') : Grounded w' := by
  unfold Grounded at grounded ⊢
  have same := map_depth_kept popped.others
  rw [popped.below, List.map_cons, List.getLast?_cons_cons] at grounded
  rw [popped.returned.depth, same]
  exact grounded

theorem Grounded.executed {H : Hashes} {elig : Eligibility} {candidates : OrdMap Nat Candidate} {n : Nat}
    {log : StructLog} {w w' : Walk} (grounded : Grounded w) (executed : exec H elig candidates n log w = .ok w') :
    Grounded w' := by
  obtain ⟨below, place⟩ := (exec_executed executed).place
  unfold Grounded
  rw [below, place.depth]
  exact grounded

/-! ### Arriving -/

theorem enterPending_spared (log : StructLog) (w : Walk) : Spared (fun _ => True) (enterPending log w) := by
  unfold enterPending
  split
  · trivial
  · dsimp only
    split
    · trivial
    · split
      · rfl
      · split
        · rfl
        · split <;> trivial

theorem flushSlice_answers {w : Walk} (sound : w.outline.Sound root) (emits : w.top.program.isSome = true)
    (step : Nat) : ∃ image, flushSlice step w = .ok { w with top := w.top.flushed step image } := by
  obtain ⟨id, program⟩ := Option.isSome_iff_exists.mp emits
  obtain ⟨-, ⟨m, found, -⟩, -⟩ := sound.stack.fits.emits id program
  have bound : id < w.programs.length := by
    simpa [Walk.outline] using (List.getElem?_eq_some_iff.mp found).1
  exact ⟨_, flushSlice_eq program (List.getElem?_eq_getElem bound)⟩

theorem nested_emits {w : Walk} (sound : w.outline.Sound root) (nested : w.top.nestedStartGas.isSome = true) :
    w.top.program.isSome = true := by
  by_contra silent
  have := (sound.stack.fits.silent (by simpa [Walk.outline, WalkFrame.shape] using silent)).2.2
  rw [show w.outline.top.nested = true from nested] at this
  cases this

theorem returnFrame_spared {frame : WalkFrame} (emits : frame.nestedStartGas.isSome = true → frame.program.isSome = true)
    (success : Bool) (log : StructLog) (w : Walk) : Spared (fun _ => True) (returnFrame success log frame w) := by
  unfold returnFrame
  split
  · rfl
  · dsimp only
    cases nested : frame.nestedStartGas with
    | none => trivial
    | some start =>
      obtain ⟨id, program⟩ := Option.isSome_iff_exists.mp (emits (by rw [nested]; rfl))
      dsimp only
      unfold closeNested
      rw [program]
      show Spared _ (if success = true then _ else _)
      split
      · trivial
      · split
        · trivial
        · rfl

theorem popFrame_spared {w : Walk} {log : StructLog} (sound : w.outline.Sound root) (grounded : Grounded w)
    (positive : log.depth ≠ 0) (above : log.depth < w.top.depth) (step : Nat) :
    Spared (fun _ => True) (popFrame step log w) := by
  have more : w.below ≠ [] := by
    intro none
    unfold Grounded at grounded
    rw [none, List.map_nil, List.getLast?_singleton] at grounded
    rw [Option.some.inj grounded, UInt64.lt_iff_toNat_lt] at above
    apply positive
    apply UInt64.toNat_inj.mp
    exact Nat.lt_one_iff.mp above
  unfold popFrame
  split
  · rfl
  · refine Sat.bind (sat_okOr (fun _ => rfl)) fun stack _ => ?_
    refine Sat.bind (sat_okOr (fun _ => rfl)) fun flag _ => ?_
    dsimp only
    have sliced : Spared (fun v => v.below = w.below ∧ v.top.nestedStartGas = w.top.nestedStartGas ∧
        v.top.program = w.top.program) (lastSlice step (decide (flag ≠ 0)) w) := by
      unfold lastSlice
      split
      · rename_i flushes
        obtain ⟨image, flushed⟩ := flushSlice_answers sound (nested_emits sound (Bool.and_eq_true_iff.mp flushes).2) step
        rw [flushed]
        exact ⟨rfl, rfl, rfl⟩
      · exact ⟨rfl, rfl, rfl⟩
    apply Sat.bind sliced
    rintro v ⟨below, nested, program⟩
    split
    · rename_i none
      exact absurd (below.symm.trans none) more
    · apply returnFrame_spared
      rw [nested, program]
      exact nested_emits sound

theorem popFrames_spared (step : Nat) {log : StructLog} (positive : log.depth ≠ 0) (fuel : Nat) :
    ∀ {w : Walk}, w.outline.Sound root → w.pending = none → Grounded w →
      Spared (fun w' => w'.outline.Sound root ∧ w'.pending = none ∧ Grounded w') (popFrames step log fuel w) := by
  induction fuel with
  | zero => exact fun sound free grounded => ⟨sound, free, grounded⟩
  | succ fuel ih =>
    intro w sound free grounded
    unfold popFrames
    split
    · rename_i above
      apply Sat.bind (((popFrame_upheld sound free step log).spared
        (popFrame_spared sound grounded positive above step)).self)
      rintro v ⟨popped, soundV, freeV⟩
      obtain ⟨g, rest, flag, -, -, -, with'⟩ := popFrame_popped popped
      exact ih soundV freeV (grounded.popped with')
    · exact ⟨sound, free, grounded⟩

/-- What a step finds: a sound walk with its root below, and nothing pending. -/
structure Rests (root : Node) (w : Walk) : Prop where
  sound : w.outline.Sound root
  free : w.pending = none
  grounded : Grounded w

theorem arrive_spared {w : Walk} {log : StructLog} (sound : w.outline.Sound root) (follows : w.Follows (some log))
    (grounded : Grounded w) (positive : log.depth ≠ 0) (step : Nat) :
    Spared (Rests root) (arrive step log w) := by
  unfold arrive
  apply Sat.bind (((enterPending_upheld sound follows).spared (enterPending_spared log w)).self)
  rintro v ⟨entered, soundV, freeV⟩
  apply (popFrames_spared step positive _ soundV freeV (grounded.entered (enterPending_entered entered))).imp
  rintro w' ⟨sound', free', grounded'⟩
  exact ⟨sound', free', grounded'⟩

/-! ### Executing -/

/-- The step goes to the decoder: it replays as it is, in a frame that emits. -/
def Handled (log : StructLog) (w : Walk) : Prop :=
  log.op.emitted = true ∧ log.errored = false ∧ w.top.program.isSome = true

section

variable {w : Walk} {log : StructLog} (possible : log.Possible)

include possible

theorem execStore_spared (kind : log.op = .sstore) (w : Walk) :
    Spared (fun _ => True) (execStore log w) := by
  obtain ⟨words, hasStack, long⟩ := possible.stack
  rw [kind] at long
  have first : words.reverse[0]? = some _ :=
    List.getElem?_eq_getElem (by rw [List.length_reverse]; exact Nat.lt_of_lt_of_le (by decide) long)
  have second : words.reverse[1]? = some _ :=
    List.getElem?_eq_getElem (by rw [List.length_reverse]; exact Nat.lt_of_lt_of_le (by decide) long)
  unfold execStore
  split
  · split
    · trivial
    · rw [hasStack]
      simp only [okOr, index, Outcome.ok_bind, first, second]
      split <;> trivial
  · trivial

/-- A step that only its decoding can abort. -/
theorem panics_iff_of_decode {x : Result Walk} (emitted : log.op.emitted = true) (idle : ¬Handled log w → ¬Panics x)
    (decodes : Handled log w → ∃ f, x = decodeStructLog log >>= f ∧ ∀ u : StateUpdate, ¬Panics (f (some u, none))) :
    Panics x ↔ Handled log w ∧ ¬log.InRange := by
  have effect : effectful log.op = true := by
    cases op : log.op <;> simp_all [Opcode.emitted, effectful, Opcode.isLog, Opcode.isCreate]
  by_cases handled : Handled log w
  · obtain ⟨f, rfl, answers⟩ := decodes handled
    rcases possible.decodes effect with ⟨inRange, u, decoded, -⟩ | ⟨outside, failure, decoded, panics⟩
    · rw [decoded]
      constructor
      · exact fun panics => absurd panics (answers u)
      · exact fun both => absurd inRange both.2
    · rw [decoded]
      constructor
      · exact fun _ => ⟨handled, outside⟩
      · exact fun _ => ⟨failure, rfl, panics⟩
  · constructor
    · exact fun panics => absurd panics (idle handled)
    · exact fun both => absurd both.1 handled

theorem execLog_panics_iff (kind : log.op.isLog = true) (step : Nat) :
    Panics (execLog step log w) ↔ Handled log w ∧ ¬log.InRange := by
  have emitted : log.op.emitted = true := by
    cases op : log.op <;> simp_all [Opcode.isLog, Opcode.emitted]
  apply panics_iff_of_decode possible emitted
  · intro idle
    unfold execLog
    split
    · exact not_panics_ok _
    · rename_i id program
      split
      · exact not_panics_ok _
      · rename_i fine
        exact absurd ⟨emitted, by simpa using fine, by rw [program]; rfl⟩ idle
  · rintro ⟨-, fine, emits⟩
    obtain ⟨id, program⟩ := Option.isSome_iff_exists.mp emits
    unfold execLog appendStateUpdateFromStructLog
    simp only [program, fine, Bool.false_eq_true, if_false, Outcome.bind_assoc]
    exact ⟨_, rfl, fun u => not_panics_ok _⟩

theorem execCreate_panics_iff (sound : w.outline.Sound root) (kind : log.op.isCreate = true) (step : Nat) :
    Panics (execCreate step log w) ↔ Handled log w ∧ ¬log.InRange := by
  have emitted : log.op.emitted = true := by
    cases op : log.op <;> simp_all [Opcode.isCreate, Opcode.emitted]
  apply panics_iff_of_decode possible emitted
  · intro idle
    unfold execCreate
    split
    · exact not_panics_ok _
    · rename_i fine
      split
      · exact not_panics_ok _
      · rename_i id program
        exact absurd ⟨emitted, by simpa using fine, by rw [program]; rfl⟩ idle
  · rintro ⟨-, fine, emits⟩
    obtain ⟨image, flushed⟩ := flushSlice_answers sound emits step
    obtain ⟨id, program⟩ := Option.isSome_iff_exists.mp emits
    unfold execCreate appendStateUpdateFromStructLog
    simp only [program, fine, Bool.false_eq_true, if_false, flushed, Outcome.ok_bind, Outcome.bind_assoc]
    exact ⟨_, rfl, fun u => not_panics_ok _⟩

theorem execCall_panics_iff (H : Hashes) (elig : Eligibility) (candidates : OrdMap Nat Candidate)
    (sound : w.outline.Sound root) (kind : log.op = .call) (step : Nat) :
    Panics (execCall H elig candidates step log w) ↔ Handled log w ∧ ¬log.InRange := by
  have emitted : log.op.emitted = true := by rw [kind]; rfl
  obtain ⟨words, hasStack, -⟩ := possible.stack
  apply panics_iff_of_decode possible emitted
  · intro idle
    unfold execCall
    simp only [hasStack, okOr, Outcome.ok_bind]
    split
    · exact not_panics_ok _
    · rename_i fine
      split
      · exact not_panics_ok _
      · rename_i id program
        exact absurd ⟨emitted, by simpa using fine, by rw [program]; rfl⟩ idle
  · rintro ⟨-, fine, emits⟩
    obtain ⟨image, flushed⟩ := flushSlice_answers sound emits step
    obtain ⟨id, program⟩ := Option.isSome_iff_exists.mp emits
    unfold execCall
    simp only [hasStack, okOr, program, fine, Bool.false_eq_true, if_false, flushed, Outcome.ok_bind]
    refine ⟨_, rfl, ?_⟩
    intro u
    dsimp only
    rw [if_neg (by simp)]
    cases u <;> cases elig.frameIndex (candidates.get step) log.callee <;> exact not_panics_ok _

theorem exec_panics_iff (H : Hashes) (elig : Eligibility) (candidates : OrdMap Nat Candidate)
    (sound : w.outline.Sound root) (step : Nat) :
    Panics (exec H elig candidates step log w) ↔ Handled log w ∧ ¬log.InRange := by
  have silent : log.op.emitted = false → ∀ {x : Result Walk}, ¬Panics x →
      (Panics x ↔ Handled log w ∧ ¬log.InRange) := by
    intro notEmitted x spared
    constructor
    · exact fun panics => absurd panics spared
    · rintro ⟨⟨emitted, -⟩, -⟩
      rw [notEmitted] at emitted
      cases emitted
  unfold exec
  cases op : log.op with
  | sstore => exact silent (by rw [op]; rfl) (execStore_spared possible op w).not_panics
  | tstore | selfdestruct | delegatecall | callcode => exact silent (by rw [op]; rfl) (not_panics_ok _)
  | other => exact silent (by rw [op]; rfl) (not_panics_ok _)
  | staticcall =>
    apply silent (by rw [op]; rfl)
    show ¬Panics (execStaticcall log w)
    obtain ⟨words, hasStack, -⟩ := possible.stack
    unfold execStaticcall
    rw [hasStack]
    split
    · exact not_panics_ok _
    · exact not_panics_ok _
  | call => exact execCall_panics_iff possible H elig candidates sound op step
  | create | create2 => exact execCreate_panics_iff possible sound (by rw [op]; rfl) step
  | log0 | log1 | log2 | log3 | log4 => exact execLog_panics_iff possible (by rw [op]; rfl) step

end

/-! ### Walking -/

variable (H : Hashes) (elig : Eligibility) (candidates : OrdMap Nat Candidate)

/-- The walk from `w`, with `start` steps done, hands step `k` of `logs` to the decoder. -/
def Reads (logs : List StructLog) (start : Nat) (w : Walk) (k : Nat) (log : StructLog) : Prop :=
  logs[k]? = some log ∧ ∃ v v₁, walk H elig candidates (logs.take k) start w = .ok v ∧
    arrive (start + k) log v = .ok v₁ ∧ Handled log v₁

theorem reads_zero {log : StructLog} {rest : List StructLog} {start : Nat} {w : Walk} {log' : StructLog} :
    Reads H elig candidates (log :: rest) start w 0 log' ↔
      log = log' ∧ ∃ v₁, arrive start log w = .ok v₁ ∧ Handled log v₁ := by
  constructor
  · rintro ⟨found, v, v₁, walked, arrived, handled⟩
    obtain rfl : w = v := Except.ok.inj walked
    obtain rfl : log = log' := Option.some.inj found
    exact ⟨rfl, v₁, arrived, handled⟩
  · rintro ⟨rfl, v₁, arrived, handled⟩
    exact ⟨rfl, w, v₁, rfl, arrived, handled⟩

theorem reads_succ {log : StructLog} {rest : List StructLog} {start : Nat} {w : Walk} {k : Nat} {log' : StructLog} :
    Reads H elig candidates (log :: rest) start w (k + 1) log' ↔
      ∃ w₁, walkStep H elig candidates start log w = .ok w₁ ∧ Reads H elig candidates rest (start + 1) w₁ k log' := by
  have place : start + (k + 1) = start + 1 + k := by omega
  constructor
  · rintro ⟨found, v, v₁, walked, arrived, handled⟩
    obtain ⟨w₁, stepped, walked⟩ := Outcome.bind_ok walked
    exact ⟨w₁, stepped, found, v, v₁, walked, place ▸ arrived, handled⟩
  · rintro ⟨w₁, stepped, found, v, v₁, walked, arrived, handled⟩
    refine ⟨found, v, v₁, ?_, place ▸ arrived, handled⟩
    rw [List.take_succ_cons, walk, stepped]
    exact walked

theorem walk_panics_iff (logs : List StructLog) (enters : Enters candidates logs) (rest : List StructLog)
    (possible : ∀ log ∈ rest, log.Possible) (positive : ∀ log ∈ rest, log.depth ≠ 0) :
    ∀ (start : Nat) (w : Walk), logs.drop start = rest → w.outline.Sound root → w.Follows rest.head? → Grounded w →
      (Panics (walk H elig candidates rest start w) ↔
        ∃ k log, Reads H elig candidates rest start w k log ∧ ¬log.InRange) := by
  induction rest with
  | nil =>
    intro start w _ _ _ _
    constructor
    · exact fun panics => absurd panics (not_panics_ok _)
    · rintro ⟨k, log, ⟨found, -⟩, -⟩
      cases found
  | cons log rest ih =>
    intro start w suffix sound follows grounded
    have here : logs[start]? = some log := by
      rw [← List.head?_drop, suffix]
      rfl
    have after : logs.drop (start + 1) = rest := by
      rw [← List.tail_drop, suffix]
      rfl
    have entered : ∀ c log', candidates.get start = some c → rest.head? = some log' →
        log'.depth = log.depth + 1 := by
      intro c log' candidate isNext
      exact enters start c log log' candidate here (by rw [← List.head?_drop, after, isNext])
    have arrives := arrive_spared sound follows grounded (positive log List.mem_cons_self) start
    have possibleHere := possible log List.mem_cons_self
    rw [walk, panics_bind]
    constructor
    · rintro (panics | ⟨w₁, stepped, panics⟩)
      · unfold walkStep at panics
        rcases panics_bind.mp panics with broken | ⟨v₁, arrived, broken⟩
        · exact absurd broken arrives.not_panics
        · have rests := arrives.of_ok arrived
          obtain ⟨handled, outside⟩ := (exec_panics_iff possibleHere H elig candidates rests.sound start).mp broken
          exact ⟨0, log, (reads_zero H elig candidates).mpr ⟨rfl, v₁, arrived, handled⟩, outside⟩
      · have upheld := (walkStep_upheld H elig sound follows entered).of_ok stepped
        obtain ⟨v₁, arrived, executed⟩ := Outcome.bind_ok stepped
        have grounded₁ := (arrives.of_ok arrived).grounded.executed executed
        obtain ⟨k, log', reads, outside⟩ := (ih (fun l member => possible l (List.mem_cons_of_mem _ member))
          (fun l member => positive l (List.mem_cons_of_mem _ member)) (start + 1) w₁ after upheld.1 upheld.2
          grounded₁).mp panics
        exact ⟨k + 1, log', (reads_succ H elig candidates).mpr ⟨w₁, stepped, reads⟩, outside⟩
    · rintro ⟨k, log', reads, outside⟩
      cases k with
      | zero =>
        obtain ⟨rfl, v₁, arrived, handled⟩ := (reads_zero H elig candidates).mp reads
        left
        unfold walkStep
        have rests := arrives.of_ok arrived
        exact panics_bind.mpr (Or.inr ⟨v₁, arrived,
          (exec_panics_iff possibleHere H elig candidates rests.sound start).mpr ⟨handled, outside⟩⟩)
      | succ k =>
        obtain ⟨w₁, stepped, reads⟩ := (reads_succ H elig candidates).mp reads
        have upheld := (walkStep_upheld H elig sound follows entered).of_ok stepped
        obtain ⟨v₁, arrived, executed⟩ := Outcome.bind_ok stepped
        have grounded₁ := (arrives.of_ok arrived).grounded.executed executed
        right
        exact ⟨w₁, stepped, (ih (fun l member => possible l (List.mem_cons_of_mem _ member))
          (fun l member => positive l (List.mem_cons_of_mem _ member)) (start + 1) w₁ after upheld.1 upheld.2
          grounded₁).mpr ⟨k, log', reads, outside⟩⟩

/-! ### Closing and settling -/

theorem closeRoot_spared {w : Walk} (sound : w.outline.Sound root) (step : Nat) :
    Spared (fun _ => True) (closeRoot step w) := by
  unfold closeRoot
  split
  · rfl
  · rename_i alone
    have stack := sound.stack
    rw [show w.outline.below = [] by simp [Walk.outline, not_not.mp alone]] at stack
    obtain ⟨image, flushed⟩ := flushSlice_answers sound
      (show w.top.program.isSome = true by rw [show w.top.program = some 0 from stack.2.1]; rfl) step
    rw [flushed]
    trivial

theorem pruneLoop_spared (cost : NestingCostModel) {ps : List ProgramState} (count : Nat) :
    ∀ s : Pruning, Settled s.programs → Trims ps s.programs → count < s.programs.length →
      DoneFrom (count + 1) s.programs → Spared (fun _ => True) (pruneLoop cost (List.range' 1 count).reverse s) := by
  induction count with
  | zero => exact fun _ _ _ _ _ => trivial
  | succ count ih =>
    intro s settled trims inside done
    rw [List.range'_1_concat, List.reverse_append, List.reverse_singleton, List.singleton_append,
      Nat.add_comm 1 count]
    have steps : Spared (fun _ => True) (pruneStep cost (count + 1) s) := by
      unfold pruneStep
      rw [show index s.programs (count + 1) = .ok _ from
        congrArg (okOr _) (List.getElem?_eq_getElem inside), Outcome.ok_bind]
      split
      · trivial
      · rename_i notDropped
        dsimp only
        split
        · trivial
        · obtain ⟨ps', pruned, -⟩ := pruneProgram_spec settled (List.getElem?_eq_getElem inside)
            (by simpa using notDropped) (Nat.succ_pos count)
          rw [pruned]
          trivial
    apply Sat.bind ((pruneStep_upheld cost settled trims (Nat.succ_pos count) done).spared steps)
    rintro s' ⟨settled', trims', size, done'⟩
    exact ih s' settled' trims' (by omega) done'

theorem settlePrograms_spared {w : Walk} (closed : Closed root w.programs) (cost : NestingCostModel) :
    Spared (fun _ => True) (settlePrograms cost w) := by
  have settled := closed.settle
  have pos := settled.forest.pos
  rw [length_nodes] at pos
  unfold settlePrograms pruneUnprofitable
  refine Sat.bind (pruneLoop_spared cost _ _ settled (Trims.refl _) (by simp only; omega) ?_) fun _ _ => ?_
  · intro q p after found
    have := (List.getElem?_eq_some_iff.mp found).1
    simp only at this
    omega
  · trivial

theorem splitFrameTree_panics_iff (trace : DefaultFrame) (target : Address) (cost : NestingCostModel)
    (possible : ∀ log ∈ trace.structLogs, log.Possible) :
    Panics (splitFrameTree H trace target elig cost) ↔ ∃ candidates rootIndex n log,
      scanCandidates trace.structLogs = .ok (candidates, rootIndex) ∧
      Reads H elig candidates trace.structLogs 0 (initialWalk target rootIndex) n log ∧ ¬log.InRange := by
  have scans := scanCandidates_spared possible
  cases scanned : scanCandidates trace.structLogs with
  | error failure =>
    unfold splitFrameTree
    rw [scanned]
    constructor
    · rintro ⟨failure', failed, panics⟩
      cases failed
      rw [scans.of_error scanned] at panics
      cases panics
    · rintro ⟨candidates, rootIndex, n, log, answer, -⟩
      cases answer
  | ok r =>
    obtain ⟨candidates, rootIndex⟩ := r
    have enters := (scanCandidates_upheld trace.structLogs).of_ok scanned
    have sound := initialWalk_sound target rootIndex
    have follows : (initialWalk target rootIndex).Follows trace.structLogs.head? := fun _ _ waits => by cases waits
    have walks := walk_panics_iff H elig candidates trace.structLogs enters trace.structLogs possible
      (scans.of_ok scanned) 0 _ rfl sound follows rfl
    have walked := walk_upheld H elig candidates trace.structLogs enters trace.structLogs 0 _ rfl sound follows
    unfold splitFrameTree
    rw [scanned, Outcome.ok_bind]
    dsimp only
    rw [panics_bind, walks]
    constructor
    · rintro (⟨n, log, reads, outside⟩ | ⟨last, answer, panics⟩)
      · exact ⟨candidates, rootIndex, n, log, rfl, reads, outside⟩
      · -- Past the walk nothing aborts.
        have soundLast := walked.of_ok answer
        refine absurd panics (Spared.not_panics (?_ : Spared (fun _ => True) _))
        apply Sat.bind ((closeRoot_upheld soundLast _).spared (closeRoot_spared soundLast _))
        intro closed isClosed
        apply Sat.bind ((settlePrograms_upheld isClosed cost).spared (settlePrograms_spared isClosed cost))
        intro programs final
        rw [compact_ok final.done]
        trivial
    · rintro ⟨candidates', rootIndex', n, log, same, reads, outside⟩
      cases same
      exact Or.inl ⟨n, log, reads, outside⟩

/-! ### The three extractions -/

/-- The split decodes step `n`. -/
def SplitReads (trace : DefaultFrame) (target : Address) (n : Nat) (log : StructLog) : Prop :=
  ∃ candidates rootIndex, scanCandidates trace.structLogs = .ok (candidates, rootIndex) ∧
    Reads H elig candidates trace.structLogs 0 (initialWalk target rootIndex) n log

theorem splitFrameTree_returns_iff (trace : DefaultFrame) (target : Address) (cost : NestingCostModel)
    (possible : ∀ log ∈ trace.structLogs, log.Possible) :
    ¬Panics (splitFrameTree H trace target elig cost) ↔
      ∀ n log, SplitReads H elig trace target n log → log.InRange := by
  rw [splitFrameTree_panics_iff H elig trace target cost possible]
  constructor
  · rintro spared n log ⟨candidates, rootIndex, scanned, reads⟩
    by_contra outside
    exact spared ⟨candidates, rootIndex, n, log, scanned, reads, outside⟩
  · rintro inRange ⟨candidates, rootIndex, n, log, scanned, reads, outside⟩
    exact outside (inRange n log ⟨candidates, rootIndex, scanned, reads⟩)

/-- An extraction of possible steps returns exactly when every step it decodes is in range and, in the legacy
extractor, every call it extracts is resumed. -/
theorem extraction_returns_iff (H : Hashes) (trace : DefaultFrame) (origin : Option Address) (target : Address)
    (isNestable : Address → Bool) (owned : Finset Address) (cost : NestingCostModel)
    (possible : ∀ log ∈ trace.structLogs, log.Possible) :
    (¬Panics (computeStateUpdates trace origin) ↔ ∀ n log, Extracting.Takes origin trace.structLogs n log →
      log.InRange ∧ (log.op = .call → Extracting.Resumed trace.structLogs n log)) ∧
    (¬Panics (computeFrameTreeCanonical H trace target isNestable cost) ↔
      ∀ n log, SplitReads H (.consumers isNestable) trace target n log → log.InRange) ∧
    (¬Panics (computeFrameTreeHypothetical H trace target owned cost) ↔
      ∀ n log, SplitReads H (.hypothetical owned) trace target n log → log.InRange) := by
  refine ⟨?_, splitFrameTree_returns_iff H _ trace target cost possible,
    splitFrameTree_returns_iff H _ trace target cost possible⟩
  rw [Extracting.panics_iff trace possible]
  constructor
  · intro spared n log takes
    constructor
    · by_contra outside
      exact spared ⟨n, log, takes, Or.inl outside⟩
    · intro isCall
      by_contra unresumed
      exact spared ⟨n, log, takes, Or.inr ⟨isCall, unresumed⟩⟩
  · rintro fine ⟨n, log, takes, outside | ⟨isCall, unresumed⟩⟩
    · exact outside (fine n log takes).1
    · exact unresumed ((fine n log takes).2 isCall)

/-- A store, then an empty event whose offset is `offset`. -/
def storeThenEvent (offset : U256) : DefaultFrame where
  structLogs := [{ op := .sstore, stack := some [7, 3] }, { op := .log0, stack := some [0, offset] }]
  bounded := Nat.lt_of_le_of_lt (Nat.le_refl 2) (by decide)

theorem storeThenEvent_possible (offset : U256) : ∀ log ∈ (storeThenEvent offset).structLogs, log.Possible := by
  intro log member
  simp only [storeThenEvent, List.mem_cons, List.not_mem_nil, or_false] at member
  rcases member with rfl | rfl
  · exact ⟨⟨_, rfl, Nat.le_refl 2⟩, _, rfl, nofun⟩
  · exact ⟨⟨_, rfl, Nat.le_refl 2⟩, _, rfl, nofun⟩

/-- Both extractors return on an event at offset 0, so every step they decode is in range. -/
theorem extraction_returns_nearEvent :
    (∀ n log, Extracting.Takes none (storeThenEvent 0).structLogs n log →
      log.InRange ∧ (log.op = .call → Extracting.Resumed (storeThenEvent 0).structLogs n log)) ∧
    ∀ n log, SplitReads toyHashes (.consumers fun _ => false) (storeThenEvent 0) 5 n log → log.InRange := by
  obtain ⟨legacy, canonical, -⟩ := extraction_returns_iff toyHashes (storeThenEvent 0) none 5 (fun _ => false) ∅
    nestingCostModelV1 (storeThenEvent_possible 0)
  constructor
  · apply legacy.mp
    exact not_panics_ok _
  · apply canonical.mp
    rintro ⟨failure, failed, -⟩
    cases failed

/-- An empty event whose offset is no `usize`: legal, and every extraction aborts on it. -/
theorem extraction_farEvent :
    (∀ log ∈ (storeThenEvent (2 ^ 64)).structLogs, log.Possible) ∧
      Panics (computeStateUpdates (storeThenEvent (2 ^ 64)) none) ∧
      Panics (computeFrameTreeCanonical toyHashes (storeThenEvent (2 ^ 64)) 5 (fun _ => false) nestingCostModelV1) ∧
      Panics (computeFrameTreeHypothetical toyHashes (storeThenEvent (2 ^ 64)) 5 ∅ nestingCostModelV1) :=
  ⟨storeThenEvent_possible _, ⟨.invalidUsize "data offset", rfl, rfl⟩, ⟨.invalidUsize "data offset", rfl, rfl⟩,
    ⟨.invalidUsize "data offset", rfl, rfl⟩⟩

end GasAnalyzer
