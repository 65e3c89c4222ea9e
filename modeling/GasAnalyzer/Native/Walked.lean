import GasAnalyzer.Native.Executed
import GasAnalyzer.Native.CallTree

/-!
# The walk over a call tree

On a well-formed trace the walk follows the call tree: it executes a step, pushes a frame for the body
of a call and pops it at the step that resumes the caller. `Walked` is that derivation; what the walk
does to a frame is proved by induction on it.
-/

namespace GasAnalyzer

section

variable (H : Hashes) (elig : Eligibility) (candidates : OrdMap Nat Candidate)

/-- The walk of `t` from step `n` on, from a state that has arrived at its first step. -/
inductive Walked : Nat → CallTree → Walk → Walk → Prop where
  | done {n : Nat} {w : Walk} : Walked n .done w w
  | last {n : Nat} {log : StructLog} {w w' : Walk} (executed : exec H elig candidates n log w = .ok w')
      (free : w'.pending = none) : Walked n (.step log .done) w w'
  | step {n : Nat} {log next : StructLog} {rest : CallTree} {w w₁ w₂ w' : Walk}
      (executed : exec H elig candidates n log w = .ok w₁) (head : rest.head? = some next)
      (level : next.depth = log.depth) (entered : enterPending next w₁ = .ok w₂)
      (tail : Walked (n + 1) rest w₂ w') : Walked n (.step log rest) w w'
  | enter {n : Nat} {call first next : StructLog} {body rest : CallTree} {p : PendingFrame}
      {w w₁ w₂ w₃ w' : Walk} (executed : exec H elig candidates n call w = .ok w₁)
      (waits : w₁.pending = some p) (head : body.head? = some first)
      (inner : Walked (n + 1) body (pushFrame p first { w₁ with pending := none }) w₂)
      (resumes : rest.head? = some next) (popped : popFrame (n + 1 + body.size) next w₂ = .ok w₃)
      (tail : Walked (n + 1 + body.size) rest w₃ w') : Walked n (.enter call body rest) w w'

end

variable {H : Hashes} {elig : Eligibility} {candidates : OrdMap Nat Candidate}

/-- What running code in a frame leaves of the stack: the frame's place, and the frames below it but for
their gas figures and views. -/
structure Frames (w w' : Walk) : Prop where
  free : w'.pending = none
  top : SamePlace w.top w'.top
  below : List.Forall₂ Kept w.below w'.below

theorem Frames.refl {w : Walk} (free : w.pending = none) : Frames w w :=
  ⟨free, SamePlace.refl _, forall₂_kept_refl _⟩

theorem Frames.trans {w w' w'' : Walk} (first : Frames w w') (second : Frames w' w'') : Frames w w'' :=
  ⟨second.free, first.top.trans second.top, forall₂_kept_trans first.below second.below⟩

/-- Arriving at the next step of the same frame changes at most what the frame is charged. -/
theorem entered_kept {n : Nat} {log next : StructLog} {w w₁ w₂ : Walk} (free : w.pending = none)
    (step : Executed H elig candidates n log w w₁) (level : next.depth = log.depth)
    (entered : enterPending next w₁ = .ok w₂) : Kept w₁.top w₂.top ∧ w₂.below = w₁.below ∧ w₂.pending = none := by
  cases enterPending_entered entered with
  | idle free' => exact ⟨Kept.refl _, rfl, free'⟩
  | @pushed p waits deeper =>
    rw [step.waits free waits, level] at deeper
    exact absurd deeper.symm (by simp)
  | inline _ _ _ _ top below free' => exact ⟨top, below, free'⟩

theorem frames_inline {n : Nat} {log next : StructLog} {w w₁ w₂ : Walk} (free : w.pending = none)
    (executed : exec H elig candidates n log w = .ok w₁) (level : next.depth = log.depth)
    (entered : enterPending next w₁ = .ok w₂) : Frames w w₂ := by
  have step := exec_executed executed
  obtain ⟨below, place⟩ := step.place
  obtain ⟨top, below', free'⟩ := entered_kept free step level entered
  refine ⟨free', place.trans top.samePlace, ?_⟩
  rw [below', below]
  exact forall₂_kept_refl _

/-- The caller of a frame that ran its body, right before it resumes. -/
theorem caller_of_frames {p : PendingFrame} {first : StructLog} {w₁ w₂ : Walk}
    (inner : Frames (pushFrame p first { w₁ with pending := none }) w₂) :
    ∃ g rest, w₂.below = g :: rest ∧ Kept w₁.top g ∧ List.Forall₂ Kept w₁.below rest := by
  have below : List.Forall₂ Kept (w₁.top :: w₁.below) w₂.below := inner.below
  generalize w₂.below = fs at below
  cases below with
  | cons kept others => exact ⟨_, _, rfl, kept, others⟩

/-- A frame returns to the caller that pushed it. -/
theorem popped_of_frames {p : PendingFrame} {first next : StructLog} {step : Nat} {w₁ w₂ w₃ : Walk}
    (ran : Frames (pushFrame p first { w₁ with pending := none }) w₂) (popped : popFrame step next w₂ = .ok w₃) :
    ∃ g others flag, next.flag = some flag ∧ Kept w₁.top g ∧ List.Forall₂ Kept w₁.below others ∧
      PoppedWith flag w₂ g others w₃ := by
  obtain ⟨g, others, stack, caller, outer⟩ := caller_of_frames ran
  obtain ⟨g', others', flag, -, flagged, -, pop⟩ := popFrame_popped popped
  obtain ⟨rfl, rfl⟩ := List.cons.inj (stack.symm.trans pop.below)
  exact ⟨g, others, flag, flagged, caller, outer, pop⟩

/-- The caller resumes in its own program. -/
theorem program_of_frames {p : PendingFrame} {first next : StructLog} {step : Nat} {w₁ w₂ w₃ : Walk}
    (ran : Frames (pushFrame p first { w₁ with pending := none }) w₂) (popped : popFrame step next w₂ = .ok w₃) :
    w₃.top.program = w₁.top.program := by
  obtain ⟨g, others, flag, -, caller, -, pop⟩ := popped_of_frames ran popped
  rw [pop.returned.samePlace.program, caller.program]

theorem Walked.frames {n : Nat} {t : CallTree} {w w' : Walk} (walked : Walked H elig candidates n t w w')
    (free : w.pending = none) : Frames w w' := by
  induction walked with
  | done => exact Frames.refl free
  | last executed free' =>
    obtain ⟨below, place⟩ := (exec_executed executed).place
    exact ⟨free', place, below ▸ forall₂_kept_refl _⟩
  | step executed head level entered tail ih =>
    have inline := frames_inline free executed level entered
    exact inline.trans (ih inline.free)
  | @enter n call first next body rest p w w₁ w₂ w₃ w' executed waits head inner resumes popped tail
      ihInner ihTail =>
    obtain ⟨below, place⟩ := (exec_executed executed).place
    have ran := ihInner rfl
    obtain ⟨g, others, flag, -, caller, outer, pop⟩ := popped_of_frames ran popped
    have popFrames : Frames w w₃ := by
      refine ⟨pop.pending.trans ran.free, ?_, ?_⟩
      · exact place.trans (caller.samePlace.trans pop.returned.samePlace)
      · rw [← below]
        exact forall₂_kept_trans outer pop.others
    exact popFrames.trans (ihTail popFrames.free)

/-! ### Following the tree -/

theorem walk_append (xs ys : List StructLog) (n : Nat) (w : Walk) :
    walk H elig candidates (xs ++ ys) n w =
      walk H elig candidates xs n w >>= walk H elig candidates ys (n + xs.length) := by
  induction xs generalizing n w with
  | nil => rfl
  | cons log rest ih =>
    show (walkStep H elig candidates n log w >>= fun w => walk H elig candidates (rest ++ ys) (n + 1) w) = _
    show _ = (walkStep H elig candidates n log w >>= fun w => walk H elig candidates rest (n + 1) w) >>= _
    rw [Outcome.bind_assoc]
    congr 1
    funext w'
    rw [ih, List.length_cons, Nat.add_assoc, Nat.add_comm 1]

theorem popFrames_stays {n fuel : Nat} {log : StructLog} {w : Walk} (low : w.top.depth ≤ log.depth) :
    popFrames n log fuel w = .ok w := by
  cases fuel with
  | zero => rfl
  | succ fuel =>
    unfold popFrames
    rw [if_neg (UInt64.not_lt.mpr low)]

theorem arrive_of_walk {n : Nat} {t : CallTree} {next : StructLog} {w w' : Walk} (head : t.head? = some next)
    (walked : walk H elig candidates t.flatten n w = .ok w') : ∃ w₀, arrive n next w = .ok w₀ := by
  have flat : ∃ rest, t.flatten = next :: rest := by
    rw [← CallTree.head?_flatten] at head
    exact List.head?_eq_some_iff.mp head
  obtain ⟨rest, flat⟩ := flat
  rw [flat] at walked
  obtain ⟨v, stepped, -⟩ := Outcome.bind_ok walked
  obtain ⟨w₀, arrived, -⟩ := Outcome.bind_ok stepped
  exact ⟨w₀, arrived⟩

/-- After its first step arrived, the walk executes that step and goes on. -/
theorem exec_of_walk {n : Nat} {log : StructLog} {rest : List StructLog} {w w₀ w' : Walk}
    (arrived : arrive n log w = .ok w₀) (walked : walk H elig candidates (log :: rest) n w = .ok w') :
    ∃ w₁, exec H elig candidates n log w₀ = .ok w₁ ∧ walk H elig candidates rest (n + 1) w₁ = .ok w' := by
  obtain ⟨w₁, stepped, walked⟩ := Outcome.bind_ok walked
  unfold walkStep at stepped
  rw [arrived] at stepped
  exact ⟨w₁, stepped, walked⟩

theorem arrive_inline {n : Nat} {next : StructLog} {w w₁ w₂ : Walk} (arrived : arrive n next w₁ = .ok w₂)
    (frames : ∀ v, enterPending next w₁ = .ok v → Frames w v) (level : w.top.depth = next.depth) :
    enterPending next w₁ = .ok w₂ := by
  unfold arrive at arrived
  obtain ⟨v, entered, popped⟩ := Outcome.bind_ok arrived
  have low : v.top.depth ≤ next.depth := by
    rw [(frames v entered).top.depth, level]
    exact UInt64.le_refl _
  rw [popFrames_stays low] at popped
  rw [entered, Except.ok.inj popped]

theorem arrive_push {n : Nat} {first : StructLog} {p : PendingFrame} {w : Walk} (waits : w.pending = some p)
    (deeper : first.depth = p.parentDepth + 1) :
    arrive n first w = .ok (pushFrame p first { w with pending := none }) := by
  unfold arrive enterPending
  rw [waits]
  simp only [if_pos deeper, Outcome.ok_bind]
  exact popFrames_stays (UInt64.le_refl _)

theorem arrive_pop {n : Nat} {next : StructLog} {w w₃ : Walk} (free : w.pending = none)
    (above : next.depth < w.top.depth) (low : ∀ v, popFrame n next w = .ok v → v.top.depth ≤ next.depth)
    (arrived : arrive n next w = .ok w₃) : popFrame n next w = .ok w₃ := by
  unfold arrive enterPending at arrived
  rw [free] at arrived
  unfold popFrames at arrived
  simp only [Outcome.ok_bind, if_pos above] at arrived
  obtain ⟨v, popped, rest⟩ := Outcome.bind_ok arrived
  rw [popFrames_stays (low v popped)] at rest
  rw [popped, Except.ok.inj rest]

/-- The walk over a well-formed trace follows its tree. -/
theorem walked_of_walk {d : Nat} {t : CallTree} (wf : t.WellFormed d) :
    ∀ {n : Nat} {h : StructLog} {w w₀ w' : Walk}, t.head? = some h → arrive n h w = .ok w₀ →
      w₀.pending = none → w₀.top.depth.toNat = d → walk H elig candidates t.flatten n w = .ok w' →
      Walked H elig candidates n t w₀ w' := by
  induction t generalizing d with
  | done =>
    intro n h w w₀ w' head
    cases head
  | step log rest ih =>
    intro n h w w₀ w' head arrived free depth walked
    obtain rfl := Option.some.inj head
    obtain ⟨carries, opens, tail⟩ := wf
    obtain ⟨w₁, executed, walked⟩ := exec_of_walk arrived walked
    have step := exec_executed executed
    cases next? : rest.head? with
    | none =>
      cases rest with
      | done =>
        obtain rfl := Except.ok.inj walked
        refine .last executed ?_
        by_contra waits
        obtain ⟨fine, frame⟩ := (step.pending free).mp (Option.isSome_iff_ne_none.mpr waits)
        cases opens fine frame
      | step => cases next?
      | enter => cases next?
    | some next =>
      have level : next.depth = log.depth := by
        apply UInt64.toNat_inj.mp
        rw [(tail.head next?).depth, carries.depth]
      obtain ⟨w₂, arrived₂⟩ := arrive_of_walk next? walked
      have sameDepth : w₀.top.depth = next.depth := by
        apply UInt64.toNat_inj.mp
        rw [(tail.head next?).depth, depth]
      have entered := arrive_inline arrived₂ (fun v => frames_inline free executed level) sameDepth
      have frames := frames_inline free executed level entered
      refine .step executed next? level entered (ih tail next? arrived₂ frames.free ?_ walked)
      rw [frames.top.depth, depth]
  | enter call body rest ihBody ihRest =>
    intro n h w w₀ w' head arrived free depth walked
    obtain rfl := Option.some.inj head
    obtain ⟨carries, fine, opens, bodyHead, inner, resumes, tail⟩ := wf
    obtain ⟨w₁, executed, walked⟩ := exec_of_walk arrived walked
    have step := exec_executed executed
    obtain ⟨p, waits⟩ := Option.isSome_iff_exists.mp ((step.pending free).mpr ⟨fine, opens⟩)
    obtain ⟨first, bodyHead⟩ := Option.isSome_iff_exists.mp bodyHead
    obtain ⟨next, flag, resumeHead, -⟩ := CallTree.head?_of_outcome resumes
    rw [walk_append, CallTree.length_flatten] at walked
    obtain ⟨w₂, walkedBody, walkedRest⟩ := Outcome.bind_ok walked
    have firstDepth := (inner.head bodyHead).depth
    have nextDepth := (tail.head resumeHead).depth
    have deeper : first.depth = p.parentDepth + 1 := by
      rw [step.waits free waits]
      apply UInt64.toNat_inj.mp
      have bound := first.depth.toNat_lt
      rw [UInt64.toNat_add, carries.depth, firstDepth]
      show d + 1 = (d + 1) % 2 ^ 64
      omega
    have derivation := ihBody inner bodyHead (arrive_push waits deeper) rfl firstDepth walkedBody
    have ran := derivation.frames rfl
    have topDepth : w₂.top.depth = first.depth := ran.top.depth
    obtain ⟨w₃, arrived₃⟩ := arrive_of_walk resumeHead walkedRest
    have popDepth : ∀ v, popFrame (n + 1 + body.size) next w₂ = .ok v → v.top.depth = w₀.top.depth := by
      intro v popped
      obtain ⟨g, others, flag', -, caller, -, pop⟩ := popped_of_frames ran popped
      rw [pop.returned.depth, caller.depth, step.place.2.depth]
    have above : next.depth < w₂.top.depth := by
      apply UInt64.lt_iff_toNat_lt.mpr
      rw [topDepth, firstDepth, nextDepth]
      exact Nat.lt_succ_self d
    have popped := arrive_pop ran.free above (fun v popped => by
      apply UInt64.le_iff_toNat_le.mpr
      rw [popDepth v popped, depth, nextDepth]) arrived₃
    refine .enter executed waits bodyHead derivation resumeHead popped
      (ihRest tail resumeHead arrived₃ ?_ ?_ walkedRest)
    · obtain ⟨g', others', flag', -, -, -, pop⟩ := popFrame_popped popped
      exact pop.pending.trans ran.free
    · rw [popDepth w₃ popped, depth]

/-- The walk of a whole well-formed trace. -/
theorem walked_of_trace {t : CallTree} (wf : t.WellFormed 1) {root : Address} {rootIndex : Option U256} {w' : Walk}
    (walked : walk H elig candidates t.flatten 0 (initialWalk root rootIndex) = .ok w') :
    Walked H elig candidates 0 t (initialWalk root rootIndex) w' := by
  cases head : t.head? with
  | none =>
    cases t with
    | done =>
      obtain rfl := Except.ok.inj walked
      exact .done
    | step => cases head
    | enter => cases head
  | some h =>
    refine walked_of_walk wf head ?_ rfl rfl walked
    unfold arrive
    simp only [enterPending, initialWalk, Outcome.ok_bind]
    apply popFrames_stays
    apply UInt64.le_iff_toNat_le.mpr
    rw [(wf.head head).depth]
    exact Nat.le_refl 1

end GasAnalyzer
