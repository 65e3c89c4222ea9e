import GasAnalyzer.Indexer.Worker

/-!
# What becomes of a claimed job

Over every run of the worker loop, every handled job ends in exactly one way precisely when no handling loses a row or
a queue push on the way; and no job is analyzed more often than its retries allow.
-/

namespace GasAnalyzer.Indexer

open Program

variable {cfg : WorkerConfig} {resolver : ResolverSnapshot}

/-! ### One handled job -/

theorem reaches_zero {replies : Nat → Reply ServiceError} :
    Handling.Reaches replies 0 ↔ ∀ error, replies 0 ≠ .refused error := by
  simp [Handling.Reaches]

theorem reaches_succ {replies : Nat → Reply ServiceError} {n : Nat} :
    Handling.Reaches replies (n + 1) ↔ replies 0 = .answered ∧ Handling.Reaches (later replies) n := by
  constructor
  · intro ⟨arrive, here⟩
    exact ⟨arrive 0 (Nat.succ_pos n), fun i small => arrive (i + 1) (Nat.succ_lt_succ small), here⟩
  · intro ⟨first, arrive, here⟩
    refine ⟨?_, here⟩
    intro i small
    cases i with
    | zero => exact first
    | succ i => exact arrive i (Nat.lt_of_succ_lt_succ small)

section Persist

variable {report : AnalysisReport} {project : Project} {w : World}

/-- The requests of a persisted analysis. -/
def persist (report : AnalysisReport) (project : Project) : Client (Except ServiceError Unit) :=
  .orReturn (.insertAnalysis report project.slug) .error <|
  .orReturn (.upsertProject project) .error <|
  .orReturn (.upsertAddressProject report.chainId report.toAddress project.slug) .error <|
  .done (.ok ())

/-- The three rows of an analysis. -/
def HasRows (report : AnalysisReport) (slug : String) (w : World) : Prop :=
  (w.db.analysis report.key).isSome = true ∧ (w.db.projects slug).isSome = true ∧
    (w.db.addressProject (addressKey report.chainId report.toAddress)).isSome = true

theorem persist_rows (report : AnalysisReport) (project : Project) (replies : Nat → Reply ServiceError) (w : World) :
    HasRows report project.slug (run serve (persist report project) replies w).2 ↔
      ((w.db.analysis report.key).isSome = true ∨
        (Timestamp.ofSecs report.blockTimestamp.toInt64).isSome = true ∧ Handling.Reaches replies 0) ∧
      ((w.db.projects project.slug).isSome = true ∨
        (Timestamp.ofSecs report.blockTimestamp.toInt64).isSome = true ∧ Handling.Reaches replies 1) ∧
      ((w.db.addressProject (addressKey report.chainId report.toAddress)).isSome = true ∨
        (Timestamp.ofSecs report.blockTimestamp.toInt64).isSome = true ∧ Handling.Reaches replies 2) := by
  by_cases dated : (Timestamp.ofSecs report.blockTimestamp.toInt64).isSome = true
  · obtain ⟨stored, inserted, analysis⟩ := serve_insertAnalysis dated project.slug w
    have projects : stored.db.projects project.slug = w.db.projects project.slug := by
      rcases serve_projects inserted project.slug with same | ⟨other, writes, -⟩
      · exact same
      · cases writes
    have mapping := serve_unmapped rfl inserted (addressKey report.chainId report.toAddress)
    have placed : serve (.upsertProject project) stored = .ok { stored with db := stored.db.upsertProject project } := rfl
    have there : ((stored.db.upsertProject project).projects project.slug).isSome = true := by
      simp only [Database.upsertProject, Function.update_self, Option.isSome_some]
    obtain ⟨mapped, served, row, -⟩ := serve_upsertAddressProject (w := { stored with
      db := stored.db.upsertProject project }) report.chainId report.toAddress there
    obtain ⟨analyses, rows⟩ := serve_upsertAddressProject_frame served
    have analysis' : (mapped.db.analysis report.key).isSome = true := by
      rw [analyses]
      exact analysis
    have there' : (mapped.db.projects project.slug).isSome = true := by
      rw [rows]
      exact there
    have mapping' : (stored.db.upsertProject project).addressProject = stored.db.addressProject := rfl
    have analysis'' : (stored.db.upsertProject project).analysis = stored.db.analysis := rfl
    rw [persist, run_orReturn_served inserted]
    cases told : replies 0 with
    | refused error => simp [HasRows, reaches_zero, reaches_succ, told]
    | dropped error => simp [HasRows, reaches_zero, reaches_succ, told, dated, analysis, projects, mapping]
    | answered =>
      dsimp only
      rw [run_orReturn_served placed]
      cases told' : replies 1 with
      | refused error => simp [HasRows, reaches_zero, reaches_succ, told, told', dated, analysis, projects, mapping]
      | dropped error =>
        simp [HasRows, reaches_zero, reaches_succ, told, told', dated, analysis, analysis'', there, mapping, mapping']
      | answered =>
        simp only [later_apply, told']
        rw [run_orReturn_served served]
        cases told'' : replies 2 with
        | refused error =>
          simp [HasRows, reaches_zero, reaches_succ, told, told', told'', dated, analysis, analysis'', there, mapping,
            mapping']
        | dropped error =>
          simp [HasRows, reaches_zero, reaches_succ, told, told', told'', dated, analysis', there', row]
        | answered =>
          simp [HasRows, reaches_zero, reaches_succ, told, told', told'', dated, analysis', there', row, run]
  · have failed : ∃ error, serve (.insertAnalysis report project.slug) w = .error error := by
      cases verdict : serve (.insertAnalysis report project.slug) w with
      | error error => exact ⟨error, rfl⟩
      | ok w' =>
        obtain ⟨db, inserted, -⟩ := Outcome.bind_ok verdict
        obtain ⟨time, found, -⟩ := Outcome.bind_ok inserted
        rw [Outcome.okOr_ok.mp found] at dated
        exact absurd rfl dated
    obtain ⟨error, failed⟩ := failed
    rw [persist, run_orReturn_failed failed]
    simp only [HasRows, dated, Bool.false_eq_true, false_and, or_false]

end Persist

theorem persist_lists (report : AnalysisReport) (project : Project) (replies : Nat → Reply ServiceError) (w : World) :
    (run serve (persist report project) replies w).2.pending = w.pending ∧
      (run serve (persist report project) replies w).2.dead = w.dead := by
  have plain : Only serve (fun r => r.pushes = false) (persist report project) :=
    only_orReturn rfl fun _ => only_orReturn rfl fun _ => only_orReturn rfl fun _ => trivial
  apply run_preserves (P := fun s : World => s.pending = w.pending ∧ s.dead = w.dead) plain _ replies w ⟨rfl, rfl⟩
  intro r s s' plain served same
  obtain ⟨pending, dead⟩ := serve_lists plain served
  rw [pending, dead]
  exact same

namespace Handling

variable {h : Handling}

/-- An ending that is the only possible one is reached exactly once or not at all. -/
theorem endsOnce_only (ending : Ending) (only : ∀ other, h.Ends cfg resolver other → other = ending) :
    h.EndsOnce cfg resolver ↔ h.Ends cfg resolver ending := by
  constructor
  · intro once
    obtain ⟨other, ends, -⟩ := once
    rw [← only other ends]
    exact ends
  · exact fun ends => ⟨ending, ends, only⟩

theorem after_persist {report : AnalysisReport} (analyzed : analyzeWithin cfg h.analyze = .ok report) :
    h.after cfg resolver =
      (run serve (persist report (resolver.resolve report.chainId report.toAddress).toProject) h.replies h.before).2 := by
  simp only [after, handle, analyzed, persist, ProjectInfo.toProject]

theorem not_appended {α : Type} {xs : List α} {x : α} (same : xs = xs ++ [x]) : False := by
  have lengths := congrArg List.length same
  rw [List.length_append, List.length_singleton] at lengths
  omega

theorem ends_report {report : AnalysisReport} (analyzed : analyzeWithin cfg h.analyze = .ok report) :
    h.EndsOnce cfg resolver ↔ h.Delivers cfg resolver := by
  have after : h.after cfg resolver = _ := after_persist analyzed
  obtain ⟨pending, dead⟩ :=
    persist_lists report (resolver.resolve report.chainId report.toAddress).toProject h.replies h.before
  rw [endsOnce_only .persisted]
  · have rows := persist_rows report (resolver.resolve report.chainId report.toAddress).toProject h.replies h.before
    rw [← after] at rows
    have delivers : h.Delivers cfg resolver ↔
        HasRows report (resolver.resolve report.chainId report.toAddress).slug (h.after cfg resolver) := by
      simp only [Delivers, analyzed]
      exact rows.symm
    rw [delivers]
    constructor
    · intro ⟨report', analyzed', rows⟩
      rw [analyzed] at analyzed'
      injection analyzed' with same
      rw [same]
      exact rows
    · exact fun rows => ⟨report, analyzed, rows⟩
  · intro other ends
    cases other with
    | persisted => rfl
    | skipped =>
      obtain ⟨reason, skipped⟩ := ends
      rw [analyzed] at skipped
      cases skipped
    | requeued =>
      obtain ⟨retried, appended, -⟩ := ends
      rw [after, pending] at appended
      exact (not_appended appended).elim
    | deadLettered =>
      obtain ⟨letter, appended, -⟩ := ends
      rw [after, dead] at appended
      exact (not_appended appended).elim

theorem ends_skipped {reason : SkipReason} (analyzed : analyzeWithin cfg h.analyze = .error (.skipped reason)) :
    h.EndsOnce cfg resolver ↔ h.Delivers cfg resolver := by
  have after : h.after cfg resolver = h.before := by simp only [Handling.after, handle, analyzed, run]
  rw [endsOnce_only .skipped]
  · simp only [Delivers, analyzed, Ends]
    exact ⟨fun _ => trivial, fun _ => ⟨reason, rfl⟩⟩
  · intro other ends
    cases other with
    | persisted =>
      obtain ⟨report, analyzed', -⟩ := ends
      rw [analyzed] at analyzed'
      cases analyzed'
    | skipped => rfl
    | requeued =>
      obtain ⟨retried, appended, -⟩ := ends
      rw [after] at appended
      exact (not_appended appended).elim
    | deadLettered =>
      obtain ⟨letter, appended, -⟩ := ends
      rw [after] at appended
      exact (not_appended appended).elim

/-- A failed analysis is one push: to the end of the queue while retries are left, else to the dead letters. -/
theorem after_failed {e : AnalyzerError} (analyzed : analyzeWithin cfg h.analyze = .error e)
    (failed : ∀ reason, e ≠ .skipped reason) :
    h.after cfg resolver =
      match h.replies 0 with
      | .refused _ => h.before
      | _ =>
        if h.job.attempt + 1 < cfg.maxRetries then { h.before with pending := h.before.pending ++ [h.job.nextAttempt] }
        else { h.before with dead := h.before.dead ++ [⟨h.job, h.failedAt, e.message⟩] } := by
  have shape : handle h.job h.analyze h.failedAt resolver cfg =
      if h.job.attempt + 1 < cfg.maxRetries then .orReturn (.enqueue h.job.nextAttempt) .error (.done (.ok ()))
      else .orReturn (.deadLetter ⟨h.job, h.failedAt, e.message⟩) .error (.done (.ok ())) := by
    cases e with
    | skipped reason => exact absurd rfl (failed reason)
    | _ => simp only [handle, analyzed]
  rw [after, shape]
  by_cases retries : h.job.attempt + 1 < cfg.maxRetries
  · have pushed : serve (.enqueue h.job.nextAttempt) h.before =
        .ok { h.before with pending := h.before.pending ++ [h.job.nextAttempt] } := rfl
    rw [if_pos retries, run_orReturn_served pushed]
    cases told : h.replies 0 <;> simp only [retries, if_true, run]
  · have pushed : serve (.deadLetter ⟨h.job, h.failedAt, e.message⟩) h.before =
        .ok { h.before with dead := h.before.dead ++ [⟨h.job, h.failedAt, e.message⟩] } := rfl
    rw [if_neg retries, run_orReturn_served pushed]
    cases told : h.replies 0 <;> simp only [retries, if_false, run]

theorem nextAttempt_attempt {job : AnalyzeTxJob} (small : job.attempt.toNat + 1 < 2 ^ 32) :
    job.nextAttempt.attempt.toNat = job.attempt.toNat + 1 := by
  simp only [AnalyzeTxJob.nextAttempt, UInt32.toNat_add, UInt32.toNat_one]
  omega

theorem ends_failed {e : AnalyzerError} (analyzed : analyzeWithin cfg h.analyze = .error e)
    (failed : ∀ reason, e ≠ .skipped reason) (small : h.job.attempt.toNat + 1 < 2 ^ 32) :
    h.EndsOnce cfg resolver ↔ h.Delivers cfg resolver := by
  have after : h.after cfg resolver = _ := after_failed analyzed failed
  have notPersisted : ¬h.Ends cfg resolver .persisted := by
    intro ends
    obtain ⟨report, analyzed', -⟩ := ends
    rw [analyzed] at analyzed'
    cases analyzed'
  have notSkipped : ¬h.Ends cfg resolver .skipped := by
    intro ⟨reason, analyzed'⟩
    rw [analyzed] at analyzed'
    injection analyzed' with same
    exact failed reason same
  have delivers : h.Delivers cfg resolver ↔ ∀ error, h.replies 0 ≠ .refused error := by
    rw [← reaches_zero, Delivers, analyzed]
    cases e with
    | skipped reason => exact absurd rfl (failed reason)
    | _ => exact Iff.rfl
  rw [delivers]
  by_cases refused : ∃ error, h.replies 0 = .refused error
  · obtain ⟨error, told⟩ := refused
    rw [told] at after
    constructor
    · intro once
      obtain ⟨ending, ends, -⟩ := once
      cases ending with
      | persisted => exact absurd ends notPersisted
      | skipped => exact absurd ends notSkipped
      | requeued =>
        obtain ⟨retried, appended, -⟩ := ends
        rw [after] at appended
        exact (not_appended appended).elim
      | deadLettered =>
        obtain ⟨letter, appended, -⟩ := ends
        rw [after] at appended
        exact (not_appended appended).elim
    · exact fun never => absurd told (never error)
  · have reached : ∀ error, h.replies 0 ≠ .refused error := fun error told => refused ⟨error, told⟩
    simp only [reached, implies_true, iff_true, ne_eq, not_false_eq_true]
    by_cases retries : h.job.attempt + 1 < cfg.maxRetries
    · have pushed : h.after cfg resolver = { h.before with pending := h.before.pending ++ [h.job.nextAttempt] } := by
        rw [after, if_pos retries]
        split
        · rename_i error told
          exact absurd told (reached error)
        · rfl
      refine ⟨.requeued, ⟨h.job.nextAttempt, by rw [pushed], nextAttempt_attempt small, rfl⟩, ?_⟩
      intro other ends
      cases other with
      | persisted => exact absurd ends notPersisted
      | skipped => exact absurd ends notSkipped
      | requeued => rfl
      | deadLettered =>
        obtain ⟨letter, appended, -⟩ := ends
        rw [pushed] at appended
        exact (not_appended appended).elim
    · have pushed : h.after cfg resolver =
          { h.before with dead := h.before.dead ++ [⟨h.job, h.failedAt, e.message⟩] } := by
        rw [after, if_neg retries]
        split
        · rename_i error told
          exact absurd told (reached error)
        · rfl
      refine ⟨.deadLettered, ⟨⟨h.job, h.failedAt, e.message⟩, by rw [pushed], rfl⟩, ?_⟩
      intro other ends
      cases other with
      | persisted => exact absurd ends notPersisted
      | skipped => exact absurd ends notSkipped
      | requeued =>
        obtain ⟨retried, appended, -⟩ := ends
        rw [pushed] at appended
        exact (not_appended appended).elim
      | deadLettered => rfl

/-- A handled job ends in exactly one way precisely when nothing on its way is lost. -/
theorem endsOnce_iff (small : h.job.attempt.toNat + 1 < 2 ^ 32) : h.EndsOnce cfg resolver ↔ h.Delivers cfg resolver := by
  cases analyzed : analyzeWithin cfg h.analyze with
  | ok report => exact ends_report analyzed
  | error e =>
    by_cases skipped : ∃ reason, e = .skipped reason
    · obtain ⟨reason, rfl⟩ := skipped
      exact ends_skipped analyzed
    · exact ends_failed analyzed (fun reason same => skipped ⟨reason, same⟩) small

/-- Handling a job puts back at most its next attempt. -/
theorem after_pending (cfg : WorkerConfig) (resolver : ResolverSnapshot) (h : Handling) :
    (h.after cfg resolver).pending = h.before.pending ∨
      (h.job.attempt + 1 < cfg.maxRetries ∧
        (h.after cfg resolver).pending = h.before.pending ++ [h.job.nextAttempt]) := by
  cases analyzed : analyzeWithin cfg h.analyze with
  | ok report =>
    rw [after_persist analyzed]
    exact Or.inl (persist_lists report _ h.replies h.before).1
  | error e =>
    by_cases skipped : ∃ reason, e = .skipped reason
    · obtain ⟨reason, rfl⟩ := skipped
      have after : h.after cfg resolver = h.before := by simp only [Handling.after, handle, analyzed, run]
      exact Or.inl (congrArg World.pending after)
    · rw [after_failed analyzed fun reason same => skipped ⟨reason, same⟩]
      cases told : h.replies 0 with
      | refused error => exact Or.inl rfl
      | _ =>
        by_cases retries : h.job.attempt + 1 < cfg.maxRetries
        · dsimp only
          rw [if_pos retries]
          exact Or.inr ⟨retries, rfl⟩
        · dsimp only
          rw [if_neg retries]
          exact Or.inl rfl

end Handling

/-! ### Retries -/

theorem analyses_append (handled : List Handling) (h : Handling) (ticket : Nat) :
    analyses (handled ++ [h]) ticket = analyses handled ticket + if h.job.ticket = ticket then 1 else 0 := by
  simp only [analyses, List.countP_append, List.countP_singleton, decide_eq_true_eq]

/-- A queued job's attempt counts its analyses, and no enqueue has two jobs in the queue. -/
structure Paced (cfg : WorkerConfig) (pending : List AnalyzeTxJob) (nextTicket : Nat) (handled : List Handling) :
    Prop where
  once : (pending.map AnalyzeTxJob.ticket).Nodup
  ticketed : ∀ job ∈ pending, job.ticket < nextTicket
  counted : ∀ job ∈ pending, analyses handled job.ticket = job.attempt.toNat
  retried : ∀ job ∈ pending, job.attempt.toNat < max 1 cfg.maxRetries.toNat
  bounded : ∀ ticket, analyses handled ticket ≤ max 1 cfg.maxRetries.toNat
  fresh : ∀ ticket, nextTicket ≤ ticket → analyses handled ticket = 0
  small : ∀ h ∈ handled, h.job.attempt.toNat + 1 < 2 ^ 32

namespace Paced

variable {pending : List AnalyzeTxJob} {nextTicket : Nat} {handled : List Handling}

theorem empty : Paced cfg [] 0 [] where
  once := List.nodup_nil
  ticketed := fun _ none => absurd none List.not_mem_nil
  counted := fun _ none => absurd none List.not_mem_nil
  retried := fun _ none => absurd none List.not_mem_nil
  bounded := fun _ => Nat.zero_le _
  fresh := fun _ _ => rfl
  small := fun _ none => absurd none List.not_mem_nil

theorem tail (paced : Paced cfg pending nextTicket handled) : Paced cfg pending.tail nextTicket handled where
  once := by
    rw [List.map_tail]
    exact paced.once.tail
  ticketed := fun job member => paced.ticketed job (List.mem_of_mem_tail member)
  counted := fun job member => paced.counted job (List.mem_of_mem_tail member)
  retried := fun job member => paced.retried job (List.mem_of_mem_tail member)
  bounded := paced.bounded
  fresh := paced.fresh
  small := paced.small

theorem submit (paced : Paced cfg pending nextTicket handled) (job : AnalyzeTxJob) :
    Paced cfg (pending ++ [{ job with attempt := 0, ticket := nextTicket }]) (nextTicket + 1) handled := by
  have cases_of : ∀ other ∈ pending ++ [{ job with attempt := 0, ticket := nextTicket }],
      other ∈ pending ∨ other = { job with attempt := 0, ticket := nextTicket } := by
    intro other member
    rw [List.mem_append, List.mem_singleton] at member
    exact member
  constructor
  · rw [List.map_append, List.map_singleton, List.nodup_append]
    refine ⟨paced.once, List.nodup_singleton _, ?_⟩
    intro ticket old ticket' new same
    rw [List.mem_singleton] at new
    obtain ⟨other, member, rfl⟩ := List.mem_map.mp old
    have below := paced.ticketed other member
    rw [same, new] at below
    exact Nat.lt_irrefl _ below
  · intro other member
    rcases cases_of other member with old | rfl
    · exact Nat.lt_succ_of_lt (paced.ticketed other old)
    · exact Nat.lt_succ_self _
  · intro other member
    rcases cases_of other member with old | rfl
    · exact paced.counted other old
    · exact paced.fresh nextTicket (Nat.le_refl _)
  · intro other member
    rcases cases_of other member with old | rfl
    · exact paced.retried other old
    · exact Nat.lt_of_lt_of_le Nat.zero_lt_one (Nat.le_max_left _ _)
  · exact paced.bounded
  · exact fun ticket above => paced.fresh ticket (Nat.le_of_succ_le above)
  · exact paced.small

/-- A claimed job is analyzed once more, and is either done with the queue or back with its next attempt. -/
theorem handle {h : Handling} (paced : Paced cfg (h.job :: h.before.pending) nextTicket handled) :
    Paced cfg (h.after cfg resolver).pending nextTicket (handled ++ [h]) := by
  have here := paced.counted h.job List.mem_cons_self
  have room := paced.retried h.job List.mem_cons_self
  have below := paced.ticketed h.job List.mem_cons_self
  have bound : cfg.maxRetries.toNat < 2 ^ 32 := cfg.maxRetries.toNat_lt
  have small : h.job.attempt.toNat + 1 < 2 ^ 32 := by omega
  obtain ⟨apart, once⟩ := List.nodup_cons.mp paced.once
  have others : ∀ job ∈ h.before.pending, h.job.ticket ≠ job.ticket := by
    intro job member same
    exact apart (same ▸ List.mem_map_of_mem member)
  have bounded : ∀ ticket, analyses (handled ++ [h]) ticket ≤ max 1 cfg.maxRetries.toNat := by
    intro ticket
    rw [analyses_append]
    split
    · rename_i same
      rw [← same, here]
      omega
    · exact paced.bounded ticket
  have fresh : ∀ ticket, nextTicket ≤ ticket → analyses (handled ++ [h]) ticket = 0 := by
    intro ticket above
    rw [analyses_append, if_neg (by omega), paced.fresh ticket above]
  have handledSmall : ∀ h' ∈ handled ++ [h], h'.job.attempt.toNat + 1 < 2 ^ 32 := by
    intro h' member
    rw [List.mem_append, List.mem_singleton] at member
    rcases member with old | rfl
    · exact paced.small h' old
    · exact small
  have rest : Paced cfg h.before.pending nextTicket (handled ++ [h]) := by
    refine ⟨once, ?_, ?_, ?_, bounded, fresh, handledSmall⟩
    · exact fun job member => paced.ticketed job (List.mem_cons_of_mem _ member)
    · intro job member
      rw [analyses_append, if_neg (others job member)]
      exact paced.counted job (List.mem_cons_of_mem _ member)
    · exact fun job member => paced.retried job (List.mem_cons_of_mem _ member)
  rcases h.after_pending cfg resolver with same | ⟨retries, back⟩
  · rw [same]
    exact rest
  · rw [back]
    have next := Handling.nextAttempt_attempt small
    have limit : h.job.attempt.toNat + 1 < cfg.maxRetries.toNat := by
      rw [← next]
      exact UInt32.lt_iff_toNat_lt.mp retries
    have cases_of : ∀ job ∈ h.before.pending ++ [h.job.nextAttempt], job ∈ h.before.pending ∨ job = h.job.nextAttempt := by
      intro job member
      rw [List.mem_append, List.mem_singleton] at member
      exact member
    refine ⟨?_, ?_, ?_, ?_, bounded, fresh, handledSmall⟩
    · rw [List.map_append, List.map_singleton, List.nodup_append]
      refine ⟨once, List.nodup_singleton _, ?_⟩
      intro ticket old ticket' new same
      rw [List.mem_singleton] at new
      exact apart (new ▸ same ▸ old)
    · intro job member
      rcases cases_of job member with old | rfl
      · exact rest.ticketed job old
      · exact below
    · intro job member
      rcases cases_of job member with old | rfl
      · exact rest.counted job old
      · rw [analyses_append, next]
        exact congrArg₂ _ here (if_pos rfl)
    · intro job member
      rcases cases_of job member with old | rfl
      · exact rest.retried job old
      · rw [next]
        omega

end Paced

/-! ### Every run -/

/-- The invariant of the loop. -/
def LoopState.Paced (cfg : WorkerConfig) (s : LoopState) : Prop :=
  Indexer.Paced cfg s.world.pending s.nextTicket s.handled

theorem iterate_paced {s : LoopState} (paced : s.Paced cfg) (t : Turn) : (s.iterate cfg resolver t).Paced cfg := by
  unfold LoopState.iterate
  split
  · cases told : t.claim with
    | refused error => exact paced
    | dropped error => exact Paced.tail paced
    | answered =>
      cases queue : s.world.pending with
      | nil =>
        simp only [claim, queue, List.head?_nil, List.tail_nil]
        have same := paced
        rw [LoopState.Paced, queue] at same
        exact same
      | cons job rest =>
        simp only [claim, queue, List.head?_cons, List.tail_cons]
        rw [LoopState.Paced, queue] at paced
        split
        · have kept : (exchange serve t.counted (.incrDropped expiredJobsKey 1)
              { s.world with pending := rest }).2.pending = rest := by
            rcases exchange_state serve t.counted (.incrDropped expiredJobsKey 1)
              { s.world with pending := rest } with same | served
            · rw [same]
            · exact (serve_lists rfl served).1
          rw [LoopState.Paced]
          dsimp only
          rw [kept]
          exact paced.tail
        · exact Paced.handle (h := ⟨job, t.analyze, t.failedAt, t.replies, { s.world with pending := rest }⟩) paced
  · exact paced

theorem step_paced {s : LoopState} (paced : s.Paced cfg) (event : Event) : (s.step cfg resolver event).Paced cfg := by
  cases event with
  | turn t => exact iterate_paced paced t
  | submit job => exact Paced.submit paced job
  | other r foreign =>
    simp only [LoopState.step]
    split
    · rename_i w served
      rw [LoopState.Paced]
      have kept : w.pending = s.world.pending := by
        cases r with
        | enqueue job => exact absurd rfl (foreign job)
        | deadLetter dead =>
          injection served with same
          rw [← same]
        | _ => exact (serve_lists rfl served).1
      rw [kept]
      exact paced
    · exact paced

theorem loop_paced (cfg : WorkerConfig) (resolver : ResolverSnapshot) (w : World) (events : List Event) :
    (LoopState.loop cfg resolver w events).Paced cfg := by
  have run : ∀ s : LoopState, s.Paced cfg → (events.foldl (LoopState.step cfg resolver) s).Paced cfg := by
    induction events with
    | nil => exact fun s paced => paced
    | cons event events ih => exact fun s paced => ih _ (step_paced paced event)
  exact run _ Paced.empty

/-- Every claimed and unexpired job of a run ends in exactly one way, and is analyzed at most once for each try it has,
precisely when no handling of the run loses a row or a push. -/
theorem jobs_end_once_iff (cfg : WorkerConfig) (resolver : ResolverSnapshot) (w : World) (events : List Event) :
    ((∀ h ∈ (LoopState.loop cfg resolver w events).handled, h.EndsOnce cfg resolver) ∧
        ∀ ticket, analyses (LoopState.loop cfg resolver w events).handled ticket ≤ max 1 cfg.maxRetries.toNat) ↔
      ∀ h ∈ (LoopState.loop cfg resolver w events).handled, h.Delivers cfg resolver := by
  have paced := loop_paced cfg resolver w events
  constructor
  · intro ⟨ended, _⟩ h member
    exact (Handling.endsOnce_iff (paced.small h member)).mp (ended h member)
  · intro delivered
    exact ⟨fun h member => (Handling.endsOnce_iff (paced.small h member)).mpr (delivered h member), paced.bounded⟩

/-! The analysis of a job times out, and the push of its next attempt is refused. -/

def timedOutJob : AnalyzeTxJob where
  chainId := 1
  txHash := Vector.replicate 32 7
  blockNumber := 100
  txIndex := 3
  attempt := 0
  enqueuedAt := 0

def refusedTurn : Turn where
  claim := .answered
  claimedAt := ⟨1700000200, by decide, by decide⟩
  counted := .answered
  analyze := none
  failedAt := ⟨1700000260, by decide, by decide⟩
  replies := fun _ => .refused (.redis "connection reset")

theorem job_lost :
    ¬∀ h ∈ (LoopState.loop ⟨3, 60, 3600⟩ {} .fresh [.submit timedOutJob, .turn refusedTurn]).handled,
      h.EndsOnce ⟨3, 60, 3600⟩ {} := by
  intro ended
  have once := ended ⟨timedOutJob, none, refusedTurn.failedAt, refusedTurn.replies, .fresh⟩ (List.mem_singleton.mpr rfl)
  have delivered := (Handling.endsOnce_iff (by decide)).mp once
  exact delivered.2 _ rfl

end GasAnalyzer.Indexer
