import GasAnalyzer.Nested.WalkSound

/-!
# Candidates enter a frame

The scan erases a candidate whose `CALL` is not followed by a step one level deeper, so every
candidate it keeps opened a frame, unless the trace ends on it.
-/

namespace GasAnalyzer

namespace Scan

/-- Whether a step is still a candidate; what was decided about it does not matter here. -/
def holds (s : Scan) (k : Nat) : Prop := (s.candidates.get k).isSome = true

theorem holds_updateCandidate {s : Scan} {i k : Nat} {f : Candidate → Candidate} :
    (s.updateCandidate i f).holds k ↔ s.holds k := by
  unfold updateCandidate
  split
  · rename_i c found
    simp only [holds, OrdMap.get_insert]
    split
    · rename_i same
      simp [same, found]
    · rfl
  · rfl

theorem holds_noteStore {s : Scan} {scope : Option Scope} {slot value : U256} {k : Nat} :
    (s.noteStore scope slot value).holds k ↔ s.holds k := by
  unfold noteStore
  split
  · split <;> rfl
  · exact holds_updateCandidate
  · rfl

theorem holds_noteUnsupported {s : Scan} {scope : Option Scope} {k : Nat} :
    (s.noteUnsupported scope).holds k ↔ s.holds k := by
  unfold noteUnsupported
  split
  · exact holds_updateCandidate
  · rfl

theorem holds_noteEffect {s : Scan} {scope : Option Scope} {k : Nat} :
    (s.noteEffect scope).holds k ↔ s.holds k := by
  unfold noteEffect
  split
  · exact holds_updateCandidate
  · rfl

theorem holds_awaitFrame {index : Nat} {log : StructLog} {scope : Option Scope} {s : Scan} {k : Nat}
    (held : (s.awaitFrame index log scope).holds k) :
    s.holds k ∨
      k = index ∧ (s.awaitFrame index log scope).pending = some ⟨log.depth, some (.call index)⟩ := by
  unfold awaitFrame at held ⊢
  split at held
  · simp only [holds, OrdMap.get_insert] at held
    split at held
    · rename_i here
      exact Or.inr ⟨here, rfl⟩
    · exact Or.inl held
  all_goals exact Or.inl held

/-- A step leaves the candidates it found and may add itself, waiting for its frame. -/
theorem exec_holds {index : Nat} {log : StructLog} {scope : Option Scope} {s s' : Scan}
    (ran : s.exec index log scope = .ok s') (k : Nat) (held : s'.holds k) :
    s.holds k ∨ k = index ∧ s'.pending = some ⟨log.depth, some (.call index)⟩ := by
  unfold exec at ran
  obtain ⟨s₁, wrote, ran⟩ := Outcome.bind_ok ran
  have before : s₁.holds k → s.holds k := by
    intro held₁
    unfold noteWrite at wrote
    split at wrote
    · split at wrote
      · rw [← Except.ok.inj wrote] at held₁
        exact holds_noteStore.mp held₁
      · cases wrote
    · rw [← Except.ok.inj wrote] at held₁
      exact holds_noteUnsupported.mp held₁
    · rw [← Except.ok.inj wrote] at held₁
      exact holds_noteUnsupported.mp held₁
    · rw [← Except.ok.inj wrote] at held₁
      exact held₁
  have observed : (s₁.noteObservable log scope).holds k → s₁.holds k := by
    unfold noteObservable
    split
    · exact holds_noteEffect.mp
    · exact id
  rw [← Except.ok.inj ran] at held ⊢
  rcases holds_awaitFrame held with old | new
  · exact Or.inl (before (observed old))
  · exact Or.inr new

/-- Before step `next`: every candidate opened a frame, or waits for the next step to open it. -/
def Entered (logs : List StructLog) (next : Nat) (s : Scan) : Prop :=
  ∀ k, s.holds k → k < next ∧ ∃ log, logs[k]? = some log ∧
    (k + 1 < next → ∀ log', logs[k + 1]? = some log' → log'.depth = log.depth + 1) ∧
    (k + 1 = next → s.pending = some ⟨log.depth, some (.call k)⟩)

theorem enterPending_entered {logs : List StructLog} {next : Nat} {s : Scan} {log : StructLog}
    (here : logs[next]? = some log) (entered : s.Entered logs next) (k : Nat)
    (held : (s.enterPending log).holds k) :
    k < next ∧ ∃ before, logs[k]? = some before ∧
      ∀ log', logs[k + 1]? = some log' → log'.depth = before.depth + 1 := by
  have kept : s.holds k ∧ ∀ depth, s.pending = some ⟨depth, some (.call k)⟩ →
      log.depth = depth + 1 := by
    unfold enterPending at held
    cases waits : s.pending with
    | none =>
      rw [waits] at held
      exact ⟨held, by simp⟩
    | some p =>
      rw [waits] at held
      dsimp only at held
      split at held
      · rename_i deeper
        refine ⟨held, ?_⟩
        intro depth same
        have same : p = ⟨depth, some (.call k)⟩ := Option.some.inj same
        rw [deeper, same]
      · split at held
        · rename_i index scope
          simp only [holds, OrdMap.get_erase] at held
          split at held
          · cases held
          · rename_i other
            refine ⟨held, ?_⟩
            intro depth same
            have same : p = ⟨depth, some (.call k)⟩ := Option.some.inj same
            rw [same] at scope
            cases scope
            exact absurd rfl other
        · rename_i other
          refine ⟨held, ?_⟩
          intro depth same
          have same : p = ⟨depth, some (.call k)⟩ := Option.some.inj same
          exact absurd (by rw [same]) (other k)
  obtain ⟨held, deeper⟩ := kept
  obtain ⟨before, prior, found, earlier, waits⟩ := entered k held
  refine ⟨before, prior, found, ?_⟩
  rcases Nat.lt_or_ge (k + 1) next with past | now
  · exact earlier past
  · have last : k + 1 = next := by omega
    intro log' isNext
    rw [last, here] at isNext
    rw [← Option.some.inj isNext]
    exact deeper prior.depth (waits last)

theorem step_entered {logs : List StructLog} {next : Nat} {s s' : Scan} {log : StructLog}
    (here : logs[next]? = some log) (entered : s.Entered logs next)
    (ran : s.step next log = .ok s') : s'.Entered logs (next + 1) := by
  have settled := enterPending_entered here entered
  have done : ∀ k, (s.enterPending log).holds k → k < next + 1 ∧ ∃ log, logs[k]? = some log ∧
      (k + 1 < next + 1 → ∀ log', logs[k + 1]? = some log' → log'.depth = log.depth + 1) ∧
      (k + 1 = next + 1 → s'.pending = some ⟨log.depth, some (.call k)⟩) := by
    intro k held
    obtain ⟨before, prior, found, deeper⟩ := settled k held
    exact ⟨by omega, prior, found, fun _ => deeper, fun last => by omega⟩
  unfold step at ran
  split at ran
  · cases ran
  · dsimp only at ran
    split at ran
    · cases ran
    · split at ran
      · intro k held
        rw [← Except.ok.inj ran] at held
        exact done k held
      · intro k held
        rcases exec_holds ran k held with before | ⟨now, waits⟩
        · exact done k before
        · subst now
          exact ⟨by omega, log, here, fun past => by omega, fun _ => waits⟩

theorem run_entered {logs : List StructLog} (rest : List StructLog) :
    ∀ (next : Nat) (s s' : Scan), logs.drop next = rest → s.Entered logs next →
      Scan.run rest next s = .ok s' → s'.Entered logs (next + rest.length) := by
  induction rest with
  | nil =>
    intro next s s' _ entered ran
    rw [← Except.ok.inj ran]
    exact entered
  | cons log rest ih =>
    intro next s s' suffix entered ran
    unfold run at ran
    obtain ⟨s₁, first, ran⟩ := Outcome.bind_ok ran
    have here : logs[next]? = some log := by
      rw [← List.head?_drop, suffix]
      rfl
    have after : logs.drop (next + 1) = rest := by
      rw [← List.tail_drop, suffix]
      rfl
    have := ih (next + 1) s₁ s' after (step_entered here entered first) ran
    rwa [List.length_cons, Nat.add_comm rest.length, ← Nat.add_assoc]

end Scan

theorem scanCandidates_enters {logs : List StructLog} {candidates : OrdMap Nat Candidate}
    {rootIndex : Option U256} (scanned : scanCandidates logs = .ok (candidates, rootIndex)) :
    Enters candidates logs := by
  unfold scanCandidates at scanned
  obtain ⟨s, ran, same⟩ := Outcome.bind_ok scanned
  obtain ⟨rfl, -⟩ := Prod.mk.inj (Except.ok.inj same)
  have entered := Scan.run_entered logs 0 {} s List.drop_zero (by
    intro k held
    cases held) ran
  intro k c log log' candidate here next
  obtain ⟨-, log₀, here₀, past, -⟩ := entered k (by simp [Scan.holds, candidate])
  have := (List.getElem?_eq_some_iff.mp next).1
  rw [← Option.some.inj (here₀.symm.trans here)]
  exact past (by omega) log' next

/-! ### The scan's failures -/

open Outcome (Sat)

theorem Scan.noteWrite_upheld (s : Scan) (index : Nat) (log : StructLog) (scope : Option Scope) :
    Upheld (fun _ => True) (s.noteWrite index log scope) := by
  unfold Scan.noteWrite
  split
  · split
    · trivial
    · rfl
  all_goals trivial

theorem Scan.step_upheld (s : Scan) (index : Nat) (log : StructLog) :
    Upheld (fun _ => True) (s.step index log) := by
  unfold Scan.step
  split
  · rfl
  · dsimp only
    split
    · rfl
    · split
      · trivial
      · refine Sat.bind (Scan.noteWrite_upheld _ index log _) fun _ _ => trivial

theorem Scan.run_upheld (logs : List StructLog) (index : Nat) (s : Scan) :
    Upheld (fun _ => True) (Scan.run logs index s) := by
  induction logs generalizing index s with
  | nil => trivial
  | cons log rest ih => exact Sat.bind (s.step_upheld index log) fun s' _ => ih _ s'

theorem scanCandidates_upheld (logs : List StructLog) :
    Upheld (fun r => Enters r.1 logs) (scanCandidates logs) := by
  have fine : Upheld (fun _ => True) (scanCandidates logs) :=
    Sat.bind (Scan.run_upheld logs 0 {}) fun _ _ => trivial
  refine fine.self.imp ?_
  rintro ⟨candidates, rootIndex⟩ ⟨scanned, -⟩
  exact scanCandidates_enters scanned

end GasAnalyzer
