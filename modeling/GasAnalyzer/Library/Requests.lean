import Mathlib

/-!
# Programs of requests

The client of an outside service, as the tree of its requests: each request is answered by success or by an error, and
the client goes on from the answer. Several clients of one service run interleaved, one request at a time. `Only` bounds
the requests a client can issue on any path; `interleave_only` carries such bounds through every interleaving, and
`interleave_solo` runs one client to its end while the others wait.
-/

namespace GasAnalyzer

/-- What a request came to: the answer of the service arrived, the request never reached it, or the service carried it
out and the answer was lost. -/
inductive Reply (ε : Type) where
  | answered
  | refused (error : ε)
  | dropped (error : ε)

inductive Program (ρ ε α : Type) where
  | done (answer : α)
  | request (r : ρ) (next : Except ε Unit → Program ρ ε α)

namespace Program

variable {ρ ε α β σ : Type}

/-! ### Building programs -/

/-- An error of the request ends the program. -/
def orReturn (r : ρ) (fail : ε → α) (rest : Program ρ ε α) : Program ρ ε α :=
  request r fun answer =>
    match answer with
    | .ok () => rest
    | .error error => done (fail error)

/-- An error of the request is ignored. -/
def regardless (r : ρ) (rest : Program ρ ε α) : Program ρ ε α := request r fun _ => rest

/-- One request after the other, whatever they answer; `rest` is told how many succeeded. -/
def each (count : Nat) : List ρ → (Nat → Program ρ ε α) → Program ρ ε α
  | [], rest => rest count
  | r :: rs, rest =>
    request r fun answer =>
      match answer with
      | .ok () => each (count + 1) rs rest
      | .error _ => each count rs rest

def map (f : α → β) : Program ρ ε α → Program ρ ε β
  | done answer => done (f answer)
  | request r next => request r fun answer => map f (next answer)

/-! ### Running one program -/

variable (serve : ρ → σ → Except ε σ)

/-- What the client is told, and the state of the service afterwards. -/
def exchange (reply : Reply ε) (r : ρ) (s : σ) : Except ε Unit × σ :=
  match reply with
  | .answered =>
    match serve r s with
    | .ok s' => (.ok (), s')
    | .error error => (.error error, s)
  | .refused error => (.error error, s)
  | .dropped error =>
    match serve r s with
    | .ok s' => (.error error, s')
    | .error _ => (.error error, s)

/-- Whether the service carried the request out. -/
def carried (reply : Reply ε) (r : ρ) (s : σ) : Bool :=
  match reply with
  | .refused _ => false
  | _ => (serve r s).isOk

def later (replies : Nat → Reply ε) : Nat → Reply ε := fun n => replies (n + 1)

def run : Program ρ ε α → (Nat → Reply ε) → σ → α × σ
  | done answer, _, s => (answer, s)
  | request r next, replies, s =>
    run (next (exchange serve (replies 0) r s).1) (later replies) (exchange serve (replies 0) r s).2

/-- The requests of a run that the service carried out, in order. -/
def effects : Program ρ ε α → (Nat → Reply ε) → σ → List ρ
  | done _, _, _ => []
  | request r next, replies, s =>
    let rest := effects (next (exchange serve (replies 0) r s).1) (later replies) (exchange serve (replies 0) r s).2
    if carried serve (replies 0) r s then r :: rest else rest

def answers : Nat → Reply ε := fun _ => .answered

@[simp] theorem later_answers : later (answers : Nat → Reply ε) = answers := rfl

@[simp] theorem later_apply (replies : Nat → Reply ε) (n : Nat) : later replies n = replies (n + 1) := rfl

@[simp] theorem exchange_refused (error : ε) (r : ρ) (s : σ) :
    exchange serve (.refused error) r s = (.error error, s) := rfl

@[simp] theorem carried_refused (error : ε) (r : ρ) (s : σ) : carried serve (.refused error) r s = false := rfl

variable {serve}

theorem exchange_answered {r : ρ} {s s' : σ} (fine : serve r s = .ok s') :
    exchange serve .answered r s = (.ok (), s') := by
  simp only [exchange, fine]

theorem exchange_dropped {error : ε} {r : ρ} {s s' : σ} (fine : serve r s = .ok s') :
    exchange serve (.dropped error) r s = (.error error, s') := by
  simp only [exchange, fine]

theorem exchange_failed {error : ε} {r : ρ} {s : σ} (failed : serve r s = .error error) (reply : Reply ε) :
    ∃ told, exchange serve reply r s = (.error told, s) := by
  cases reply with
  | answered => exact ⟨error, by simp only [exchange, failed]⟩
  | refused told => exact ⟨told, rfl⟩
  | dropped told => exact ⟨told, by simp only [exchange, failed]⟩

theorem carried_answered {r : ρ} {s s' : σ} (fine : serve r s = .ok s') : carried serve .answered r s = true := by
  simp only [carried, fine, Except.isOk, Except.toBool]

theorem carried_dropped {error : ε} {r : ρ} {s s' : σ} (fine : serve r s = .ok s') :
    carried serve (.dropped error) r s = true := by
  simp only [carried, fine, Except.isOk, Except.toBool]

/-- A request leaves the state alone or does to it what the service does. -/
theorem exchange_state (serve : ρ → σ → Except ε σ) (reply : Reply ε) (r : ρ) (s : σ) :
    (exchange serve reply r s).2 = s ∨ serve r s = .ok (exchange serve reply r s).2 := by
  cases verdict : serve r s with
  | error error =>
    obtain ⟨told, same⟩ := exchange_failed verdict reply
    rw [same]
    exact Or.inl rfl
  | ok s' =>
    cases reply with
    | answered =>
      rw [exchange_answered verdict]
      exact Or.inr rfl
    | refused error => exact Or.inl rfl
    | dropped error =>
      rw [exchange_dropped verdict]
      exact Or.inr rfl

theorem exchange_ok {reply : Reply ε} {r : ρ} {s : σ} (told : (exchange serve reply r s).1 = .ok ()) :
    ∃ s', serve r s = .ok s' := by
  cases verdict : serve r s with
  | error error =>
    obtain ⟨told', failed⟩ := exchange_failed verdict reply
    rw [failed] at told
    cases told
  | ok s' => exact ⟨s', rfl⟩

/-! ### The requests of a program -/

variable (serve)

/-- Every request the program can issue is allowed; success is only answered where the service can succeed. -/
def Only (allowed : ρ → Prop) : Program ρ ε α → Prop
  | done _ => True
  | request r next =>
    allowed r ∧ (∀ error, Only allowed (next (.error error))) ∧
      ((∃ s s', serve r s = .ok s') → Only allowed (next (.ok ())))

variable {serve}

section Only

variable {allowed : ρ → Prop}

theorem Only.next {r : ρ} {next : Except ε Unit → Program ρ ε α} (only : Only serve allowed (request r next))
    (reply : Reply ε) (s : σ) : Only serve allowed (next (exchange serve reply r s).1) := by
  cases told : (exchange serve reply r s).1 with
  | error error => exact only.2.1 error
  | ok _ =>
    obtain ⟨s', fine⟩ := exchange_ok told
    exact only.2.2 ⟨s, s', fine⟩

theorem only_mono {wider : ρ → Prop} (implies : ∀ r, allowed r → wider r) {p : Program ρ ε α}
    (only : Only serve allowed p) : Only serve wider p := by
  induction p with
  | done _ => trivial
  | request r next ih =>
    exact ⟨implies r only.1, fun error => ih _ (only.2.1 error), fun fine => ih _ (only.2.2 fine)⟩

theorem only_orReturn {r : ρ} {fail : ε → α} {rest : Program ρ ε α} (first : allowed r)
    (others : (∃ s s', serve r s = .ok s') → Only serve allowed rest) :
    Only serve allowed (orReturn r fail rest) := ⟨first, fun _ => trivial, others⟩

theorem only_regardless {r : ρ} {rest : Program ρ ε α} (first : allowed r) (others : Only serve allowed rest) :
    Only serve allowed (regardless r rest) := ⟨first, fun _ => others, fun _ => others⟩

theorem only_each {rs : List ρ} {rest : Nat → Program ρ ε α} (all : ∀ r ∈ rs, allowed r)
    (others : ∀ count, Only serve allowed (rest count)) (count : Nat) : Only serve allowed (each count rs rest) := by
  induction rs generalizing count with
  | nil => exact others count
  | cons r rs ih =>
    have tail := ih fun r' member => all r' (List.mem_cons_of_mem _ member)
    exact ⟨all r List.mem_cons_self, fun _ => tail count, fun _ => tail (count + 1)⟩

theorem only_map {f : α → β} {p : Program ρ ε α} (only : Only serve allowed p) : Only serve allowed (p.map f) := by
  induction p with
  | done _ => trivial
  | request r next ih =>
    exact ⟨only.1, fun error => ih _ (only.2.1 error), fun fine => ih _ (only.2.2 fine)⟩

/-- What every allowed request preserves, a run preserves. -/
theorem run_preserves {P : σ → Prop} {p : Program ρ ε α} (only : Only serve allowed p)
    (keep : ∀ r s s', allowed r → serve r s = .ok s' → P s → P s') (replies : Nat → Reply ε) (s : σ)
    (start : P s) : P (run serve p replies s).2 := by
  induction p generalizing replies s with
  | done _ => exact start
  | request r next ih =>
    apply ih _ (only.next _ _)
    rcases exchange_state serve (replies 0) r s with same | served
    · rw [same]
      exact start
    · exact keep r s _ only.1 served start

end Only

/-! ### Requests whose error ends the program -/

/-- A request the service can carry out: the program goes on only when its answer arrives. -/
theorem run_orReturn_served {r : ρ} {fail : ε → α} {rest : Program ρ ε α} {s s' : σ} (fine : serve r s = .ok s')
    (replies : Nat → Reply ε) :
    (run serve (orReturn r fail rest) replies s).2 =
      match replies 0 with
      | .answered => (run serve rest (later replies) s').2
      | .refused _ => s
      | .dropped _ => s' := by
  cases told : replies 0 with
  | answered => simp only [orReturn, run, told, exchange_answered fine]
  | refused error => simp only [orReturn, run, told, exchange_refused]
  | dropped error => simp only [orReturn, run, told, exchange_dropped fine]

theorem run_orReturn_answered {r : ρ} (fail : ε → α) (rest : Program ρ ε α) {s s' : σ} (fine : serve r s = .ok s')
    {replies : Nat → Reply ε} (told : replies 0 = .answered) :
    run serve (orReturn r fail rest) replies s = run serve rest (later replies) s' ∧
      effects serve (orReturn r fail rest) replies s = r :: effects serve rest (later replies) s' := by
  constructor
  · simp only [orReturn, run, told, exchange_answered fine]
  · simp only [orReturn, effects, told, exchange_answered fine, carried_answered fine, if_true]

/-- Without an answer the program fails. -/
theorem run_orReturn_unanswered {r : ρ} (fail : ε → α) (rest : Program ρ ε α) {s s' : σ} (fine : serve r s = .ok s')
    {replies : Nat → Reply ε} (told : replies 0 ≠ .answered) :
    ∃ error, (run serve (orReturn r fail rest) replies s).1 = fail error := by
  cases reply : replies 0 with
  | answered => exact absurd reply told
  | refused error => exact ⟨error, by simp only [orReturn, run, reply, exchange_refused]⟩
  | dropped error => exact ⟨error, by simp only [orReturn, run, reply, exchange_dropped fine]⟩

theorem run_orReturn_failed {r : ρ} {fail : ε → α} {rest : Program ρ ε α} {s : σ} {error : ε}
    (failed : serve r s = .error error) (replies : Nat → Reply ε) :
    (run serve (orReturn r fail rest) replies s).2 = s := by
  obtain ⟨told, same⟩ := exchange_failed failed (replies 0)
  simp only [orReturn, run, same]

/-- A program whose result is not its failure has carried the request out. -/
theorem run_orReturn_ok {r : ρ} {fail : ε → α} {rest : Program ρ ε α} {replies : Nat → Reply ε} {s : σ} {a : α}
    (fails : ∀ error, fail error ≠ a) (answer : (run serve (orReturn r fail rest) replies s).1 = a) :
    ∃ s', serve r s = .ok s' ∧
      run serve (orReturn r fail rest) replies s = run serve rest (later replies) s' := by
  cases verdict : serve r s with
  | error error =>
    obtain ⟨told, failed⟩ := exchange_failed verdict (replies 0)
    simp only [orReturn, run, failed] at answer
    exact absurd answer (fails told)
  | ok s' =>
    have replied : replies 0 = .answered := by
      apply Classical.byContradiction
      intro told
      obtain ⟨error, failed⟩ := run_orReturn_unanswered fail rest verdict told
      exact fails error (failed.symm.trans answer)
    exact ⟨s', rfl, (run_orReturn_answered fail rest verdict replied).1⟩

/-! ### Runs whose answers all arrive -/

theorem run_orReturn {r : ρ} {fail : ε → α} {rest : Program ρ ε α} {s s' : σ} (fine : serve r s = .ok s') :
    run serve (orReturn r fail rest) answers s = run serve rest answers s' := by
  simp only [orReturn, run, answers, exchange_answered fine]
  rfl

/-- The state after requests whose errors are ignored. -/
def serveAll (serve : ρ → σ → Except ε σ) : List ρ → σ → σ
  | [], s => s
  | r :: rs, s =>
    match serve r s with
    | .ok s' => serveAll serve rs s'
    | .error _ => serveAll serve rs s

theorem serveAll_preserves {P : σ → Prop} {rs : List ρ}
    (keep : ∀ r ∈ rs, ∀ s s', serve r s = .ok s' → P s → P s') (s : σ) (start : P s) :
    P (serveAll serve rs s) := by
  induction rs generalizing s with
  | nil => exact start
  | cons r rs ih =>
    have tail := ih fun r' member => keep r' (List.mem_cons_of_mem _ member)
    rw [serveAll]
    cases verdict : serve r s with
    | ok s' => exact tail s' (keep r List.mem_cons_self s s' verdict start)
    | error _ => exact tail s start

/-- However many of the requests succeed, the rest runs after all of them. -/
theorem run_each {P : σ → Prop} {rs : List ρ} {rest : Nat → Program ρ ε α} {s : σ}
    (after : ∀ count, P (run serve (rest count) answers (serveAll serve rs s)).2) (count : Nat) :
    P (run serve (each count rs rest) answers s).2 := by
  induction rs generalizing count s with
  | nil => exact after count
  | cons r rs ih =>
    rw [serveAll] at after
    cases verdict : serve r s with
    | ok s' =>
      rw [verdict] at after
      simp only [each, run, answers, exchange_answered verdict]
      exact ih after (count + 1)
    | error error =>
      rw [verdict] at after
      simp only [each, run, answers, exchange, verdict]
      exact ih after count

theorem run_map (f : α → β) (p : Program ρ ε α) (replies : Nat → Reply ε) (s : σ) :
    run serve (p.map f) replies s = (f (run serve p replies s).1, (run serve p replies s).2) := by
  induction p generalizing replies s with
  | done _ => rfl
  | request r next ih => exact ih _ _ _

/-! ### Interleaved programs -/

variable (serve)

/-- The program at an index issues its next request. -/
def interleaveStep (state : List (Program ρ ε α) × σ) (move : Nat × Reply ε) : List (Program ρ ε α) × σ :=
  match state.1[move.1]? with
  | some (.request r next) =>
    (state.1.set move.1 (next (exchange serve move.2 r state.2).1), (exchange serve move.2 r state.2).2)
  | _ => state

def interleave (state : List (Program ρ ε α) × σ) (moves : List (Nat × Reply ε)) : List (Program ρ ε α) × σ :=
  moves.foldl (interleaveStep serve) state

theorem interleave_snoc (state : List (Program ρ ε α) × σ) (moves : List (Nat × Reply ε)) (move : Nat × Reply ε) :
    interleave serve state (moves ++ [move]) = interleaveStep serve (interleave serve state moves) move := by
  rw [interleave, List.foldl_append]
  rfl

theorem interleave_append (state : List (Program ρ ε α) × σ) (moves more : List (Nat × Reply ε)) :
    interleave serve state (moves ++ more) = interleave serve (interleave serve state moves) more :=
  List.foldl_append

/-- Every program of the pool keeps to the requests allowed at its index. -/
def AllOnly (allowed : Nat → ρ → Prop) (pool : List (Program ρ ε α)) : Prop :=
  ∀ (i : Nat) (p : Program ρ ε α), pool[i]? = some p → Only serve (allowed i) p

variable {serve} {allowed : Nat → ρ → Prop}

/-- One move carries out at most one request, one allowed to the program that moved. -/
theorem interleaveStep_serves (serve : ρ → σ → Except ε σ) {state : List (Program ρ ε α) × σ}
    (only : AllOnly serve allowed state.1) (move : Nat × Reply ε) :
    (interleaveStep serve state move).2 = state.2 ∨
      ∃ r, allowed move.1 r ∧ serve r state.2 = .ok (interleaveStep serve state move).2 := by
  simp only [interleaveStep]
  split
  · rename_i r next found
    rcases exchange_state serve move.2 r state.2 with same | served
    · exact Or.inl same
    · exact Or.inr ⟨r, (only _ _ found).1, served⟩
  · exact Or.inl rfl

theorem interleaveStep_only {state : List (Program ρ ε α) × σ} (only : AllOnly serve allowed state.1)
    (move : Nat × Reply ε) : AllOnly serve allowed (interleaveStep serve state move).1 := by
  simp only [interleaveStep]
  split
  · rename_i r next found
    intro i p here
    rw [List.getElem?_set] at here
    split at here
    · rename_i same
      subst same
      split at here
      · injection here with here
        rw [← here]
        exact (only _ _ found).next _ _
      · cases here
    · exact only i p here
  · exact only

theorem interleave_only {state : List (Program ρ ε α) × σ} (only : AllOnly serve allowed state.1)
    (moves : List (Nat × Reply ε)) : AllOnly serve allowed (interleave serve state moves).1 := by
  induction moves generalizing state with
  | nil => exact only
  | cons move rest ih => exact ih (interleaveStep_only only move)

/-- What every allowed request preserves holds after every interleaving. -/
theorem interleave_preserves {P : σ → Prop} {state : List (Program ρ ε α) × σ} (only : AllOnly serve allowed state.1)
    (keep : ∀ i r s s', allowed i r → serve r s = .ok s' → P s → P s') (start : P state.2)
    (moves : List (Nat × Reply ε)) : P (interleave serve state moves).2 := by
  induction moves generalizing state with
  | nil => exact start
  | cons move rest ih =>
    apply ih (interleaveStep_only only move)
    rcases interleaveStep_serves serve only move with same | ⟨r, permitted, served⟩
    · rw [same]
      exact start
    · exact keep move.1 r state.2 _ permitted served start

/-- One program runs to its end while the others wait. -/
theorem interleave_solo (serve : ρ → σ → Except ε σ) {i : Nat} {p : Program ρ ε α} {pool : List (Program ρ ε α)}
    (found : pool[i]? = some p) (s : σ) :
    ∃ moves, (∀ move ∈ moves, move.1 = i) ∧
      interleave serve (pool, s) moves = (pool.set i (.done (run serve p answers s).1), (run serve p answers s).2) := by
  induction p generalizing pool s with
  | done answer =>
    refine ⟨[], by simp, ?_⟩
    obtain ⟨inside, here⟩ := List.getElem?_eq_some_iff.mp found
    simp only [interleave, List.foldl_nil, run, ← here, List.set_getElem_self]
  | request r next ih =>
    obtain ⟨inside, -⟩ := List.getElem?_eq_some_iff.mp found
    have first : interleaveStep serve (pool, s) (i, .answered) =
        (pool.set i (next (exchange serve .answered r s).1), (exchange serve .answered r s).2) := by
      simp only [interleaveStep, found]
    have placed : (pool.set i (next (exchange serve .answered r s).1))[i]? =
        some (next (exchange serve .answered r s).1) := by
      rw [List.getElem?_set_self inside]
    obtain ⟨moves, solo, rest⟩ := ih _ placed (exchange serve .answered r s).2
    refine ⟨(i, .answered) :: moves, ?_, ?_⟩
    · intro move member
      rcases List.mem_cons.mp member with rfl | later
      · rfl
      · exact solo move later
    · rw [interleave, List.foldl_cons, first]
      rw [interleave] at rest
      rw [rest, List.set_set]
      rfl

end Program

end GasAnalyzer
