import GasAnalyzer.Core.LeanTrace
import GasAnalyzer.Core.FrameTree
import GasAnalyzer.Effects.Decoding

/-!
# Blanked memory

The lean parse of a step is its full parse with the memory blanked where `readsMemory` rejects the opcode.
Neither extractor can tell the two apart: memory is only ever read through the decoder, and for these opcodes
the decoder only checks that there is some.
-/

namespace GasAnalyzer

/-- A step whose memory is kept only if its opcode reads it. -/
def StructLog.blanked (log : StructLog) : StructLog :=
  { log with memory := if readsMemory log.op then log.memory else log.memory.map (fun _ => []) }

/-- The memory words of a step are hex. -/
def StructLog.HexMemory (log : StructLog) : Prop := ∀ words, log.memory = some words → HexWords words

theorem decodeOp_unread {op : Opcode} (unread : readsMemory op = false) (stack : List U256) (memory memory' : Bytes) :
    decodeOp op stack memory = decodeOp op stack memory' := by
  cases op <;> first | rfl | cases unread

theorem decodeStructLog_blanked {log : StructLog} (hex : log.HexMemory) :
    decodeStructLog log.blanked = decodeStructLog log := by
  by_cases reads : readsMemory log.op = true
  · have same : log.blanked = log := by
      unfold StructLog.blanked
      rw [if_pos reads]
    rw [same]
  · have unread : readsMemory log.op = false := by simpa using reads
    unfold decodeStructLog
    show (okOr Failure.stackIsEmpty log.stack >>= _) = _
    congr 1
    funext stack
    cases memory : log.memory with
    | none =>
      have blank : log.blanked.memory = none := by simp [StructLog.blanked, memory]
      rw [blank]
      rfl
    | some words =>
      have blank : log.blanked.memory = some [] := by simp [StructLog.blanked, memory, unread]
      obtain ⟨bytes, parsed, -⟩ := (parseTraceMemory_decides words).1 (hex words memory)
      rw [blank]
      show decodeOp log.op stack.reverse [] = _
      simp only [parsed, Outcome.ok_bind]
      exact decodeOp_unread unread _ _ _

/-! ### The extractors -/

theorem Extracting.exitCalls_blanked (log : StructLog) (calls : List (UInt64 × Nat)) (s : Extracting) :
    exitCalls log.blanked calls s = exitCalls log calls s := by
  induction calls generalizing s with
  | nil => rfl
  | cons call rest ih =>
    unfold exitCalls
    simp only [ih]
    rfl

theorem popFrames_blanked (n fuel : Nat) (log : StructLog) (w : Walk) :
    popFrames n log.blanked fuel w = popFrames n log fuel w := by
  induction fuel generalizing w with
  | zero => rfl
  | succ fuel ih =>
    unfold popFrames
    simp only [ih]
    rfl

section

variable {log : StructLog} (hex : log.HexMemory)

include hex

theorem appendStateUpdate_blanked (updates : List Op) (n : Nat) :
    appendStateUpdateFromStructLog updates n log.blanked = appendStateUpdateFromStructLog updates n log := by
  unfold appendStateUpdateFromStructLog
  rw [decodeStructLog_blanked hex]

theorem Extracting.step_blanked (origin : Option Address) (n : Nat) (s : Extracting) :
    s.step origin n log.blanked = s.step origin n log := by
  have up : ∀ s : Extracting, s.stepUp log.blanked = s.stepUp log := by
    intro s
    unfold stepUp
    rw [exitCalls_blanked]
    rfl
  unfold Extracting.step
  show ((s.noteEntry log).settleCreate log >>= fun s =>
    ((s.detectReentry origin log).stepUp log.blanked).extractOp n log.blanked) = _
  congr 1
  funext s
  rw [up]
  unfold extractOp
  rw [appendStateUpdate_blanked hex]
  rfl

theorem exec_blanked (H : Hashes) (elig : Eligibility) (candidates : OrdMap Nat Candidate) (n : Nat) (w : Walk) :
    exec H elig candidates n log.blanked w = exec H elig candidates n log w := by
  have calls : execCall H elig candidates n log.blanked w = execCall H elig candidates n log w := by
    unfold execCall
    rw [decodeStructLog_blanked hex]
    rfl
  have creates : execCreate n log.blanked w = execCreate n log w := by
    unfold execCreate
    simp only [appendStateUpdate_blanked hex]
    rfl
  have logs : execLog n log.blanked w = execLog n log w := by
    unfold execLog
    simp only [appendStateUpdate_blanked hex]
    rfl
  unfold exec
  rw [calls, creates, logs]
  rfl

end

variable {logs : List StructLog}

theorem Extracting.run_blanked (origin : Option Address) (hex : ∀ log ∈ logs, log.HexMemory) (n : Nat)
    (s : Extracting) : run origin (logs.map StructLog.blanked) n s = run origin logs n s := by
  induction logs generalizing n s with
  | nil => rfl
  | cons log rest ih =>
    rw [List.map_cons, run, run, step_blanked (hex log List.mem_cons_self)]
    congr 1
    funext s
    exact ih (fun l member => hex l (List.mem_cons_of_mem _ member)) (n + 1) s

theorem Scan.run_blanked (logs : List StructLog) (n : Nat) (s : Scan) :
    run (logs.map StructLog.blanked) n s = run logs n s := by
  induction logs generalizing n s with
  | nil => rfl
  | cons log rest ih =>
    rw [List.map_cons, run, run]
    show (s.step n log >>= _) = _
    congr 1
    funext s
    exact ih (n + 1) s

theorem walk_blanked (H : Hashes) (elig : Eligibility) (candidates : OrdMap Nat Candidate)
    (hex : ∀ log ∈ logs, log.HexMemory) (n : Nat) (w : Walk) :
    walk H elig candidates (logs.map StructLog.blanked) n w = walk H elig candidates logs n w := by
  induction logs generalizing n w with
  | nil => rfl
  | cons log rest ih =>
    have stepped : walkStep H elig candidates n log.blanked w = walkStep H elig candidates n log w := by
      have arrived : arrive n log.blanked w = arrive n log w := by
        unfold arrive
        simp only [popFrames_blanked]
        rfl
      unfold walkStep
      rw [arrived]
      congr 1
      funext v
      exact exec_blanked (hex log List.mem_cons_self) H elig candidates n v
    rw [List.map_cons, walk, walk, stepped]
    congr 1
    funext v
    exact ih (fun l member => hex l (List.mem_cons_of_mem _ member)) (n + 1) v

/-- `trace'` is `trace` with its memory blanked. -/
def Blanks (trace trace' : DefaultFrame) : Prop := trace'.structLogs = trace.structLogs.map StructLog.blanked

theorem computeStateUpdates_blanked {trace trace' : DefaultFrame} (blanks : Blanks trace trace')
    (hex : ∀ log ∈ trace.structLogs, log.HexMemory) (origin : Option Address) :
    computeStateUpdates trace' origin = computeStateUpdates trace origin := by
  have refund : trace'.structLogs.getLast?.bind StructLog.refundCounter =
      trace.structLogs.getLast?.bind StructLog.refundCounter := by
    rw [blanks, List.getLast?_map]
    cases trace.structLogs.getLast? <;> rfl
  unfold computeStateUpdates
  rw [refund, blanks, Extracting.run_blanked origin hex]

theorem splitFrameTree_blanked {trace trace' : DefaultFrame} (blanks : Blanks trace trace')
    (hex : ∀ log ∈ trace.structLogs, log.HexMemory) (H : Hashes) (root : Address) (elig : Eligibility)
    (cost : NestingCostModel) :
    splitFrameTree H trace' root elig cost = splitFrameTree H trace root elig cost := by
  unfold splitFrameTree scanCandidates
  rw [blanks, Scan.run_blanked, List.length_map]
  simp only [walk_blanked H elig _ hex]

/-! ### The parsers -/

namespace Visited

/-- The lean visitor has read what the full one has, up to memory it may blank. -/
structure Follows (full s : Visited) : Prop where
  others : { s with memory := full.memory } = full
  memory : s.memory = full.memory ∨
    ∃ op, full.op = some op ∧ readsMemory op = false ∧ s.memory = full.memory.map (fun _ => [])

theorem Follows.op {full s : Visited} (follows : Follows full s) : s.op = full.op := by
  rw [← follows.others]

theorem leanVisit_memory (s : Visited) (value : Option (List String)) :
    s.leanVisit (.memory value) = { s with memory := value } ∨
      ∃ op, s.op = some op ∧ readsMemory op = false ∧
        s.leanVisit (.memory value) = { s with memory := value.map (fun _ => []) } := by
  unfold leanVisit
  dsimp only
  split
  · rename_i op known
    split
    · exact Or.inl rfl
    · rename_i unread
      exact Or.inr ⟨op, known, by simpa using unread, rfl⟩
  · exact Or.inl rfl

theorem Follows.visit {full s : Visited} (follows : Follows full s) (field : Field)
    (fresh : full.op.isSome = true → field.key ≠ "op") : Follows (full.visit field) (s.leanVisit field) := by
  have sameOp := follows.op
  obtain ⟨others, memory⟩ := follows
  cases field with
  | memory value =>
    rcases leanVisit_memory s value with kept | ⟨op, known, unread, blank⟩
    · rw [kept]
      constructor
      · rw [← others]
        rfl
      · exact Or.inl rfl
    · rw [blank]
      constructor
      · rw [← others]
        rfl
      · exact Or.inr ⟨op, sameOp ▸ known, unread, rfl⟩
  | op value =>
    have unknown : full.op = none := by
      by_contra known
      exact fresh (Option.isSome_iff_ne_none.mpr known) rfl
    constructor
    · rw [← others]
      rfl
    · rcases memory with same | ⟨op, known, -, -⟩
      · exact Or.inl same
      · rw [unknown] at known
        cases known
  | pc | gas | gasCost | depth | error | stack | memSize | refund | other =>
    constructor
    · rw [← others]
      rfl
    · exact memory

theorem visit_op {s : Visited} {field : Field} (known : (s.visit field).op.isSome = true) :
    s.op.isSome = true ∨ field.key = "op" := by
  cases field with
  | op value => exact Or.inr rfl
  | pc | gas | gasCost | depth | error | stack | memory | memSize | refund | other => exact Or.inl known

theorem Follows.run (fields : List Field) : ∀ {full s : Visited}, Follows full s → (fields.map Field.key).Nodup →
    (full.op.isSome = true → "op" ∉ fields.map Field.key) →
    Follows (fields.foldl Visited.visit full) (fields.foldl leanVisit s) := by
  induction fields with
  | nil =>
    intro full s follows _ _
    exact follows
  | cons field rest ih =>
    intro full s follows distinct fresh
    rw [List.map_cons] at distinct fresh
    obtain ⟨here, later⟩ := List.nodup_cons.mp distinct
    have next := follows.visit field (fun known same => fresh known (same ▸ List.mem_cons_self))
    apply ih next later
    intro known
    rcases visit_op known with before | now
    · exact fun member => fresh before (List.mem_cons_of_mem _ member)
    · exact now ▸ here

/-- Blanking before or after the opcode is known ends in the same step. -/
theorem Follows.finish {full s : Visited} (follows : Follows full s) :
    s.dropMemory.finish = full.finish.map StructLog.blanked := by
  obtain ⟨others, memory⟩ := follows
  obtain ⟨pc, op, gas, gasCost, depth, error, stack, held, refund⟩ := s
  obtain ⟨pc', op', gas', gasCost', depth', error', stack', whole, refund'⟩ := full
  simp only [mk.injEq] at others
  obtain ⟨rfl, rfl, rfl, rfl, rfl, rfl, rfl, -, rfl⟩ := others
  cases op with
  | none => rfl
  | some op =>
    have blank : (if !readsMemory op && held.isSome then some [] else held) =
        if readsMemory op then whole else whole.map (fun _ => []) := by
      rcases memory with same | ⟨op', known, unread, same⟩
      · change held = whole at same
        rw [same]
        cases readsMemory op <;> cases whole <;> rfl
      · cases known
        change held = whole.map _ at same
        rw [same, unread]
        cases whole <;> rfl
    have dropped : dropMemory ⟨pc, some op, gas, gasCost, depth, error, stack, held, refund⟩ =
        ⟨pc, some op, gas, gasCost, depth, error, stack, if readsMemory op then whole else whole.map (fun _ => []),
          refund⟩ := by
      rw [← blank]
      unfold dropMemory
      dsimp only
      split <;> rfl
    rw [dropped]
    unfold Visited.finish
    cases pc <;> cases gas <;> cases gasCost <;> cases depth <;> rfl

end Visited

theorem parseLeanStructLog_eq {fields : List Field} (distinct : (fields.map Field.key).Nodup) :
    parseLeanStructLog fields = (parseStructLog fields).map StructLog.blanked := by
  have start : Visited.Follows {} {} := ⟨rfl, Or.inl rfl⟩
  unfold parseLeanStructLog parseStructLog
  rw [if_pos distinct, (start.run fields distinct (by simp)).finish]

/-- The members of every step have distinct names. -/
def TraceJson.Distinct (json : TraceJson) : Prop := ∀ fields ∈ json.structLogs, (fields.map Field.key).Nodup

/-- The memory words of every step are hex. -/
def TraceJson.HexMemory (json : TraceJson) : Prop :=
  ∀ fields ∈ json.structLogs, ∀ words, Field.memory (some words) ∈ fields → HexWords words

theorem Visited.memory_mem (fields : List Field) : ∀ {s : Visited} {words : List String},
    (fields.foldl Visited.visit s).memory = some words →
    s.memory = some words ∨ Field.memory (some words) ∈ fields := by
  induction fields with
  | nil =>
    intro s words held
    exact Or.inl held
  | cons field rest ih =>
    intro s words held
    rcases ih held with here | later
    · cases field with
      | memory value =>
        change value = some words at here
        exact Or.inr (here ▸ List.mem_cons_self)
      | pc | op | gas | gasCost | depth | error | stack | memSize | refund | other => exact Or.inl here
    · exact Or.inr (List.mem_cons_of_mem _ later)

theorem parseStructLog_memory {fields : List Field} {log : StructLog} {words : List String}
    (parsed : parseStructLog fields = .ok log) (held : log.memory = some words) :
    Field.memory (some words) ∈ fields := by
  unfold parseStructLog at parsed
  split at parsed
  · unfold Visited.finish at parsed
    obtain ⟨op, -, parsed⟩ := Outcome.bind_ok parsed
    obtain ⟨pc, -, parsed⟩ := Outcome.bind_ok parsed
    obtain ⟨gas, -, parsed⟩ := Outcome.bind_ok parsed
    obtain ⟨gasCost, -, parsed⟩ := Outcome.bind_ok parsed
    obtain ⟨depth, -, parsed⟩ := Outcome.bind_ok parsed
    obtain rfl := Except.ok.inj parsed
    rcases Visited.memory_mem fields held with start | member
    · cases start
    · exact member
  · cases parsed

theorem parseSteps_blanked (steps : List (List Field))
    (distinct : ∀ fields ∈ steps, (fields.map Field.key).Nodup) :
    parseSteps parseLeanStructLog steps = (parseSteps parseStructLog steps).map (List.map StructLog.blanked) := by
  induction steps with
  | nil => rfl
  | cons fields rest ih =>
    rw [parseSteps, parseSteps, parseLeanStructLog_eq (distinct fields List.mem_cons_self),
      ih (fun f member => distinct f (List.mem_cons_of_mem _ member))]
    cases parseStructLog fields with
    | error failure => rfl
    | ok log =>
      cases parseSteps parseStructLog rest with
      | error failure => rfl
      | ok logs => rfl

theorem parseSteps_hex {steps : List (List Field)} {logs : List StructLog}
    (parsed : parseSteps parseStructLog steps = .ok logs)
    (hex : ∀ fields ∈ steps, ∀ words, Field.memory (some words) ∈ fields → HexWords words) :
    ∀ log ∈ logs, log.HexMemory := by
  induction steps generalizing logs with
  | nil =>
    obtain rfl := Except.ok.inj parsed
    intro log member
    cases member
  | cons fields rest ih =>
    obtain ⟨log, here, parsed⟩ := Outcome.bind_ok parsed
    obtain ⟨more, later, parsed⟩ := Outcome.bind_ok parsed
    obtain rfl := Except.ok.inj parsed
    intro l member
    rcases List.mem_cons.mp member with rfl | after
    · intro words held
      exact hex fields List.mem_cons_self words (parseStructLog_memory here held)
    · exact ih later (fun f inside => hex f (List.mem_cons_of_mem _ inside)) l after

theorem parseFrame_ok {parse : List Field → Parsed StructLog} {json : TraceJson} {logs : List StructLog}
    (parsed : parseSteps parse json.structLogs = .ok logs) :
    ∃ trace, parseFrame parse json = .ok trace ∧ trace.structLogs = logs := by
  unfold parseFrame
  split
  · rename_i failed
    rw [parsed] at failed
    cases failed
  · rename_i answer
    rw [parsed] at answer
    exact ⟨_, rfl, (Except.ok.inj answer).symm⟩

theorem parseFrame_error {parse : List Field → Parsed StructLog} {json : TraceJson} {failure : ParseFailure}
    (failed : parseSteps parse json.structLogs = .error failure) : parseFrame parse json = .error failure := by
  unfold parseFrame
  split
  · rename_i same
    rw [failed] at same
    rw [Except.error.inj same]
  · rename_i answer
    rw [failed] at answer
    cases answer

/-- Every extraction has the same outcome on both traces. -/
structure SameExtraction (trace trace' : DefaultFrame) : Prop where
  updates : ∀ origin, computeStateUpdates trace' origin = computeStateUpdates trace origin
  canonical : ∀ H root isNestable cost, computeFrameTreeCanonical H trace' root isNestable cost =
    computeFrameTreeCanonical H trace root isNestable cost
  hypothetical : ∀ H root owned cost, computeFrameTreeHypothetical H trace' root owned cost =
    computeFrameTreeHypothetical H trace root owned cost

/-- The lean parse answers exactly when the full one does, and no extraction can tell the two apart. -/
theorem parseLeanFrame_extracts_same (json : TraceJson) (distinct : json.Distinct) (hex : json.HexMemory) :
    (∃ full lean, parseDefaultFrame json = .ok full ∧ parseLeanFrame json = .ok lean ∧ SameExtraction full lean) ∨
      ∃ failure, parseDefaultFrame json = .error failure ∧ parseLeanFrame json = .error failure := by
  have both := parseSteps_blanked json.structLogs distinct
  cases parsed : parseSteps parseStructLog json.structLogs with
  | error failure =>
    rw [parsed] at both
    exact Or.inr ⟨failure, parseFrame_error parsed, parseFrame_error both⟩
  | ok logs =>
    rw [parsed] at both
    obtain ⟨full, answer, whole⟩ := parseFrame_ok parsed
    obtain ⟨lean, leanAnswer, blank⟩ := parseFrame_ok both
    have hexLogs : ∀ log ∈ full.structLogs, log.HexMemory := by
      rw [whole]
      exact parseSteps_hex parsed hex
    have blanks : Blanks full lean := by
      unfold Blanks
      rw [blank, whole]
    refine Or.inl ⟨full, lean, answer, leanAnswer, ?_, ?_, ?_⟩
    · exact computeStateUpdates_blanked blanks hexLogs
    · intro H root isNestable cost
      exact splitFrameTree_blanked blanks hexLogs H root _ cost
    · intro H root owned cost
      exact splitFrameTree_blanked blanks hexLogs H root _ cost

/-- A store whose memory stands before its opcode, and a log whose memory stands after it. -/
def storeThenLog : TraceJson where
  structLogs := [
    [.memory (some ["00"]), .pc 0, .op .sstore, .gas 9, .gasCost 1, .depth 1, .stack (some [1, 2])],
    [.pc 1, .op .log0, .gas 8, .gasCost 1, .depth 1, .stack (some [1, 0]), .memory (some ["ab"]), .other "storage"]]

theorem parseLeanFrame_storeThenLog :
    (∃ full lean, parseDefaultFrame storeThenLog = .ok full ∧ parseLeanFrame storeThenLog = .ok lean ∧
      SameExtraction full lean) ∨
      ∃ failure, parseDefaultFrame storeThenLog = .error failure ∧ parseLeanFrame storeThenLog = .error failure := by
  apply parseLeanFrame_extracts_same
  · intro fields member
    simp only [storeThenLog, List.mem_cons, List.not_mem_nil, or_false] at member
    rcases member with rfl | rfl <;> decide
  · intro fields member words held word inside
    simp only [storeThenLog, List.mem_cons, List.not_mem_nil, or_false] at member
    rcases member with rfl | rfl <;> simp at held <;> subst held <;>
      rw [List.mem_singleton.mp inside] <;> decide

end GasAnalyzer
