import GasAnalyzer.Effects.Decoding

/-!
# Steps that make the decoder panic

The decoder aborts on what it cannot read. Of a step with the stack words its opcode consumes and hex memory it
only cannot read a memory range that no machine holds.
-/

namespace GasAnalyzer

/-- How many stack words an opcode consumes, of those the analyzer tells apart. -/
def Opcode.consumes : Opcode → Nat
  | selfdestruct => 1
  | sstore | tstore | log0 => 2
  | create | log1 => 3
  | create2 | log2 => 4
  | log3 => 5
  | staticcall | delegatecall | log4 => 6
  | call | callcode => 7
  | other _ => 0

/-- A step the EVM can take: its operands are on the stack and its memory is there, in hex. -/
structure StructLog.Possible (log : StructLog) : Prop where
  stack : ∃ words, log.stack = some words ∧ log.op.consumes ≤ words.length
  memory : ∃ words, log.memory = some words ∧ HexWords words

/-- The computation aborts instead of returning. -/
def Panics {α : Type} (x : Result α) : Prop := ∃ failure, x = .error failure ∧ failure.panics = true

theorem stackReads_le (op : Opcode) : stackReads op ≤ op.consumes := by
  cases op <;> simp [stackReads, Opcode.consumes]

open Outcome (Sat sat_okOr)

/-- A computation that fails only by a panic. -/
abbrev Aborts {α : Type} (x : Result α) : Prop := Sat (fun failure => failure.panics = true) (fun _ => True) x

theorem index_aborts {α : Type} (xs : List α) (i : Nat) : Aborts (index xs i) := by
  have found : Sat (fun failure => failure.panics = true) (fun x => xs[i]? = some x) (index xs i) :=
    sat_okOr (fun _ => rfl)
  exact found.imp fun _ _ => trivial

theorem readRange_aborts (stack : List U256) (memory : Bytes) (i : Nat) (what : String) :
    Aborts (readRange stack memory i what) := by
  have usize : ∀ what v, Aborts (toUsize what v) := by
    intro what v
    unfold toUsize
    split
    · trivial
    · rfl
  have copies : ∀ offset length, Aborts (copyMemory memory offset length) := by
    intro offset length
    unfold copyMemory
    repeat' split
    all_goals trivial
  exact Sat.bind (index_aborts _ _) fun _ _ => Sat.bind (usize _ _) fun _ _ =>
    Sat.bind (index_aborts _ _) fun _ _ => Sat.bind (usize _ _) fun _ _ => copies _ _

theorem parseTraceMemory_aborts (words : List String) : Aborts (parseTraceMemory words) := by
  induction words with
  | nil => trivial
  | cons word rest ih =>
    exact Sat.bind (sat_okOr (fun _ => rfl)) fun _ _ => Sat.bind ih fun _ _ => trivial

theorem decodeOp_aborts {op : Opcode} (effect : effectful op = true) (stack : List U256) (memory : Bytes) :
    Aborts (decodeOp op stack memory) := by
  have next : ∀ (i : Nat) (f : U256 → Result (Option StateUpdate × Option Opcode)), (∀ v, Aborts (f v)) →
      Aborts (index stack i >>= f) := fun i f rest => Sat.bind (index_aborts stack i) fun v _ => rest v
  have range : ∀ (i : Nat) (what : String) (f : Bytes → Result (Option StateUpdate × Option Opcode)),
      (∀ bytes, Aborts (f bytes)) → Aborts (readRange stack memory i what >>= f) :=
    fun i what f rest => Sat.bind (readRange_aborts stack memory i what) fun bytes _ => rest bytes
  cases op with
  | sstore => exact next _ _ fun _ => next _ _ fun _ => trivial
  | create => exact next _ _ fun _ => range _ _ _ fun _ => trivial
  | create2 => exact next _ _ fun _ => range _ _ _ fun _ => next _ _ fun _ => trivial
  | call => exact range _ _ _ fun _ => next _ _ fun _ => next _ _ fun _ => trivial
  | log0 => exact range _ _ _ fun _ => trivial
  | log1 => exact range _ _ _ fun _ => next _ _ fun _ => trivial
  | log2 => exact range _ _ _ fun _ => next _ _ fun _ => next _ _ fun _ => trivial
  | log3 => exact range _ _ _ fun _ => next _ _ fun _ => next _ _ fun _ => next _ _ fun _ => trivial
  | log4 =>
    exact range _ _ _ fun _ => next _ _ fun _ => next _ _ fun _ => next _ _ fun _ => next _ _ fun _ => trivial
  | tstore | selfdestruct | staticcall | delegatecall | callcode | other => cases effect

/-- Of a possible step the decoder reads an update, or aborts because the range it copies is out of reach. -/
theorem StructLog.Possible.decodes {log : StructLog} (possible : log.Possible) (effect : effectful log.op = true) :
    log.InRange ∧ (∃ u, decodeStructLog log = .ok (some u, none) ∧ u.opcode = log.op) ∨
      ¬log.InRange ∧ Panics (decodeStructLog log) := by
  obtain ⟨stack, hasStack, long⟩ := possible.stack
  obtain ⟨words, hasMemory, hex⟩ := possible.memory
  have readable : log.Readable ↔ log.InRange := by
    constructor
    · exact fun readable => readable.range
    · intro inRange
      refine ⟨⟨stack, hasStack, Nat.le_trans (stackReads_le log.op) long⟩, ?_, inRange⟩
      intro words' same
      rw [hasMemory] at same
      cases same
      exact hex
  have decodes := decodes_iff effect (by rw [hasMemory]; rfl)
  rw [readable] at decodes
  cases answer : decodeStructLog log with
  | ok r =>
    obtain ⟨u, rfl, opcode, -⟩ := decodeStructLog_effect answer effect hasMemory
    exact Or.inl ⟨decodes.mp ⟨_, answer⟩, u, rfl, opcode⟩
  | error failure =>
    right
    constructor
    · intro inRange
      obtain ⟨r, answer'⟩ := decodes.mpr inRange
      rw [answer] at answer'
      cases answer'
    · have aborts : Aborts (decodeStructLog log) := by
        unfold decodeStructLog
        rw [hasStack, hasMemory]
        show Aborts (parseTraceMemory words >>= fun memory => decodeOp log.op stack.reverse memory)
        exact Sat.bind (parseTraceMemory_aborts words) fun bytes _ => decodeOp_aborts effect _ bytes
      exact ⟨failure, rfl, aborts.of_error answer⟩

end GasAnalyzer
