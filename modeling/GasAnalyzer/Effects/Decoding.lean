import GasAnalyzer.Effects.Positions

/-!
# When a step decodes

The decoder answers for an effectful step exactly when its stack holds the words it reads, its memory words
are hex, and the memory range it copies has an offset and a length that a machine can hold.
-/

namespace GasAnalyzer

/-- The decoder answers for this step. -/
def StructLog.Decodes (log : StructLog) : Prop := ∃ r, decodeStructLog log = .ok r

/-- What a step decodes to. -/
def StructLog.update? (log : StructLog) : Option StateUpdate :=
  match decodeStructLog log with
  | .ok r => r.1
  | .error _ => none

/-- How many words of the stack the decoder reads. -/
def stackReads : Opcode → Nat
  | .sstore | .log0 => 2
  | .create | .log1 => 3
  | .create2 | .log2 => 4
  | .call | .log3 => 5
  | .log4 => 6
  | _ => 0

/-- Where on the stack the offset of the copied memory range stands; its length comes next. -/
def rangeAt : Opcode → Option Nat
  | .log0 | .log1 | .log2 | .log3 | .log4 => some 0
  | .create | .create2 => some 1
  | .call => some 3
  | _ => none

def HexWords (words : List String) : Prop := ∀ word ∈ words, (decodeHex (stripHexMark word.toList)).isSome = true

/-- An offset that is a `usize` and a length that a vector can have. -/
def Addressable (offset length : U256) : Prop := offset.val < 2 ^ 64 ∧ length.val < 2 ^ 63

/-- The memory range a step copies, if any, is addressable. -/
def StructLog.InRange (log : StructLog) : Prop :=
  ∀ i, rangeAt log.op = some i → ∀ offset length, log.top i = some offset → log.top (i + 1) = some length →
    Addressable offset length

structure StructLog.Readable (log : StructLog) : Prop where
  stack : ∃ words, log.stack = some words ∧ stackReads log.op ≤ words.length
  memory : ∀ words, log.memory = some words → HexWords words
  range : log.InRange

open Outcome (Decides decides_ok decides_okOr)

theorem parseTraceMemory_decides (words : List String) :
    Decides (HexWords words) (fun _ => True) (parseTraceMemory words) := by
  induction words with
  | nil => exact decides_ok (by simp [HexWords]) trivial
  | cons word rest ih =>
    have all : HexWords (word :: rest) ↔
        (decodeHex (stripHexMark word.toList)).isSome = true ∧ HexWords rest ∧ True := by
      simp [HexWords]
    rw [all]
    exact (decides_okOr _ _).bind fun _ _ => ih.bind fun _ _ => decides_ok trivial trivial

theorem index_decides {α : Type} (xs : List α) (i : Nat) :
    Decides (i < xs.length) (fun _ => True) (index xs i) := by
  have found : i < xs.length ↔ xs[i]?.isSome = true := by simp
  rw [found]
  exact decides_okOr _ _

theorem toUsize_decides (what : String) (v : U256) :
    Decides (v.val < 2 ^ 64) (fun n => n = v.val) (toUsize what v) := by
  unfold toUsize
  split
  · exact decides_ok (by assumption) rfl
  · exact ⟨fun small => absurd small (by assumption), fun _ => ⟨_, rfl⟩⟩

theorem copyMemory_decides (memory : Bytes) (offset length : Nat) :
    Decides (length < 2 ^ 63) (fun _ => True) (copyMemory memory offset length) := by
  unfold copyMemory
  split
  · exact ⟨fun small => by omega, fun _ => ⟨_, rfl⟩⟩
  · have small : length < 2 ^ 63 := by omega
    repeat' split
    all_goals exact decides_ok small trivial

/-- The words at `i` and `i + 1` exist and span an addressable range. -/
def SpanAt (stack : List U256) (i : Nat) : Prop :=
  i + 1 < stack.length ∧ ∀ offset length, stack[i]? = some offset → stack[i + 1]? = some length →
    Addressable offset length

theorem readRange_decides (stack : List U256) (memory : Bytes) (i : Nat) (what : String) :
    Decides (SpanAt stack i) (fun _ => True) (readRange stack memory i what) := by
  unfold readRange
  by_cases long : i + 1 < stack.length
  · have first : stack[i]? = some stack[i] := List.getElem?_eq_getElem (by omega)
    have second : stack[i + 1]? = some stack[i + 1] := List.getElem?_eq_getElem long
    have span : SpanAt stack i ↔ stack[i].val < 2 ^ 64 ∧ stack[i + 1].val < 2 ^ 64 ∧
        stack[i + 1].val < 2 ^ 63 := by
      unfold SpanAt Addressable
      rw [first, second]
      constructor
      · rintro ⟨-, fits⟩
        obtain ⟨fits, fits'⟩ := fits _ _ rfl rfl
        exact ⟨fits, by omega, fits'⟩
      · rintro ⟨fits, -, fits'⟩
        refine ⟨long, ?_⟩
        intro offset length same same'
        cases same
        cases same'
        exact ⟨fits, fits'⟩
    rw [span]
    unfold index
    rw [first, second]
    refine (toUsize_decides _ _).bind fun offset _ => (toUsize_decides _ _).bind fun length same => ?_
    rw [← same]
    exact copyMemory_decides memory offset length
  · refine ⟨fun span => absurd span.1 long, fun _ => ?_⟩
    have second : index stack (i + 1) = .error .indexOutOfBounds := by
      rw [index, List.getElem?_eq_none (by omega)]
      rfl
    cases index stack i with
    | error failure => exact ⟨failure, rfl⟩
    | ok offset =>
      rw [Outcome.ok_bind, second]
      cases toUsize (what ++ " offset") offset with
      | error failure => exact ⟨failure, rfl⟩
      | ok offset => exact ⟨_, rfl⟩

theorem decodeOp_decides {op : Opcode} (effect : effectful op = true) (stack : List U256) (memory : Bytes) :
    Decides (stackReads op ≤ stack.length ∧ ∀ i, rangeAt op = some i → SpanAt stack i) (fun _ => True)
      (decodeOp op stack memory) := by
  cases op with
  | sstore =>
    refine ((index_decides _ _).bind fun _ _ => (index_decides _ _).bind fun _ _ =>
      decides_ok trivial trivial).of_iff ?_
    simp only [stackReads, rangeAt, reduceCtorEq, false_implies, implies_true, and_true]
    omega
  | create =>
    refine ((index_decides _ _).bind fun _ _ => (readRange_decides _ _ _ _).bind fun _ _ =>
      decides_ok trivial trivial).of_iff ?_
    simp only [stackReads, rangeAt, Option.some.injEq, forall_eq', SpanAt]
    grind
  | create2 =>
    refine ((index_decides _ _).bind fun _ _ => (readRange_decides _ _ _ _).bind fun _ _ =>
      (index_decides _ _).bind fun _ _ => decides_ok trivial trivial).of_iff ?_
    simp only [stackReads, rangeAt, Option.some.injEq, forall_eq', SpanAt]
    grind
  | call =>
    refine ((readRange_decides _ _ _ _).bind fun _ _ => (index_decides _ _).bind fun _ _ =>
      (index_decides _ _).bind fun _ _ => decides_ok trivial trivial).of_iff ?_
    simp only [stackReads, rangeAt, Option.some.injEq, forall_eq', SpanAt]
    grind
  | log0 =>
    refine ((readRange_decides _ _ _ _).bind fun _ _ => decides_ok trivial trivial).of_iff ?_
    simp only [stackReads, rangeAt, Option.some.injEq, forall_eq', SpanAt]
    grind
  | log1 =>
    refine ((readRange_decides _ _ _ _).bind fun _ _ => (index_decides _ _).bind fun _ _ =>
      decides_ok trivial trivial).of_iff ?_
    simp only [stackReads, rangeAt, Option.some.injEq, forall_eq', SpanAt]
    grind
  | log2 =>
    refine ((readRange_decides _ _ _ _).bind fun _ _ => (index_decides _ _).bind fun _ _ =>
      (index_decides _ _).bind fun _ _ => decides_ok trivial trivial).of_iff ?_
    simp only [stackReads, rangeAt, Option.some.injEq, forall_eq', SpanAt]
    grind
  | log3 =>
    refine ((readRange_decides _ _ _ _).bind fun _ _ => (index_decides _ _).bind fun _ _ =>
      (index_decides _ _).bind fun _ _ => (index_decides _ _).bind fun _ _ =>
      decides_ok trivial trivial).of_iff ?_
    simp only [stackReads, rangeAt, Option.some.injEq, forall_eq', SpanAt]
    grind
  | log4 =>
    refine ((readRange_decides _ _ _ _).bind fun _ _ => (index_decides _ _).bind fun _ _ =>
      (index_decides _ _).bind fun _ _ => (index_decides _ _).bind fun _ _ =>
      (index_decides _ _).bind fun _ _ => decides_ok trivial trivial).of_iff ?_
    simp only [stackReads, rangeAt, Option.some.injEq, forall_eq', SpanAt]
    grind
  | tstore | selfdestruct | staticcall | delegatecall | callcode | other => cases effect

/-- The decoder answers for an effectful step exactly when the step is readable. -/
theorem decodes_iff {log : StructLog} (effect : effectful log.op = true) (memory : log.memory.isSome = true) :
    log.Decodes ↔ log.Readable := by
  obtain ⟨words, hasMemory⟩ := Option.isSome_iff_exists.mp memory
  cases hasStack : log.stack with
  | none =>
    constructor
    · rintro ⟨r, decoded⟩
      unfold decodeStructLog at decoded
      rw [hasStack] at decoded
      cases decoded
    · intro readable
      obtain ⟨stack, some, -⟩ := readable.stack
      rw [hasStack] at some
      cases some
  | some stack =>
    have decides : Decides (HexWords words ∧ stackReads log.op ≤ stack.reverse.length ∧
        ∀ i, rangeAt log.op = some i → SpanAt stack.reverse i) (fun _ => True) (decodeStructLog log) := by
      unfold decodeStructLog
      rw [hasStack, hasMemory]
      exact (parseTraceMemory_decides words).bind fun bytes _ => decodeOp_decides effect stack.reverse bytes
    refine decides.iff.trans ?_
    have top : ∀ i, log.top i = stack.reverse[i]? := by
      intro i
      rw [StructLog.top, hasStack]
      rfl
    constructor
    · rintro ⟨hex, long, spans⟩
      refine ⟨⟨stack, hasStack, by simpa using long⟩, ?_, ?_⟩
      · intro words' same
        rw [hasMemory] at same
        cases same
        exact hex
      · intro i at' offset length first second
        rw [top] at first second
        exact (spans i at').2 offset length first second
    · rintro ⟨⟨stack', same, long⟩, hex, range⟩
      rw [hasStack] at same
      cases same
      refine ⟨hex words hasMemory, by simpa using long, ?_⟩
      intro i at'
      refine ⟨?_, ?_⟩
      · have reads : i + 1 < stackReads log.op := by
          cases op : log.op <;> rw [op] at at' <;> simp_all [rangeAt, stackReads] <;> omega
        rw [List.length_reverse]
        omega
      · intro offset length first second
        rw [← top] at first second
        exact range i at' offset length first second

end GasAnalyzer
