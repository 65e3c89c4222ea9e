import GasAnalyzer.Core.Trace

/-!
# Parsing struct logs

A step arrives as a JSON object, its fields in any order. `parseStructLog` reads all of it; the lean parser of
the wasm build, `parseLeanStructLog`, blanks the memory of every step whose opcode does not read it, as soon as
it knows the opcode. Field values are taken as the library's deserializer types them.
-/

namespace GasAnalyzer

/-- A member of a step's object. `storage` and `returnData` are `other` to both parsers. -/
inductive Field where
  | pc (value : UInt64)
  | op (value : Opcode)
  | gas (value : UInt64)
  | gasCost (value : UInt64)
  | depth (value : UInt64)
  | error (value : Option String)
  | stack (value : Option (List U256))
  | memory (value : Option (List String))
  | memSize (value : Option UInt64)
  | refund (value : Option UInt64)
  | other (name : String)

def Field.key : Field → String
  | pc _ => "pc"
  | op _ => "op"
  | gas _ => "gas"
  | gasCost _ => "gasCost"
  | depth _ => "depth"
  | error _ => "error"
  | stack _ => "stack"
  | memory _ => "memory"
  | memSize _ => "memSize"
  | refund _ => "refund"
  | other name => name

inductive ParseFailure where
  | missingField (name : String)
  | duplicateField
  deriving DecidableEq

abbrev Parsed := Except ParseFailure

/-- What a visitor has read of a step. -/
structure Visited where
  pc : Option UInt64 := none
  op : Option Opcode := none
  gas : Option UInt64 := none
  gasCost : Option UInt64 := none
  depth : Option UInt64 := none
  error : Option String := none
  stack : Option (List U256) := none
  memory : Option (List String) := none
  refundCounter : Option UInt64 := none

namespace Visited

def visit (s : Visited) : Field → Visited
  | .pc value => { s with pc := some value }
  | .op value => { s with op := some value }
  | .gas value => { s with gas := some value }
  | .gasCost value => { s with gasCost := some value }
  | .depth value => { s with depth := some value }
  | .error value => { s with error := value }
  | .stack value => { s with stack := value }
  | .memory value => { s with memory := value }
  | .memSize _ => s
  | .refund value => { s with refundCounter := value }
  | .other _ => s

/-- The lean visitor keeps an empty snapshot where the opcode is known and reads no memory. -/
def leanVisit (s : Visited) : Field → Visited
  | .memory value =>
    match s.op with
    | some op => if readsMemory op then { s with memory := value } else { s with memory := value.map (fun _ => []) }
    | none => { s with memory := value }
  | field => s.visit field

def finish (s : Visited) : Parsed StructLog := do
  let op ← okOr (.missingField "op") s.op
  let _ ← okOr (.missingField "pc") s.pc
  let gas ← okOr (.missingField "gas") s.gas
  let gasCost ← okOr (.missingField "gasCost") s.gasCost
  let depth ← okOr (.missingField "depth") s.depth
  .ok {
    op, gas, gasCost, depth
    error := s.error
    stack := s.stack
    memory := s.memory
    refundCounter := s.refundCounter }

/-- Drops what was kept before the opcode was known. -/
def dropMemory (s : Visited) : Visited :=
  match s.op with
  | some op => if !readsMemory op && s.memory.isSome then { s with memory := some [] } else s
  | none => s

end Visited

/-- The library's parser: each field is read where it stands, and none twice. -/
def parseStructLog (fields : List Field) : Parsed StructLog :=
  if (fields.map Field.key).Nodup then (fields.foldl Visited.visit {}).finish else .error .duplicateField

def parseLeanStructLog (fields : List Field) : Parsed StructLog :=
  (fields.foldl Visited.leanVisit {}).dropMemory.finish

/-- A trace as it arrives; nothing reads its total gas. -/
structure TraceJson where
  failed : Bool := false
  returnValue : Bytes := []
  structLogs : List (List Field)
  bounded : structLogs.length < 2 ^ 63 := by decide

def parseSteps (parse : List Field → Parsed StructLog) : List (List Field) → Parsed (List StructLog)
  | [] => .ok []
  | fields :: rest => do
    let log ← parse fields
    let logs ← parseSteps parse rest
    .ok (log :: logs)

theorem length_parseSteps {parse : List Field → Parsed StructLog} {steps : List (List Field)} {logs : List StructLog}
    (parsed : parseSteps parse steps = .ok logs) : logs.length = steps.length := by
  induction steps generalizing logs with
  | nil =>
    obtain rfl := Except.ok.inj parsed
    rfl
  | cons fields rest ih =>
    obtain ⟨log, -, parsed⟩ := Outcome.bind_ok parsed
    obtain ⟨more, later, parsed⟩ := Outcome.bind_ok parsed
    obtain rfl := Except.ok.inj parsed
    rw [List.length_cons, List.length_cons, ih later]

def parseFrame (parse : List Field → Parsed StructLog) (json : TraceJson) : Parsed DefaultFrame :=
  match parsed : parseSteps parse json.structLogs with
  | .error failure => .error failure
  | .ok structLogs => .ok {
      failed := json.failed
      returnValue := json.returnValue
      structLogs
      bounded := length_parseSteps parsed ▸ json.bounded }

/-- The full parse of a trace. -/
def parseDefaultFrame (json : TraceJson) : Parsed DefaultFrame := parseFrame parseStructLog json

/-- `LeanFrame`, converted to a `DefaultFrame`. -/
def parseLeanFrame (json : TraceJson) : Parsed DefaultFrame := parseFrame parseLeanStructLog json

end GasAnalyzer
