import GasAnalyzer.Core.EvmSketch
import GasAnalyzer.Library.Text

/-!
# Trace endpoints

What is asked of a node and what its answers are taken for: the frames of the tracers, two of them from one `muxTracer`
request, the errors that tell what an endpoint serves, and the reads that tell which callees can settle a tree. What the
node answers is a parameter (`Endpoint`), and so are Unicode and JSON (`Texts`).
-/

namespace GasAnalyzer

/-! ### What a node answers -/

inductive Tracer where
  | structLog
  | preState
  | call
  | mux

inductive GethTrace where
  | default (frame : DefaultFrame)
  /-- `none` outside of diff mode. -/
  | preState (diff : Option DiffMode)
  | call (frame : CallFrame)
  | mux (preState call : Option GethTrace)
  | other

/-- A JSON-RPC error, and the text it is displayed as. -/
structure ErrorPayload where
  code : Int
  message : Chars
  shown : Chars

inductive TransportError where
  | errorResp (payload : ErrorPayload) (shown : Chars)
  | http (status : Nat) (body shown : Chars)
  | other (shown : Chars)

namespace TransportError

def shown : TransportError → Chars
  | errorResp _ shown => shown
  | http _ _ shown => shown
  | other shown => shown

end TransportError

/-- The answers to one run; what the executor measures is a part of it. -/
structure Endpoint where
  debugTraceCall : Tracer → Except TransportError GethTrace
  ethCall : Address → Bytes → Except TransportError Bytes
  executor : Except String Unit
  estimateStateChangesGas : Address → List StateUpdate → Except String UInt64
  estimateFrameTreeGas : List FrameProgram → Except String (List UInt64)

/-- Unicode, JSON, and what an address and a trace are displayed as. -/
structure Texts where
  /-- `str::to_lowercase` -/
  toLowercase : Chars → Chars
  /-- The `error` object of a JSON body. -/
  jsonRpcErrorIn : Chars → Option ErrorPayload
  shownAddress : Address → Chars
  debugTrace : GethTrace → Chars

/-! ### What errors are taken for -/

def mentions (text : Chars) (part : String) : Bool := decide (part.toList <:+: text)

def startsWith (text : Chars) (part : String) : Bool := decide (part.toList <+: text)

/-- `str::to_ascii_lowercase` -/
def toAsciiLowercase (text : Chars) : Chars := text.map Char.toLower

/-- The endpoint is throttling requests. -/
def isRateLimited (code : Int) (message : Chars) : Bool :=
  let message := toAsciiLowercase message
  code = 429 || code = -32005 || mentions message "rate limit" || mentions message "too many requests"

/-- The endpoint does not offer the tracer. -/
def isUnsupportedTracer (message : Chars) : Bool :=
  let message := toAsciiLowercase message
  mentions message "tracer" &&
    ["unsupported", "unknown", "not supported", "not found", "not available", "not allowed", "disabled"].any
      (mentions message)

def evmFailureCodes : List Int := [3, -32015]

def evmFailureMessages : List String :=
  ["revert", "out of gas", "invalid opcode", "stack underflow", "stack overflow", "invalid jump destination"]

section

variable (texts : Texts)

/-- The call failed in the EVM. -/
def isEvmFailure (payload : ErrorPayload) : Bool :=
  let message := texts.toLowercase payload.message
  if startsWith message "revm error" then false
  else
    evmFailureCodes.contains payload.code || startsWith message "evm error" ||
      evmFailureMessages.any (mentions message)

/-- The status of a refusal, other than a timeout or a rate limit. -/
def isRefusal (status : Nat) : Bool := 400 ≤ status && status < 500 && status ≠ 408 && status ≠ 429

/-- The reason of an error that is an answer, and the JSON-RPC error in it; a gateway puts it in the body. -/
def TransportError.answer : TransportError → Option (Chars × Option ErrorPayload)
  | .errorResp payload _ => some (payload.shown, some payload)
  | .http status body _ =>
    if isRefusal status then
      some ("HTTP ".toList ++ Nat.toDigits 10 status ++ ": ".toList ++ body, texts.jsonRpcErrorIn body)
    else none
  | .other _ => none

def unanswered {α : Type} (context : String) (text : Chars) : Sketch α := .error (.unanswered (context ++ String.ofList text))

/-- `{:?}` of a trace that may be missing -/
def Texts.debugOption : Option GethTrace → Chars
  | none => "None".toList
  | some trace => "Some(".toList ++ texts.debugTrace trace ++ ")".toList

def classifyMuxError (error : TransportError) : Sketch MuxedTraces :=
  match error.answer texts with
  | none => unanswered "muxTracer debug_trace_call failed: " error.shown
  | some (reason, payload) =>
    if payload.any (fun p => isRateLimited p.code p.message) then unanswered "muxTracer debug_trace_call failed: " reason
    else if isUnsupportedTracer reason then .ok .unsupported
    else .ok (.rejected (String.ofList reason) (payload.any (isEvmFailure texts)))

/-! ### The tracers -/

def splitPrestateAndCall (trace : GethTrace) : Except String (DiffMode × CallFrame) :=
  match trace with
  | .mux preState call =>
    match preState with
    | some (.preState (some diff)) =>
      match call with
      | some (.call frame) => .ok (diff, frame)
      | answer => .error ("expected call frame in mux response, got " ++ String.ofList (texts.debugOption answer))
    | answer => .error ("expected prestate diff frame in mux response, got " ++ String.ofList (texts.debugOption answer))
  | trace => .error ("expected mux frame, got " ++ String.ofList (texts.debugTrace trace))

namespace Endpoint

variable (e : Endpoint)

def getPrestateDiffAndCallFrame : Sketch MuxedTraces :=
  match e.debugTraceCall .mux with
  | .ok trace =>
    match splitPrestateAndCall texts trace with
    | .ok (diff, frame) => .ok (.frames diff frame)
    | .error reason => .ok (.malformed reason)
  | .error error => classifyMuxError texts error

def getPrestateDiff : Sketch DiffMode :=
  match e.debugTraceCall .preState with
  | .ok (.preState (some diff)) => .ok diff
  | .ok trace => unanswered "expected prestate diff frame, got " (texts.debugTrace trace)
  | .error error => unanswered "prestate debug_trace_call failed: " error.shown

def getCallFrame : Sketch CallFrame :=
  match e.debugTraceCall .call with
  | .ok (.call frame) => .ok frame
  | .ok trace => unanswered "expected call frame, got " (texts.debugTrace trace)
  | .error error => unanswered "callTracer debug_trace_call failed: " error.shown

/-- The struct-log trace, before it is checked that the call succeeded. -/
def getTrace : Sketch DefaultFrame :=
  match e.debugTraceCall .structLog with
  | .ok (.default frame) => .ok frame
  | .ok _ => .error (.unanswered "Expected default trace from debug_trace_call")
  | .error error => unanswered "debug_trace_call failed: " error.shown

/-! ### Which callees can settle a tree -/

/-- An `eth_call`: `none` when it fails in the EVM. -/
def staticRead (contract : Address) (data : Bytes) : Sketch (Option Bytes) :=
  match e.ethCall contract data with
  | .ok out => .ok (some out)
  | .error error =>
    let fails : Sketch (Option Bytes) :=
      unanswered ("eth_call to " ++ String.ofList (texts.shownAddress contract) ++ " failed: ") error.shown
    match error with
    | .errorResp payload _ => if isEvmFailure texts payload then .ok none else fails
    | _ => fails

end Endpoint

end

/-- `supportsInterface(type(IGasKillerNested).interfaceId)` -/
def supportsInterfaceProbe : Bytes :=
  [0x01, 0xff, 0xc9, 0xa7] ++ [0x78, 0x48, 0x18, 0x74] ++ List.replicate 28 0

/-- `schnorrRegistry()` -/
def schnorrRegistryProbe : Bytes := [0x5c, 0xc3, 0x74, 0x50]

/-- The registry of a contract that reports `IGasKillerNested`, given how it is read. -/
def nestedRegistry (read : Bytes → Sketch (Option Bytes)) : Sketch (Option Address) := do
  match ← read supportsInterfaceProbe with
  | none => .ok none
  | some supports =>
    if supports.length ≠ 32 ∨ Abi.ofBe supports = 0 then .ok none
    else
      match ← read schnorrRegistryProbe with
      | none => .ok none
      | some registry =>
        if registry.length ≠ 32 then .ok none
        else .ok (some (Address.fromWord (Fin.ofNat _ (Abi.ofBe registry))))

/-- What a run is told, whether `muxTracer` is paused for the endpoint or not. -/
def Endpoint.answers (texts : Texts) (e : Endpoint) (muxPaused : Bool) : Answers where
  muxPaused
  muxed := e.getPrestateDiffAndCallFrame texts
  prestateDiff := e.getPrestateDiff texts
  callFrame := e.getCallFrame texts
  trace := e.getTrace
  nestedRegistry contract := nestedRegistry (e.staticRead texts contract)
  executor := e.executor.mapError .unanswered
  estimateStateChangesGas contract updates := (e.estimateStateChangesGas contract updates).mapError .unanswered
  estimateFrameTreeGas frames := (e.estimateFrameTreeGas frames).mapError .unanswered

end GasAnalyzer
