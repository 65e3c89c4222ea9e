import Mathlib
import GasAnalyzer.Library.Text

/-!
# The indexer's data

Jobs of the Redis queue, analysis reports, and projects: what the head-tracker, the worker, the refresher, the labeler
and the web server hand to each other.
-/

namespace GasAnalyzer.Indexer

open Text

/-- `[u8; 20]` -/
abbrev AddressBytes := Vector UInt8 20

/-- An instant of `chrono::DateTime<Utc>`, in seconds of the Unix epoch. -/
structure Timestamp where
  seconds : Int
  low : -8334601228800 ≤ seconds := by decide
  high : seconds ≤ 8210266876799 := by decide
  deriving DecidableEq

/-- `Utc.timestamp_opt(secs, 0).single()` -/
def Timestamp.ofSecs (secs : Int64) : Option Timestamp :=
  if bounds : -8334601228800 ≤ secs.toInt ∧ secs.toInt ≤ 8210266876799 then some ⟨secs.toInt, bounds.1, bounds.2⟩
  else none

/-! ### Jobs -/

structure AnalyzeTxJob where
  chainId : UInt64
  txHash : Vector UInt8 32
  blockNumber : UInt64
  txIndex : UInt64
  attempt : UInt32
  enqueuedAt : Int64
  /-- Which enqueue of the head-tracker the job goes back to; history the queue does not keep, and nothing reads it. -/
  ticket : Nat := 0
  deriving DecidableEq

namespace AnalyzeTxJob

def ageSecs (job : AnalyzeTxJob) (now : Timestamp) : Option Int :=
  if 0 < job.enqueuedAt.toInt then some (now.seconds - job.enqueuedAt.toInt) else none

def nextAttempt (job : AnalyzeTxJob) : AnalyzeTxJob := { job with attempt := job.attempt + 1 }

end AnalyzeTxJob

/-- The payload of the dead-letter list. -/
structure Dead where
  job : AnalyzeTxJob
  failedAt : Timestamp
  reason : String
  deriving DecidableEq

/-! ### Analyses -/

structure AnalysisReport where
  chainId : UInt64
  blockNumber : UInt64
  blockTimestamp : UInt64
  txHash : Vector UInt8 32
  txIndex : UInt64
  fromAddress : AddressBytes
  toAddress : AddressBytes
  functionSelector : Vector UInt8 4
  gasUsed : UInt64
  effectiveGasPriceWei : BitVec 128
  gaskillerGasEstimate : UInt64
  gasSaved : UInt64
  weiSaved : BitVec 128
  isHeuristic : Bool
  failureReason : Option String
  stateUpdateCount : UInt32
  skippedOpcodes : List String
  reentered : Bool
  deriving DecidableEq

inductive SkipReason where
  | contractCreation | noContractCalled | belowGasThreshold | reverted | emptyTrace | noStateUpdates
  deriving DecidableEq

inductive AnalyzerError where
  | skipped (reason : SkipReason)
  | receiptNotFound (tx : String)
  | rpc (what : String)
  | trace (what : String)
  | estimation (what : String)
  deriving DecidableEq

def SkipReason.message : SkipReason → String
  | contractCreation => "contract-creation tx"
  | noContractCalled => "no contract called"
  | belowGasThreshold => "below gas threshold"
  | reverted => "tx reverted on-chain"
  | emptyTrace => "empty debug trace"
  | noStateUpdates => "no extracted state updates"

def AnalyzerError.message : AnalyzerError → String
  | skipped reason => "transaction skipped: " ++ reason.message
  | receiptNotFound tx => "receipt not found for tx " ++ tx
  | rpc what => "rpc error: " ++ what
  | trace what => "trace error: " ++ what
  | estimation what => "estimation failed: " ++ what

/-! ### Projects -/

structure ProjectInfo where
  slug : String
  name : String
  category : Option String
  contactEmail : Option String
  contactUrl : Option String
  deriving DecidableEq

/-- `starts_with("unknown:")`, and `LIKE 'unknown:%'` in a statement. -/
def isUnknown (slug : String) : Bool := (stripPrefix "unknown:".toList slug.toList).isSome

def ProjectInfo.unknown (address : AddressBytes) : ProjectInfo where
  slug := "unknown:0x" ++ String.ofList (encodeHex address.toList)
  name := "Unknown (0x" ++ String.ofList (encodeHex address.toList) ++ ")"
  category := none
  contactEmail := none
  contactUrl := none

theorem isUnknown_unknown (address : AddressBytes) : isUnknown (ProjectInfo.unknown address).slug = true := by
  simp only [isUnknown, ProjectInfo.unknown, String.toList_append]
  rfl

end GasAnalyzer.Indexer
