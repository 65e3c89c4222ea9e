import GasAnalyzer.Core.EvmSketch

/-!
# The gas estimator

The revm side of the estimate: the estimator contract is put in the place of the contracts, and programs are run against
it. `estimateFrameTreeGas` runs a frame tree piece by piece on one state. What revm itself does is a parameter.
-/

namespace GasAnalyzer.Estimator

structure AccountInfo where
  balance : U256
  nonce : UInt64
  codeHash : B256
  code : Option Bytes

structure SimEnvOpts (Spec : Type) where
  number : UInt64
  timestamp : UInt64
  gasLimit : UInt64
  coinbase : Address
  prevrandao : B256
  gasPrice : BitVec 128
  basefee : UInt64
  difficulty : U256
  spec : Spec
  value : U256

/-- The environment of a transaction, and the transaction; the checks on nonces, balances and fees are off. -/
structure Tx where
  caller : Address
  callee : Address
  data : Bytes
  value : U256
  gasLimit : UInt64
  gasPrice : BitVec 128

inductive ExecutionResult where
  | success (gasUsed : UInt64)
  | revert (gasUsed : UInt64) (output : Bytes)
  | halt (gasUsed : UInt64) (reason : String)

/-- What the estimator takes from revm: the cached state, its hardforks and its transactions. A transaction answers with
the state its writes would be committed to. -/
structure Revm (Db Spec : Type) where
  basicRef : Db → Address → Option AccountInfo
  insertAccountInfo : Db → Address → AccountInfo → Db
  setCodeHash : Db → Address → B256 → Db
  insertAccountStorage : Db → Address → U256 → U256 → Except String Db
  osakaOrLater : Spec → Bool
  transact : Db → SimEnvOpts Spec → Tx → Except String (ExecutionResult × Db)

inductive EstimateError where
  /-- An index out of bounds: the source aborts. -/
  | indexOutOfBounds (index size : Nat)
  | noRootFrame
  | noFrame (index : Nat)
  | moreNestedOps (index : Nat)
  | childNotAfter (index child : Nat)
  | moreChildren (index : Nat)
  | implSlot (error : String)
  | estimationFailed (error : String)
  | reverted (gasUsed : UInt64) (output : Bytes)
  | halted (gasUsed : UInt64) (reason : String)
  /-- A failure of one piece, with its context. -/
  | atPiece (index : Nat) (target : Address) (piece : Nat) (error : EstimateError)
  deriving DecidableEq

def EstimateError.panics : EstimateError → Bool
  | indexOutOfBounds _ _ => true
  | _ => false

/-- The texts of the errors the tree run raises itself. -/
def EstimateError.message : EstimateError → Option String
  | noRootFrame => some "a frame tree needs a root frame"
  | noFrame index => some ("frame " ++ toString index ++ " does not exist")
  | moreNestedOps index => some ("frame " ++ toString index ++ " has more NESTED ops than children")
  | childNotAfter index child =>
    some ("frame " ++ toString index ++ " names child " ++ toString child ++ ", which does not follow it")
  | moreChildren index => some ("frame " ++ toString index ++ " has more children than NESTED ops")
  | _ => none

abbrev Estimate := Except EstimateError

/-- The EIP-7825 cap on a transaction's gas. -/
def eip7825TxGasCap : UInt64 := 16777216

/-- `b"gas.estimator.backup"` and `b"gas.estimator.implementation"` -/
def backupTag : Bytes := "gas.estimator.backup".toUTF8.toList

def implementationTag : Bytes := "gas.estimator.implementation".toUTF8.toList

section

variable {Db Spec : Type} (H : Hashes) (revm : Revm Db Spec) (estimatorCode : Bytes)

def effectiveTxGasLimit (gasLimit : UInt64) (spec : Spec) : UInt64 :=
  if revm.osakaOrLater spec then min gasLimit eip7825TxGasCap else gasLimit

/-- The low 20 bytes of the hash. -/
def backupAddress (contract : Address) : Address :=
  Address.fromWord (H.keccak256 (backupTag ++ Abi.beBytes 20 contract.val))

def implSlot : U256 := H.keccak256 implementationTag - 1

/-- `inject_estimator`: the estimator's code at `contract`, the original code at its backup address. -/
def injectEstimator (db : Db) (contract : Address) : Estimate Db :=
  let backup := backupAddress H contract
  let original := (revm.basicRef db contract).getD ⟨0, 0, H.keccak256 [], none⟩
  let estimatorHash := H.keccak256 estimatorCode
  let (db, originalHash) :=
    match original.code with
    | some code =>
      if code.isEmpty then (db, estimatorHash)
      else
        let hash :=
          if original.codeHash = 0 ∨ original.codeHash = H.keccak256 [] then H.keccak256 code else original.codeHash
        (revm.insertAccountInfo db backup ⟨0, 0, hash, some code⟩, hash)
    | none => (db, estimatorHash)
  let db := revm.insertAccountInfo db contract ⟨original.balance, original.nonce, estimatorHash, some estimatorCode⟩
  let db := revm.setCodeHash db contract originalHash
  (revm.insertAccountStorage db contract (implSlot H) (Fin.castLE (by decide) backup)).mapError .implSlot

/-- The caller's balance covers the value. -/
def fundCaller (db : Db) (caller : Address) (value : U256) : Db :=
  if value = 0 then db
  else
    let account := (revm.basicRef db caller).getD ⟨0, 0, H.keccak256 [], none⟩
    revm.insertAccountInfo db caller { account with balance := Fin.ofNat _ (min (account.balance.val + value.val) (2 ^ 256 - 1)) }

/-- `run_estimator`: the gas of one call, and the state after it, which is only kept when `commit` is set. -/
def runEstimator (db : Db) (contract caller : Address) (calldata : Bytes) (value : U256)
    (simEnv : SimEnvOpts Spec) (commit : Bool) : Estimate (UInt64 × Db) := do
  let db := fundCaller H revm db caller value
  let tx : Tx := ⟨caller, contract, calldata, value, effectiveTxGasLimit revm simEnv.gasLimit simEnv.spec, simEnv.gasPrice⟩
  let (result, written) ← (revm.transact db simEnv tx).mapError .estimationFailed
  match result with
  | .success gasUsed => .ok (gasUsed, if commit then written else db)
  | .revert gasUsed output => .error (.reverted gasUsed output)
  | .halt gasUsed reason => .error (.halted gasUsed reason)

def estimateGasRaw (db : Db) (contract caller : Address) (calldata : Bytes) (simEnv : SimEnvOpts Spec) :
    Estimate UInt64 := do
  let db ← injectEstimator H revm estimatorCode db contract
  let (gas, _) ← runEstimator H revm db contract caller calldata simEnv.value simEnv false
  .ok gas

def estimateStateChangesGas (db : Db) (contract caller : Address) (updates : List StateUpdate)
    (simEnv : SimEnvOpts Spec) : Estimate UInt64 :=
  estimateGasRaw H revm estimatorCode db contract caller (buildGasEstimationCalldata updates) simEnv

/-! ### Frame trees -/

structure FrameTreeRun (Spec : Type) where
  frames : List FrameProgram
  caller : Address
  simEnv : SimEnvOpts Spec

/-- The state and the gas of each frame so far. -/
structure TreeState (Db : Type) where
  db : Db
  frameGas : List UInt64

/-- The part of a frame that is yet to run, the number of pieces run, and their gas. -/
structure Progress where
  piece : List StateUpdate
  pieces : Nat
  gas : UInt64

namespace FrameTreeRun

variable (t : FrameTreeRun Spec)

/-- One piece of frame `index`: its gas, less the base cost after the first piece. -/
def piece (db : Db) (index pieceIndex : Nat) (updates : List StateUpdate) (value : U256) : Estimate (UInt64 × Db) :=
  match t.frames[index]? with
  | none => .error (.indexOutOfBounds index t.frames.length)
  | some frame => do
    let value := if pieceIndex = 0 then value else 0
    let (gas, db) ← (runEstimator H revm db frame.target t.caller (buildGasEstimationCalldata updates) value
      t.simEnv true).mapError (.atPiece index frame.target pieceIndex)
    .ok (if pieceIndex = 0 then gas else satSub gas baseTxCost, db)

/-- The first piece runs even when it is empty. -/
def flush (index : Nat) (value : U256) (p : Progress) (db : Db) : Estimate (Progress × Db) :=
  if p.pieces = 0 ∨ p.piece ≠ [] then do
    let (gas, db) ← t.piece H revm db index p.pieces p.piece value
    .ok (⟨[], p.pieces + 1, satAdd p.gas gas⟩, db)
  else .ok (p, db)

mutual

def run (index : Nat) (value : U256) (s : TreeState Db) : Estimate (TreeState Db) :=
  match t.frames[index]? with
  | none => .error (.noFrame index)
  | some frame => runUpdates index value frame.updates frame.children ⟨[], 0, 0⟩ s
termination_by (t.frames.length - index, 1, 0)
decreasing_by
  exact Prod.Lex.right _ (Prod.Lex.left _ _ Nat.one_pos)

/-- The loop over a frame's updates, with the children its `NESTED` ops have left. -/
def runUpdates (index : Nat) (value : U256) (updates : List StateUpdate) (children : List Nat) (p : Progress)
    (s : TreeState Db) : Estimate (TreeState Db) :=
  match updates with
  | [] => do
    let (p, db) ← t.flush H revm index value p s.db
    if children ≠ [] then .error (.moreChildren index)
    else .ok ⟨db, s.frameGas.set index p.gas⟩
  | .nested _ :: rest => do
    let (p, db) ← t.flush H revm index value p s.db
    match children with
    | [] => .error (.moreNestedOps index)
    | child :: children =>
      if _outside : child ≤ index then .error (.childNotAfter index child)
      else
        match _found : t.frames[child]? with
        | none => .error (.indexOutOfBounds child t.frames.length)
        | some frame => do
          let s ← run child frame.value ⟨db, s.frameGas⟩
          runUpdates index value rest children p s
  | update :: rest => runUpdates index value rest children { p with piece := p.piece ++ [update] } s
termination_by (t.frames.length - index, 0, updates.length)
decreasing_by
  · have inside := (List.getElem?_eq_some_iff.mp _found).1
    exact Prod.Lex.left _ _ (by omega)
  · exact Prod.Lex.right _ (Prod.Lex.right _ (Nat.lt_succ_self _))
  · exact Prod.Lex.right _ (Prod.Lex.right _ (Nat.lt_succ_self _))

end

end FrameTreeRun

/-- The contracts of the frames, each injected once, in the order they first appear. -/
def injectTargets (injected : List Address) : List FrameProgram → Db → Estimate Db
  | [], db => .ok db
  | frame :: frames, db =>
    if frame.target ∈ injected then injectTargets injected frames db
    else do
      let db ← injectEstimator H revm estimatorCode db frame.target
      injectTargets (frame.target :: injected) frames db

def estimateFrameTreeGas (db : Db) (frames : List FrameProgram) (caller : Address) (rootValue : U256)
    (simEnv : SimEnvOpts Spec) : Estimate (List UInt64) :=
  if frames.isEmpty then .error .noRootFrame
  else do
    let db ← injectTargets H revm estimatorCode [] frames db
    let s ← FrameTreeRun.run H revm ⟨frames, caller, simEnv⟩ 0 rootValue ⟨db, List.replicate frames.length 0⟩
    .ok s.frameGas

end

end GasAnalyzer.Estimator
