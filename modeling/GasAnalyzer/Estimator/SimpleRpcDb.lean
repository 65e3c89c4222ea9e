import GasAnalyzer.Core.Endpoint
import GasAnalyzer.Estimator.FrameTree

/-!
# The database of the live estimate

`SimpleRpcDb` answers what revm reads of a block by requests to a node, an account by `eth_getProof` as long as the
node serves it and by three plain requests after that. `prefetchSlotsIntoCache` fills revm's `CacheDB` over it ahead of an
estimate: a task for each hinted address, joined in the order they end. The node (`Node`) and `CacheDB` are parameters.
Formatted error texts and log lines are left out.
-/

namespace GasAnalyzer.Estimator

/-- What `eth_getProof` answers. -/
structure AccountProof where
  balance : U256
  nonce : UInt64
  codeHash : B256
  storageProof : List (U256 × U256)

/-- What a node answers at the block. -/
structure Node where
  getProof : Address → List B256 → Except TransportError AccountProof
  getCodeAt : Address → Except TransportError Bytes
  getBalance : Address → Except TransportError U256
  getTransactionCount : Address → Except TransportError UInt64
  getStorageAt : Address → U256 → Except TransportError U256

/-- The request a read failed at. -/
inductive SimpleRpcDbError where
  | getProof (address : Address) (error : TransportError)
  | getCodeAt (address : Address) (error : TransportError)
  | getBalance (address : Address) (error : TransportError)
  | getNonce (address : Address) (error : TransportError)
  | getStorageAt (address : Address) (index : U256) (error : TransportError)

inductive GetProofOutcome where
  | ok (info : AccountInfo)
  | methodNotSupported
  | err (error : SimpleRpcDbError)

/-- The response says that there is no such method; a failure of the transport does not. -/
def isMethodNotFound (texts : Texts) : TransportError → Bool
  | .errorResp payload _ =>
    let message := texts.toLowercase payload.message
    payload.code = -32601 || mentions message "method not found" || mentions message "eth_getproof is not supported"
  | .http _ _ _ => false
  | .other _ => false

section

variable (H : Hashes) (texts : Texts) (node : Node)

/-- Some nodes report the code hash of an account that does not exist as zero. -/
def proofCodeHash (codeHash : B256) : B256 := if codeHash = 0 then H.keccak256 [] else codeHash

/-- The account of a proof, with the code that was asked for beside it; the answer is not looked at if there is no code. -/
def accountOfProof (proof : AccountProof) (code : Except TransportError Bytes) : Except TransportError AccountInfo :=
  let codeHash := proofCodeHash H proof.codeHash
  if codeHash ≠ H.keccak256 [] then code.map fun code => ⟨proof.balance, proof.nonce, codeHash, some code⟩
  else .ok ⟨proof.balance, proof.nonce, codeHash, some []⟩

def tryFetchWithProof (address : Address) : GetProofOutcome :=
  match node.getProof address [] with
  | .ok proof =>
    match accountOfProof H proof (node.getCodeAt address) with
    | .ok info => .ok info
    | .error error => .err (.getCodeAt address error)
  | .error error => if isMethodNotFound texts error then .methodNotSupported else .err (.getProof address error)

def fetchAccountParallel (address : Address) : Except SimpleRpcDbError AccountInfo := do
  let balance ← (node.getBalance address).mapError (.getBalance address)
  let nonce ← (node.getTransactionCount address).mapError (.getNonce address)
  let code ← (node.getCodeAt address).mapError (.getCodeAt address)
  .ok ⟨balance, nonce, H.keccak256 code, some code⟩

/-- The account, and whether `eth_getProof` is still asked for afterwards. -/
def fetchAccount (proofSupported : Bool) (address : Address) : Except SimpleRpcDbError AccountInfo × Bool :=
  if proofSupported then
    match tryFetchWithProof H texts node address with
    | .ok info => (.ok info, true)
    | .methodNotSupported => (fetchAccountParallel H node address, false)
    | .err error => (.error error, true)
  else (fetchAccountParallel H node address, false)

def storageRef (address : Address) (index : U256) : Except SimpleRpcDbError U256 :=
  (node.getStorageAt address index).mapError (.getStorageAt address index)

end

/-! ### Prefetching -/

/-- What the prefetch takes from revm's `CacheDB`: the accounts and slots it holds, and inserting them. A slot is inserted
for an account that is held. -/
structure CacheDb (Cache : Type) where
  new : Cache
  info : Cache → Address → Option AccountInfo
  slot : Cache → Address → U256 → Option U256
  insertAccountInfo : Cache → Address → AccountInfo → Cache
  insertAccountStorage : Cache → Address → U256 → U256 → Except String Cache

/-- `CacheDB<SimpleRpcDb>` -/
structure Cached (Cache : Type) where
  cache : Cache
  proofSupported : Bool

inductive PrefetchError where
  | taskFailed (error : String)
  | insertAccountStorage (address : Address) (slot : U256) (error : String)

/-- The address and the keys of each task. -/
def prefetchTasks (slots : OrdMap Address (List B256)) : List (Address × List B256) :=
  slots.entries.map fun e => (e.1, e.2.eraseDups)

section

variable {Cache : Type} (H : Hashes) (texts : Texts) (db : CacheDb Cache) (node : Node)

/-- The slots of a proof, one after the other. -/
def insertProofSlots (address : Address) : List (U256 × U256) → Cache → Except PrefetchError Unit × Cache
  | [], cache => (.ok (), cache)
  | (slot, value) :: rest, cache =>
    match db.insertAccountStorage cache address slot value with
    | .ok cache => insertProofSlots address rest cache
    | .error error => (.error (.insertAccountStorage address slot error), cache)

/-- Joins the tasks in the order they end; `died` is why a task ended without its answers. -/
def collectTasks (died : Address → Option String) :
    List (Address × List B256) → Cached Cache → Except PrefetchError Unit × Cached Cache
  | [], s => (.ok (), s)
  | (address, keys) :: rest, s =>
    match died address with
    | some error => (.error (.taskFailed error), s)
    | none =>
      match node.getProof address keys with
      | .error error =>
        -- The other tasks are aborted.
        if isMethodNotFound texts error then (.ok (), { s with proofSupported := false })
        else collectTasks died rest s
      | .ok proof =>
        match accountOfProof H proof (node.getCodeAt address) with
        | .error _ => collectTasks died rest s
        | .ok info =>
          match insertProofSlots db address proof.storageProof (db.insertAccountInfo s.cache address info) with
          | (.error error, cache) => (.error error, { s with cache })
          | (.ok (), cache) => collectTasks died rest { s with cache }

/-- The tasks end in the order of `joins`. -/
def prefetchSlotsIntoCache (died : Address → Option String) (joins : List (Address × List B256)) (s : Cached Cache) :
    Except PrefetchError Unit × Cached Cache :=
  if !s.proofSupported then (.ok (), s) else collectTasks H texts db node died joins s

/-- The hints of a program: the slots it stores to, and the contracts it calls. -/
def hintsFromStateUpdates (contract : Address) (updates : List StateUpdate) : OrdMap Address (List B256) :=
  updates.foldl (fun hints update =>
    match update with
    | .store s => hints.insert contract (((hints.get contract).getD []) ++ [s.slot])
    | .call c => hints.insert c.target ((hints.get c.target).getD [])
    | _ => hints) (OrdMap.empty.insert contract [])

def mergeHints (hints other : OrdMap Address (List B256)) : OrdMap Address (List B256) :=
  other.entries.foldl (fun hints e => hints.insert e.1 (((hints.get e.1).getD []) ++ e.2)) hints

/-- The hints of the frames of a tree. -/
def frameTreeHints (frames : List FrameProgram) : OrdMap Address (List B256) :=
  frames.foldl (fun hints frame =>
    mergeHints hints (hintsFromStateUpdates frame.target (withoutNestedOps frame.updates))) OrdMap.empty

end

/-! ### Estimates -/

inductive HintedError where
  | prefetch (error : PrefetchError)
  | estimate (error : EstimateError)

section

variable {Cache Spec : Type} (H : Hashes) (texts : Texts) (db : CacheDb Cache) (revm : Revm (Cached Cache) Spec)
  (estimatorCode : Bytes)

/-- A fresh cache over the block. -/
def Cached.fresh : Cached Cache := ⟨db.new, true⟩

/-- Prefetches, by the answers of `node`, before it goes on. -/
def withHints {α : Type} (node : Node) (died : Address → Option String) (joins : List (Address × List B256))
    (estimate : Cached Cache → Estimate α) : Except HintedError α :=
  match prefetchSlotsIntoCache H texts db node died joins (Cached.fresh db) with
  | (.error error, _) => .error (.prefetch error)
  | (.ok (), s) => (estimate s).mapError .estimate

def estimateStateChangesGasWithHints (node : Node) (died : Address → Option String) (joins : List (Address × List B256))
    (contract caller : Address) (updates : List StateUpdate) (value : U256) (simEnv : SimEnvOpts Spec) :
    Except HintedError UInt64 :=
  withHints H texts db node died joins fun s =>
    estimateStateChangesGas H revm estimatorCode s contract caller updates { simEnv with value }

def estimateFrameTreeGasWithHints (node : Node) (died : Address → Option String) (joins : List (Address × List B256))
    (frames : List FrameProgram) (caller : Address) (value : U256) (simEnv : SimEnvOpts Spec) :
    Except HintedError (List UInt64) :=
  withHints H texts db node died joins fun s =>
    estimateFrameTreeGas H revm estimatorCode s frames caller value { simEnv with value }

end

end GasAnalyzer.Estimator
