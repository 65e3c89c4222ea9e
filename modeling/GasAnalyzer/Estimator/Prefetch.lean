import GasAnalyzer.Estimator.Injection
import GasAnalyzer.Estimator.Interchange
import GasAnalyzer.Estimator.Malformed
import GasAnalyzer.Estimator.SimpleRpcDb

/-!
# Prefetching is transparent

Whatever is prefetched, in whatever order the tasks end and whichever of them fail, the cache only ever holds what the
block holds. An estimate on it reads what an estimate on an empty cache reads, so both measure the same gas. What was
answered is held, and is not asked for again.
-/

namespace GasAnalyzer.Estimator

open Outcome

/-! ### The block and its nodes -/

/-- The state of the block that is read. -/
structure BlockState where
  balance : Address → U256
  nonce : Address → UInt64
  code : Address → Bytes
  storage : Address → U256 → U256

def BlockState.account (H : Hashes) (b : BlockState) (a : Address) : AccountInfo :=
  ⟨b.balance a, b.nonce a, H.keccak256 (b.code a), some (b.code a)⟩

/-- What the node answers is so; it may fail to answer. -/
structure Node.Truthful (H : Hashes) (b : BlockState) (node : Node) : Prop where
  proof : ∀ {a keys proof}, node.getProof a keys = .ok proof → proof.balance = b.balance a ∧ proof.nonce = b.nonce a ∧
    (proof.codeHash = H.keccak256 (b.code a) ∨ proof.codeHash = 0 ∧ b.code a = []) ∧
      ∀ e ∈ proof.storageProof, e.2 = b.storage a e.1
  code : ∀ {a code}, node.getCodeAt a = .ok code → code = b.code a
  balance : ∀ {a balance}, node.getBalance a = .ok balance → balance = b.balance a
  nonce : ∀ {a nonce}, node.getTransactionCount a = .ok nonce → nonce = b.nonce a
  storage : ∀ {a k value}, node.getStorageAt a k = .ok value → value = b.storage a k

/-- The node answers what is read on demand; it need not serve `eth_getProof`. -/
structure Node.Answers (texts : Texts) (node : Node) : Prop where
  proof : ∀ a, (∃ proof, node.getProof a [] = .ok proof) ∨
    ∃ error, node.getProof a [] = .error error ∧ isMethodNotFound texts error = true
  code : ∀ a, ∃ code, node.getCodeAt a = .ok code
  balance : ∀ a, ∃ balance, node.getBalance a = .ok balance
  nonce : ∀ a, ∃ nonce, node.getTransactionCount a = .ok nonce
  storage : ∀ a k, ∃ value, node.getStorageAt a k = .ok value

variable {H : Hashes} {texts : Texts} {b : BlockState} {node : Node} {a : Address}

/-- Either way an account is put together, it is the account of the block. -/
theorem Node.Truthful.accountOfProof (truthful : node.Truthful H b) (hashes : CodeHashes H) {keys : List B256}
    {proof : AccountProof} {info : AccountInfo} (proved : node.getProof a keys = .ok proof)
    (fetched : accountOfProof H proof (node.getCodeAt a) = .ok info) : info = b.account H a := by
  obtain ⟨balance, nonce, hash, -⟩ := truthful.proof proved
  have same : proofCodeHash H proof.codeHash = H.keccak256 (b.code a) := by
    unfold proofCodeHash
    rcases hash with hash | ⟨hash, none⟩
    · rw [hash, if_neg (hashes.nonzero _)]
    · rw [hash, if_pos rfl, none]
  unfold Estimator.accountOfProof at fetched
  dsimp only at fetched
  rw [same, balance, nonce] at fetched
  split at fetched
  · cases answered : node.getCodeAt a with
    | error error =>
      rw [answered] at fetched
      cases fetched
    | ok code =>
      rw [answered, truthful.code answered] at fetched
      exact (Except.ok.inj fetched).symm
  · rename_i plain
    have none := hashes.empty (Decidable.not_not.mp plain)
    rw [← Except.ok.inj fetched, BlockState.account, none]

theorem Node.Truthful.fetchAccountParallel (truthful : node.Truthful H b) {info : AccountInfo}
    (fetched : fetchAccountParallel H node a = .ok info) : info = b.account H a := by
  obtain ⟨balance, answered, fetched⟩ := bind_ok fetched
  obtain ⟨nonce, answered', fetched⟩ := bind_ok fetched
  obtain ⟨code, answered'', fetched⟩ := bind_ok fetched
  rw [← Except.ok.inj fetched, truthful.balance (mapError_ok answered), truthful.nonce (mapError_ok answered'),
    truthful.code (mapError_ok answered''), BlockState.account]

theorem Node.Truthful.fetchAccount (truthful : node.Truthful H b) (hashes : CodeHashes H) {proofSupported : Bool}
    {info : AccountInfo} (fetched : (fetchAccount H texts node proofSupported a).1 = .ok info) : info = b.account H a := by
  unfold Estimator.fetchAccount at fetched
  split at fetched
  · unfold tryFetchWithProof at fetched
    cases proved : node.getProof a [] with
    | error error =>
      rw [proved] at fetched
      dsimp only at fetched
      split at fetched
      · rename_i info' outcome
        split at outcome <;> cases outcome
      · exact truthful.fetchAccountParallel fetched
      · cases fetched
    | ok proof =>
      rw [proved] at fetched
      dsimp only at fetched
      cases found : Estimator.accountOfProof H proof (node.getCodeAt a) with
      | error error =>
        rw [found] at fetched
        cases fetched
      | ok info' =>
        rw [found] at fetched
        obtain rfl := Except.ok.inj fetched
        exact truthful.accountOfProof hashes proved found
  · exact truthful.fetchAccountParallel fetched

theorem Node.Answers.fetchAccount (answers : node.Answers texts) (proofSupported : Bool) :
    ∃ info, (fetchAccount H texts node proofSupported a).1 = .ok info := by
  obtain ⟨code, isCode⟩ := answers.code a
  obtain ⟨balance, isBalance⟩ := answers.balance a
  obtain ⟨nonce, isNonce⟩ := answers.nonce a
  have parallel : ∃ info, Estimator.fetchAccountParallel H node a = .ok info := by
    unfold Estimator.fetchAccountParallel
    rw [isBalance, isNonce, isCode]
    exact ⟨_, rfl⟩
  unfold Estimator.fetchAccount
  split
  · unfold tryFetchWithProof
    rcases answers.proof a with ⟨proof, proved⟩ | ⟨error, refused, unsupported⟩
    · have found : ∃ info, accountOfProof H proof (node.getCodeAt a) = .ok info := by
        unfold accountOfProof
        dsimp only
        rw [isCode]
        split <;> exact ⟨_, rfl⟩
      obtain ⟨info, found⟩ := found
      rw [proved]
      dsimp only
      rw [found]
      exact ⟨info, rfl⟩
    · rw [refused]
      dsimp only
      rw [if_pos unsupported]
      exact parallel
  · exact parallel

/-! ### The cache -/

/-- What is relied on of revm's `CacheDB`. An account goes in as it is if its code hash is that of its code. -/
structure CacheDb.Lawful {Cache : Type} (H : Hashes) (db : CacheDb Cache) : Prop where
  info_new : ∀ a, db.info db.new a = none
  slot_new : ∀ a k, db.slot db.new a k = none
  info_insertAccountInfo : ∀ {cache a info code}, info.code = some code → info.codeHash = H.keccak256 code →
    info.codeHash ≠ 0 → ∀ a', db.info (db.insertAccountInfo cache a info) a' = if a' = a then some info else db.info cache a'
  slot_insertAccountInfo : ∀ cache a info a' k, db.slot (db.insertAccountInfo cache a info) a' k = db.slot cache a' k
  insertAccountStorage : ∀ {cache a}, (db.info cache a).isSome = true → ∀ k value, ∃ cache',
    db.insertAccountStorage cache a k value = .ok cache' ∧ (∀ a', db.info cache' a' = db.info cache a') ∧
      ∀ a' k', db.slot cache' a' k' = if a' = a ∧ k' = k then some value else db.slot cache a' k'

variable {Cache : Type} {db : CacheDb Cache} {cache : Cache} {s t : Cached Cache}

/-- What the cache holds is the block's. -/
structure CacheDb.Mirrors (H : Hashes) (db : CacheDb Cache) (b : BlockState) (cache : Cache) : Prop where
  info : ∀ {a info}, db.info cache a = some info → info = b.account H a
  slot : ∀ {a k value}, db.slot cache a k = some value → value = b.storage a k

theorem CacheDb.Lawful.mirrors_new (lawful : db.Lawful H) : db.Mirrors H b db.new where
  info held := by
    rw [lawful.info_new] at held
    cases held
  slot held := by
    rw [lawful.slot_new] at held
    cases held

theorem CacheDb.Lawful.held_account (lawful : db.Lawful H) (hashes : CodeHashes H) (cache : Cache) (a a' : Address) :
    db.info (db.insertAccountInfo cache a (b.account H a)) a' = if a' = a then some (b.account H a) else db.info cache a' :=
  lawful.info_insertAccountInfo rfl rfl (hashes.nonzero _) a'

theorem CacheDb.Mirrors.insertAccountInfo (mirrors : db.Mirrors H b cache) (lawful : db.Lawful H) (hashes : CodeHashes H) :
    db.Mirrors H b (db.insertAccountInfo cache a (b.account H a)) where
  info {a' info} held := by
    rw [lawful.held_account hashes] at held
    split at held
    · rename_i here
      rw [← Option.some.inj held, here]
    · exact mirrors.info held
  slot held := by
    rw [lawful.slot_insertAccountInfo] at held
    exact mirrors.slot held

/-- The slots of a proof all go in, and the cache still mirrors the block. -/
theorem CacheDb.Mirrors.insertProofSlots (mirrors : db.Mirrors H b cache) (lawful : db.Lawful H)
    (held : (db.info cache a).isSome = true) {slots : List (U256 × U256)} (so : ∀ e ∈ slots, e.2 = b.storage a e.1) :
    ∃ cache', insertProofSlots db a slots cache = (.ok (), cache') ∧ db.Mirrors H b cache' ∧
      (∀ a', db.info cache' a' = db.info cache a') ∧
      (∀ a' k', (db.slot cache a' k').isSome = true → (db.slot cache' a' k').isSome = true) ∧
      ∀ e ∈ slots, (db.slot cache' a e.1).isSome = true := by
  induction slots generalizing cache with
  | nil => exact ⟨cache, rfl, mirrors, fun _ => rfl, fun _ _ there => there, fun e member => absurd member List.not_mem_nil⟩
  | cons e slots ih =>
    obtain ⟨k, value⟩ := e
    obtain ⟨cache₁, inserted, infos, slots₁⟩ := lawful.insertAccountStorage held k value
    have mirrors₁ : db.Mirrors H b cache₁ := by
      refine ⟨fun {a' info} there => mirrors.info ((infos a').symm.trans there), fun {a' k' v} there => ?_⟩
      rw [slots₁] at there
      split at there
      · rename_i here
        rw [← Option.some.inj there, here.1, here.2]
        exact so _ List.mem_cons_self
      · exact mirrors.slot there
    have keeps : ∀ a' k', (db.slot cache a' k').isSome = true → (db.slot cache₁ a' k').isSome = true := by
      intro a' k' there
      rw [slots₁]
      split
      · rfl
      · exact there
    obtain ⟨cache', rest, mirrors', infos', keeps', all⟩ :=
      ih mirrors₁ (by rw [infos]; exact held) (fun e member => so e (List.mem_cons_of_mem _ member))
    refine ⟨cache', ?_, mirrors', fun a' => (infos' a').trans (infos a'), fun a' k' there => keeps' a' k' (keeps a' k' there), ?_⟩
    · rw [Estimator.insertProofSlots, inserted]
      exact rest
    · intro e member
      rcases List.mem_cons.mp member with rfl | later
      · exact keeps' a k (by rw [slots₁, if_pos ⟨rfl, rfl⟩]; rfl)
      · exact all e later

/-! ### The tasks -/

/-- What the first cache holds, the second does. -/
structure CacheDb.Grows (db : CacheDb Cache) (cache cache' : Cache) : Prop where
  info : ∀ {a}, (db.info cache a).isSome = true → (db.info cache' a).isSome = true
  slot : ∀ {a k}, (db.slot cache a k).isSome = true → (db.slot cache' a k).isSome = true

theorem CacheDb.Grows.refl (cache : Cache) : db.Grows cache cache := ⟨fun held => held, fun held => held⟩

theorem CacheDb.Grows.trans {cache' cache'' : Cache} (first : db.Grows cache cache') (second : db.Grows cache' cache'') :
    db.Grows cache cache'' :=
  ⟨fun held => second.info (first.info held), fun held => second.slot (first.slot held)⟩

/-- The account and the slots of a proof are held. -/
def CacheDb.Holds (db : CacheDb Cache) (cache : Cache) (a : Address) (proof : AccountProof) : Prop :=
  (db.info cache a).isSome = true ∧ ∀ e ∈ proof.storageProof, (db.slot cache a e.1).isSome = true

theorem CacheDb.Holds.grows {cache' : Cache} {proof : AccountProof} (holds : db.Holds cache a proof)
    (grows : db.Grows cache cache') : db.Holds cache' a proof :=
  ⟨grows.info holds.1, fun e member => grows.slot (holds.2 e member)⟩

/-- The node says that it does not serve `eth_getProof`. -/
def Node.Refuses (texts : Texts) (node : Node) (task : Address × List B256) : Prop :=
  ∃ error, node.getProof task.1 task.2 = .error error ∧ isMethodNotFound texts error = true

variable {died : Address → Option String} {joins : List (Address × List B256)}

/-- Joining one task: the block's account and slots go in, or nothing does. -/
theorem collectTasks_cons (texts : Texts) (keys : List B256) (rest : List (Address × List B256)) (truthful : node.Truthful H b) (lawful : db.Lawful H) (hashes : CodeHashes H)
    (alive : died a = none) (mirrors : db.Mirrors H b s.cache) :
    (node.Refuses texts (a, keys) ∧
      collectTasks H texts db node died ((a, keys) :: rest) s = (.ok (), { s with proofSupported := false })) ∨
    ∃ cache', collectTasks H texts db node died ((a, keys) :: rest) s =
        collectTasks H texts db node died rest { s with cache := cache' } ∧
      db.Mirrors H b cache' ∧ db.Grows s.cache cache' ∧
      ∀ proof code, node.getProof a keys = .ok proof → node.getCodeAt a = .ok code → db.Holds cache' a proof := by
  rw [collectTasks, alive]
  dsimp only
  cases proved : node.getProof a keys with
  | error error =>
    dsimp only
    split
    · rename_i unsupported
      exact Or.inl ⟨⟨error, proved, unsupported⟩, rfl⟩
    · exact Or.inr ⟨s.cache, rfl, mirrors, .refl _, fun proof _ other _ => by cases other⟩
  | ok proof =>
    dsimp only
    cases fetched : accountOfProof H proof (node.getCodeAt a) with
    | error error =>
      refine Or.inr ⟨s.cache, rfl, mirrors, .refl _, fun proof' code same answered => ?_⟩
      obtain rfl := Except.ok.inj same
      unfold accountOfProof at fetched
      rw [answered] at fetched
      dsimp only at fetched
      split at fetched <;> cases fetched
    | ok info =>
      obtain rfl := truthful.accountOfProof hashes proved fetched
      have held : (db.info (db.insertAccountInfo s.cache a (b.account H a)) a).isSome = true := by
        rw [lawful.held_account hashes, if_pos rfl]
        rfl
      obtain ⟨cache', inserted, mirrors', infos, keeps, all⟩ := (mirrors.insertAccountInfo lawful hashes).insertProofSlots
        lawful held (truthful.proof proved).2.2.2
      refine Or.inr ⟨cache', ?_, mirrors', ⟨fun {a'} there => ?_, fun {a' k} there => ?_⟩, fun proof' code same _ => ?_⟩
      · dsimp only
        rw [inserted]
      · rw [infos, lawful.held_account hashes]
        split
        · rfl
        · exact there
      · exact keeps a' k (by rwa [lawful.slot_insertAccountInfo])
      · obtain rfl := Except.ok.inj same
        exact ⟨by rw [infos]; exact held, all⟩

/-- Whatever the tasks came to, the cache mirrors the block, and only a task that died stops the prefetch. -/
theorem collectTasks_mirrors (texts : Texts) (joins : List (Address × List B256)) (truthful : node.Truthful H b) (lawful : db.Lawful H) (hashes : CodeHashes H)
    (alive : ∀ a, died a = none) (mirrors : db.Mirrors H b s.cache) :
    ∃ s', collectTasks H texts db node died joins s = (.ok (), s') ∧ db.Mirrors H b s'.cache ∧
      db.Grows s.cache s'.cache := by
  induction joins generalizing s with
  | nil => exact ⟨s, rfl, mirrors, .refl _⟩
  | cons task rest ih =>
    obtain ⟨a, keys⟩ := task
    rcases collectTasks_cons texts keys rest truthful lawful hashes (alive a) mirrors with
      ⟨-, same⟩ | ⟨cache', same, mirrors', grows, -⟩
    · exact ⟨_, same, mirrors, .refl _⟩
    · obtain ⟨s', collected, mirrors'', grows'⟩ := ih (s := { s with cache := cache' }) mirrors'
      exact ⟨s', same.trans collected, mirrors'', grows.trans grows'⟩

/-- What a task was answered is held, whatever became of the others, unless the node has no `eth_getProof`. -/
theorem collectTasks_holds (truthful : node.Truthful H b) (lawful : db.Lawful H) (hashes : CodeHashes H)
    (alive : ∀ a, died a = none) (mirrors : db.Mirrors H b s.cache) (serves : ∀ task ∈ joins, ¬node.Refuses texts task)
    {task : Address × List B256} (member : task ∈ joins) {proof : AccountProof} {code : Bytes}
    (proved : node.getProof task.1 task.2 = .ok proof) (fetched : node.getCodeAt task.1 = .ok code) :
    db.Holds (collectTasks H texts db node died joins s).2.cache task.1 proof := by
  induction joins generalizing s with
  | nil => exact absurd member List.not_mem_nil
  | cons first rest ih =>
    obtain ⟨a, keys⟩ := first
    rcases collectTasks_cons texts keys rest truthful lawful hashes (alive a) mirrors with
      ⟨refuses, -⟩ | ⟨cache', same, mirrors', -, holds⟩
    · exact absurd refuses (serves _ List.mem_cons_self)
    · rw [same]
      rcases List.mem_cons.mp member with rfl | later
      · obtain ⟨s', collected, -, grows⟩ := collectTasks_mirrors texts rest
          (s := { s with cache := cache' }) truthful lawful hashes alive mirrors'
        rw [collected]
        exact (holds proof code proved fetched).grows grows
      · exact ih mirrors' (fun task there => serves task (List.mem_cons_of_mem _ there)) later

/-! ### Reads -/

section

variable (H : Hashes) (texts : Texts) (db : CacheDb Cache) (node : Node)

/-- What a read of an account shows: what is held of it, else what the database answers. -/
def Cached.shownInfo (s : Cached Cache) (a : Address) : Option AccountInfo :=
  (db.info s.cache a).or (fetchAccount H texts node s.proofSupported a).1.toOption

def Cached.shownSlot (s : Cached Cache) (a : Address) (k : U256) : Option U256 :=
  (db.slot s.cache a k).or (storageRef node a k).toOption

/-- Every read shows the same. -/
def SameReads (s t : Cached Cache) : Prop :=
  ∀ a, s.shownInfo H texts db node a = t.shownInfo H texts db node a ∧ ∀ k, s.shownSlot db node a k = t.shownSlot db node a k

end

/-- A cache that mirrors the block shows the block. -/
theorem CacheDb.Mirrors.shown (mirrors : db.Mirrors H b s.cache) (hashes : CodeHashes H) (truthful : node.Truthful H b)
    (answers : node.Answers texts) (a : Address) :
    s.shownInfo H texts db node a = some (b.account H a) ∧ ∀ k, s.shownSlot db node a k = some (b.storage a k) := by
  refine ⟨?_, fun k => ?_⟩
  · unfold Cached.shownInfo
    cases held : db.info s.cache a with
    | some info => rw [mirrors.info held, Option.some_or]
    | none =>
      obtain ⟨info, fetched⟩ := answers.fetchAccount (H := H) (a := a) s.proofSupported
      rw [Option.none_or, fetched, truthful.fetchAccount hashes fetched]
      rfl
  · unfold Cached.shownSlot
    cases held : db.slot s.cache a k with
    | some value => rw [mirrors.slot held, Option.some_or]
    | none =>
      obtain ⟨value, answered⟩ := answers.storage a k
      rw [Option.none_or, storageRef, answered, truthful.storage answered]
      rfl

/-- A prefetch by `early`, whatever it answers, shows what an empty cache shows. -/
theorem prefetchSlotsIntoCache_reads {early : Node} (hashes : CodeHashes H) (lawful : db.Lawful H)
    (truthful : early.Truthful H b) (truthful' : node.Truthful H b) (answers : node.Answers texts)
    (alive : ∀ a, died a = none) (joins : List (Address × List B256)) :
    ∃ s, prefetchSlotsIntoCache H texts db early died joins (Cached.fresh db) = (.ok (), s) ∧
      SameReads H texts db node s (Cached.fresh db) := by
  have fresh : db.Mirrors H b (Cached.fresh db).cache := lawful.mirrors_new
  obtain ⟨s, collected, mirrors, -⟩ := collectTasks_mirrors texts joins truthful lawful hashes alive fresh
  refine ⟨s, collected, fun a => ?_⟩
  obtain ⟨info, slot⟩ := mirrors.shown hashes truthful' answers a
  obtain ⟨info', slot'⟩ := fresh.shown hashes truthful' answers a
  exact ⟨info.trans info'.symm, fun k => (slot k).trans (slot' k).symm⟩

/-- An estimate after a prefetch measures the gas an estimate without one measures, whatever was hinted, in whatever order
the tasks ended, whichever of their requests failed, and whether or not the node serves `eth_getProof`. -/
theorem estimates_prefetched {Spec : Type} {revm : Revm (Cached Cache) Spec} {early : Node} (hashes : CodeHashes H)
    (lawful : db.Lawful H) (truthful : early.Truthful H b) (truthful' : node.Truthful H b) (answers : node.Answers texts)
    (respects : revm.Respects (SameReads H texts db node)) (alive : ∀ a, died a = none) (estimatorCode : Bytes)
    (joins : List (Address × List B256)) (caller : Address) (value : U256) (simEnv : SimEnvOpts Spec) :
    (∀ frames, estimateFrameTreeGasWithHints H texts db revm estimatorCode early died joins frames caller value simEnv =
      (estimateFrameTreeGas H revm estimatorCode (Cached.fresh db) frames caller value { simEnv with value }).mapError
        .estimate) ∧
    ∀ contract updates,
      estimateStateChangesGasWithHints H texts db revm estimatorCode early died joins contract caller updates value simEnv =
        (estimateStateChangesGas H revm estimatorCode (Cached.fresh db) contract caller updates
          { simEnv with value }).mapError .estimate := by
  obtain ⟨s, prefetched, same⟩ := prefetchSlotsIntoCache_reads hashes lawful truthful truthful' answers alive joins
  refine ⟨fun frames => ?_, fun contract updates => ?_⟩
  · unfold estimateFrameTreeGasWithHints withHints
    rw [prefetched]
    dsimp only
    rw [respects.estimateFrameTreeGas H estimatorCode same]
  · unfold estimateStateChangesGasWithHints withHints
    rw [prefetched]
    dsimp only
    rw [respects.estimateStateChangesGas H estimatorCode same]

/-! ### What is hinted -/

/-- The address is hinted, with the keys of `keys` among its keys. -/
def Hinted (hints : OrdMap Address (List B256)) (a : Address) (keys : List B256) : Prop :=
  ∃ all, hints.get a = some all ∧ ∀ k ∈ keys, k ∈ all

variable {hints : OrdMap Address (List B256)} {keys more : List B256} {a' contract : Address} {updates : List StateUpdate}

/-- An entry that only gains keys. -/
theorem Hinted.insert (hinted : Hinted hints a keys) (a' : Address) (more : List B256) :
    Hinted (hints.insert a' (((hints.get a').getD []) ++ more)) a keys := by
  obtain ⟨all, found, inside⟩ := hinted
  by_cases here : a = a'
  · subst here
    refine ⟨all ++ more, ?_, fun k member => List.mem_append_left _ (inside k member)⟩
    rw [OrdMap.get_insert, if_pos rfl, found, Option.getD_some]
  · exact ⟨all, by rw [OrdMap.get_insert, if_neg here, found], inside⟩

theorem hinted_insert (hints : OrdMap Address (List B256)) (a : Address) (more : List B256) :
    Hinted (hints.insert a (((hints.get a).getD []) ++ more)) a more :=
  ⟨_, by rw [OrdMap.get_insert, if_pos rfl], fun _ member => List.mem_append_right _ member⟩

/-- What an update hints: the slot it stores to, the contract it calls. -/
def hintOf (contract : Address) : StateUpdate → Option (Address × List B256)
  | .store s => some (contract, [s.slot])
  | .call c => some (c.target, [])
  | _ => none

theorem hintsFromStateUpdates_eq (contract : Address) (updates : List StateUpdate) :
    hintsFromStateUpdates contract updates = (updates.filterMap (hintOf contract)).foldl
      (fun hints e => hints.insert e.1 (((hints.get e.1).getD []) ++ e.2)) (OrdMap.empty.insert contract []) := by
  unfold hintsFromStateUpdates
  generalize OrdMap.empty.insert contract ([] : List B256) = hints
  induction updates generalizing hints with
  | nil => rfl
  | cons update updates ih =>
    rw [List.foldl_cons]
    cases update <;> simp only [List.filterMap_cons, hintOf, List.foldl_cons, List.append_nil] <;> exact ih _

/-- Inserting hints one after the other keeps those there were, and adds each. -/
theorem hinted_foldl (entries : List (Address × List B256)) (hints : OrdMap Address (List B256)) :
    (∀ a keys, Hinted hints a keys → Hinted (entries.foldl
      (fun hints e => hints.insert e.1 (((hints.get e.1).getD []) ++ e.2)) hints) a keys) ∧
    ∀ e ∈ entries, Hinted (entries.foldl
      (fun hints e => hints.insert e.1 (((hints.get e.1).getD []) ++ e.2)) hints) e.1 e.2 := by
  induction entries generalizing hints with
  | nil => exact ⟨fun _ _ hinted => hinted, fun e member => absurd member List.not_mem_nil⟩
  | cons e entries ih =>
    obtain ⟨keeps, adds⟩ := ih (hints.insert e.1 (((hints.get e.1).getD []) ++ e.2))
    refine ⟨fun a keys hinted => keeps a keys (hinted.insert e.1 e.2), fun e' member => ?_⟩
    rcases List.mem_cons.mp member with rfl | later
    · exact keeps _ _ (hinted_insert hints e'.1 e'.2)
    · exact adds e' later

theorem Hinted.merge {other : OrdMap Address (List B256)} :
    (Hinted hints a keys → Hinted (mergeHints hints other) a keys) ∧
      (Hinted other a keys → Hinted (mergeHints hints other) a keys) := by
  obtain ⟨keeps, adds⟩ := hinted_foldl other.entries hints
  refine ⟨keeps a keys, ?_⟩
  rintro ⟨all, found, inside⟩
  obtain ⟨all', found', inside'⟩ := adds (a, all) (OrdMap.mem_entries.mpr found)
  exact ⟨all', found', fun k member => inside' k (inside k member)⟩

theorem hinted_stateUpdates (contract : Address) (updates : List StateUpdate) :
    Hinted (hintsFromStateUpdates contract updates) contract [] ∧
      ∀ e ∈ updates.filterMap (hintOf contract), Hinted (hintsFromStateUpdates contract updates) e.1 e.2 := by
  rw [hintsFromStateUpdates_eq]
  obtain ⟨keeps, adds⟩ := hinted_foldl (updates.filterMap (hintOf contract)) (OrdMap.empty.insert contract [])
  exact ⟨keeps _ _ ⟨[], by rw [OrdMap.get_insert, if_pos rfl], fun _ member => member⟩, adds⟩

/-- The hints of a tree are those of each of its frames. -/
theorem hinted_frameTree {frames : List FrameProgram} {frame : FrameProgram} (member : frame ∈ frames)
    (hinted : Hinted (hintsFromStateUpdates frame.target (withoutNestedOps frame.updates)) a keys) :
    Hinted (frameTreeHints frames) a keys := by
  have folds : ∀ (frames : List FrameProgram) (hints : OrdMap Address (List B256)),
      Hinted hints a keys ∨ frame ∈ frames → Hinted (frames.foldl (fun hints frame =>
        mergeHints hints (hintsFromStateUpdates frame.target (withoutNestedOps frame.updates))) hints) a keys := by
    intro frames
    induction frames with
    | nil =>
      rintro hints (there | absent)
      · exact there
      · exact absurd absent List.not_mem_nil
    | cons first rest ih =>
      rintro hints (there | there)
      · exact ih _ (Or.inl (Hinted.merge.1 there))
      · rcases List.mem_cons.mp there with rfl | later
        · exact ih _ (Or.inl (Hinted.merge.2 hinted))
        · exact ih _ (Or.inr later)
  exact folds frames OrdMap.empty (Or.inr member)

/-! ### What is held -/

/-- The requests of a task are answered, and the proof shows every key that was asked for. -/
def Node.Proves (node : Node) (task : Address × List B256) : Prop :=
  ∃ proof code, node.getProof task.1 task.2 = .ok proof ∧ node.getCodeAt task.1 = .ok code ∧
    ∀ k ∈ task.2, k ∈ proof.storageProof.map Prod.fst

/-- A hinted address whose task was answered is held, with its keys, as the block has them. -/
theorem prefetch_holds (truthful : node.Truthful H b) (lawful : db.Lawful H) (hashes : CodeHashes H)
    (alive : ∀ a, died a = none) (order : joins.Perm (prefetchTasks hints))
    (serves : ∀ task ∈ joins, ¬node.Refuses texts task) (answered : ∀ task ∈ joins, task.1 = a → node.Proves task)
    (hinted : Hinted hints a keys) :
    db.info (prefetchSlotsIntoCache H texts db node died joins (Cached.fresh db)).2.cache a = some (b.account H a) ∧
      ∀ k ∈ keys, db.slot (prefetchSlotsIntoCache H texts db node died joins (Cached.fresh db)).2.cache a k =
        some (b.storage a k) := by
  have fresh : db.Mirrors H b (Cached.fresh db).cache := lawful.mirrors_new
  obtain ⟨all, found, inside⟩ := hinted
  have task : (a, all.eraseDups) ∈ joins :=
    order.mem_iff.mpr (List.mem_map.mpr ⟨(a, all), OrdMap.mem_entries.mpr found, rfl⟩)
  obtain ⟨proof, code, proved, fetched, shows⟩ := answered _ task rfl
  have holds := collectTasks_holds truthful lawful hashes alive fresh serves task proved fetched
  obtain ⟨s, collected, mirrors, -⟩ := collectTasks_mirrors texts joins truthful lawful hashes alive fresh
  have same : prefetchSlotsIntoCache H texts db node died joins (Cached.fresh db) = (.ok (), s) := collected
  rw [collected] at holds
  rw [same]
  obtain ⟨info, slots⟩ := holds
  refine ⟨?_, fun k member => ?_⟩
  · obtain ⟨i, held⟩ := Option.isSome_iff_exists.mp info
    rw [held, mirrors.info held]
  · obtain ⟨e, proven, isKey⟩ := List.mem_map.mp (shows k (List.mem_eraseDups.mpr (inside k member)))
    obtain ⟨value, held⟩ := Option.isSome_iff_exists.mp (slots e proven)
    rw [isKey] at held
    rw [held, mirrors.slot held]

/-- The hints of a frame tree warm what its programs write and call: of every address whose task was answered, whatever
became of the others. -/
theorem frameTree_prefetched {frames : List FrameProgram} (truthful : node.Truthful H b) (lawful : db.Lawful H)
    (hashes : CodeHashes H) (alive : ∀ a, died a = none) (order : joins.Perm (prefetchTasks (frameTreeHints frames)))
    (serves : ∀ task ∈ joins, ¬node.Refuses texts task) {frame : FrameProgram} (member : frame ∈ frames) :
    ((∀ task ∈ joins, task.1 = frame.target → node.Proves task) →
      db.info (prefetchSlotsIntoCache H texts db node died joins (Cached.fresh db)).2.cache frame.target =
          some (b.account H frame.target) ∧
        ∀ s, StateUpdate.store s ∈ frame.updates →
          db.slot (prefetchSlotsIntoCache H texts db node died joins (Cached.fresh db)).2.cache frame.target s.slot =
            some (b.storage frame.target s.slot)) ∧
    ∀ c, StateUpdate.call c ∈ frame.updates → (∀ task ∈ joins, task.1 = c.target → node.Proves task) →
      db.info (prefetchSlotsIntoCache H texts db node died joins (Cached.fresh db)).2.cache c.target =
        some (b.account H c.target) := by
  obtain ⟨root, each⟩ := hinted_stateUpdates frame.target (withoutNestedOps frame.updates)
  have keeps : ∀ u ∈ frame.updates, u.isNested = false → u ∈ withoutNestedOps frame.updates := by
    intro u there plain
    exact List.mem_filter.mpr ⟨there, by simp [plain]⟩
  refine ⟨fun answered => ⟨?_, fun s there => ?_⟩, fun c there answered => ?_⟩
  · exact (prefetch_holds truthful lawful hashes alive order serves answered (hinted_frameTree member root)).1
  · have hinted := each (frame.target, [s.slot]) (List.mem_filterMap.mpr ⟨_, keeps _ there rfl, rfl⟩)
    exact (prefetch_holds truthful lawful hashes alive order serves answered (hinted_frameTree member hinted)).2 s.slot
      List.mem_cons_self
  · have hinted := each (c.target, []) (List.mem_filterMap.mpr ⟨_, keeps _ there rfl, rfl⟩)
    exact (prefetch_holds truthful lawful hashes alive order serves answered (hinted_frameTree member hinted)).1

/-! ### A block of empty accounts whose slots all hold 5 -/

def fives : BlockState := ⟨fun _ => 0, fun _ => 0, fun _ => [], fun _ _ => 5⟩

/-- A node of that block, its `eth_getProof` as given for the address. -/
def fivesNode (refuses : Address → Option TransportError) : Node where
  getProof a keys := match refuses a with
    | some error => .error error
    | none => .ok ⟨0, 0, 0, keys.map fun k => (k, 5)⟩
  getCodeAt _ := .ok []
  getBalance _ := .ok 0
  getTransactionCount _ := .ok 0
  getStorageAt _ _ := .ok 5

def noMethod : TransportError :=
  .errorResp ⟨-32601, "method not found".toList, "error code -32601: method not found".toList⟩
    "server returned an error response: error code -32601: method not found".toList

def mapCacheDb : CacheDb ((Address → Option AccountInfo) × (Address → U256 → Option U256)) where
  new := (fun _ => none, fun _ _ => none)
  info cache := cache.1
  slot cache := cache.2
  insertAccountInfo cache a info := (fun a' => if a' = a then some info else cache.1 a', cache.2)
  insertAccountStorage cache a k value :=
    .ok (cache.1, fun a' k' => if a' = a ∧ k' = k then some value else cache.2 a' k')

theorem fivesNode_truthful (refuses : Address → Option TransportError) : (fivesNode refuses).Truthful tabledHashes fives where
  proof {a keys proof} proved := by
    simp only [fivesNode] at proved
    split at proved
    · cases proved
    · obtain rfl := Except.ok.inj proved
      refine ⟨rfl, rfl, Or.inr ⟨rfl, rfl⟩, fun e member => ?_⟩
      obtain ⟨k, -, rfl⟩ := List.mem_map.mp member
      rfl
  code answered := (Except.ok.inj answered).symm
  balance answered := (Except.ok.inj answered).symm
  nonce answered := (Except.ok.inj answered).symm
  storage answered := (Except.ok.inj answered).symm

theorem mapCacheDb_lawful : mapCacheDb.Lawful tabledHashes where
  info_new _ := rfl
  slot_new _ _ := rfl
  info_insertAccountInfo _ _ _ _ := rfl
  slot_insertAccountInfo _ _ _ _ _ := rfl
  insertAccountStorage _ _ _ := ⟨_, rfl, fun _ => rfl, fun _ _ => rfl⟩

def identityTexts : Texts := ⟨id, fun _ => none, fun _ => [], fun _ => []⟩

/-- Standard calldata tokens: four for a nonzero byte. -/
def calldataTokens (data : Bytes) : UInt64 := data.foldl (fun n b => n + if b = 0 then 1 else 4) 0

/-- What a transaction to `storingCode` uses: two pushes and a cold `SSTORE` of 6 over `current`, with the price of the
calldata, or the calldata's floor. -/
def storingGas (data : Bytes) (current : Option U256) : UInt64 :=
  let store := if current = some 6 then 100 else if current = some 0 then 20000 else 2900
  21000 + max (4 * calldataTokens data + 6 + 2100 + store) (10 * calldataTokens data)

/-- A sender's account after its transaction. -/
def sent (shown : Option AccountInfo) : AccountInfo :=
  let sender := shown.getD (absent tabledHashes)
  { sender with nonce := sender.nonce + 1 }

/-- A revm whose contracts all run `storingCode`: it takes the sender's nonce up and stores 6 in the callee's slot 1. -/
def mapRevm (node : Node) : Revm (Cached ((Address → Option AccountInfo) × (Address → U256 → Option U256))) Unit where
  basicRef s a := s.shownInfo tabledHashes identityTexts mapCacheDb node a
  insertAccountInfo s a info := { s with cache := mapCacheDb.insertAccountInfo s.cache a info }
  setCodeHash s a hash :=
    { s with cache := (fun a' => if a' = a then (s.cache.1 a).map fun info => { info with codeHash := hash }
        else s.cache.1 a', s.cache.2) }
  insertAccountStorage s a k value :=
    .ok { s with cache := (s.cache.1, fun a' k' => if a' = a ∧ k' = k then some value else s.cache.2 a' k') }
  osakaOrLater _ := true
  transact s _ tx :=
    .ok (.success (storingGas tx.data (s.shownSlot mapCacheDb node tx.callee 1)),
      { s with cache :=
        (fun a => if a = tx.caller then some (sent (s.shownInfo tabledHashes identityTexts mapCacheDb node tx.caller))
          else s.cache.1 a,
        fun a k => if a = tx.callee ∧ k = 1 then some 6 else s.cache.2 a k) })

theorem mapRevm_respects (node : Node) :
    (mapRevm node).Respects (SameReads tabledHashes identityTexts mapCacheDb node) where
  basicRef same a := (same a).1
  insertAccountInfo {s t} same a info a' := by
    refine ⟨?_, (same a').2⟩
    show (if a' = a then some info else s.cache.1 a').or _ = (if a' = a then some info else t.cache.1 a').or _
    split
    · rfl
    · exact (same a').1
  setCodeHash {s t} same a info hash a' := by
    refine ⟨?_, (same a').2⟩
    show (if a' = a then Option.map _ (if a = a then some info else s.cache.1 a) else if a' = a then some info
        else s.cache.1 a').or _ =
      (if a' = a then Option.map _ (if a = a then some info else t.cache.1 a) else if a' = a then some info
        else t.cache.1 a').or _
    rw [if_pos rfl, if_pos rfl]
    by_cases here : a' = a
    · rw [if_pos here, if_pos here]
      rfl
    · rw [if_neg here, if_neg here, if_neg here, if_neg here]
      exact (same a').1
  insertAccountStorage {s t} same a k value a' := by
    refine ⟨(same a').1, fun k' => ?_⟩
    show (if a' = a ∧ k' = k then some value else s.cache.2 a' k').or _ =
      (if a' = a ∧ k' = k then some value else t.cache.2 a' k').or _
    split
    · rfl
    · exact (same a').2 k'
  transact {s t} same env tx := by
    have gas : storingGas tx.data (s.shownSlot mapCacheDb node tx.callee 1) =
        storingGas tx.data (t.shownSlot mapCacheDb node tx.callee 1) := by
      rw [(same tx.callee).2 1]
    refine ⟨congrArg ExecutionResult.success gas, fun a => ⟨?_, fun k => ?_⟩⟩
    · show (if a = tx.caller then some (sent (s.shownInfo tabledHashes identityTexts mapCacheDb node tx.caller))
          else s.cache.1 a).or _ =
        (if a = tx.caller then some (sent (t.shownInfo tabledHashes identityTexts mapCacheDb node tx.caller))
          else t.cache.1 a).or _
      rw [(same tx.caller).1]
      split
      · rfl
      · exact (same a).1
    · show (if a = tx.callee ∧ k = 1 then some 6 else s.cache.2 a k).or _ =
        (if a = tx.callee ∧ k = 1 then some 6 else t.cache.2 a k).or _
      split
      · rfl
      · exact (same a).2 k

/-- A frame that writes slot 1 of account `0x70` and calls account `0x90`. -/
def writingFrame : FrameProgram := ⟨0x70, 0, 0, 0, none, [.store ⟨1, 6⟩, .call ⟨0x90, 0, []⟩], []⟩

/-- The tasks of `writingFrame`, of which the proof of account `0x90` fails. -/
def flakyNode : Node := fivesNode fun a => if a = 0x90 then some (.other []) else none

theorem writingFrame_tasks : prefetchTasks (frameTreeHints [writingFrame]) = [(0x70, [1]), (0x90, [])] := by decide

/-- The proof of account `0x90` fails, and later none is served; the estimate is the one without hints. -/
theorem estimates_prefetched_flaky :
    estimateFrameTreeGasWithHints tabledHashes identityTexts mapCacheDb (mapRevm (fivesNode fun _ => some noMethod))
        storingCode flakyNode (fun _ => none) (prefetchTasks (frameTreeHints [writingFrame])) [writingFrame] 0x80 0
        plainEnv =
      (estimateFrameTreeGas tabledHashes (mapRevm (fivesNode fun _ => some noMethod)) storingCode
        (Cached.fresh mapCacheDb) [writingFrame] 0x80 0 { plainEnv with value := 0 }).mapError .estimate := by
  have answers : (fivesNode fun _ => some noMethod).Answers identityTexts := {
    proof := fun _ => Or.inr ⟨noMethod, rfl, by decide⟩
    code := fun _ => ⟨_, rfl⟩
    balance := fun _ => ⟨_, rfl⟩
    nonce := fun _ => ⟨_, rfl⟩
    storage := fun _ _ => ⟨_, rfl⟩ }
  exact (estimates_prefetched tabledHashes_codeHashes mapCacheDb_lawful (fivesNode_truthful _) (fivesNode_truthful _) answers
    (mapRevm_respects _) (fun _ => rfl) storingCode _ 0x80 0 plainEnv).1 _

/-- Account `0x70` is held with its slot. -/
theorem frameTree_prefetched_flaky :
    mapCacheDb.slot (prefetchSlotsIntoCache tabledHashes identityTexts mapCacheDb flakyNode (fun _ => none)
      (prefetchTasks (frameTreeHints [writingFrame])) (Cached.fresh mapCacheDb)).2.cache 0x70 1 = some 5 := by
  have serves : ∀ task ∈ prefetchTasks (frameTreeHints [writingFrame]), ¬flakyNode.Refuses identityTexts task := by
    intro task member
    rw [writingFrame_tasks] at member
    rintro ⟨error, refused, unsupported⟩
    rcases List.mem_cons.mp member with rfl | member
    · cases refused
    · obtain rfl := List.mem_singleton.mp member
      cases refused
      cases unsupported
  have warmed := frameTree_prefetched (fivesNode_truthful _) mapCacheDb_lawful tabledHashes_codeHashes (fun _ => rfl)
    (.refl _) serves (List.mem_singleton_self writingFrame)
  refine (warmed.1 fun task member here => ?_).2 ⟨1, 6⟩ List.mem_cons_self
  rw [writingFrame_tasks] at member
  rcases List.mem_cons.mp member with rfl | member
  · exact ⟨⟨0, 0, 0, [(1, 5)]⟩, [], rfl, rfl, fun k asked => asked⟩
  · obtain rfl := List.mem_singleton.mp member
    exact absurd here (by decide)

end GasAnalyzer.Estimator
