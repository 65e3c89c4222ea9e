import GasAnalyzer.Estimator.FrameTree

/-!
# Injection

The estimator takes the place of every contract of a tree, once each: a second injection would stash the estimator as the
original code. What is there afterwards is described at every address, for every list of frames: the contracts run the
estimator and report the hash of their own code, that code is at their backup addresses, and nothing else has changed.
-/

namespace GasAnalyzer.Estimator

variable {Db Spec : Type}

/-- What is relied on of revm's `CacheDB`; `slot` is what it shows of a slot. An account goes in as it is unless its hash
is zero, or that of no code while it has code. -/
structure Revm.Stores (H : Hashes) (revm : Revm Db Spec) (slot : Db → Address → U256 → U256) : Prop where
  info_insert : ∀ info : AccountInfo, info.codeHash ≠ 0 → (info.codeHash = H.keccak256 [] → info.code.getD [] = []) →
    ∀ db a a', revm.basicRef (revm.insertAccountInfo db a info) a' = if a' = a then some info else revm.basicRef db a'
  info_setCodeHash : ∀ {db a info}, revm.basicRef db a = some info → ∀ hash a',
    revm.basicRef (revm.setCodeHash db a hash) a' =
      if a' = a then some { info with codeHash := hash } else revm.basicRef db a'
  slot_insert : ∀ db a info a' k, slot (revm.insertAccountInfo db a info) a' k = slot db a' k
  slot_setCodeHash : ∀ db a hash a' k, slot (revm.setCodeHash db a hash) a' k = slot db a' k
  insertAccountStorage : ∀ {db a}, (revm.basicRef db a).isSome = true → ∀ k value, ∃ db',
    revm.insertAccountStorage db a k value = .ok db' ∧ (∀ a', revm.basicRef db' a' = revm.basicRef db a') ∧
      ∀ a' k', slot db' a' k' = if a' = a ∧ k' = k then value else slot db a' k'

/-- No code hashes to zero, and only no code to the hash of no code. -/
structure CodeHashes (H : Hashes) : Prop where
  nonzero : ∀ code, H.keccak256 code ≠ 0
  empty : ∀ {code}, H.keccak256 code = H.keccak256 [] → code = []

section

variable (H : Hashes) (estimatorCode : Bytes)

/-- The account a missing one stands for. -/
def absent : AccountInfo := ⟨0, 0, H.keccak256 [], none⟩

def AccountInfo.storedHash (info : AccountInfo) (code : Bytes) : B256 :=
  if info.codeHash = 0 ∨ info.codeHash = H.keccak256 [] then H.keccak256 code else info.codeHash

def AccountInfo.original (info : AccountInfo) : Option Bytes := info.code.filter (fun code => !code.isEmpty)

/-- The estimator in the place of an account: it reports the hash of the account's own code. -/
def AccountInfo.replaced (info : AccountInfo) : AccountInfo where
  balance := info.balance
  nonce := info.nonce
  codeHash := (info.original.map (info.storedHash H)).getD (H.keccak256 estimatorCode)
  code := some estimatorCode

/-- What is kept of an account: its code, under its hash. -/
def AccountInfo.backup (info : AccountInfo) : Option AccountInfo :=
  info.original.map fun code => ⟨0, 0, info.storedHash H code, some code⟩

end

section

variable {H : Hashes} {revm : Revm Db Spec} {estimatorCode : Bytes} {slot : Db → Address → U256 → U256} {db : Db}

/-- Once the original code is stashed, the estimator goes in its place. -/
theorem inject_spec (stores : revm.Stores H slot) (hashes : CodeHashes H) (some : estimatorCode ≠ []) (db : Db)
    (contract : Address) (balance : U256) (nonce : UInt64) (hash : B256) (value : U256) :
    ∃ db', revm.insertAccountStorage (revm.setCodeHash (revm.insertAccountInfo db contract
        ⟨balance, nonce, H.keccak256 estimatorCode, .some estimatorCode⟩) contract hash) contract (implSlot H) value = .ok db' ∧
      (∀ a, revm.basicRef db' a =
        if a = contract then .some ⟨balance, nonce, hash, .some estimatorCode⟩ else revm.basicRef db a) ∧
      ∀ a k, slot db' a k = if a = contract ∧ k = implSlot H then value else slot db a k := by
  have inserted := stores.info_insert ⟨balance, nonce, H.keccak256 estimatorCode, .some estimatorCode⟩
    (hashes.nonzero _) (fun same => absurd (hashes.empty same) some) db contract
  have there := inserted contract
  rw [if_pos rfl] at there
  have hashed := stores.info_setCodeHash there hash
  have held : (revm.basicRef (revm.setCodeHash (revm.insertAccountInfo db contract
      ⟨balance, nonce, H.keccak256 estimatorCode, .some estimatorCode⟩) contract hash) contract).isSome = true := by
    rw [hashed, if_pos rfl]
    rfl
  obtain ⟨db', stored, infos, slots⟩ := stores.insertAccountStorage held (implSlot H) value
  refine ⟨db', stored, fun a => ?_, fun a k => ?_⟩
  · rw [infos, hashed]
    split
    · rfl
    · rename_i other
      rw [inserted, if_neg other]
  · rw [slots]
    split
    · rfl
    · rw [stores.slot_setCodeHash, stores.slot_insert]

/-- Injecting one contract: its account, its backup, its slot, and nothing else. -/
theorem injectEstimator_spec (stores : revm.Stores H slot) (hashes : CodeHashes H) (some : estimatorCode ≠ [])
    (contract : Address) {info : AccountInfo} (here : (revm.basicRef db contract).getD (absent H) = info) :
    ∃ db', injectEstimator H revm estimatorCode db contract = .ok db' ∧
      (∀ a, revm.basicRef db' a =
        if a = contract then .some (info.replaced H estimatorCode)
        else if a = backupAddress H contract then (info.backup H).or (revm.basicRef db a) else revm.basicRef db a) ∧
      ∀ a k, slot db' a k =
        if a = contract ∧ k = implSlot H then Fin.castLE (by decide) (backupAddress H contract) else slot db a k := by
  obtain ⟨balance, nonce, codeHash, code⟩ := info
  have original : (revm.basicRef db contract).getD ⟨0, 0, H.keccak256 [], none⟩ = ⟨balance, nonce, codeHash, code⟩ := here
  unfold injectEstimator
  dsimp only
  rw [original]
  dsimp only
  cases code with
  | none =>
    obtain ⟨db', stored, infos, slots⟩ := inject_spec stores hashes some db contract balance nonce
      (H.keccak256 estimatorCode) (Fin.castLE (by decide) (backupAddress H contract))
    refine ⟨db', by dsimp only; rw [stored]; rfl, fun a => ?_, slots⟩
    rw [infos]
    split
    · rfl
    · split <;> rfl
  | some code =>
    cases code with
    | nil =>
      obtain ⟨db', stored, infos, slots⟩ := inject_spec stores hashes some db contract balance nonce
        (H.keccak256 estimatorCode) (Fin.castLE (by decide) (backupAddress H contract))
      refine ⟨db', by dsimp only; rw [if_pos List.isEmpty_nil]; dsimp only; rw [stored]; rfl, fun a => ?_, slots⟩
      rw [infos]
      split
      · rfl
      · split <;> rfl
    | cons byte bytes =>
      obtain ⟨hash, isHash⟩ : ∃ hash, AccountInfo.storedHash H ⟨balance, nonce, codeHash, .some (byte :: bytes)⟩
        (byte :: bytes) = hash := ⟨_, rfl⟩
      have proper : hash ≠ 0 ∧ hash ≠ H.keccak256 [] := by
        rw [← isHash]
        unfold AccountInfo.storedHash
        split
        · exact ⟨hashes.nonzero _, fun same => absurd (hashes.empty same) (List.cons_ne_nil _ _)⟩
        · rename_i stored
          exact ⟨fun zero => stored (Or.inl zero), fun none => stored (Or.inr none)⟩
      have backup : AccountInfo.backup H ⟨balance, nonce, codeHash, .some (byte :: bytes)⟩ =
          .some ⟨0, 0, hash, .some (byte :: bytes)⟩ := by
        rw [← isHash]
        rfl
      have replaced : AccountInfo.replaced H estimatorCode ⟨balance, nonce, codeHash, .some (byte :: bytes)⟩ =
          ⟨balance, nonce, hash, .some estimatorCode⟩ := by
        rw [← isHash]
        rfl
      have stashed := stores.info_insert ⟨0, 0, hash, .some (byte :: bytes)⟩ proper.1
        (fun same => absurd same proper.2) db (backupAddress H contract)
      obtain ⟨db', stored, infos, slots⟩ := inject_spec stores hashes some (revm.insertAccountInfo db
        (backupAddress H contract) ⟨0, 0, hash, .some (byte :: bytes)⟩) contract balance nonce hash
        (Fin.castLE (by decide) (backupAddress H contract))
      have branch : (if codeHash = 0 ∨ codeHash = H.keccak256 [] then H.keccak256 (byte :: bytes) else codeHash) = hash :=
        isHash
      refine ⟨db', ?_, fun a => ?_, fun a k => ?_⟩
      · dsimp only
        rw [if_neg (by simp), branch]
        exact congrArg _ stored
      · rw [infos, backup, replaced]
        split
        · rfl
        · rw [stashed]
          split <;> rfl
      · rw [slots, stores.slot_insert]

/-! ### The targets of a tree -/

/-- No contract is the backup of another, and no two share one. -/
structure Apart (H : Hashes) (contracts : List Address) : Prop where
  backup : ∀ s ∈ contracts, ∀ t ∈ contracts, backupAddress H s ≠ t
  distinct : ∀ s ∈ contracts, ∀ t ∈ contracts, backupAddress H s = backupAddress H t → s = t

/-- The state `db₀` with the estimator in the place of the contracts. -/
structure Injected (H : Hashes) (revm : Revm Db Spec) (estimatorCode : Bytes) (slot : Db → Address → U256 → U256) (db₀ : Db)
    (contracts : List Address) (db : Db) : Prop where
  /-- A contract runs the estimator, and otherwise is what it was. -/
  contract : ∀ t ∈ contracts,
    revm.basicRef db t = .some (((revm.basicRef db₀ t).getD (absent H)).replaced H estimatorCode)
  /-- Its own code is kept. -/
  backup : ∀ t ∈ contracts, revm.basicRef db (backupAddress H t) =
    (((revm.basicRef db₀ t).getD (absent H)).backup H).or (revm.basicRef db₀ (backupAddress H t))
  other : ∀ a, a ∉ contracts → (∀ t ∈ contracts, a ≠ backupAddress H t) → revm.basicRef db a = revm.basicRef db₀ a
  slots : ∀ a k, slot db a k =
    if a ∈ contracts ∧ k = implSlot H then Fin.castLE (by decide) (backupAddress H a) else slot db₀ a k

variable {db₀ : Db} {contracts contracts' : List Address}

theorem Injected.congr (injected : Injected H revm estimatorCode slot db₀ contracts db)
    (same : ∀ a, a ∈ contracts ↔ a ∈ contracts') : Injected H revm estimatorCode slot db₀ contracts' db where
  contract t member := injected.contract t ((same t).mpr member)
  backup t member := injected.backup t ((same t).mpr member)
  other a outside apart := injected.other a (fun member => outside ((same a).mp member))
    fun t member => apart t ((same t).mp member)
  slots a k := by rw [injected.slots]; simp only [same]

theorem Injected.inject (injected : Injected H revm estimatorCode slot db₀ contracts db) (stores : revm.Stores H slot)
    (hashes : CodeHashes H) (some : estimatorCode ≠ []) {c : Address} (fresh : c ∉ contracts) (apart : Apart H (c :: contracts)) :
    ∃ db', injectEstimator H revm estimatorCode db c = .ok db' ∧
      Injected H revm estimatorCode slot db₀ (c :: contracts) db' := by
  have here : revm.basicRef db c = revm.basicRef db₀ c := by
    refine injected.other c fresh fun t member => Ne.symm ?_
    exact apart.backup t (List.mem_cons_of_mem _ member) c List.mem_cons_self
  have account : (revm.basicRef db c).getD (absent H) = (revm.basicRef db₀ c).getD (absent H) := by rw [here]
  obtain ⟨db', ran, infos, slots⟩ := injectEstimator_spec stores hashes some c account
  refine ⟨db', ran, ?_, ?_, ?_, ?_⟩
  · intro t member
    rw [infos]
    rcases List.mem_cons.mp member with rfl | before
    · rw [if_pos rfl]
    · have different : t ≠ c := fun same => fresh (same ▸ before)
      rw [if_neg different, if_neg (Ne.symm (apart.backup c List.mem_cons_self t member)), injected.contract t before]
  · intro t member
    rw [infos, if_neg (apart.backup t member c List.mem_cons_self)]
    rcases List.mem_cons.mp member with rfl | before
    · have untouched : revm.basicRef db (backupAddress H t) = revm.basicRef db₀ (backupAddress H t) := by
        refine injected.other _ (fun inside => ?_) fun s before same => ?_
        · exact apart.backup t List.mem_cons_self _ (List.mem_cons_of_mem _ inside) rfl
        · exact fresh (apart.distinct t List.mem_cons_self s (List.mem_cons_of_mem _ before) same ▸ before)
      rw [if_pos rfl, untouched]
    · rw [if_neg, injected.backup t before]
      intro same
      exact fresh (apart.distinct t member c List.mem_cons_self same ▸ before)
  · intro a outside other
    have different : a ≠ c := fun same => outside (same ▸ List.mem_cons_self)
    rw [infos, if_neg different, if_neg (other c List.mem_cons_self)]
    exact injected.other a (fun inside => outside (List.mem_cons_of_mem _ inside))
      fun t before => other t (List.mem_cons_of_mem _ before)
  · intro a k
    rw [slots, injected.slots]
    by_cases here : a = c
    · subst here
      simp [fresh]
    · simp [here]

/-- The loop over the frames: whatever was injected before stays, and each target is injected once. -/
theorem injectTargets_extends (stores : revm.Stores H slot) (hashes : CodeHashes H) (some : estimatorCode ≠ [])
    (frames : List FrameProgram) (injected : Injected H revm estimatorCode slot db₀ contracts db)
    (apart : Apart H (contracts ++ frames.map FrameProgram.target)) :
    ∃ db', injectTargets H revm estimatorCode contracts frames db = .ok db' ∧
      Injected H revm estimatorCode slot db₀ (contracts ++ frames.map FrameProgram.target) db' := by
  induction frames generalizing contracts db with
  | nil => exact ⟨db, rfl, by rwa [List.map_nil, List.append_nil]⟩
  | cons frame frames ih =>
    have moved : ∀ a, a ∈ frame.target :: contracts ++ frames.map FrameProgram.target ↔
        a ∈ contracts ++ (frame :: frames).map FrameProgram.target := by
      intro a
      simp only [List.mem_append, List.mem_cons, List.map_cons]
      tauto
    unfold injectTargets
    by_cases again : frame.target ∈ contracts
    · have known : ∀ a, a ∈ contracts ++ frames.map FrameProgram.target ↔
          a ∈ contracts ++ (frame :: frames).map FrameProgram.target := by
        intro a
        rw [← moved]
        simp only [List.mem_append, List.mem_cons, List.cons_append]
        exact ⟨Or.inr, fun inside => inside.elim (fun same => Or.inl (same ▸ again)) id⟩
      rw [if_pos again]
      obtain ⟨db', ran, all⟩ := ih injected ⟨fun s inS t inT => apart.backup s ((known s).mp inS) t ((known t).mp inT),
        fun s inS t inT => apart.distinct s ((known s).mp inS) t ((known t).mp inT)⟩
      exact ⟨db', ran, all.congr known⟩
    · rw [if_neg again]
      have apart' : Apart H (frame.target :: contracts ++ frames.map FrameProgram.target) :=
        ⟨fun s inS t inT => apart.backup s ((moved s).mp inS) t ((moved t).mp inT),
          fun s inS t inT => apart.distinct s ((moved s).mp inS) t ((moved t).mp inT)⟩
      have first : Apart H (frame.target :: contracts) :=
        ⟨fun s inS t inT => apart'.backup s (List.mem_append_left _ inS) t (List.mem_append_left _ inT),
          fun s inS t inT => apart'.distinct s (List.mem_append_left _ inS) t (List.mem_append_left _ inT)⟩
      obtain ⟨db₁, ran, injected₁⟩ := injected.inject stores hashes some again first
      obtain ⟨db', rest, all⟩ := ih injected₁ apart'
      exact ⟨db', by rw [ran]; exact rest, all.congr moved⟩

/-- Before a tree runs, every contract of it runs the estimator and reports its own code's hash, with that code at its
backup address, however often it occurs among the frames; every other account and slot is as it was. -/
theorem injectTargets_injected (stores : revm.Stores H slot) (hashes : CodeHashes H) (some : estimatorCode ≠ [])
    (frames : List FrameProgram) (apart : Apart H (frames.map FrameProgram.target)) (db : Db) :
    ∃ db', injectTargets H revm estimatorCode [] frames db = .ok db' ∧
      Injected H revm estimatorCode slot db (frames.map FrameProgram.target) db' :=
  injectTargets_extends stores hashes some frames
    ⟨fun t member => absurd member List.not_mem_nil, fun t member => absurd member List.not_mem_nil, fun _ _ _ => rfl,
      fun a k => by simp⟩ apart

end

/-! ### A contract that is entered again -/

/-- `PUSH1 6 PUSH1 1 SSTORE STOP`, a stand-in for the estimator's code. -/
def storingCode : Bytes := [0x60, 6, 0x60, 1, 0x55, 0]

/-- Keccak on what is hashed below: no code, the two codes, the tag of `0x70`'s backup and the implementation's tag. -/
def tabledHashes : Hashes where
  keccak256 code :=
    if code = [] then 0xc5d2460186f7233c927e7db2dcc703c0e500b653ca82273b7bfad8045d85a470
    else if code = storingCode then 0x3995e2d24d7a856cf9a1128d5cc1ac27fdaeab3a876f97a20a69a31235ce0e33
    else if code = [0x60] then 0x15a5de5d00dfc39d199ee772e89858c204d1d545de092db54a345c7303942607
    else if code = backupTag ++ Abi.beBytes 20 0x70 then
      0x37a51771a88206c5261f392249e79d4d84e6a25f9d577804e62f363be7dd429f
    else if code = implementationTag then 0x96d8ea8ab34935626cad61e29511d513907fd7c186676bae1b82974066723cc0
    else 2
  sha256 _ := 0

theorem tabledHashes_codeHashes : CodeHashes tabledHashes where
  nonzero code := by
    unfold tabledHashes
    dsimp only
    repeat' split
    all_goals decide +kernel
  empty {code} same := by
    by_contra some
    unfold tabledHashes at same
    dsimp only at same
    rw [if_neg some, if_pos rfl] at same
    repeat' split at same
    all_goals exact absurd same (by decide +kernel)

/-- A state as its accounts and slots. -/
def tables : Revm ((Address → Option AccountInfo) × (Address → U256 → U256)) Unit where
  basicRef db := db.1
  insertAccountInfo db a info := (fun a' => if a' = a then some info else db.1 a', db.2)
  setCodeHash db a hash :=
    (fun a' => if a' = a then (db.1 a).map fun info => { info with codeHash := hash } else db.1 a', db.2)
  insertAccountStorage db a k value := .ok (db.1, fun a' k' => if a' = a ∧ k' = k then value else db.2 a' k')
  osakaOrLater _ := true
  transact db _ _ := .ok (.success 21000, db)

theorem tables_stores : tables.Stores tabledHashes (fun db => db.2) where
  info_insert _ _ _ _ _ _ := rfl
  info_setCodeHash {db a info} there hash a' := by
    show (if a' = a then (db.1 a).map _ else db.1 a') = _
    rw [show db.1 a = some info from there]
    rfl
  slot_insert _ _ _ _ _ := rfl
  slot_setCodeHash _ _ _ _ _ := rfl
  insertAccountStorage _ _ _ := ⟨_, rfl, fun _ => rfl, fun _ _ => rfl⟩

/-- Contract `0x70` has the code `[0x60]` under its hash. -/
def oneContract : (Address → Option AccountInfo) × (Address → U256 → U256) :=
  (fun a => if a = 0x70 then
      some ⟨3, 1, 0x15a5de5d00dfc39d199ee772e89858c204d1d545de092db54a345c7303942607, some [0x60]⟩
    else none, fun _ _ => 0)

/-- Contract `0x70` has two frames: it reports its hash, and its code is kept at the backup address. -/
theorem injectTargets_injected_twice : ∃ db',
    injectTargets tabledHashes tables storingCode []
        [⟨0x70, 0, 0, 0, none, [.nested ⟨0x70, 0, 0⟩], [1]⟩, ⟨0x70, 0x70, 0, 0, none, [], []⟩] oneContract = .ok db' ∧
      db'.1 0x70 =
        some ⟨3, 1, 0x15a5de5d00dfc39d199ee772e89858c204d1d545de092db54a345c7303942607, some storingCode⟩ ∧
      db'.1 0x49e79d4d84e6a25f9d577804e62f363be7dd429f =
        some ⟨0, 0, 0x15a5de5d00dfc39d199ee772e89858c204d1d545de092db54a345c7303942607, some [0x60]⟩ := by
  have backup : backupAddress tabledHashes 0x70 = 0x49e79d4d84e6a25f9d577804e62f363be7dd429f := by decide +kernel
  have only : ∀ t ∈ [(0x70 : Address), 0x70], t = 0x70 := by simp
  obtain ⟨db', ran, injected⟩ := injectTargets_injected tables_stores tabledHashes_codeHashes
    (show storingCode ≠ [] by decide)
    [⟨0x70, 0, 0, 0, none, [.nested ⟨0x70, 0, 0⟩], [1]⟩, ⟨0x70, 0x70, 0, 0, none, [], []⟩]
    ⟨fun s inS t inT => by rw [only s inS, only t inT, backup]; decide,
      fun s inS t inT _ => (only s inS).trans (only t inT).symm⟩ oneContract
  refine ⟨db', ran, injected.contract 0x70 List.mem_cons_self, ?_⟩
  have kept := injected.backup 0x70 List.mem_cons_self
  rw [backup] at kept
  exact kept

end GasAnalyzer.Estimator
