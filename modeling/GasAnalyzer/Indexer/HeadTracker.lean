import GasAnalyzer.Core.Types
import GasAnalyzer.Indexer.Store

/-!
# The head-tracker

`head_tracker::run`: poll the head, hold back while the queue is deep, skip ahead when too far behind, then fan out one
block. A poll is given what its requests come to; between polls the other services may leave any shared state.
-/

namespace GasAnalyzer.Indexer

open Program

def skippedBlocksKey : String := "indexer:state:skipped_blocks"

structure HeadTrackerConfig where
  chainId : UInt64
  maxQueueDepth : UInt64
  maxBlocksBehind : UInt64

/-- A transaction of a full block, as far as the fan-out reads it. -/
structure BlockTx where
  hash : Vector UInt8 32
  recipient : Option AddressBytes

/-- The job of a transaction; `now` is the time of its enqueue. -/
def blockJob (chainId blockNumber : UInt64) (idx : Nat) (tx : BlockTx) (now : Timestamp) : AnalyzeTxJob where
  chainId
  txHash := tx.hash
  blockNumber
  txIndex := UInt64.ofNat idx
  attempt := 0
  enqueuedAt := Int64.ofInt now.seconds

/-- The fan-out loop of `enqueue_block` from transaction `idx` on. -/
def enqueueTxs (chainId blockNumber : UInt64) (now : Nat → Timestamp) :
    Nat → Nat → List BlockTx → Client (Except ServiceError Nat)
  | _, enqueued, [] => .done (.ok enqueued)
  | idx, enqueued, tx :: txs =>
    match tx.recipient with
    | none => enqueueTxs chainId blockNumber now (idx + 1) enqueued txs
    | some _ =>
      .orReturn (.enqueue (blockJob chainId blockNumber idx tx (now idx))) .error <|
      enqueueTxs chainId blockNumber now (idx + 1) (enqueued + 1) txs

/-- What one poll meets: the reported head, the queue's depth, the block the provider returned, and its requests. -/
structure Poll where
  head : Option UInt64
  published : Reply ServiceError
  depth : Option UInt64
  counted : Reply ServiceError
  block : Option (List BlockTx)
  now : Nat → Timestamp
  replies : Nat → Reply ServiceError

/-- One skip of the cursor. -/
structure Skip where
  head : UInt64
  cursor : UInt64
  newStart : UInt64
  skipped : UInt64

structure TrackerState where
  world : World
  nextBlock : UInt64
  skippedBlocks : UInt64
  running : Bool
  /-- The jobs pushed so far, the blocks fanned out and the skips taken; history the tracker does not keep. -/
  enqueued : List Request
  fannedOut : List (UInt64 × List BlockTx)
  skips : List Skip

namespace TrackerState

variable (cfg : HeadTrackerConfig)

/-- The bounded-lag branch. -/
def skipAhead (s : TrackerState) (head : UInt64) (counted : Reply ServiceError) : TrackerState :=
  if 0 < cfg.maxBlocksBehind ∧ cfg.maxBlocksBehind < satSub head s.nextBlock then
    let newStart := head - cfg.maxBlocksBehind
    let skipped := newStart - s.nextBlock
    { s with
      world := (exchange serve counted (.incrDropped skippedBlocksKey skipped) s.world).2
      nextBlock := newStart
      skippedBlocks := s.skippedBlocks + skipped
      skips := s.skips ++ [⟨head, s.nextBlock, newStart, skipped⟩] }
  else s

/-- `enqueue_block`, and the cursor's advance after it. -/
def fanOut (s : TrackerState) (p : Poll) : TrackerState :=
  match p.block with
  | none => s
  | some txs =>
    let fan := enqueueTxs cfg.chainId s.nextBlock p.now 0 0 txs
    let pushed : TrackerState := { s with
      world := (run serve fan p.replies s.world).2
      enqueued := s.enqueued ++ effects serve fan p.replies s.world }
    match (run serve fan p.replies s.world).1 with
    | .error _ => pushed
    | .ok _ => { pushed with
        nextBlock := s.nextBlock + 1
        fannedOut := s.fannedOut ++ [(s.nextBlock, txs)] }

/-- One iteration of the loop; a failed head or depth request ends it. -/
def iterate (s : TrackerState) (p : Poll) : TrackerState :=
  if s.running then
    match p.head with
    | none => { s with running := false }
    | some head =>
      let s := { s with world := (exchange serve p.published (.publishLastHead head) s.world).2 }
      match p.depth with
      | none => { s with running := false }
      | some depth =>
        if cfg.maxQueueDepth < depth then s
        else
          let s := s.skipAhead cfg head p.counted
          if head < s.nextBlock then s else s.fanOut cfg p
  else s

inductive Event where
  | poll (p : Poll)
  /-- The other services act. -/
  | others (w : World)

def step (s : TrackerState) : Event → TrackerState
  | .poll p => s.iterate cfg p
  | .others w => { s with world := w }

/-- The tracker starts behind the head of its first poll. -/
def start (w : World) (head : UInt64) : TrackerState where
  world := w
  nextBlock := head + 1
  skippedBlocks := 0
  running := true
  enqueued := []
  fannedOut := []
  skips := []

def loop (w : World) (head : UInt64) (events : List Event) : TrackerState :=
  events.foldl (step cfg) (start w head)

/-! ### Accounting -/

def passes (s : TrackerState) (n : Nat) : Nat := s.fannedOut.countP fun pass => pass.1.toNat = n

def counts (s : TrackerState) (n : Nat) : Nat :=
  s.skips.countP fun skip => skip.cursor.toNat ≤ n ∧ n < skip.newStart.toNat

/-- Every transaction of the block with a recipient has a job that reached the queue. -/
def Enqueued (chainId : UInt64) (s : TrackerState) (pass : UInt64 × List BlockTx) : Prop :=
  ∀ idx tx, pass.2[idx]? = some tx → tx.recipient.isSome = true →
    ∃ now, Request.enqueue (blockJob chainId pass.1 idx tx now) ∈ s.enqueued

/-- What a run owes from its start block to its cursor. -/
structure Conserved (first : Nat) (s : TrackerState) : Prop where
  ordered : first ≤ s.nextBlock.toNat
  /-- Each block is passed once or counted once, and not both. -/
  once : ∀ n, s.passes n + s.counts n = if first ≤ n ∧ n < s.nextBlock.toNat then 1 else 0
  enqueued : ∀ pass ∈ s.fannedOut, s.Enqueued cfg.chainId pass
  /-- Neither subtraction of a skip underflows. -/
  exact : ∀ skip ∈ s.skips, cfg.maxBlocksBehind ≤ skip.head ∧ skip.newStart = skip.head - cfg.maxBlocksBehind ∧
    skip.cursor ≤ skip.newStart ∧ skip.skipped = skip.newStart - skip.cursor
  total : s.skippedBlocks.toNat = (s.skips.map fun skip => skip.skipped.toNat).sum
  unfanned : s.skippedBlocks.toNat =
    (List.range' first (s.nextBlock.toNat - first)).countP fun n => s.passes n = 0
  never : cfg.maxBlocksBehind = 0 → s.skips = []

/-- In every state a run reaches the blocks are accounted for, and no event moves the cursor back. -/
def Conserves (w : World) (head : UInt64) (events : List Event) : Prop :=
  ∀ before after, events = before ++ after →
    Conserved cfg (start w head).nextBlock.toNat (loop cfg w head before) ∧
    ∀ event rest, after = event :: rest →
      (loop cfg w head before).nextBlock ≤ (loop cfg w head (before ++ [event])).nextBlock

/-! ### The fan-out of one block -/

variable {cfg}

theorem enqueueTxs_all {chainId blockNumber : UInt64} {now : Nat → Timestamp} {txs : List BlockTx} {idx enqueued : Nat}
    {replies : Nat → Reply ServiceError} {w : World} {total : Nat}
    (fine : (run serve (enqueueTxs chainId blockNumber now idx enqueued txs) replies w).1 = .ok total) (i : Nat)
    (tx : BlockTx) (here : txs[i]? = some tx) (called : tx.recipient.isSome = true) :
    ∃ time, Request.enqueue (blockJob chainId blockNumber (idx + i) tx time) ∈
      effects serve (enqueueTxs chainId blockNumber now idx enqueued txs) replies w := by
  induction txs generalizing idx enqueued replies w i with
  | nil => cases here
  | cons head txs ih =>
    rw [enqueueTxs] at fine ⊢
    split at fine
    · rename_i creates
      cases i with
      | zero =>
        injection here with same
        rw [← same, creates] at called
        cases called
      | succ i =>
        have rest := ih fine i here
        rw [Nat.succ_add_eq_add_succ] at rest
        exact rest
    · have pushed : serve (.enqueue (blockJob chainId blockNumber idx head (now idx))) w =
          .ok { w with pending := w.pending ++ [blockJob chainId blockNumber idx head (now idx)] } := rfl
      by_cases told : replies 0 = .answered
      · obtain ⟨ran, carried⟩ := run_orReturn_answered Except.error
          (enqueueTxs chainId blockNumber now (idx + 1) (enqueued + 1) txs) pushed told
        rw [ran] at fine
        rw [carried]
        cases i with
        | zero =>
          injection here with same
          rw [← same]
          exact ⟨now idx, List.mem_cons_self⟩
        | succ i =>
          obtain ⟨time, member⟩ := ih fine i here
          rw [Nat.succ_add_eq_add_succ] at member
          exact ⟨time, List.mem_cons_of_mem _ member⟩
      · obtain ⟨error, failed⟩ := run_orReturn_unanswered Except.error
          (enqueueTxs chainId blockNumber now (idx + 1) (enqueued + 1) txs) pushed told
        rw [failed] at fine
        cases fine

/-! ### The three moves of the cursor -/

variable {first : Nat} {s : TrackerState}

/-- Neither the world nor the running flag takes part in the accounting. -/
theorem Conserved.of_same {s' : TrackerState} (conserved : Conserved cfg first s) (next : s'.nextBlock = s.nextBlock)
    (skipped : s'.skippedBlocks = s.skippedBlocks) (enqueued : s.enqueued ⊆ s'.enqueued)
    (fannedOut : s'.fannedOut = s.fannedOut) (skips : s'.skips = s.skips) : Conserved cfg first s' := by
  obtain ⟨ordered, once, jobs, exact', total, unfanned, never⟩ := conserved
  constructor
  · rw [next]
    exact ordered
  · intro n
    rw [passes, counts, fannedOut, skips, next]
    exact once n
  · intro pass member idx tx here called
    rw [fannedOut] at member
    obtain ⟨time, pushed⟩ := jobs pass member idx tx here called
    exact ⟨time, enqueued pushed⟩
  · rw [skips]
    exact exact'
  · rw [skipped, skips]
    exact total
  · have same : ∀ n, s'.passes n = s.passes n := fun n => by rw [passes, passes, fannedOut]
    simp only [same, skipped, next]
    exact unfanned
  · rw [skips]
    exact never

/-- When the tracker skips, both differences are the true ones. -/
theorem skip_exact {head next behind : UInt64} (lagging : behind < satSub head next) :
    behind ≤ head ∧ next < head - behind ∧ (head - behind).toNat = head.toNat - behind.toNat := by
  rw [satSub] at lagging
  split at lagging
  · rename_i below
    rw [UInt64.lt_iff_toNat_lt, UInt64.toNat_sub_of_le _ _ below] at lagging
    have under : behind ≤ head := UInt64.le_iff_toNat_le.mpr (by omega)
    have difference := UInt64.toNat_sub_of_le _ _ under
    exact ⟨under, UInt64.lt_iff_toNat_lt.mpr (by omega), difference⟩
  · rw [UInt64.lt_iff_toNat_lt] at lagging
    exact absurd lagging (Nat.not_lt_zero _)

theorem passes_beyond (conserved : Conserved cfg first s) {n : Nat} (beyond : s.nextBlock.toNat ≤ n) :
    s.passes n = 0 := by
  have none := conserved.once n
  rw [if_neg (by omega)] at none
  omega

theorem skipAhead_conserved (conserved : Conserved cfg first s) (head : UInt64) (counted : Reply ServiceError) :
    Conserved cfg first (s.skipAhead cfg head counted) ∧ s.nextBlock ≤ (s.skipAhead cfg head counted).nextBlock := by
  unfold skipAhead
  split
  · rename_i both
    obtain ⟨enabled, lagging⟩ := both
    obtain ⟨under, ahead, difference⟩ := skip_exact lagging
    have ahead' := UInt64.lt_iff_toNat_lt.mp ahead
    have forward : s.nextBlock ≤ head - cfg.maxBlocksBehind := UInt64.le_iff_toNat_le.mpr (Nat.le_of_lt ahead')
    have amount := UInt64.toNat_sub_of_le _ _ forward
    have ordered := conserved.ordered
    have bounded : s.skippedBlocks.toNat ≤ s.nextBlock.toNat - first := by
      rw [conserved.unfanned]
      exact (List.countP_le_length).trans (Nat.le_of_eq List.length_range')
    have limit := (head - cfg.maxBlocksBehind).toNat_lt
    have sum : (s.skippedBlocks + (head - cfg.maxBlocksBehind - s.nextBlock)).toNat =
        s.skippedBlocks.toNat + ((head - cfg.maxBlocksBehind).toNat - s.nextBlock.toNat) := by
      rw [UInt64.toNat_add, amount, Nat.mod_eq_of_lt (by omega)]
    refine ⟨?_, forward⟩
    constructor
    · exact Nat.le_trans ordered (Nat.le_of_lt ahead')
    · intro n
      have before := conserved.once n
      simp only [passes, counts, List.countP_append, List.countP_singleton, decide_eq_true_eq] at before ⊢
      split at before <;> split <;> split <;> omega
    · intro pass member idx tx here called
      exact conserved.enqueued pass member idx tx here called
    · intro skip member
      rcases List.mem_append.mp member with old | new
      · exact conserved.exact skip old
      · rw [List.mem_singleton] at new
        subst new
        exact ⟨under, rfl, forward, rfl⟩
    · dsimp only
      rw [sum, List.map_append, List.sum_append, conserved.total, List.map_singleton, List.sum_singleton, amount]
    · dsimp only
      have range : List.range' first ((head - cfg.maxBlocksBehind).toNat - first) =
          List.range' first (s.nextBlock.toNat - first) ++
            List.range' s.nextBlock.toNat ((head - cfg.maxBlocksBehind).toNat - s.nextBlock.toNat) := by
        rw [show (head - cfg.maxBlocksBehind).toNat - first = (s.nextBlock.toNat - first) +
          ((head - cfg.maxBlocksBehind).toNat - s.nextBlock.toNat) by omega, ← List.range'_append]
        congr 2
        omega
      have fresh : (List.range' s.nextBlock.toNat
          ((head - cfg.maxBlocksBehind).toNat - s.nextBlock.toNat)).countP (fun n => s.passes n = 0) =
            (head - cfg.maxBlocksBehind).toNat - s.nextBlock.toNat := by
        rw [List.countP_eq_length.mpr, List.length_range']
        intro n member
        rw [List.mem_range'_1] at member
        exact decide_eq_true (passes_beyond conserved member.1)
      rw [sum, range, List.countP_append, conserved.unfanned]
      exact congrArg _ fresh.symm
    · intro disabled
      rw [disabled] at enabled
      exact absurd enabled (UInt64.lt_irrefl 0)
  · exact ⟨conserved, UInt64.le_refl _⟩

/-- `u64::MAX`: the block number the cursor cannot pass. -/
def lastBlock : UInt64 := UInt64.ofNat (2 ^ 64 - 1)

theorem toNat_succ {n : UInt64} (inside : n ≠ lastBlock) : (n + 1).toNat = n.toNat + 1 := by
  have bound := n.toNat_lt
  have apart : n.toNat ≠ 2 ^ 64 - 1 := fun same => inside (UInt64.toNat_inj.mp same)
  rw [UInt64.toNat_add, UInt64.toNat_one, Nat.mod_eq_of_lt (by omega)]

theorem le_lastBlock (n : UInt64) : n ≤ lastBlock := by
  have bound := n.toNat_lt
  have top : lastBlock.toNat = 2 ^ 64 - 1 := by decide
  rw [UInt64.le_iff_toNat_le]
  omega

/-- A fan-out leaves the cursor and the histories alone, or passes the block at the cursor. -/
theorem fanOut_cases (cfg : HeadTrackerConfig) (s : TrackerState) (p : Poll) :
    (∃ world enqueued, s.fanOut cfg p = { s with world, enqueued := s.enqueued ++ enqueued }) ∨
      ∃ world txs enqueued, s.fanOut cfg p = { s with
          world
          enqueued := s.enqueued ++ enqueued
          nextBlock := s.nextBlock + 1
          fannedOut := s.fannedOut ++ [(s.nextBlock, txs)] } ∧
        (s.fanOut cfg p).Enqueued cfg.chainId (s.nextBlock, txs) := by
  unfold fanOut
  split
  · exact Or.inl ⟨s.world, [], by rw [List.append_nil]⟩
  · rename_i txs _
    dsimp only
    split
    · exact Or.inl ⟨_, _, rfl⟩
    · rename_i total fine
      refine Or.inr ⟨_, txs, _, rfl, ?_⟩
      intro idx tx here called
      obtain ⟨time, member⟩ := enqueueTxs_all fine idx tx here called
      rw [Nat.zero_add] at member
      exact ⟨time, List.mem_append_right _ member⟩

theorem fanOut_conserved (conserved : Conserved cfg first s) (p : Poll)
    (below : ∀ pass ∈ (s.fanOut cfg p).fannedOut, pass.1 ≠ lastBlock) :
    Conserved cfg first (s.fanOut cfg p) ∧ s.nextBlock ≤ (s.fanOut cfg p).nextBlock := by
  rcases s.fanOut_cases cfg p with ⟨world, enqueued, same⟩ | ⟨world, txs, enqueued, same, pushed⟩
  · rw [same]
    exact ⟨conserved.of_same rfl rfl (List.subset_append_left _ _) rfl rfl, UInt64.le_refl _⟩
  · have next : (s.nextBlock + 1).toNat = s.nextBlock.toNat + 1 := by
      apply toNat_succ
      apply below (s.nextBlock, txs)
      rw [same]
      exact List.mem_append_right _ List.mem_cons_self
    have ordered := conserved.ordered
    rw [same] at pushed ⊢
    refine ⟨?_, UInt64.le_iff_toNat_le.mpr (by dsimp only; omega)⟩
    have passed : ∀ n, TrackerState.passes { s with
          world
          enqueued := s.enqueued ++ enqueued
          nextBlock := s.nextBlock + 1
          fannedOut := s.fannedOut ++ [(s.nextBlock, txs)] } n =
        s.passes n + if s.nextBlock.toNat = n then 1 else 0 := by
      intro n
      simp only [passes, List.countP_append, List.countP_singleton, decide_eq_true_eq]
    constructor
    · dsimp only
      omega
    · intro n
      have before := conserved.once n
      rw [passed]
      simp only [counts, next] at before ⊢
      split at before <;> split <;> split <;> omega
    · intro pass member
      rcases List.mem_append.mp member with old | new
      · intro idx tx here called
        obtain ⟨time, there⟩ := conserved.enqueued pass old idx tx here called
        exact ⟨time, List.mem_append_left _ there⟩
      · rw [List.mem_singleton] at new
        rw [new]
        exact pushed
    · exact conserved.exact
    · exact conserved.total
    · simp only [passed, next]
      have last : first + (s.nextBlock.toNat - first) = s.nextBlock.toNat := by omega
      have counted : ¬(decide (s.passes s.nextBlock.toNat + (if s.nextBlock.toNat = s.nextBlock.toNat then 1 else 0) = 0)
          = true) := by
        rw [if_pos rfl, decide_eq_true_eq]
        exact Nat.succ_ne_zero _
      rw [show s.nextBlock.toNat + 1 - first = (s.nextBlock.toNat - first) + 1 by omega, List.range'_1_concat,
        List.countP_append, List.countP_singleton, last, if_neg counted, Nat.add_zero, conserved.unfanned]
      apply List.countP_congr
      intro n member
      rw [List.mem_range'_1] at member
      rw [if_neg (by omega), Nat.add_zero]
    · exact conserved.never

/-- A poll leaves the accounting alone, or skips at most once and then fans out at most one block. -/
theorem iterate_cases (cfg : HeadTrackerConfig) (s : TrackerState) (p : Poll) :
    (∃ world running, s.iterate cfg p = { s with world, running }) ∨
      ∃ world head, s.iterate cfg p = ({ s with world } : TrackerState).skipAhead cfg head p.counted ∨
        s.iterate cfg p = (({ s with world } : TrackerState).skipAhead cfg head p.counted).fanOut cfg p := by
  unfold iterate
  split
  · split
    · exact Or.inl ⟨s.world, false, rfl⟩
    · rename_i head _
      split
      · exact Or.inl ⟨_, false, rfl⟩
      · split
        · exact Or.inl ⟨_, s.running, rfl⟩
        · refine Or.inr ⟨(exchange serve p.published (.publishLastHead head) s.world).2, head, ?_⟩
          dsimp only
          split
          · exact Or.inl rfl
          · exact Or.inr rfl
  · exact Or.inl ⟨s.world, s.running, rfl⟩

theorem step_conserved (conserved : Conserved cfg first s) (event : Event)
    (below : ∀ pass ∈ (s.step cfg event).fannedOut, pass.1 ≠ lastBlock) :
    Conserved cfg first (s.step cfg event) ∧ s.nextBlock ≤ (s.step cfg event).nextBlock := by
  have same : ∀ world running, Conserved cfg first { s with world, running } ∧ s.nextBlock ≤ s.nextBlock :=
    fun _ _ => ⟨conserved.of_same rfl rfl (List.Subset.refl _) rfl rfl, UInt64.le_refl _⟩
  cases event with
  | others w => exact same w s.running
  | poll p =>
    rw [step] at below ⊢
    rcases s.iterate_cases cfg p with ⟨world, running, ended⟩ | ⟨world, head, skips | fans⟩
    · rw [ended]
      exact same world running
    · rw [skips]
      exact skipAhead_conserved (same world s.running).1 head p.counted
    · rw [fans] at below ⊢
      obtain ⟨skipped, forward⟩ := skipAhead_conserved (same world s.running).1 head p.counted
      obtain ⟨fanned, further⟩ := fanOut_conserved skipped p below
      exact ⟨fanned, UInt64.le_trans forward further⟩

/-! ### Every run -/

theorem skipAhead_fannedOut (s : TrackerState) (head : UInt64) (counted : Reply ServiceError) :
    (s.skipAhead cfg head counted).fannedOut = s.fannedOut := by
  unfold skipAhead
  split <;> rfl

/-- A skip ends below the last block. -/
theorem skipAhead_nextBlock (cfg : HeadTrackerConfig) (s : TrackerState) (head : UInt64) (counted : Reply ServiceError) :
    (s.skipAhead cfg head counted).nextBlock = s.nextBlock ∨
      (s.skipAhead cfg head counted).nextBlock ≠ lastBlock := by
  unfold skipAhead
  split
  · rename_i both
    obtain ⟨enabled, lagging⟩ := both
    obtain ⟨under, -, difference⟩ := skip_exact lagging
    refine Or.inr ?_
    intro same
    have number := congrArg UInt64.toNat same
    have positive := UInt64.lt_iff_toNat_lt.mp enabled
    have bound := head.toNat_lt
    have below := UInt64.le_iff_toNat_le.mp under
    dsimp only at number
    rw [difference] at number
    have top : lastBlock.toNat = 2 ^ 64 - 1 := by decide
    have zero : (0 : UInt64).toNat = 0 := rfl
    omega
  · exact Or.inl rfl

/-- A block that an event passes is the one behind the new cursor, and the last block is only passed from itself. -/
theorem step_passes (s : TrackerState) (event : Event) {pass : UInt64 × List BlockTx}
    (member : pass ∈ (s.step cfg event).fannedOut) :
    pass ∈ s.fannedOut ∨
      (s.step cfg event).nextBlock = pass.1 + 1 ∧ (s.nextBlock = pass.1 ∨ pass.1 ≠ lastBlock) := by
  cases event with
  | others w => exact Or.inl member
  | poll p =>
    rw [step] at member ⊢
    rcases s.iterate_cases cfg p with ⟨world, running, ended⟩ | ⟨world, head, skips | fans⟩
    · rw [ended] at member
      exact Or.inl member
    · rw [skips, skipAhead_fannedOut] at member
      exact Or.inl member
    · rw [fans] at member ⊢
      rcases fanOut_cases cfg (({ s with world } : TrackerState).skipAhead cfg head p.counted) p with
        ⟨world', enqueued, same⟩ | ⟨world', txs, enqueued, same, -⟩
      · rw [same] at member
        dsimp only at member
        rw [skipAhead_fannedOut] at member
        exact Or.inl member
      · rw [same] at member ⊢
        dsimp only at member ⊢
        rcases List.mem_append.mp member with old | new
        · rw [skipAhead_fannedOut] at old
          exact Or.inl old
        · rw [List.mem_singleton] at new
          rw [new]
          refine Or.inr ⟨rfl, ?_⟩
          rcases skipAhead_nextBlock cfg ({ s with world } : TrackerState) head p.counted with stays | moved
          · exact Or.inl stays.symm
          · exact Or.inr moved

theorem step_fannedOut (s : TrackerState) (event : Event) : s.fannedOut ⊆ (s.step cfg event).fannedOut := by
  cases event with
  | others w => exact List.Subset.refl _
  | poll p =>
    rw [step]
    rcases s.iterate_cases cfg p with ⟨world, running, ended⟩ | ⟨world, head, skips | fans⟩
    · rw [ended]
      exact List.Subset.refl _
    · rw [skips, skipAhead_fannedOut]
      exact List.Subset.refl _
    · rw [fans]
      rcases fanOut_cases cfg (({ s with world } : TrackerState).skipAhead cfg head p.counted) p with
        ⟨world', enqueued, same⟩ | ⟨world', txs, enqueued, same, -⟩
      · rw [same]
        dsimp only
        rw [skipAhead_fannedOut]
        exact List.Subset.refl _
      · rw [same]
        dsimp only
        rw [skipAhead_fannedOut]
        exact List.subset_append_left _ _

theorem loop_snoc (w : World) (head : UInt64) (events : List Event) (event : Event) :
    loop cfg w head (events ++ [event]) = (loop cfg w head events).step cfg event := by
  rw [loop, List.foldl_append]
  rfl

theorem loop_fannedOut (w : World) (head : UInt64) (before after : List Event) :
    (loop cfg w head before).fannedOut ⊆ (loop cfg w head (before ++ after)).fannedOut := by
  induction after generalizing before with
  | nil =>
    rw [List.append_nil]
    exact List.Subset.refl _
  | cons event after ih =>
    rw [List.append_cons]
    refine List.Subset.trans ?_ (ih (before ++ [event]))
    rw [loop_snoc]
    exact step_fannedOut _ event

theorem start_conserved (w : World) (head : UInt64) :
    Conserved cfg (start w head).nextBlock.toNat (start w head) where
  ordered := Nat.le_refl _
  once := by
    intro n
    rw [if_neg (by omega)]
    rfl
  enqueued := fun _ none => absurd none List.not_mem_nil
  exact := fun _ none => absurd none List.not_mem_nil
  total := rfl
  unfanned := by
    rw [Nat.sub_self]
    rfl
  never := fun _ => rfl

theorem loop_conserved (w : World) (head : UInt64) (events : List Event)
    (below : ∀ pass ∈ (loop cfg w head events).fannedOut, pass.1 ≠ lastBlock) :
    Conserved cfg (start w head).nextBlock.toNat (loop cfg w head events) := by
  induction events using List.reverseRecOn with
  | nil => exact start_conserved w head
  | append_singleton events event ih =>
    have earlier := ih fun pass member => below pass (loop_fannedOut w head events [event] member)
    rw [loop_snoc] at below ⊢
    exact (step_conserved earlier event below).1

/-- Some event of the run passes each block that was fanned out. -/
theorem loop_passes (w : World) (head : UInt64) (events : List Event) {pass : UInt64 × List BlockTx}
    (member : pass ∈ (loop cfg w head events).fannedOut) :
    ∃ before event rest, events = before ++ event :: rest ∧
      (loop cfg w head (before ++ [event])).nextBlock = pass.1 + 1 ∧
      ((loop cfg w head before).nextBlock = pass.1 ∨ pass.1 ≠ lastBlock) := by
  induction events using List.reverseRecOn with
  | nil => exact absurd member List.not_mem_nil
  | append_singleton events event ih =>
    rw [loop_snoc] at member
    rcases step_passes _ event member with old | ⟨next, source⟩
    · obtain ⟨before, event', rest, shape, passed⟩ := ih old
      exact ⟨before, event', rest ++ [event], by rw [shape, List.append_assoc, List.cons_append], passed⟩
    · refine ⟨events, event, [], rfl, ?_, source⟩
      rw [loop_snoc]
      exact next

/-- A run that never passes the last block accounts for its blocks, and no other run does. -/
theorem conserves_iff_passes (w : World) (head : UInt64) (events : List Event) :
    Conserves cfg w head events ↔ ∀ pass ∈ (loop cfg w head events).fannedOut, pass.1 ≠ lastBlock := by
  constructor
  · intro conserves pass member last
    obtain ⟨before, event, rest, shape, next, source⟩ := loop_passes w head events member
    have forward := (conserves before (event :: rest) shape).2 event rest rfl
    rcases source with here | other
    · -- Passing the last block wraps the cursor to 0.
      rw [next, here, last] at forward
      exact absurd forward (by decide)
    · exact other last
  · intro below before after shape
    have earlier : ∀ pass ∈ (loop cfg w head before).fannedOut, pass.1 ≠ lastBlock := by
      intro pass member
      apply below
      rw [shape]
      exact loop_fannedOut w head before after member
    have conserved := loop_conserved w head before earlier
    refine ⟨conserved, ?_⟩
    intro event rest same
    rw [loop_snoc]
    refine (step_conserved conserved event ?_).2
    intro pass member
    apply below
    rw [shape, same, List.append_cons]
    apply loop_fannedOut
    rw [loop_snoc]
    exact member

/-! ### Passing the last block -/

/-- The poll fans out the block behind which the cursor wraps: the cursor stands there, the head is there, the queue is
not too deep, and every job of the block is pushed. -/
def FansOutLast (cfg : HeadTrackerConfig) (s : TrackerState) (p : Poll) : Prop :=
  s.running = true ∧ s.nextBlock = lastBlock ∧ p.head = some lastBlock ∧
    (∃ depth, p.depth = some depth ∧ depth ≤ cfg.maxQueueDepth) ∧
    ∃ txs, p.block = some txs ∧ ∀ k < (txs.filter fun tx => tx.recipient.isSome).length, p.replies k = .answered

/-- A fan-out succeeds exactly when each of its pushes is answered. -/
theorem enqueueTxs_ok (chainId blockNumber : UInt64) (now : Nat → Timestamp) (txs : List BlockTx) (idx enqueued : Nat)
    (replies : Nat → Reply ServiceError) (w : World) :
    (∃ total, (run serve (enqueueTxs chainId blockNumber now idx enqueued txs) replies w).1 = .ok total) ↔
      ∀ k < (txs.filter fun tx => tx.recipient.isSome).length, replies k = .answered := by
  induction txs generalizing idx enqueued replies w with
  | nil => exact ⟨fun _ k none => absurd none (Nat.not_lt_zero k), fun _ => ⟨enqueued, rfl⟩⟩
  | cons tx txs ih =>
    rw [enqueueTxs]
    cases called : tx.recipient with
    | none =>
      rw [List.filter_cons_of_neg (by rw [called]; exact Bool.false_ne_true)]
      exact ih ..
    | some recipient =>
      rw [List.filter_cons_of_pos (by rw [called]; rfl), List.length_cons]
      have pushed : serve (.enqueue (blockJob chainId blockNumber idx tx (now idx))) w =
          .ok { w with pending := w.pending ++ [blockJob chainId blockNumber idx tx (now idx)] } := rfl
      by_cases told : replies 0 = .answered
      · rw [(run_orReturn_answered Except.error _ pushed told).1, ih]
        constructor
        · intro answered k inside
          cases k with
          | zero => exact told
          | succ k => exact answered k (Nat.lt_of_succ_lt_succ inside)
        · exact fun answered k inside => answered (k + 1) (Nat.succ_lt_succ inside)
      · obtain ⟨error, failed⟩ := run_orReturn_unanswered Except.error
          (enqueueTxs chainId blockNumber now (idx + 1) (enqueued + 1) txs) pushed told
        constructor
        · intro fine
          obtain ⟨total, fine⟩ := fine
          rw [failed] at fine
          cases fine
        · exact fun answered => absurd (answered 0 (Nat.succ_pos _)) told

/-- The last block is among the passed ones. -/
def PassedLast (s : TrackerState) : Prop := ∃ pass ∈ s.fannedOut, pass.1 = lastBlock

theorem fanOut_last (s : TrackerState) (p : Poll) :
    (s.fanOut cfg p).PassedLast ↔ s.PassedLast ∨ s.nextBlock = lastBlock ∧
      ∃ txs, p.block = some txs ∧ ∀ k < (txs.filter fun tx => tx.recipient.isSome).length, p.replies k = .answered := by
  unfold fanOut
  split
  · rename_i none
    constructor
    · exact Or.inl
    · intro either
      rcases either with old | ⟨-, txs, some, -⟩
      · exact old
      · rw [none] at some
        cases some
  · rename_i txs block
    have verdict := enqueueTxs_ok cfg.chainId s.nextBlock p.now txs 0 0 p.replies s.world
    dsimp only
    split
    · rename_i error failed
      constructor
      · exact Or.inl
      · intro either
        rcases either with old | ⟨-, txs', same, answered⟩
        · exact old
        · rw [block] at same
          injection same with same
          rw [← same, ← verdict] at answered
          obtain ⟨total, fine⟩ := answered
          rw [failed] at fine
          cases fine
    · rename_i total fine
      constructor
      · intro passed
        obtain ⟨pass, member, last⟩ := passed
        rcases List.mem_append.mp member with old | new
        · exact Or.inl ⟨pass, old, last⟩
        · rw [List.mem_singleton] at new
          rw [new] at last
          exact Or.inr ⟨last, txs, block, verdict.mp ⟨total, fine⟩⟩
      · intro either
        rcases either with ⟨pass, old, last⟩ | ⟨last, -⟩
        · exact ⟨pass, List.mem_append_left _ old, last⟩
        · exact ⟨(s.nextBlock, txs), List.mem_append_right _ List.mem_cons_self, last⟩

theorem skipAhead_last (cfg : HeadTrackerConfig) (s : TrackerState) (head : UInt64) (counted : Reply ServiceError) :
    (s.skipAhead cfg head counted).nextBlock = lastBlock ↔ s.nextBlock = lastBlock := by
  constructor
  · intro last
    rcases skipAhead_nextBlock cfg s head counted with stays | moved
    · rw [← stays]
      exact last
    · exact absurd last moved
  · intro last
    unfold skipAhead
    split
    · rename_i both
      obtain ⟨-, forward, -⟩ := skip_exact both.2
      rw [last] at forward
      exact absurd forward (UInt64.not_lt.mpr (le_lastBlock _))
    · exact last

theorem skipAhead_passedLast (s : TrackerState) (head : UInt64) (counted : Reply ServiceError) :
    (s.skipAhead cfg head counted).PassedLast ↔ s.PassedLast := by
  rw [PassedLast, skipAhead_fannedOut, PassedLast]

theorem iterate_last (s : TrackerState) (p : Poll) :
    (s.iterate cfg p).PassedLast ↔ s.PassedLast ∨ s.FansOutLast cfg p := by
  rw [iterate, FansOutLast]
  split
  · rename_i running
    cases reported : p.head with
    | none => exact ⟨Or.inl, fun either => either.elim id nofun⟩
    | some head =>
      cases measured : p.depth with
      | none => exact ⟨Or.inl, fun either => either.elim id nofun⟩
      | some depth =>
        dsimp only
        split
        · rename_i deep
          constructor
          · exact Or.inl
          · intro either
            rcases either with old | ⟨-, -, -, ⟨depth', same, shallow⟩, -⟩
            · exact old
            · injection same with same
              rw [← same] at shallow
              exact absurd deep (UInt64.not_lt.mpr shallow)
        · rename_i shallow
          have stays := (skipAhead_last cfg
            { s with world := (exchange serve p.published (.publishLastHead head) s.world).2 } head p.counted).mpr
          split
          · rename_i ahead
            rw [skipAhead_passedLast]
            constructor
            · exact Or.inl
            · intro either
              rcases either with old | ⟨-, last, same, -⟩
              · exact old
              · injection same with same
                rw [stays last, same] at ahead
                exact absurd ahead (UInt64.lt_irrefl _)
          · rename_i reached
            rw [fanOut_last, skipAhead_last, skipAhead_passedLast]
            constructor
            · intro either
              rcases either with old | ⟨last, block⟩
              · exact Or.inl old
              · rw [stays last, UInt64.not_lt] at reached
                have top : head = lastBlock := UInt64.le_antisymm (le_lastBlock head) reached
                exact Or.inr ⟨running, last, congrArg some top, ⟨depth, rfl, UInt64.not_lt.mp shallow⟩, block⟩
            · intro either
              rcases either with old | ⟨-, last, -, -, block⟩
              · exact Or.inl old
              · exact Or.inr ⟨last, block⟩
  · rename_i stopped
    exact ⟨Or.inl, fun either => either.elim id fun fans => absurd fans.1 stopped⟩

theorem step_last (s : TrackerState) (event : Event) :
    (s.step cfg event).PassedLast ↔ s.PassedLast ∨ ∃ p, event = .poll p ∧ s.FansOutLast cfg p := by
  cases event with
  | others w => exact ⟨Or.inl, fun either => either.elim id nofun⟩
  | poll p =>
    rw [step, iterate_last]
    constructor
    · exact Or.imp_right fun fans => ⟨p, rfl, fans⟩
    · intro either
      rcases either with old | ⟨p', same, fans⟩
      · exact Or.inl old
      · injection same with same
        rw [same]
        exact Or.inr fans

/-- The last block is passed by the poll that fans it out. -/
theorem loop_last (cfg : HeadTrackerConfig) (w : World) (head : UInt64) (events : List Event) :
    (loop cfg w head events).PassedLast ↔
      ∃ before p after, events = before ++ .poll p :: after ∧ (loop cfg w head before).FansOutLast cfg p := by
  induction events using List.reverseRecOn with
  | nil =>
    constructor
    · exact nofun
    · intro fans
      obtain ⟨before, p, after, shape, -⟩ := fans
      cases before <;> cases shape
  | append_singleton events event ih =>
    rw [loop_snoc, step_last, ih]
    constructor
    · intro either
      rcases either with ⟨before, p, after, shape, fans⟩ | ⟨p, same, fans⟩
      · exact ⟨before, p, after ++ [event], by rw [shape, List.append_assoc, List.cons_append], fans⟩
      · exact ⟨events, p, [], by rw [same], fans⟩
    · intro fans
      obtain ⟨before, p, after, shape, fans⟩ := fans
      rcases List.eq_nil_or_concat after with rfl | ⟨rest, last, rfl⟩
      · obtain ⟨same, last⟩ := List.append_inj' shape rfl
        injection last with last
        rw [same]
        exact Or.inr ⟨p, last, fans⟩
      · rw [List.concat_eq_append, ← List.cons_append, ← List.append_assoc] at shape
        obtain ⟨same, -⟩ := List.append_inj' shape rfl
        exact Or.inl ⟨before, p, rest, same, fans⟩

/-- A run accounts for its blocks exactly when no poll of it fans out the last block a `u64` can number. -/
theorem conserves_iff (cfg : HeadTrackerConfig) (w : World) (head : UInt64) (events : List Event) :
    Conserves cfg w head events ↔
      ∀ before p after, events = before ++ .poll p :: after → ¬(loop cfg w head before).FansOutLast cfg p := by
  have passed := loop_last cfg w head events
  rw [conserves_iff_passes]
  constructor
  · intro below before p after shape fans
    obtain ⟨pass, member, last⟩ := passed.mpr ⟨before, p, after, shape, fans⟩
    exact below pass member last
  · intro never pass member last
    obtain ⟨before, p, after, shape, fans⟩ := passed.mp ⟨pass, member, last⟩
    exact never before p after shape fans

/-! The provider reports the two highest block numbers there are, and returns an empty last block. -/

def lastPoll : Poll where
  head := some lastBlock
  published := .answered
  depth := some 0
  counted := .answered
  block := some []
  now := fun _ => ⟨1700000000, by decide, by decide⟩
  replies := fun _ => .answered

theorem cursor_wraps : ¬Conserves ⟨1, 1000, 0⟩ .fresh (UInt64.ofNat (2 ^ 64 - 2)) [.poll lastPoll] := by
  intro conserves
  have forward := (conserves [] [.poll lastPoll] rfl).2 (.poll lastPoll) [] rfl
  have wrapped : ¬(loop ⟨1, 1000, 0⟩ .fresh (UInt64.ofNat (2 ^ 64 - 2)) []).nextBlock ≤
      (loop ⟨1, 1000, 0⟩ .fresh (UInt64.ofNat (2 ^ 64 - 2)) ([] ++ [.poll lastPoll])).nextBlock := by decide +kernel
  exact wrapped forward

end TrackerState

end GasAnalyzer.Indexer
