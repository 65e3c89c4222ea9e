import GasAnalyzer.Indexer.Writers

/-!
# The worker loop

`worker::run`: claim a job, drop it if it expired, else handle it. A turn is given what its requests come to; between
turns the head-tracker enqueues new jobs and the other services issue requests of their own. The loop only ends when a
claim fails.
-/

namespace GasAnalyzer.Indexer

open Program

def expiredJobsKey : String := "indexer:state:expired_jobs"

/-- `Queue::claim`: the head of the list, or nothing when the wait times out. A claim whose answer is lost has still
popped its job. -/
def claim (reply : Reply ServiceError) (w : World) : Except ServiceError (Option AnalyzeTxJob) × World :=
  match reply with
  | .answered => (.ok w.pending.head?, { w with pending := w.pending.tail })
  | .refused error => (.error error, w)
  | .dropped error => (.error error, { w with pending := w.pending.tail })

def expired (cfg : WorkerConfig) (now : Timestamp) (job : AnalyzeTxJob) : Bool :=
  let ttlSecs := cfg.queueJobTtlSecs.toInt64.toInt
  0 < ttlSecs && (job.ageSecs now).any fun age => ttlSecs < age

/-- What one iteration of the loop meets. -/
structure Turn where
  claim : Reply ServiceError
  claimedAt : Timestamp
  counted : Reply ServiceError
  analyze : Option (Except AnalyzerError AnalysisReport)
  failedAt : Timestamp
  replies : Nat → Reply ServiceError

/-- A job the loop handled, and what its handling met. -/
structure Handling where
  job : AnalyzeTxJob
  analyze : Option (Except AnalyzerError AnalysisReport)
  failedAt : Timestamp
  replies : Nat → Reply ServiceError
  before : World

/-- How often the job of an enqueue was analyzed. -/
def analyses (handled : List Handling) (ticket : Nat) : Nat := handled.countP fun h => h.job.ticket = ticket

structure LoopState where
  world : World
  expiredDropped : UInt64
  running : Bool
  /-- Numbers the head-tracker's enqueues. -/
  nextTicket : Nat
  /-- The jobs analyzed so far; history the worker does not keep. -/
  handled : List Handling

inductive Event where
  | turn (t : Turn)
  /-- The head-tracker enqueues a job. -/
  | submit (job : AnalyzeTxJob)
  /-- Another service's request; only the head-tracker and the worker enqueue. -/
  | other (r : Request) (foreign : ∀ job, r ≠ .enqueue job)

section

variable (cfg : WorkerConfig) (resolver : ResolverSnapshot)

/-- Everything the services hold after a handled job. -/
def Handling.after (h : Handling) : World :=
  (run serve (handle h.job h.analyze h.failedAt resolver cfg) h.replies h.before).2

namespace LoopState

def iterate (s : LoopState) (t : Turn) : LoopState :=
  if s.running then
    match claim t.claim s.world with
    | (.error _, w) => { s with world := w, running := false }
    | (.ok none, w) => { s with world := w }
    | (.ok (some job), w) =>
      if expired cfg t.claimedAt job then
        { s with
          world := (exchange serve t.counted (.incrDropped expiredJobsKey 1) w).2
          expiredDropped := s.expiredDropped + 1 }
      else
        let h : Handling := ⟨job, t.analyze, t.failedAt, t.replies, w⟩
        { s with world := h.after cfg resolver, handled := s.handled ++ [h] }
  else s

/-- `enqueue_block` sets `attempt` to 0. -/
def submit (s : LoopState) (job : AnalyzeTxJob) : LoopState :=
  let job := { job with attempt := 0, ticket := s.nextTicket }
  { s with world := { s.world with pending := s.world.pending ++ [job] }, nextTicket := s.nextTicket + 1 }

def step (s : LoopState) : Event → LoopState
  | .turn t => s.iterate cfg resolver t
  | .submit job => s.submit job
  | .other r _ =>
    match serve r s.world with
    | .ok w => { s with world := w }
    | .error _ => s

/-- The worker starts on an empty queue. -/
def start (w : World) : LoopState where
  world := { w with pending := [] }
  expiredDropped := 0
  running := true
  nextTicket := 0
  handled := []

def loop (w : World) (events : List Event) : LoopState := events.foldl (step cfg resolver) (start w)

end LoopState

/-! ### How a job ends -/

inductive Ending where
  | persisted | skipped | requeued | deadLettered
  deriving DecidableEq

namespace Handling

def Ends (h : Handling) : Ending → Prop
  | .persisted => ∃ report, analyzeWithin cfg h.analyze = .ok report ∧
    ((h.after cfg resolver).db.analysis report.key).isSome = true ∧
    ((h.after cfg resolver).db.projects (resolver.resolve report.chainId report.toAddress).slug).isSome = true ∧
    ((h.after cfg resolver).db.addressProject (addressKey report.chainId report.toAddress)).isSome = true
  | .skipped => ∃ reason, analyzeWithin cfg h.analyze = .error (.skipped reason)
  | .requeued => ∃ retried, (h.after cfg resolver).pending = h.before.pending ++ [retried] ∧
    retried.attempt.toNat = h.job.attempt.toNat + 1 ∧ retried = { h.job with attempt := retried.attempt }
  | .deadLettered => ∃ dead, (h.after cfg resolver).dead = h.before.dead ++ [dead] ∧ dead.job = h.job

def EndsOnce (h : Handling) : Prop := ∃! ending, h.Ends cfg resolver ending

/-- The answers before a request arrive and the request itself is not refused. -/
def Reaches (replies : Nat → Reply ServiceError) (n : Nat) : Prop :=
  (∀ i < n, replies i = .answered) ∧ ∀ error, replies n ≠ .refused error

/-- What must not go wrong: a persisted analysis has each of its three rows already, or its time is representable and
the requests up to that row get through; a retry or a dead letter reaches the queue. -/
def Delivers (h : Handling) : Prop :=
  match analyzeWithin cfg h.analyze with
  | .ok report =>
    let reaches := fun n =>
      (Timestamp.ofSecs report.blockTimestamp.toInt64).isSome = true ∧ Reaches h.replies n
    ((h.before.db.analysis report.key).isSome = true ∨ reaches 0) ∧
      ((h.before.db.projects (resolver.resolve report.chainId report.toAddress).slug).isSome = true ∨ reaches 1) ∧
      ((h.before.db.addressProject (addressKey report.chainId report.toAddress)).isSome = true ∨ reaches 2)
  | .error (.skipped _) => True
  | .error _ => Reaches h.replies 0

end Handling

end

end GasAnalyzer.Indexer
