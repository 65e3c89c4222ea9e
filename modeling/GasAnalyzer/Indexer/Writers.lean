import GasAnalyzer.Indexer.Resolver
import GasAnalyzer.Indexer.Store

/-!
# The writers of labels

The four paths that write `address_project`: the worker persisting an analysis, the labeler, the resolver refresh and
the operator's override. Each is the tree of its requests; what it reads from outside (an analysis, the contract names
of the explorers, the overlay and DefiLlama, a form) is its argument.
-/

namespace GasAnalyzer.Indexer

open Text

def ProjectInfo.toProject (info : ProjectInfo) : Project where
  slug := info.slug
  name := info.name
  category := info.category
  contactEmail := info.contactEmail
  contactUrl := info.contactUrl

/-! ### The worker -/

structure WorkerConfig where
  maxRetries : UInt32
  analyzeTimeoutSecs : UInt64
  queueJobTtlSecs : UInt64

/-- The analysis under its timeout; `none` when it did not finish in time. -/
def analyzeWithin (cfg : WorkerConfig) : Option (Except AnalyzerError AnalysisReport) →
    Except AnalyzerError AnalysisReport
  | some analyze => analyze
  | none => .error (.rpc ("analyze_tx timed out after " ++ toString cfg.analyzeTimeoutSecs.toNat ++ "s"))

/-- `worker::handle`; `now` is the time a dead letter is stamped with. -/
def handle (job : AnalyzeTxJob) (analyze : Option (Except AnalyzerError AnalysisReport)) (now : Timestamp)
    (resolver : ResolverSnapshot) (cfg : WorkerConfig) : Client (Except ServiceError Unit) :=
  match analyzeWithin cfg analyze with
  | .ok report =>
    let project := resolver.resolve report.chainId report.toAddress
    .orReturn (.insertAnalysis report project.slug) .error <|
    .orReturn (.upsertProject project.toProject) .error <|
    .orReturn (.upsertAddressProject report.chainId report.toAddress project.slug) .error <|
    .done (.ok ())
  | .error (.skipped _) => .done (.ok ())
  | .error e =>
    if job.attempt + 1 < cfg.maxRetries then
      .orReturn (.enqueue job.nextAttempt) .error <| .done (.ok ())
    else
      .orReturn (.deadLetter ⟨job, now, e.message⟩) .error <| .done (.ok ())

/-! ### The labeler -/

inductive ContractMeta where
  | verified (name : String) (isProxy : Bool) (implementation : Option AddressBytes)
  | unverified

/-- What the explorers answered: one Etherscan lookup and, where Blockscout is configured, up to two of its own. -/
structure Explorers where
  etherscan : Except ResolverError ContractMeta
  blockscout : Option (Nat → Except ResolverError ContractMeta)

namespace Explorers

/-- The verified name of the contract, or the result an attempt is logged under. -/
def contractName (explorers : Explorers) : Except String String :=
  match explorers.etherscan, explorers.blockscout with
  | .ok (.verified name _ _), _ => .ok name
  | .ok .unverified, none => .error "unverified"
  | .ok .unverified, some blockscout =>
    match blockscout 0 with
    | .ok (.verified name _ _) => .ok name
    | _ => .error "unverified"
  | .error _, none => .error "error"
  | .error _, some blockscout =>
    match blockscout 0 with
    | .error _ => .error "error"
    | .ok (.verified name _ _) => .ok name
    | .ok .unverified =>
      match blockscout 1 with
      | .ok (.verified name _ _) => .ok name
      | _ => .error "unverified"

end Explorers

/-- A project written only so that the foreign key of a mapping resolves. -/
def placeholderProject (slug name : String) : Project where
  slug
  name
  category := none
  contactEmail := none
  contactUrl := none

/-- `process_address` once the name is matched. -/
def persistMatch (chainId : UInt64) (addr : AddressBytes) (name slug : String) : Client Unit :=
  let failed := Request.upsertLabelAttempt chainId addr "error" (some name) (some slug)
  .request (.upsertProject (placeholderProject slug name)) fun
    | .error _ => .regardless failed (.done ())
    | .ok () =>
      .request (.upsertAddressProject chainId addr slug) fun
        | .error _ => .regardless failed (.done ())
        | .ok () =>
          .regardless .relabelUnknowns <|
          .regardless (.upsertLabelAttempt chainId addr "matched" (some name) (some slug)) <|
          .done ()

/-- `labeler::process_address` -/
def processAddress (chainId : UInt64) (names : NameDict) (addr : AddressBytes) (explorers : Explorers) : Client Unit :=
  match explorers.contractName with
  | .error result => .regardless (.upsertLabelAttempt chainId addr result none none) (.done ())
  | .ok name =>
    match names.lookup name with
    | none => .regardless (.upsertLabelAttempt chainId addr "no-match" (some name) none) (.done ())
    | some slug => persistMatch chainId addr name slug

/-! ### The resolver refresh -/

/-- The order a `HashMap` iterates its entries in: some order. -/
structure Listing (snapshot : ResolverSnapshot) where
  projects : List ProjectInfo
  addresses : List ((UInt64 × AddressBytes) × ProjectInfo)
  everyProject : projects.Perm (snapshot.projects.entries.map (·.2))
  everyAddress : addresses.Perm (snapshot.addresses.entries.map fun entry => (entry.1, entry.2))

/-- `ResolverRefreshOutcome`, less the number of rows `relabel_unknowns` reports. -/
structure ResolverRefreshOutcome where
  projects : Nat := 0
  addresses : Nat := 0

/-- `refresh_resolver_with` after the resolver has its new snapshot. -/
def persistSnapshot (snapshot : ResolverSnapshot) (listing : Listing snapshot) : Client ResolverRefreshOutcome :=
  .each 0 (listing.projects.map fun info => .upsertProject info.toProject) fun projects =>
  .each 0 (listing.addresses.map fun (key, info) => .upsertAddressProject key.1 key.2 info.slug) fun addresses =>
  .regardless .relabelUnknowns <|
  .done { projects, addresses }

/-- `refresh_resolver_with`; `listing` is how the new snapshot is iterated. -/
def refreshResolverWith (refreshed : Except ResolverError ResolverSnapshot)
    (listing : (snapshot : ResolverSnapshot) → Listing snapshot) : Client ResolverRefreshOutcome :=
  match refreshed with
  | .error _ => .done {}
  | .ok snapshot => persistSnapshot snapshot (listing snapshot)

/-! ### The override -/

structure OverrideForm where
  address : String
  chainId : Int64
  slug : String
  projectName : String

inductive WebError where
  | badRequest (what : String)
  | store (error : ServiceError)
  deriving DecidableEq

def parseAddr (s : Chars) : Except WebError AddressBytes :=
  let s := trim s
  match addressOfHex ((stripPrefix "0x".toList s).getD s) with
  | .ok address => .ok address
  | .error .hex => .error (.badRequest "invalid hex")
  | .error (.length bytes) => .error (.badRequest ("address must be 20 bytes, got " ++ toString bytes))

def slugChar (c : Char) : Bool := ('a' ≤ c && c ≤ 'z') || ('0' ≤ c && c ≤ '9') || c == '-'

def validateSlug (s : Chars) : Except WebError String :=
  let s := trim s
  if s = [] ∨ 64 < (String.ofList s).utf8ByteSize then .error (.badRequest "slug must be 1..=64 chars")
  else if isUnknown (String.ofList s) then .error (.badRequest "override cannot start with \x60unknown:\x60")
  else if s.all slugChar then .ok (String.ofList s)
  else .error (.badRequest "slug must match [a-z0-9-]+")

namespace OverrideForm

/-- The operator gave a display name. -/
def Named (form : OverrideForm) : Prop := trim form.projectName.toList ≠ []

instance (form : OverrideForm) : Decidable form.Named := inferInstanceAs (Decidable (_ ≠ _))

def displayName (form : OverrideForm) (slug : String) : String :=
  if form.Named then String.ofList (trim form.projectName.toList) else slug

end OverrideForm

/-- `label_override` with its form read. -/
def applyOverride (form : OverrideForm) (addr : AddressBytes) (slug : String) : Client (Except WebError Unit) :=
  let fail := fun error => Except.error (WebError.store error)
  .orReturn (.upsertProject (placeholderProject slug (form.displayName slug))) fail <|
  .orReturn (.upsertManualAddressProject form.chainId.toUInt64 addr slug) fail <|
  .orReturn .relabelUnknowns fail <|
  .regardless .refreshRollups <|
  .done (.ok ())

/-- `label_override` up to the cell it renders, which only reads. -/
def labelOverride (form : OverrideForm) : Client (Except WebError Unit) :=
  match parseAddr form.address.toList with
  | .error error => .done (.error error)
  | .ok addr =>
    match validateSlug form.slug.toList with
    | .error error => .done (.error error)
    | .ok slug => applyOverride form addr slug

/-- An operator cannot set a synthetic slug. -/
theorem validateSlug_known {s : Chars} {slug : String} (valid : validateSlug s = .ok slug) : isUnknown slug = false := by
  simp only [validateSlug] at valid
  split at valid
  · cases valid
  · split at valid
    · cases valid
    · rename_i known
      split at valid
      · injection valid with same
        rw [← same]
        exact Bool.eq_false_iff.mpr known
      · cases valid

end GasAnalyzer.Indexer
