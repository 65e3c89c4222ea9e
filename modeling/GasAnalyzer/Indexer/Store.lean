import Mathlib
import GasAnalyzer.Library.Outcome
import GasAnalyzer.Library.Requests
import GasAnalyzer.Indexer.Types

/-!
# The store and the queue

The Postgres tables and the Redis lists the indexer's services share, and what each of their requests does to them.
A request is one SQL statement or one Redis command, and takes effect as a whole.
-/

namespace GasAnalyzer.Indexer

/-! ### Tables -/

/-- `(chain_id, address)` -/
abbrev AddressKey := Int64 × AddressBytes

/-- `(chain_id, block_number, tx_index)` -/
abbrev AnalysisKey := Int64 × Int64 × Int32

structure AnalysisRow where
  blockTimestamp : Timestamp
  txHash : Vector UInt8 32
  fromAddress : AddressBytes
  toAddress : AddressBytes
  functionSelector : Vector UInt8 4
  projectSlug : String
  gasUsed : Int64
  effectiveGasPriceWei : BitVec 128
  gaskillerGasEstimate : Int64
  gasSaved : Int64
  weiSaved : BitVec 128
  isHeuristic : Bool
  failureReason : Option String
  stateUpdateCount : Int32
  skippedOpcodes : List String
  reentered : Bool

structure ProjectRow where
  projectName : String
  category : Option String
  contactEmail : Option String
  contactUrl : Option String
  deriving DecidableEq

structure AddressProjectRow where
  projectSlug : String
  manualOverride : Bool
  deriving DecidableEq

structure LabelAttemptRow where
  lastResult : String
  contractName : Option String
  matchedSlug : Option String

structure Database where
  analysis : AnalysisKey → Option AnalysisRow
  projects : String → Option ProjectRow
  addressProject : AddressKey → Option AddressProjectRow
  addressLabelAttempt : AddressKey → Option LabelAttemptRow

/-- The database and the Redis server. -/
structure World where
  db : Database
  pending : List AnalyzeTxJob
  dead : List Dead
  counters : String → Int
  lastHead : Option UInt64

/-- A database and a Redis server that hold nothing. -/
def World.fresh : World where
  db := ⟨fun _ => none, fun _ => none, fun _ => none, fun _ => none⟩
  pending := []
  dead := []
  counters := fun _ => 0
  lastHead := none

/-! ### Errors -/

inductive ServiceError where
  | sqlx (what : String)
  | decimal (what : String)
  | redis (what : String)
  deriving DecidableEq

def ServiceError.message : ServiceError → String
  | sqlx what => "sqlx error: " ++ what
  | decimal what => "decimal conversion error: " ++ what
  | redis what => "redis error: " ++ what

/-! ### Statements -/

structure Project where
  slug : String
  name : String
  category : Option String
  contactEmail : Option String
  contactUrl : Option String
  deriving DecidableEq

def AnalysisReport.key (report : AnalysisReport) : AnalysisKey :=
  (report.chainId.toInt64, report.blockNumber.toInt64, (report.txIndex.toUInt32).toInt32)

def addressKey (chainId : UInt64) (address : AddressBytes) : AddressKey := (chainId.toInt64, address)

namespace Database

/-- `INSERT … ON CONFLICT (chain_id, block_number, tx_index) DO NOTHING` -/
def insertAnalysis (db : Database) (report : AnalysisReport) (projectSlug : String) : Except ServiceError Database := do
  let blockTimestamp ← okOr (.decimal ("invalid block_timestamp: " ++ toString report.blockTimestamp.toNat))
    (Timestamp.ofSecs report.blockTimestamp.toInt64)
  match db.analysis report.key with
  | some _ => .ok db
  | none =>
    let row : AnalysisRow := {
      blockTimestamp, projectSlug
      txHash := report.txHash
      fromAddress := report.fromAddress
      toAddress := report.toAddress
      functionSelector := report.functionSelector
      gasUsed := report.gasUsed.toInt64
      effectiveGasPriceWei := report.effectiveGasPriceWei
      gaskillerGasEstimate := report.gaskillerGasEstimate.toInt64
      gasSaved := report.gasSaved.toInt64
      weiSaved := report.weiSaved
      isHeuristic := report.isHeuristic
      failureReason := report.failureReason
      stateUpdateCount := report.stateUpdateCount.toInt32
      skippedOpcodes := report.skippedOpcodes
      reentered := report.reentered }
    .ok { db with analysis := Function.update db.analysis report.key (some row) }

/-- `ON CONFLICT (project_slug) DO UPDATE` of every column. -/
def upsertProject (db : Database) (project : Project) : Database :=
  let row : ProjectRow := {
    projectName := project.name
    category := project.category
    contactEmail := project.contactEmail
    contactUrl := project.contactUrl }
  { db with projects := Function.update db.projects project.slug (some row) }

/-- Writes a mapping; its slug is a foreign key into `projects`. -/
def mapAddress (db : Database) (key : AddressKey) (row : AddressProjectRow) : Except ServiceError Database :=
  match db.projects row.projectSlug with
  | none => .error (.sqlx "violates foreign key constraint")
  | some _ => .ok { db with addressProject := Function.update db.addressProject key (some row) }

/-- `ON CONFLICT DO UPDATE … WHERE address_project.manual_override = FALSE` -/
def upsertAddressProject (db : Database) (chainId : UInt64) (address : AddressBytes) (slug : String) :
    Except ServiceError Database :=
  match db.addressProject (addressKey chainId address) with
  | none => db.mapAddress (addressKey chainId address) ⟨slug, false⟩
  | some row => if row.manualOverride then .ok db else db.mapAddress (addressKey chainId address) ⟨slug, false⟩

def upsertManualAddressProject (db : Database) (chainId : UInt64) (address : AddressBytes) (slug : String) :
    Except ServiceError Database :=
  db.mapAddress (addressKey chainId address) ⟨slug, true⟩

/-- The row of `analysis` after `relabel_unknowns`. -/
def relabel (db : Database) (key : AnalysisKey) (row : AnalysisRow) : AnalysisRow :=
  match db.addressProject (key.1, row.toAddress) with
  | none => row
  | some mapping =>
    if isUnknown row.projectSlug ∧ ¬isUnknown mapping.projectSlug then { row with projectSlug := mapping.projectSlug }
    else row

def relabelUnknowns (db : Database) : Database :=
  { db with analysis := fun key => (db.analysis key).map (db.relabel key) }

def upsertLabelAttempt (db : Database) (chainId : UInt64) (address : AddressBytes) (result : String)
    (contractName matchedSlug : Option String) : Database :=
  let before := (db.addressLabelAttempt (addressKey chainId address)).bind (·.matchedSlug)
  let row : LabelAttemptRow := { lastResult := result, contractName, matchedSlug := matchedSlug.or before }
  { db with addressLabelAttempt := Function.update db.addressLabelAttempt (addressKey chainId address) (some row) }

end Database

/-! ### Requests -/

inductive Request where
  | insertAnalysis (report : AnalysisReport) (projectSlug : String)
  | upsertProject (project : Project)
  | upsertAddressProject (chainId : UInt64) (address : AddressBytes) (slug : String)
  | upsertManualAddressProject (chainId : UInt64) (address : AddressBytes) (slug : String)
  | relabelUnknowns
  | upsertLabelAttempt (chainId : UInt64) (address : AddressBytes) (result : String)
    (contractName matchedSlug : Option String)
  /-- Rebuilds the views derived from `analysis`; no table changes. -/
  | refreshRollups
  | enqueue (job : AnalyzeTxJob)
  | deadLetter (dead : Dead)
  | incrDropped (key : String) (amount : UInt64)
  | publishLastHead (blockNumber : UInt64)
  deriving DecidableEq

def serve : Request → World → Except ServiceError World
  | .insertAnalysis report projectSlug, w => do .ok { w with db := ← w.db.insertAnalysis report projectSlug }
  | .upsertProject project, w => .ok { w with db := w.db.upsertProject project }
  | .upsertAddressProject chainId address slug, w =>
    do .ok { w with db := ← w.db.upsertAddressProject chainId address slug }
  | .upsertManualAddressProject chainId address slug, w =>
    do .ok { w with db := ← w.db.upsertManualAddressProject chainId address slug }
  | .relabelUnknowns, w => .ok { w with db := w.db.relabelUnknowns }
  | .upsertLabelAttempt chainId address result contractName matchedSlug, w =>
    .ok { w with db := w.db.upsertLabelAttempt chainId address result contractName matchedSlug }
  | .refreshRollups, w => .ok w
  | .enqueue job, w => .ok { w with pending := w.pending ++ [job] }
  | .deadLetter dead, w => .ok { w with dead := w.dead ++ [dead] }
  | .incrDropped key amount, w =>
    if w.counters key + amount.toNat < 2 ^ 63 then
      .ok { w with counters := Function.update w.counters key (w.counters key + amount.toNat) }
    else .error (.redis "increment or decrement would overflow")
  | .publishLastHead blockNumber, w => .ok { w with lastHead := some blockNumber }

abbrev Client (α : Type) := Program Request ServiceError α

/-! ### What a request writes -/

/-- The mapping a request writes. -/
def Request.mapping : Request → Option (AddressKey × AddressProjectRow)
  | .upsertAddressProject chainId address slug => some (addressKey chainId address, ⟨slug, false⟩)
  | .upsertManualAddressProject chainId address slug => some (addressKey chainId address, ⟨slug, true⟩)
  | _ => none

def Project.row (project : Project) : ProjectRow where
  projectName := project.name
  category := project.category
  contactEmail := project.contactEmail
  contactUrl := project.contactUrl

/-- The row carries the mark of an operator. -/
def World.Manual (w : World) (key : AddressKey) : Prop :=
  ∃ row, w.db.addressProject key = some row ∧ row.manualOverride = true

variable {w w' : World}

theorem Database.mapAddress_ok {db db' : Database} {key : AddressKey} {row : AddressProjectRow}
    (mapped : db.mapAddress key row = .ok db') :
    (db.projects row.projectSlug).isSome = true ∧
      db' = { db with addressProject := Function.update db.addressProject key (some row) } := by
  unfold Database.mapAddress at mapped
  split at mapped
  · cases mapped
  · rename_i found
    injection mapped with same
    exact ⟨by rw [found]; rfl, same.symm⟩

theorem Database.upsertAddressProject_ok {db db' : Database} {chainId : UInt64} {address : AddressBytes} {slug : String}
    (mapped : db.upsertAddressProject chainId address slug = .ok db') :
    db' = db ∨
      (∀ row, db.addressProject (addressKey chainId address) = some row → row.manualOverride = false) ∧
        db' = { db with
          addressProject := Function.update db.addressProject (addressKey chainId address) (some ⟨slug, false⟩) } := by
  unfold Database.upsertAddressProject at mapped
  split at mapped
  · rename_i absent
    refine Or.inr ⟨?_, (mapAddress_ok mapped).2⟩
    intro row here
    rw [absent] at here
    cases here
  · rename_i row found
    split at mapped
    · injection mapped with same
      exact Or.inl same.symm
    · rename_i automatic
      refine Or.inr ⟨?_, (mapAddress_ok mapped).2⟩
      intro row' here
      rw [found] at here
      injection here with same
      rw [← same]
      exact Bool.eq_false_iff.mpr automatic

theorem Database.insertAnalysis_ok {db db' : Database} {report : AnalysisReport} {projectSlug : String}
    (inserted : db.insertAnalysis report projectSlug = .ok db') : ∃ analysis, db' = { db with analysis } := by
  obtain ⟨time, -, inserted⟩ := Outcome.bind_ok inserted
  split at inserted
  · injection inserted with same
    exact ⟨db.analysis, same.symm⟩
  · injection inserted with same
    exact ⟨_, same.symm⟩

/-- An analysis of a representable time is always stored, or was stored before. -/
theorem serve_insertAnalysis {report : AnalysisReport}
    (dated : (Timestamp.ofSecs report.blockTimestamp.toInt64).isSome = true) (projectSlug : String) (w : World) :
    ∃ w', serve (.insertAnalysis report projectSlug) w = .ok w' ∧ (w'.db.analysis report.key).isSome = true := by
  obtain ⟨time, found⟩ := Option.isSome_iff_exists.mp dated
  cases before : w.db.analysis report.key with
  | some row =>
    refine ⟨w, ?_, by rw [before]; rfl⟩
    simp only [serve, Database.insertAnalysis, found, okOr, before, Outcome.ok_bind]
  | none =>
    simp only [serve, Database.insertAnalysis, found, okOr, before, Outcome.ok_bind]
    exact ⟨_, rfl, by simp only [Function.update_self, Option.isSome_some]⟩

theorem serve_incrDropped {key : String} {amount : UInt64} (served : serve (.incrDropped key amount) w = .ok w') :
    ∃ counters, w' = { w with counters } := by
  simp only [serve] at served
  split at served
  · injection served with same
    exact ⟨_, same.symm⟩
  · cases served

/-- A mapping changes only where a request writes it, and the automatic upsert spares manual rows. -/
theorem serve_addressProject {r : Request} (served : serve r w = .ok w') (key : AddressKey) :
    w'.db.addressProject key = w.db.addressProject key ∨
      ∃ row, r.mapping = some (key, row) ∧ w'.db.addressProject key = some row ∧
        (row.manualOverride = true ∨ ¬w.Manual key) := by
  cases r with
  | upsertAddressProject chainId address slug =>
    obtain ⟨db, mapped, served⟩ := Outcome.bind_ok served
    injection served with same
    subst same
    rcases Database.upsertAddressProject_ok mapped with rfl | ⟨automatic, rfl⟩
    · exact Or.inl rfl
    · by_cases here : key = addressKey chainId address
      · subst here
        refine Or.inr ⟨⟨slug, false⟩, rfl, Function.update_self .., Or.inr ?_⟩
        intro ⟨row, found, manual⟩
        rw [automatic row found] at manual
        cases manual
      · exact Or.inl (Function.update_of_ne here ..)
  | upsertManualAddressProject chainId address slug =>
    obtain ⟨db, mapped, served⟩ := Outcome.bind_ok served
    injection served with same
    subst same
    obtain ⟨-, rfl⟩ := Database.mapAddress_ok mapped
    by_cases here : key = addressKey chainId address
    · subst here
      exact Or.inr ⟨⟨slug, true⟩, rfl, Function.update_self .., Or.inl rfl⟩
    · exact Or.inl (Function.update_of_ne here ..)
  | insertAnalysis report projectSlug =>
    obtain ⟨db, inserted, served⟩ := Outcome.bind_ok served
    injection served with same
    subst same
    obtain ⟨analysis, rfl⟩ := Database.insertAnalysis_ok inserted
    exact Or.inl rfl
  | incrDropped counter amount =>
    obtain ⟨counters, rfl⟩ := serve_incrDropped served
    exact Or.inl rfl
  | _ =>
    injection served with same
    rw [← same]
    exact Or.inl rfl

theorem serve_unmapped {r : Request} (plain : r.mapping = none) (served : serve r w = .ok w') (key : AddressKey) :
    w'.db.addressProject key = w.db.addressProject key := by
  rcases serve_addressProject served key with same | ⟨row, writes, -, -⟩
  · exact same
  · rw [plain] at writes
    cases writes

/-- The requests that push to a list of the queue. -/
def Request.pushes : Request → Bool
  | .enqueue _ | .deadLetter _ => true
  | _ => false

theorem serve_lists {r : Request} (plain : r.pushes = false) (served : serve r w = .ok w') :
    w'.pending = w.pending ∧ w'.dead = w.dead := by
  cases r with
  | enqueue job => cases plain
  | deadLetter dead => cases plain
  | insertAnalysis report projectSlug =>
    obtain ⟨db, -, served⟩ := Outcome.bind_ok served
    injection served with same
    subst same
    exact ⟨rfl, rfl⟩
  | upsertAddressProject chainId address slug =>
    obtain ⟨db, -, served⟩ := Outcome.bind_ok served
    injection served with same
    subst same
    exact ⟨rfl, rfl⟩
  | upsertManualAddressProject chainId address slug =>
    obtain ⟨db, -, served⟩ := Outcome.bind_ok served
    injection served with same
    subst same
    exact ⟨rfl, rfl⟩
  | incrDropped counter amount =>
    obtain ⟨counters, rfl⟩ := serve_incrDropped served
    exact ⟨rfl, rfl⟩
  | _ =>
    injection served with same
    subst same
    exact ⟨rfl, rfl⟩

/-- A project changes only where a request writes it. -/
theorem serve_projects {r : Request} (served : serve r w = .ok w') (slug : String) :
    w'.db.projects slug = w.db.projects slug ∨
      ∃ project, r = .upsertProject project ∧ project.slug = slug ∧ w'.db.projects slug = some project.row := by
  cases r with
  | upsertProject project =>
    injection served with same
    subst same
    by_cases here : slug = project.slug
    · subst here
      exact Or.inr ⟨project, rfl, rfl, Function.update_self ..⟩
    · exact Or.inl (Function.update_of_ne here ..)
  | upsertAddressProject chainId address slug' =>
    obtain ⟨db, mapped, served⟩ := Outcome.bind_ok served
    injection served with same
    subst same
    rcases Database.upsertAddressProject_ok mapped with rfl | ⟨-, rfl⟩ <;> exact Or.inl rfl
  | upsertManualAddressProject chainId address slug' =>
    obtain ⟨db, mapped, served⟩ := Outcome.bind_ok served
    injection served with same
    subst same
    obtain ⟨-, rfl⟩ := Database.mapAddress_ok mapped
    exact Or.inl rfl
  | insertAnalysis report projectSlug =>
    obtain ⟨db, inserted, served⟩ := Outcome.bind_ok served
    injection served with same
    subst same
    obtain ⟨analysis, rfl⟩ := Database.insertAnalysis_ok inserted
    exact Or.inl rfl
  | incrDropped counter amount =>
    obtain ⟨counters, rfl⟩ := serve_incrDropped served
    exact Or.inl rfl
  | _ =>
    injection served with same
    rw [← same]
    exact Or.inl rfl

/-- No request deletes a project. -/
theorem serve_keeps_project {r : Request} (served : serve r w = .ok w') {slug : String}
    (there : (w.db.projects slug).isSome = true) : (w'.db.projects slug).isSome = true := by
  rcases serve_projects served slug with same | ⟨project, -, -, written⟩
  · rw [same]
    exact there
  · rw [written]
    rfl

/-- An automatic mapping of a known slug lands unless an operator marked the row. -/
theorem serve_upsertAddressProject (chainId : UInt64) (address : AddressBytes) {slug : String}
    (there : (w.db.projects slug).isSome = true) :
    ∃ w', serve (.upsertAddressProject chainId address slug) w = .ok w' ∧
      (w'.db.addressProject (addressKey chainId address)).isSome = true ∧
      (¬w.Manual (addressKey chainId address) →
        w'.db.addressProject (addressKey chainId address) = some ⟨slug, false⟩) := by
  obtain ⟨row, found⟩ := Option.isSome_iff_exists.mp there
  by_cases marked : w.Manual (addressKey chainId address)
  · obtain ⟨row', here, manual⟩ := marked
    refine ⟨w, ?_, by rw [here]; rfl, fun automatic => absurd ⟨row', here, manual⟩ automatic⟩
    simp only [serve, Database.upsertAddressProject, here, manual, if_true, Outcome.ok_bind]
  · let mapped := Function.update w.db.addressProject (addressKey chainId address) (some ⟨slug, false⟩)
    have landed : mapped (addressKey chainId address) = some ⟨slug, false⟩ := Function.update_self ..
    refine ⟨{ w with db := { w.db with addressProject := mapped } }, ?_, by simp only [landed, Option.isSome_some],
      fun _ => landed⟩
    cases here : w.db.addressProject (addressKey chainId address) with
    | none => simp only [serve, Database.upsertAddressProject, here, Database.mapAddress, found, Outcome.ok_bind, mapped]
    | some row' =>
      have automatic : row'.manualOverride = false := by
        cases mark : row'.manualOverride with
        | false => rfl
        | true => exact absurd ⟨row', here, mark⟩ marked
      simp only [serve, Database.upsertAddressProject, here, automatic, Database.mapAddress, found]
      rfl

theorem serve_upsertAddressProject_frame {chainId : UInt64} {address : AddressBytes} {slug : String}
    (served : serve (.upsertAddressProject chainId address slug) w = .ok w') :
    w'.db.analysis = w.db.analysis ∧ w'.db.projects = w.db.projects := by
  obtain ⟨db, mapped, served⟩ := Outcome.bind_ok served
  injection served with same
  subst same
  rcases Database.upsertAddressProject_ok mapped with rfl | ⟨-, rfl⟩ <;> exact ⟨rfl, rfl⟩

end GasAnalyzer.Indexer
