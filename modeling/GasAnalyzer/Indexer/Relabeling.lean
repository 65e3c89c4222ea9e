import GasAnalyzer.Indexer.Writers

/-!
# What an override does to the history

`label_override` maps the address and then runs `relabel_unknowns`, which rewrites the rows that still carry a synthetic
slug. A row of the address that was labeled before keeps its old slug.
-/

namespace GasAnalyzer.Indexer

open Program

/-- The address a row of `analysis` is about. -/
def AnalysisRow.about (row : AnalysisRow) (key : AnalysisKey) : AddressKey := (key.1, row.toAddress)

/-- Every row about the address carries the slug, and no labeled row about another one changes. -/
structure HistoryRelabeled (before after : Database) (address : AddressKey) (slug : String) : Prop where
  relabeled : ∀ key row, after.analysis key = some row → row.about key = address → row.projectSlug = slug
  others : ∀ key row, before.analysis key = some row → row.about key ≠ address → isUnknown row.projectSlug = false →
    after.analysis key = some row

/-! ### The update of `relabel_unknowns` -/

namespace Database

variable {db : Database} {key : AnalysisKey} {row : AnalysisRow}

/-- A relabeled row differs from the row before in its slug at most. -/
theorem relabel_about (db : Database) (key : AnalysisKey) (row : AnalysisRow) :
    (db.relabel key row).about key = row.about key := by
  unfold relabel
  split
  · rfl
  · split <;> rfl

theorem relabel_known (known : isUnknown row.projectSlug = false) : db.relabel key row = row := by
  unfold relabel
  split
  · rfl
  · rw [if_neg]
    intro both
    rw [known] at both
    exact Bool.false_ne_true both.1

theorem relabel_unknown {mapping : AddressProjectRow} (unknown : isUnknown row.projectSlug = true)
    (mapped : db.addressProject (row.about key) = some mapping) (known : isUnknown mapping.projectSlug = false) :
    (db.relabel key row).projectSlug = mapping.projectSlug := by
  unfold AnalysisRow.about at mapped
  unfold relabel
  rw [mapped]
  dsimp only
  rw [if_pos ⟨unknown, by rw [known]; exact Bool.false_ne_true⟩]

/-- Once an address is mapped to a known slug, the update labels its whole history exactly when no row of it carries
another known slug. -/
theorem relabelUnknowns_iff {address : AddressKey} {slug : String} {manual : Bool}
    (mapped : db.addressProject address = some ⟨slug, manual⟩) (known : isUnknown slug = false) :
    HistoryRelabeled db db.relabelUnknowns address slug ↔
      ∀ key row, db.analysis key = some row → row.about key = address →
        isUnknown row.projectSlug = true ∨ row.projectSlug = slug := by
  have rows : ∀ {key row}, db.analysis key = some row →
      db.relabelUnknowns.analysis key = some (db.relabel key row) := by
    intro key row found
    show (db.analysis key).map (db.relabel key) = _
    rw [found]
    rfl
  constructor
  · intro history key row found here
    cases verdict : isUnknown row.projectSlug with
    | true => exact Or.inl rfl
    | false =>
      have same := history.relabeled key _ (rows found) ((relabel_about db key row).trans here)
      rw [relabel_known verdict] at same
      exact Or.inr same
  · intro mixed
    refine ⟨?_, ?_⟩
    · intro key row found here
      obtain ⟨before, was, rfl⟩ := Option.map_eq_some_iff.mp (show (db.analysis key).map (db.relabel key) = _ from found)
      rw [relabel_about] at here
      cases verdict : isUnknown before.projectSlug with
      | true =>
        rw [← here] at mapped
        exact relabel_unknown verdict mapped known
      | false =>
        rw [relabel_known verdict]
        rcases mixed key before was here with unknown | same
        · rw [verdict] at unknown
          cases unknown
        · exact same
    · intro key row found _ labeled
      rw [rows found, relabel_known labeled]

end Database

/-! ### The override -/

/-- Whether the views are rebuilt or not, no table changes. -/
theorem refreshRollups_last {α : Type} (answer : α) (replies : Nat → Reply ServiceError) (w : World) :
    (run serve (regardless .refreshRollups (.done answer)) replies w).2 = w := by
  show (exchange serve (replies 0) .refreshRollups w).2 = w
  rcases exchange_state serve (replies 0) .refreshRollups w with same | served
  · exact same
  · exact (Except.ok.inj served).symm

/-- A successful override has mapped the address, then updated the history. -/
theorem labelOverride_ok {form : OverrideForm} {addr : AddressBytes} {slug : String}
    (read : parseAddr form.address.toList = .ok addr) (valid : validateSlug form.slug.toList = .ok slug)
    {replies : Nat → Reply ServiceError} {w : World}
    (succeeded : (run serve (labelOverride form) replies w).1 = .ok ()) :
    ∃ db : Database, db.analysis = w.db.analysis ∧ db.addressProject (form.chainId, addr) = some ⟨slug, true⟩ ∧
      (run serve (labelOverride form) replies w).2.db = db.relabelUnknowns := by
  unfold labelOverride at succeeded ⊢
  simp only [read, valid] at succeeded ⊢
  unfold applyOverride at succeeded ⊢
  obtain ⟨w₁, placed, ran⟩ := run_orReturn_ok nofun succeeded
  rw [ran] at succeeded ⊢
  obtain ⟨w₂, mapped, ran⟩ := run_orReturn_ok nofun succeeded
  rw [ran] at succeeded ⊢
  obtain ⟨w₃, updated, ran⟩ := run_orReturn_ok nofun succeeded
  rw [ran, refreshRollups_last]
  obtain ⟨db, manual, mapped⟩ := Outcome.bind_ok mapped
  obtain ⟨-, rfl⟩ := Database.mapAddress_ok manual
  have here : addressKey form.chainId.toUInt64 addr = (form.chainId, addr) := by
    rw [addressKey, Int64.toInt64_toUInt64]
  refine ⟨w₂.db, ?_, ?_, (congrArg World.db (Except.ok.inj updated)).symm⟩
  · rw [← Except.ok.inj mapped, ← Except.ok.inj placed]
    rfl
  · rw [← Except.ok.inj mapped, ← here]
    show Function.update w₁.db.addressProject (addressKey form.chainId.toUInt64 addr) (some ⟨slug, true⟩)
      (addressKey form.chainId.toUInt64 addr) = _
    rw [Function.update_self]

/-- An override relabels the whole history of its address exactly when every row of it is still unknown, or already
carries the slug. -/
theorem override_relabels_iff {form : OverrideForm} {addr : AddressBytes} {slug : String}
    (read : parseAddr form.address.toList = .ok addr) (valid : validateSlug form.slug.toList = .ok slug)
    {replies : Nat → Reply ServiceError} {w : World}
    (succeeded : (run serve (labelOverride form) replies w).1 = .ok ()) :
    HistoryRelabeled w.db (run serve (labelOverride form) replies w).2.db (form.chainId, addr) slug ↔
      ∀ key row, w.db.analysis key = some row → row.about key = (form.chainId, addr) →
        isUnknown row.projectSlug = true ∨ row.projectSlug = slug := by
  obtain ⟨db, kept, mapped, after⟩ := labelOverride_ok read valid succeeded
  have update := Database.relabelUnknowns_iff mapped (validateSlug_known valid)
  rw [kept] at update
  rw [after, ← update]
  constructor
  · intro history
    exact ⟨history.relabeled, fun key row found => history.others key row (by rw [← kept]; exact found)⟩
  · intro history
    exact ⟨history.relabeled, fun key row found => history.others key row (by rw [kept]; exact found)⟩

/-! An operator renames an address that was labeled before. -/

def relabeledAddress : AddressBytes := Vector.replicate 20 0xaa

def oldLabelRow : AnalysisRow where
  blockTimestamp := ⟨0, by decide, by decide⟩
  txHash := Vector.replicate 32 0
  fromAddress := Vector.replicate 20 0
  toAddress := relabeledAddress
  functionSelector := Vector.replicate 4 0
  projectSlug := "aave"
  gasUsed := 0
  effectiveGasPriceWei := 0
  gaskillerGasEstimate := 0
  gasSaved := 0
  weiSaved := 0
  isHeuristic := false
  failureReason := none
  stateUpdateCount := 0
  skippedOpcodes := []
  reentered := false

/-- One row of the address, under `slug`. -/
def historyWorld (slug : String) : World where
  db := {
    World.fresh.db with
    analysis := fun key => if key = (1, 7, 0) then some { oldLabelRow with projectSlug := slug } else none }
  pending := []
  dead := []
  counters := fun _ => 0
  lastHead := none

def renameForm : OverrideForm where
  address := "0xaaaaaaaaaaaaaaaaaaaaaaaaaaaaaaaaaaaaaaaa"
  chainId := 1
  slug := "uniswap"
  projectName := ""

theorem override_relabels_unknown :
    HistoryRelabeled (historyWorld "unknown:0xaa").db
      (run serve (labelOverride renameForm) answers (historyWorld "unknown:0xaa")).2.db (1, relabeledAddress)
      "uniswap" := by
  refine (override_relabels_iff (by decide +kernel) (by decide +kernel)
    (by decide +kernel)).mpr ?_
  intro key row found _
  simp only [historyWorld] at found
  split at found
  · obtain rfl := Option.some.inj found
    left
    show isUnknown "unknown:0xaa" = true
    decide +kernel
  · cases found

theorem override_leaves_label :
    (run serve (labelOverride renameForm) answers (historyWorld "aave")).1 = .ok () ∧
      ¬HistoryRelabeled (historyWorld "aave").db
        (run serve (labelOverride renameForm) answers (historyWorld "aave")).2.db (1, relabeledAddress) "uniswap" := by
  refine ⟨by decide +kernel, ?_⟩
  intro history
  have left : ((run serve (labelOverride renameForm) answers (historyWorld "aave")).2.db.analysis (1, 7, 0)).any
      (fun row => decide (row.about (1, 7, 0) = (1, relabeledAddress) ∧ row.projectSlug = "aave")) = true := by
    decide +kernel
  obtain ⟨row, found, stays⟩ := (Option.any_eq_true _ _).mp left
  obtain ⟨here, old⟩ := of_decide_eq_true stays
  have new := history.relabeled _ row found here
  rw [old] at new
  exact absurd new (by decide +kernel)

end GasAnalyzer.Indexer
