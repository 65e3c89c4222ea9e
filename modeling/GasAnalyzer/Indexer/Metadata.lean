import GasAnalyzer.Indexer.Writers

/-!
# What labeling does to a project's row

The labeler's match path and the operator's override both upsert a placeholder project first, so that the foreign key
of the mapping resolves. The upsert replaces every column of a project that is already there.
-/

namespace GasAnalyzer.Indexer

open Program

/-- The paths that label an address with `slug`, the name of their placeholder, and whether an operator supplied it. -/
inductive Labels (slug : String) : Client Unit → String → Prop → Prop where
  | labeler {chainId : UInt64} {names : NameDict} {addr : AddressBytes} {explorers : Explorers} {name : String}
    (named : explorers.contractName = .ok name) (matched : names.lookup name = some slug) :
    Labels slug (processAddress chainId names addr explorers) name False
  | override {form : OverrideForm} {addr : AddressBytes} (read : parseAddr form.address.toList = .ok addr)
    (valid : validateSlug form.slug.toList = .ok slug) :
    Labels slug ((labelOverride form).map fun _ => ()) (form.displayName slug) form.Named

/-- After the run the project still has its category and contacts, and its name unless one was supplied. -/
def MetadataKept (p : Client Unit) (slug : String) (supplied : Prop) (replies : Nat → Reply ServiceError) (w : World)
    (row : ProjectRow) : Prop :=
  ∃ row', (run serve p replies w).2.db.projects slug = some row' ∧ row'.category = row.category ∧
    row'.contactEmail = row.contactEmail ∧ row'.contactUrl = row.contactUrl ∧
    (supplied ∨ row'.projectName = row.projectName)

/-! ### One project is written, at the start -/

def Plain (r : Request) : Prop := ∀ project, r ≠ .upsertProject project

theorem plain_keeps {p : Client Unit} (only : Only serve Plain p) (replies : Nat → Reply ServiceError) (w : World)
    (slug : String) : (run serve p replies w).2.db.projects slug = w.db.projects slug := by
  apply run_preserves (P := fun s : World => s.db.projects slug = w.db.projects slug) only _ replies w rfl
  intro r s s' plain served same
  rcases serve_projects served slug with kept | ⟨project, writes, -, -⟩
  · rw [kept, same]
  · exact absurd writes (plain project)

theorem Labels.shape {p : Client Unit} {slug name : String} {supplied : Prop} (labels : Labels slug p name supplied) :
    ∃ next, p = .request (.upsertProject (placeholderProject slug name)) next ∧
      ∀ answer, Only serve Plain (next answer) := by
  cases labels with
  | @labeler chainId names addr explorers _ named matched =>
    have attempt : ∀ result found slug, Only serve Plain
        (.regardless (.upsertLabelAttempt chainId addr result found slug) (.done ()) : Client Unit) :=
      fun _ _ _ => only_regardless (fun _ => Request.noConfusion) trivial
    refine ⟨_, by simp only [processAddress, named, matched, persistMatch]; rfl, ?_⟩
    intro answer
    cases answer with
    | error _ => exact attempt _ _ _
    | ok _ =>
      refine ⟨fun _ => Request.noConfusion, fun _ => attempt _ _ _, fun _ => ?_⟩
      exact only_regardless (fun _ => Request.noConfusion) (attempt _ _ _)
  | @override form addr read valid =>
    refine ⟨_, by simp only [labelOverride, read, valid, applyOverride, orReturn, map]; rfl, ?_⟩
    intro answer
    apply only_map
    cases answer with
    | error _ => trivial
    | ok _ =>
      apply only_orReturn (fun _ => Request.noConfusion)
      intro _
      apply only_orReturn (fun _ => Request.noConfusion)
      exact fun _ => only_regardless (fun _ => Request.noConfusion) trivial

/-- The project's row after labeling: its old one if the first statement never ran, else the placeholder's. -/
theorem Labels.row {p : Client Unit} {slug name : String} {supplied : Prop} (labels : Labels slug p name supplied)
    (replies : Nat → Reply ServiceError) (w : World) :
    (run serve p replies w).2.db.projects slug =
      if carried serve (replies 0) (.upsertProject (placeholderProject slug name)) w then
        some (placeholderProject slug name).row
      else w.db.projects slug := by
  obtain ⟨next, shape, plain⟩ := labels.shape
  have served : serve (.upsertProject (placeholderProject slug name)) w =
      .ok { w with db := w.db.upsertProject (placeholderProject slug name) } := rfl
  have written : ({ w with db := w.db.upsertProject (placeholderProject slug name) } : World).db.projects slug =
      some (placeholderProject slug name).row := Function.update_self ..
  rw [shape, run, plain_keeps (plain _)]
  cases reply : replies 0 with
  | answered =>
    rw [carried_answered served, exchange_answered served, if_pos rfl]
    exact written
  | refused error =>
    rw [carried_refused, exchange_refused, if_neg Bool.false_ne_true]
  | dropped error =>
    rw [carried_dropped served, exchange_dropped served, if_pos rfl]
    exact written

/-- Labeling keeps a project's metadata exactly when its first statement never runs, or there is nothing to erase. -/
theorem metadata_kept_iff {p : Client Unit} {slug name : String} {supplied : Prop}
    (labels : Labels slug p name supplied) {w : World} {row : ProjectRow} (there : w.db.projects slug = some row)
    (replies : Nat → Reply ServiceError) :
    MetadataKept p slug supplied replies w row ↔
      (∃ error, replies 0 = .refused error) ∨
        (row.category = none ∧ row.contactEmail = none ∧ row.contactUrl = none ∧
          (supplied ∨ row.projectName = name)) := by
  have after := labels.row replies w
  have placed : serve (.upsertProject (placeholderProject slug name)) w =
      .ok { w with db := w.db.upsertProject (placeholderProject slug name) } := rfl
  by_cases refused : ∃ error, replies 0 = .refused error
  · obtain ⟨error, reply⟩ := refused
    rw [reply, carried_refused, if_neg Bool.false_ne_true, there] at after
    exact ⟨fun _ => Or.inl ⟨error, reply⟩, fun _ => ⟨row, after, rfl, rfl, rfl, Or.inr rfl⟩⟩
  · have ran : carried serve (replies 0) (.upsertProject (placeholderProject slug name)) w = true := by
      cases reply : replies 0 with
      | answered => exact carried_answered placed
      | refused error => exact absurd ⟨error, reply⟩ refused
      | dropped error => exact carried_dropped placed
    rw [if_pos ran] at after
    constructor
    · intro ⟨row', found, category, email, url, named⟩
      rw [after] at found
      injection found with found
      subst found
      exact Or.inr ⟨category.symm, email.symm, url.symm, named.imp_right Eq.symm⟩
    · intro either
      rcases either with never | ⟨category, email, url, named⟩
      · exact absurd never refused
      · exact ⟨_, after, category.symm, email.symm, url.symm, named.imp_right Eq.symm⟩

/-! A curated project, and a contract of it that the labeler learns by name. -/

def curatedRow : ProjectRow where
  projectName := "Aave V3"
  category := some "Lending"
  contactEmail := some "team@aave.example"
  contactUrl := none

def curatedWorld : World where
  db := ⟨fun _ => none, fun slug => if slug = "aave" then some curatedRow else none, fun _ => none, fun _ => none⟩
  pending := []
  dead := []
  counters := fun _ => 0
  lastHead := none

def curatedNames : NameDict where
  tables := ⟨Char.isUpper, Char.isLower, fun c => [c.toLower]⟩
  map := (∅ : AList fun _ : Chars => String).insert "pool".toList "aave"

/-- A bare project survives: nothing of it is erased, and its name is the contract's. -/
theorem metadata_kept_bare :
    MetadataKept (processAddress 1 curatedNames (Vector.replicate 20 0xaa) ⟨.ok (.verified "Pool" false none), none⟩)
      "aave" False answers
      { curatedWorld with db := curatedWorld.db.upsertProject (placeholderProject "aave" "Pool") }
      (placeholderProject "aave" "Pool").row :=
  (metadata_kept_iff (.labeler rfl (by decide +kernel)) rfl answers).mpr
    (Or.inr ⟨rfl, rfl, rfl, Or.inr rfl⟩)

theorem metadata_erased :
    ¬MetadataKept (processAddress 1 curatedNames (Vector.replicate 20 0xaa) ⟨.ok (.verified "Pool" false none), none⟩)
      "aave" False answers curatedWorld curatedRow := by
  intro kept
  obtain ⟨row, found, category, -⟩ := kept
  have erased : (run serve (processAddress 1 curatedNames (Vector.replicate 20 0xaa)
      ⟨.ok (.verified "Pool" false none), none⟩) answers curatedWorld).2.db.projects "aave" =
        some (placeholderProject "aave" "Pool").row := by decide +kernel
  rw [erased] at found
  injection found with found
  rw [← found] at category
  cases category

end GasAnalyzer.Indexer
