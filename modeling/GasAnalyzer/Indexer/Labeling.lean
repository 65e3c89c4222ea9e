import GasAnalyzer.Indexer.Writers

/-!
# Which labels survive

Any number of workers, labeler attempts, resolver refreshes and overrides run interleaved on one `address_project`
table, request by request and with requests failing at will. An operator's mark is only ever replaced by another
override. A real slug falls back to a synthetic one in some order of the requests exactly when two automatic writers
disagree on whether the address is known.
-/

namespace GasAnalyzer.Indexer

open Program

inductive Writer where
  | worker (job : AnalyzeTxJob) (analyze : Option (Except AnalyzerError AnalysisReport)) (now : Timestamp)
    (overlay : Except ResolverError (List OverlayEntry)) (cfg : WorkerConfig)
  | labeler (chainId : UInt64) (names : NameDict) (addr : AddressBytes) (explorers : Explorers)
  | refresher (overlay : Option (Except ResolverError (List OverlayEntry)))
    (defillama : Option (Except ResolverError (List DefiLlamaProtocol)))
    (listing : (snapshot : ResolverSnapshot) → Listing snapshot)
  | override (form : OverrideForm)

namespace Writer

def program : Writer → Client Unit
  | worker job analyze now overlay cfg =>
    (handle job analyze now (ResolverSnapshot.atStartUp overlay) cfg).map fun _ => ()
  | labeler chainId names addr explorers => processAddress chainId names addr explorers
  | refresher overlay defillama listing =>
    (refreshResolverWith (ResolverSnapshot.refresh overlay defillama) listing).map fun _ => ()
  | override form => (labelOverride form).map fun _ => ()

def overrides : Writer → Bool
  | override _ => true
  | _ => false

/-- The slug an automatic writer brings to an address. -/
def slugFor : Writer → AddressKey → Option String
  | worker _ analyze _ overlay cfg, key =>
    match analyzeWithin cfg analyze with
    | .ok report =>
      if addressKey report.chainId report.toAddress = key ∧
          (Timestamp.ofSecs report.blockTimestamp.toInt64).isSome = true then
        some ((ResolverSnapshot.atStartUp overlay).resolve report.chainId report.toAddress).slug
      else none
    | .error _ => none
  | labeler chainId names addr explorers, key =>
    match explorers.contractName with
    | .ok name => if addressKey chainId addr = key then names.lookup name else none
    | .error _ => none
  | refresher overlay defillama _, key =>
    match ResolverSnapshot.refresh overlay defillama with
    | .ok snapshot => (snapshot.find (key.1.toUInt64, key.2)).map (·.slug)
    | .error _ => none
  | override _, _ => none

/-- Mappings are written by hand with a real slug, or automatically with the slug the writer brings. -/
def Writes (writer : Writer) (r : Request) : Prop :=
  ∀ key row, r.mapping = some (key, row) →
    (writer.overrides = true ∧ row.manualOverride = true ∧ isUnknown row.projectSlug = false) ∨
      (writer.overrides = false ∧ row.manualOverride = false ∧ writer.slugFor key = some row.projectSlug)

theorem writes_unmapped {writer : Writer} {r : Request} (plain : r.mapping = none) : writer.Writes r := by
  intro key row writes
  rw [plain] at writes
  cases writes

theorem writes_automatic {writer : Writer} {chainId : UInt64} {address : AddressBytes} {slug : String}
    (automatic : writer.overrides = false) (brings : writer.slugFor (addressKey chainId address) = some slug) :
    writer.Writes (.upsertAddressProject chainId address slug) := by
  intro key row writes
  injection writes with writes
  injection writes with here same
  rw [← here, ← same]
  exact Or.inr ⟨automatic, rfl, brings⟩

theorem writes_manual {writer : Writer} {chainId : UInt64} {address : AddressBytes} {slug : String}
    (byHand : writer.overrides = true) (known : isUnknown slug = false) :
    writer.Writes (.upsertManualAddressProject chainId address slug) := by
  intro key row writes
  injection writes with writes
  injection writes with here same
  rw [← same]
  exact Or.inl ⟨byHand, rfl, known⟩

/-! ### The requests of each writer -/

/-- A snapshot's listing holds exactly its mappings. -/
theorem mem_listing {snapshot : ResolverSnapshot} (listing : Listing snapshot) {key : UInt64 × AddressBytes}
    {info : ProjectInfo} : (key, info) ∈ listing.addresses ↔ snapshot.find key = some info := by
  rw [ResolverSnapshot.find, listing.everyAddress.mem_iff, List.mem_map, ← Option.mem_def, AList.mem_lookup_iff]
  constructor
  · rintro ⟨entry, member, same⟩
    injection same with here value
    rw [← here, ← value]
    exact member
  · exact fun member => ⟨⟨key, info⟩, member, rfl⟩

/-- An address is listed once. -/
theorem once_listed {snapshot : ResolverSnapshot} (listing : Listing snapshot) :
    (listing.addresses.map (·.1)).Nodup := by
  rw [(listing.everyAddress.map _).nodup_iff, List.map_map]
  exact snapshot.addresses.nodupKeys

theorem addressKey_back (key : UInt64 × AddressBytes) :
    ((addressKey key.1 key.2).1.toUInt64, (addressKey key.1 key.2).2) = key := by
  simp only [addressKey, UInt64.toUInt64_toInt64]

theorem handle_writes (job : AnalyzeTxJob) (analyze : Option (Except AnalyzerError AnalysisReport)) (now : Timestamp)
    (overlay : Except ResolverError (List OverlayEntry)) (cfg : WorkerConfig) :
    Only serve (worker job analyze now overlay cfg).Writes
      (handle job analyze now (ResolverSnapshot.atStartUp overlay) cfg) := by
  unfold handle
  split
  · rename_i report analyzed
    apply only_orReturn (writes_unmapped rfl)
    intro ⟨w, w', inserted⟩
    obtain ⟨db, inserted, -⟩ := Outcome.bind_ok inserted
    obtain ⟨time, dated, -⟩ := Outcome.bind_ok inserted
    apply only_orReturn (writes_unmapped rfl)
    intro _
    refine only_orReturn (writes_automatic rfl ?_) fun _ => trivial
    simp only [slugFor, analyzed]
    rw [Outcome.okOr_ok.mp dated, if_pos ⟨trivial, rfl⟩]
  · trivial
  · split <;> exact only_orReturn (writes_unmapped rfl) fun _ => trivial

theorem processAddress_writes (chainId : UInt64) (names : NameDict) (addr : AddressBytes) (explorers : Explorers) :
    Only serve (labeler chainId names addr explorers).Writes (processAddress chainId names addr explorers) := by
  have attempt : ∀ result name slug, Only serve (labeler chainId names addr explorers).Writes
      (.regardless (.upsertLabelAttempt chainId addr result name slug) (.done ()) : Client Unit) :=
    fun _ _ _ => only_regardless (writes_unmapped rfl) trivial
  unfold processAddress
  split
  · exact attempt _ _ _
  · rename_i name named
    split
    · exact attempt _ _ _
    · rename_i slug matched
      have brings : (labeler chainId names addr explorers).slugFor (addressKey chainId addr) = some slug := by
        simp only [slugFor, named, if_true, matched]
      refine ⟨writes_unmapped rfl, fun _ => attempt _ _ _, fun _ => ?_⟩
      refine ⟨writes_automatic rfl brings, fun _ => attempt _ _ _, fun _ => ?_⟩
      exact only_regardless (writes_unmapped rfl) (attempt _ _ _)

theorem refreshResolverWith_writes (overlay : Option (Except ResolverError (List OverlayEntry)))
    (defillama : Option (Except ResolverError (List DefiLlamaProtocol)))
    (listing : (snapshot : ResolverSnapshot) → Listing snapshot) :
    Only serve (refresher overlay defillama listing).Writes
      (refreshResolverWith (ResolverSnapshot.refresh overlay defillama) listing) := by
  unfold refreshResolverWith
  split
  · trivial
  · rename_i snapshot refreshed
    apply only_each
    · intro r member
      obtain ⟨info, -, rfl⟩ := List.mem_map.mp member
      exact writes_unmapped rfl
    · intro projects
      apply only_each
      · intro r member
        obtain ⟨⟨key, info⟩, listed, rfl⟩ := List.mem_map.mp member
        apply writes_automatic rfl
        simp only [slugFor, refreshed, addressKey_back, (mem_listing _).mp listed, Option.map_some]
      · exact fun addresses => only_regardless (writes_unmapped rfl) trivial

theorem labelOverride_writes (form : OverrideForm) : Only serve (override form).Writes (labelOverride form) := by
  unfold labelOverride
  split
  · trivial
  · split
    · trivial
    · rename_i slug valid
      apply only_orReturn (writes_unmapped rfl)
      intro _
      apply only_orReturn (writes_manual rfl (validateSlug_known valid))
      intro _
      apply only_orReturn (writes_unmapped rfl)
      exact fun _ => only_regardless (writes_unmapped rfl) trivial

theorem program_writes (writer : Writer) : Only serve writer.Writes writer.program := by
  cases writer with
  | worker job analyze now overlay cfg => exact only_map (handle_writes job analyze now overlay cfg)
  | labeler chainId names addr explorers => exact processAddress_writes chainId names addr explorers
  | refresher overlay defillama listing => exact only_map (refreshResolverWith_writes overlay defillama listing)
  | override form => exact only_map (labelOverride_writes form)

/-! ### What an automatic writer leaves when it runs alone -/

variable {w : World} {key : AddressKey} {slug : String}

theorem not_manual_of_same {w w' : World} (same : w'.db.addressProject key = w.db.addressProject key)
    (automatic : ¬w.Manual key) : ¬w'.Manual key := by
  rw [World.Manual, same]
  exact automatic

theorem worker_alone {job : AnalyzeTxJob} {analyze : Option (Except AnalyzerError AnalysisReport)} {now : Timestamp}
    {overlay : Except ResolverError (List OverlayEntry)} {cfg : WorkerConfig}
    (brings : (worker job analyze now overlay cfg).slugFor key = some slug) (automatic : ¬w.Manual key) :
    (run serve (worker job analyze now overlay cfg).program answers w).2.db.addressProject key = some ⟨slug, false⟩ := by
  simp only [slugFor] at brings
  split at brings
  · rename_i report analyzed
    split at brings
    · rename_i both
      obtain ⟨here, dated⟩ := both
      injection brings with brings
      obtain ⟨stored, inserted, -⟩ := serve_insertAnalysis dated slug w
      have unmapped := serve_unmapped rfl inserted key
      let project := (ResolverSnapshot.atStartUp overlay).resolve report.chainId report.toAddress
      have there : ((stored.db.upsertProject project.toProject).projects slug).isSome = true := by
        rw [← brings, Database.upsertProject, ProjectInfo.toProject]
        simp only [Function.update_self, Option.isSome_some, project]
      obtain ⟨mapped, served, -, landed⟩ := serve_upsertAddressProject (w := { stored with
        db := stored.db.upsertProject project.toProject }) report.chainId report.toAddress there
      rw [here] at landed
      simp only [program, run_map, handle, analyzed, brings]
      have placed : serve (.upsertProject project.toProject) stored =
          .ok { stored with db := stored.db.upsertProject project.toProject } := rfl
      rw [run_orReturn inserted, run_orReturn placed, run_orReturn served]
      exact landed (not_manual_of_same unmapped automatic)
    · cases brings
  · cases brings

theorem labeler_alone {chainId : UInt64} {names : NameDict} {addr : AddressBytes} {explorers : Explorers}
    (brings : (labeler chainId names addr explorers).slugFor key = some slug) (automatic : ¬w.Manual key) :
    (run serve (labeler chainId names addr explorers).program answers w).2.db.addressProject key =
      some ⟨slug, false⟩ := by
  simp only [slugFor] at brings
  split at brings
  · rename_i name named
    split at brings
    · rename_i here
      let placed : World := { w with db := w.db.upsertProject (placeholderProject slug name) }
      have there : (placed.db.projects slug).isSome = true := by
        simp only [placed, Database.upsertProject, placeholderProject, Function.update_self, Option.isSome_some]
      obtain ⟨mapped, served, -, landed⟩ :=
        serve_upsertAddressProject (w := placed) chainId addr there
      rw [here] at landed
      have row := landed (not_manual_of_same (w := w) rfl automatic)
      have placing : serve (.upsertProject (placeholderProject slug name)) w = .ok placed := rfl
      simp only [program, processAddress, named, brings, persistMatch, run, answers, exchange_answered placing, later,
        exchange_answered served]
      exact row
    · cases brings
  · cases brings

/-- After every project of a list is upserted, each of them has a row. -/
theorem projects_alone (infos : List ProjectInfo) (w : World) :
    (∀ info ∈ infos,
        ((serveAll serve (infos.map fun info => .upsertProject info.toProject) w).db.projects info.slug).isSome = true) ∧
      (serveAll serve (infos.map fun info => .upsertProject info.toProject) w).db.addressProject =
        w.db.addressProject := by
  induction infos generalizing w with
  | nil => exact ⟨fun info none => absurd none List.not_mem_nil, rfl⟩
  | cons info infos ih =>
    have placing : serve (.upsertProject info.toProject) w = .ok { w with db := w.db.upsertProject info.toProject } :=
      rfl
    obtain ⟨later, same⟩ := ih { w with db := w.db.upsertProject info.toProject }
    rw [List.map_cons, serveAll, placing]
    refine ⟨?_, same⟩
    intro info' member
    rcases List.mem_cons.mp member with rfl | rest
    · apply serveAll_preserves (P := fun w : World => (w.db.projects info'.slug).isSome = true)
      · exact fun r _ s s' served there => serve_keeps_project served there
      · simp only [Database.upsertProject, ProjectInfo.toProject, Function.update_self, Option.isSome_some]
    · exact later info' rest

/-- After every mapping of a list is upserted, each address holds its slug unless an operator marked it. -/
theorem addresses_alone {listed : List ((UInt64 × AddressBytes) × ProjectInfo)} (once : (listed.map (·.1)).Nodup)
    {w : World} (there : ∀ entry ∈ listed, (w.db.projects entry.2.slug).isSome = true)
    {entry : (UInt64 × AddressBytes) × ProjectInfo} (member : entry ∈ listed)
    (automatic : ¬w.Manual (addressKey entry.1.1 entry.1.2)) :
    (serveAll serve (listed.map fun (key, info) => .upsertAddressProject key.1 key.2 info.slug) w).db.addressProject
      (addressKey entry.1.1 entry.1.2) = some ⟨entry.2.slug, false⟩ := by
  induction listed generalizing w with
  | nil => cases member
  | cons head rest ih =>
    rw [List.map_cons, List.nodup_cons] at once
    obtain ⟨mapped, served, -, landed⟩ :=
      serve_upsertAddressProject head.1.1 head.1.2 (there head List.mem_cons_self)
    rw [List.map_cons, serveAll, served]
    -- Chain ids keep their identity as `i64`, so distinct entries have distinct rows.
    have apart : ∀ other ∈ rest, addressKey other.1.1 other.1.2 ≠ addressKey head.1.1 head.1.2 := by
      intro other inside same
      have back := congrArg (fun key : AddressKey => (key.1.toUInt64, key.2)) same
      rw [addressKey_back, addressKey_back] at back
      exact once.1 (back ▸ List.mem_map_of_mem inside)
    rcases List.mem_cons.mp member with rfl | inside
    · apply serveAll_preserves (P := fun w : World =>
        w.db.addressProject (addressKey entry.1.1 entry.1.2) = some ⟨entry.2.slug, false⟩)
      · intro r listedThere s s' step before
        obtain ⟨other, inside, rfl⟩ := List.mem_map.mp listedThere
        rcases serve_addressProject step (addressKey entry.1.1 entry.1.2) with same | ⟨row, writes, -, -⟩
        · rw [same]
          exact before
        · injection writes with writes
          injection writes with here _
          exact absurd here (apart other inside)
      · exact landed automatic
    · apply ih once.2
      · exact fun other inside => serve_keeps_project served (there other (List.mem_cons_of_mem _ inside))
      · exact inside
      · apply not_manual_of_same _ automatic
        rcases serve_addressProject served (addressKey entry.1.1 entry.1.2) with same | ⟨row, writes, -, -⟩
        · exact same
        · injection writes with writes
          injection writes with here _
          exact absurd here.symm (apart entry inside)

/-- The slug of a listed mapping is one of the listed projects. -/
theorem listed_project {snapshot : ResolverSnapshot} {listing : Listing snapshot} (closed : snapshot.Closed)
    (filed : snapshot.Filed) {w : World}
    (there : ∀ info ∈ listing.projects, (w.db.projects info.slug).isSome = true)
    {entry : (UInt64 × AddressBytes) × ProjectInfo} (member : entry ∈ listing.addresses) :
    (w.db.projects entry.2.slug).isSome = true := by
  have known := closed entry.1 entry.2 ((mem_listing listing).mp member)
  obtain ⟨info, found⟩ := Option.isSome_iff_exists.mp (AList.lookup_isSome.mpr known)
  have slug := filed entry.2.slug info found
  rw [← slug]
  apply there
  rw [listing.everyProject.mem_iff]
  exact List.mem_map.mpr ⟨⟨entry.2.slug, info⟩, AList.mem_lookup_iff.mp found, rfl⟩

theorem refresher_alone {overlay : Option (Except ResolverError (List OverlayEntry))}
    {defillama : Option (Except ResolverError (List DefiLlamaProtocol))}
    {listing : (snapshot : ResolverSnapshot) → Listing snapshot}
    (brings : (refresher overlay defillama listing).slugFor key = some slug) (automatic : ¬w.Manual key) :
    (run serve (refresher overlay defillama listing).program answers w).2.db.addressProject key =
      some ⟨slug, false⟩ := by
  simp only [slugFor] at brings
  split at brings
  · rename_i snapshot refreshed
    obtain ⟨info, found, named⟩ := Option.map_eq_some_iff.mp brings
    obtain ⟨closed, filed⟩ := ResolverSnapshot.refresh_closed refreshed
    obtain ⟨there, same⟩ := projects_alone (listing snapshot).projects w
    simp only [program, run_map, refreshResolverWith, refreshed, persistSnapshot]
    apply run_each (P := fun w : World => w.db.addressProject key = some ⟨slug, false⟩)
    intro projects
    apply run_each (P := fun w : World => w.db.addressProject key = some ⟨slug, false⟩)
    intro addresses
    have landed := addresses_alone (once_listed (listing snapshot)) (w := serveAll serve _ w)
      (fun entry member => listed_project closed filed there member) ((mem_listing (listing snapshot)).mpr found)
      (not_manual_of_same (congrFun same _) automatic)
    rw [← named]
    exact landed
  · cases brings

theorem mapped_alone {writer : Writer} (brings : writer.slugFor key = some slug) (automatic : ¬w.Manual key) :
    (run serve writer.program answers w).2.db.addressProject key = some ⟨slug, false⟩ := by
  cases writer with
  | worker job analyze now overlay cfg => exact worker_alone brings automatic
  | labeler chainId names addr explorers => exact labeler_alone brings automatic
  | refresher overlay defillama listing => exact refresher_alone brings automatic
  | override form => cases brings

end Writer

/-! ### Every order of the requests -/

/-- A marked row only changes by hand, and a real slug stays real. -/
def KeepsLabels (byHand : Prop) (before after : World) : Prop :=
  ∀ key row, before.db.addressProject key = some row →
    (row.manualOverride = true → after.db.addressProject key = some row ∨ byHand) ∧
    (isUnknown row.projectSlug = false →
      ∃ row', after.db.addressProject key = some row' ∧ isUnknown row'.projectSlug = false)

def ByHand (writers : List Writer) (i : Nat) : Prop := ∃ writer, writers[i]? = some writer ∧ writer.overrides = true

/-- The writers' shared state after some of their requests. -/
def afterMoves (writers : List Writer) (w : World) (moves : List (Nat × Reply ServiceError)) :
    List (Client Unit) × World :=
  interleave serve (writers.map Writer.program, w) moves

/-- Every request of every order of the writers' requests keeps the labels. -/
def LabelsKept (writers : List Writer) (w : World) : Prop :=
  ∀ moves move, KeepsLabels (ByHand writers move.1) (afterMoves writers w moves).2
    (afterMoves writers w (moves ++ [move])).2

/-- No address that is free of an operator's mark gets a synthetic slug from one automatic writer while its row, or
another automatic writer, holds a real one. -/
def Agree (writers : List Writer) (w : World) : Prop :=
  ∀ key, ¬w.Manual key → ∀ writer ∈ writers, ∀ slug, writer.slugFor key = some slug → isUnknown slug = true →
    (∀ row, w.db.addressProject key = some row → isUnknown row.projectSlug = true) ∧
    ∀ other ∈ writers, ∀ slug', other.slugFor key = some slug' → isUnknown slug' = true

section

variable {writers : List Writer} {w : World}

/-- The address had a real slug from the start or gets one from a writer. -/
def Known (writers : List Writer) (w : World) (key : AddressKey) : Prop :=
  (∃ row, w.db.addressProject key = some row ∧ isUnknown row.projectSlug = false) ∨
    ∃ writer ∈ writers, ∃ slug, writer.slugFor key = some slug ∧ isUnknown slug = false

/-- How the table of a run relates to the table it started from. -/
structure Labeled (writers : List Writer) (start w : World) : Prop where
  marks : ∀ key, start.Manual key → w.Manual key
  sources : ∀ key row, w.db.addressProject key = some row → isUnknown row.projectSlug = false →
    w.Manual key ∨ Known writers start key

theorem Labeled.start (writers : List Writer) (w : World) : Labeled writers w w where
  marks := fun _ marked => marked
  sources := fun _ row found known => Or.inr (Or.inl ⟨row, found, known⟩)

theorem Labeled.step {start w' : World} {r : Request} {writer : Writer} (labeled : Labeled writers start w)
    (member : writer ∈ writers) (writes : writer.Writes r) (served : serve r w = .ok w') :
    Labeled writers start w' := by
  constructor
  · intro key marked
    rcases serve_addressProject served key with same | ⟨row, -, found, spared⟩
    · rw [World.Manual, same]
      exact labeled.marks key marked
    · rcases spared with manual | automatic
      · exact ⟨row, found, manual⟩
      · exact absurd (labeled.marks key marked) automatic
  · intro key row found known
    rcases serve_addressProject served key with same | ⟨row', mapped, found', spared⟩
    · rw [same] at found
      rw [World.Manual, same]
      exact labeled.sources key row found known
    · rw [found'] at found
      injection found with found
      subst found
      rcases writes key row' mapped with ⟨-, manual, -⟩ | ⟨-, -, brings⟩
      · exact Or.inl ⟨row', found', manual⟩
      · exact Or.inr (Or.inr ⟨writer, member, _, brings, known⟩)

/-- A request changes a marked row by hand only. -/
theorem Writer.Writes.marked {w' : World} {r : Request} {writer : Writer} (writes : writer.Writes r)
    (served : serve r w = .ok w') {key : AddressKey} {row : AddressProjectRow}
    (found : w.db.addressProject key = some row) (manual : row.manualOverride = true) :
    w'.db.addressProject key = some row ∨ writer.overrides = true := by
  rcases serve_addressProject served key with same | ⟨row', mapped, -, spared⟩
  · rw [same]
    exact Or.inl found
  rcases writes key row' mapped with ⟨byHand, -, -⟩ | ⟨-, automatic, -⟩
  · exact Or.inr byHand
  · rcases spared with manual' | unmarked
    · rw [automatic] at manual'
      cases manual'
    · exact absurd ⟨row, found, manual⟩ unmarked

/-- One request keeps the labels when the writers agree. -/
theorem Labeled.keeps {start w' : World} {r : Request} {writer : Writer} (labeled : Labeled writers start w)
    (agree : Agree writers start) (member : writer ∈ writers) (writes : writer.Writes r)
    (served : serve r w = .ok w') : KeepsLabels (writer.overrides = true) w w' := by
  intro key row found
  refine ⟨writes.marked served found, ?_⟩
  intro known
  rcases serve_addressProject served key with same | ⟨row', mapped, found', spared⟩
  · rw [same]
    exact ⟨row, found, known⟩
  rcases writes key row' mapped with ⟨-, -, known'⟩ | ⟨-, automatic, brings⟩
  · exact ⟨row', found', known'⟩
  have unmarked : ¬w.Manual key := by
    rcases spared with manual | unmarked
    · rw [automatic] at manual
      cases manual
    · exact unmarked
  refine ⟨row', found', ?_⟩
  -- The row was real, so some source brought that slug and the writers' agreement rules out a synthetic one.
  cases verdict : isUnknown row'.projectSlug with
  | false => rfl
  | true =>
    obtain ⟨rows, others⟩ := agree key (fun marked => unmarked (labeled.marks key marked)) writer member _ brings verdict
    rcases labeled.sources key row found known with marked | ⟨first, there, real⟩ | ⟨other, inside, slug, brings', real⟩
    · exact absurd marked unmarked
    · rw [rows first there] at real
      cases real
    · rw [others other inside slug brings'] at real
      cases real

/-- What a request at an index may do to the table. -/
def allowed (writers : List Writer) (i : Nat) (r : Request) : Prop :=
  ∃ writer, writers[i]? = some writer ∧ writer.Writes r

theorem programs_only (writers : List Writer) :
    AllOnly serve (allowed writers) (writers.map Writer.program) := by
  intro i p found
  rw [List.getElem?_map] at found
  obtain ⟨writer, here, rfl⟩ := Option.map_eq_some_iff.mp found
  apply only_mono _ (Writer.program_writes writer)
  exact fun r writes => ⟨writer, here, writes⟩

theorem afterMoves_labeled (writers : List Writer) (w : World) (moves : List (Nat × Reply ServiceError)) :
    Labeled writers w (afterMoves writers w moves).2 := by
  apply interleave_preserves (programs_only writers) _ (Labeled.start writers w)
  intro i r s s' ⟨writer, here, writes⟩ served labeled
  exact labeled.step (List.mem_of_getElem? here) writes served

/-- One more move leaves the world as it is or serves one request of its writer. -/
theorem afterMoves_snoc (writers : List Writer) (w : World) (moves : List (Nat × Reply ServiceError))
    (move : Nat × Reply ServiceError) :
    (afterMoves writers w (moves ++ [move])).2 = (afterMoves writers w moves).2 ∨
      ∃ r, allowed writers move.1 r ∧
        serve r (afterMoves writers w moves).2 = .ok (afterMoves writers w (moves ++ [move])).2 := by
  have only : AllOnly serve (allowed writers) (afterMoves writers w moves).1 := interleave_only (programs_only writers) moves
  have last : afterMoves writers w (moves ++ [move]) = interleaveStep serve (afterMoves writers w moves) move :=
    interleave_snoc ..
  rw [last]
  exact interleaveStep_serves serve only move

/-- Whatever the writers bring, a marked row only changes by hand. -/
theorem marks_kept (writers : List Writer) (w : World) (moves : List (Nat × Reply ServiceError))
    (move : Nat × Reply ServiceError) {key : AddressKey} {row : AddressProjectRow}
    (found : (afterMoves writers w moves).2.db.addressProject key = some row) (manual : row.manualOverride = true) :
    (afterMoves writers w (moves ++ [move])).2.db.addressProject key = some row ∨ ByHand writers move.1 := by
  rcases afterMoves_snoc writers w moves move with same | ⟨r, ⟨writer, here, writes⟩, served⟩
  · rw [same]
    exact Or.inl found
  · exact (writes.marked served found manual).imp_right fun byHand => ⟨writer, here, byHand⟩

/-- An operator's mark lasts through any order of the automatic writers' requests. -/
theorem mark_lasts (writers : List Writer) (w : World) (before more : List (Nat × Reply ServiceError))
    (automatic : ∀ move ∈ more, ¬ByHand writers move.1) {key : AddressKey} {row : AddressProjectRow}
    (found : (afterMoves writers w before).2.db.addressProject key = some row) (manual : row.manualOverride = true) :
    (afterMoves writers w (before ++ more)).2.db.addressProject key = some row := by
  induction more generalizing before with
  | nil =>
    rw [List.append_nil]
    exact found
  | cons move more ih =>
    have kept := (marks_kept writers w before move found manual).resolve_right (automatic move List.mem_cons_self)
    rw [List.append_cons]
    exact ih _ (fun later inside => automatic later (List.mem_cons_of_mem _ inside)) kept

theorem labelsKept_of_agree (agree : Agree writers w) : LabelsKept writers w := by
  intro moves move
  have labeled := afterMoves_labeled writers w moves
  rcases afterMoves_snoc writers w moves move with same | ⟨r, ⟨writer, here, writes⟩, served⟩
  · rw [same]
    exact fun key row found => ⟨fun _ => Or.inl found, fun known => ⟨row, found, known⟩⟩
  · intro key row found
    obtain ⟨marks, slugs⟩ := labeled.keeps agree (List.mem_of_getElem? here) writes served key row found
    exact ⟨fun manual => (marks manual).imp_right fun byHand => ⟨writer, here, byHand⟩, slugs⟩

/-- A real slug lasts as long as every request keeps the labels. -/
theorem real_lasts (kept : LabelsKept writers w) {key : AddressKey} (before more : List (Nat × Reply ServiceError))
    {row : AddressProjectRow} (found : (afterMoves writers w before).2.db.addressProject key = some row)
    (known : isUnknown row.projectSlug = false) :
    ∃ row', (afterMoves writers w (before ++ more)).2.db.addressProject key = some row' ∧
      isUnknown row'.projectSlug = false := by
  induction more generalizing before row with
  | nil =>
    rw [List.append_nil]
    exact ⟨row, found, known⟩
  | cons move more ih =>
    obtain ⟨row', found', known'⟩ := (kept before move key row found).2 known
    rw [List.append_cons]
    exact ih _ found' known'

/-- Once a row is real, no automatic writer can be left to bring a synthetic slug. -/
theorem no_relapse (kept : LabelsKept writers w) {key : AddressKey} (before : List (Nat × Reply ServiceError))
    {row : AddressProjectRow} (found : (afterMoves writers w before).2.db.addressProject key = some row)
    (automatic : row.manualOverride = false) (known : isUnknown row.projectSlug = false) {i : Nat} {writer : Writer}
    (waiting : (afterMoves writers w before).1[i]? = some writer.program) {slug : String}
    (brings : writer.slugFor key = some slug) : isUnknown slug = false := by
  have unmarked : ¬(afterMoves writers w before).2.Manual key := by
    intro ⟨row', here, manual⟩
    rw [found] at here
    injection here with here
    rw [← here, automatic] at manual
    cases manual
  obtain ⟨moves, -, alone⟩ := interleave_solo serve waiting (afterMoves writers w before).2
  obtain ⟨row', found', known'⟩ := real_lasts kept before moves found known
  have ran : afterMoves writers w (before ++ moves) = interleave serve (afterMoves writers w before) moves :=
    interleave_append serve _ before moves
  rw [ran, alone, Writer.mapped_alone brings unmarked] at found'
  injection found' with found'
  rw [← found'] at known'
  exact known'

theorem agree_of_labelsKept (kept : LabelsKept writers w) : Agree writers w := by
  intro key unmarked writer member slug brings synthetic
  obtain ⟨i, here⟩ := List.mem_iff_getElem?.mp member
  have waiting : (writers.map Writer.program)[i]? = some writer.program := by
    rw [List.getElem?_map, here]
    rfl
  constructor
  · intro row found
    cases verdict : isUnknown row.projectSlug with
    | true => rfl
    | false =>
      have automatic : row.manualOverride = false := by
        cases mark : row.manualOverride with
        | false => rfl
        | true => exact absurd ⟨row, found, mark⟩ unmarked
      have real := no_relapse kept [] found automatic verdict waiting brings
      rw [synthetic] at real
      cases real
  · intro other inside slug' brings'
    cases verdict : isUnknown slug' with
    | true => rfl
    | false =>
      obtain ⟨j, there⟩ := List.mem_iff_getElem?.mp inside
      have first : (writers.map Writer.program)[j]? = some other.program := by
        rw [List.getElem?_map, there]
        rfl
      obtain ⟨moves, -, alone⟩ := interleave_solo serve first w
      have apart : j ≠ i := by
        intro same
        rw [same, here] at there
        injection there with there
        rw [← there, brings] at brings'
        injection brings' with brings'
        rw [← brings', synthetic] at verdict
        cases verdict
      have landed : (afterMoves writers w moves).2.db.addressProject key = some ⟨slug', false⟩ := by
        rw [afterMoves, alone]
        exact Writer.mapped_alone brings' unmarked
      have still : (afterMoves writers w moves).1[i]? = some writer.program := by
        rw [afterMoves, alone]
        exact (List.getElem?_set_ne apart).trans waiting
      have real := no_relapse kept _ landed rfl verdict still brings
      rw [synthetic] at real
      cases real

end

/-- The labels survive every order of the writers' requests exactly when the automatic writers agree on which addresses
are known. -/
theorem labels_kept_iff (writers : List Writer) (w : World) : LabelsKept writers w ↔ Agree writers w :=
  ⟨agree_of_labelsKept, labelsKept_of_agree⟩

/-! A contract the labeler knows by its verified name, and a worker whose overlay does not list it. -/

def learnedAddress : AddressBytes := Vector.replicate 20 0xaa

def learnedNames : NameDict where
  tables := ⟨Char.isUpper, Char.isLower, fun c => [c.toLower]⟩
  map := (∅ : AList fun _ : Chars => String).insert "vault".toList "aave"

def learnedReport : AnalysisReport where
  chainId := 1
  blockNumber := 100
  blockTimestamp := 1700000000
  txHash := Vector.replicate 32 7
  txIndex := 3
  fromAddress := Vector.replicate 20 1
  toAddress := learnedAddress
  functionSelector := Vector.replicate 4 0
  gasUsed := 100000
  effectiveGasPriceWei := 1
  gaskillerGasEstimate := 60000
  gasSaved := 40000
  weiSaved := 40000
  isHeuristic := false
  failureReason := none
  stateUpdateCount := 2
  skippedOpcodes := []
  reentered := false

def learnedJob : AnalyzeTxJob where
  chainId := 1
  txHash := Vector.replicate 32 7
  blockNumber := 100
  txIndex := 3
  attempt := 0
  enqueuedAt := 0

def learnedWriters : List Writer :=
  [.labeler 1 learnedNames learnedAddress ⟨.ok (.verified "Vault" false none), none⟩,
    .worker learnedJob (some (.ok learnedReport)) ⟨1700000100, by decide, by decide⟩ (.ok []) ⟨3, 60, 3600⟩]

/-- The labeler writes its match, then the worker's persist replaces it by the synthetic slug. -/
def learnedMoves : List (Nat × Reply ServiceError) :=
  [(0, .answered), (0, .answered), (1, .answered), (1, .answered)]

theorem labels_relapse : ¬LabelsKept learnedWriters .fresh := by
  intro kept
  have step := kept learnedMoves (1, .answered) (addressKey 1 learnedAddress) ⟨"aave", false⟩ (by decide +kernel)
  obtain ⟨row, found, known⟩ := step.2 (by decide)
  have fell : (afterMoves learnedWriters .fresh (learnedMoves ++ [(1, .answered)])).2.db.addressProject
      (addressKey 1 learnedAddress) = some ⟨(ProjectInfo.unknown learnedAddress).slug, false⟩ := by decide +kernel
  rw [fell] at found
  injection found with found
  rw [← found, isUnknown_unknown] at known
  cases known

end GasAnalyzer.Indexer
