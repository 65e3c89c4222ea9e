import Mathlib
import GasAnalyzer.Indexer.Store
import GasAnalyzer.Library.Joins

/-!
# The leaderboard of organizations

`leaderboard_orgs_30d` sums the daily rows of an organization's projects after joining them with the daily rows of their
functions, whose key is finer. A project's day is counted once for every function that was called on it.
-/

namespace GasAnalyzer.Indexer

open Joins

/-! ### Tables -/

structure Organization where
  orgSlug : String
  orgName : String
  deriving DecidableEq

/-- A row of `projects`, with the columns the query reads. -/
structure ProjectOrg where
  projectSlug : String
  orgSlug : Option String
  deriving DecidableEq

/-- A row of `project_daily`, with the columns the totals read. A view groups rows that are there: it counts at least
one, and no total of it is `NULL`. -/
structure ProjectDaily where
  chainId : Int64
  projectSlug : String
  /-- Days of the Unix epoch. -/
  day : Int
  txCount : Nat
  usdSavedTotal : ℚ
  weiSavedTotal : Int
  weiSpentTotal : Int
  counted : 0 < txCount := by decide

/-- The key of a row of `function_daily`; the query reads no other column. -/
structure FunctionDaily where
  chainId : Int64
  toAddress : AddressBytes
  functionSelector : Vector UInt8 4
  projectSlug : String
  day : Int
  deriving DecidableEq

/-- The four tables, with their unique indexes. -/
structure OrgTables where
  organizations : List Organization
  projects : List ProjectOrg
  projectDaily : List ProjectDaily
  functionDaily : List FunctionDaily
  organizations_pkey : (organizations.map (·.orgSlug)).Nodup := by decide
  projects_pkey : (projects.map (·.projectSlug)).Nodup := by decide
  project_daily_unique_idx : (projectDaily.map fun pd => (pd.chainId, pd.projectSlug, pd.day)).Nodup := by decide
  function_daily_unique_idx : functionDaily.Nodup := by decide

/-! ### The query -/

/-- The row the query returns for one organization, with the slug it selects; `AVG(pd.avg_savings_pct)` is left out. -/
structure OrgLeaderRow where
  orgSlug : String
  orgName : String
  projectCount : Nat
  contractCount : Nat
  txCount : Option Nat
  usdSaved : Option ℚ
  weiSavedTotal : Option Int
  weiSpentTotal : Option Int
  deriving DecidableEq

abbrev JoinedRow := ((Organization × ProjectOrg) × ProjectDaily) × Option FunctionDaily

/-- `(now() - interval '30 days')::date` -/
def windowStart (now : Timestamp) : Int := (now.seconds - 30 * 86400) / 86400

/-- What the query is run with; `dataFloor` is the day set by the administrator, if any. -/
structure OrgQuery where
  chainId : Int64
  now : Timestamp
  dataFloor : Option Int
  limit : Int64
  offset : Int64

/-- The `WHERE` clause. -/
def OrgQuery.selects (q : OrgQuery) (pd : ProjectDaily) : Bool :=
  pd.chainId == q.chainId && decide (windowStart q.now ≤ pd.day) && q.dataFloor.all fun floor => decide (floor ≤ pd.day)

/-- A function was called on a project's day. -/
def FunctionDaily.ofDay (pd : ProjectDaily) (fd : FunctionDaily) : Bool :=
  fd.projectSlug == pd.projectSlug && fd.day == pd.day && fd.chainId == pd.chainId

namespace OrgTables

def projectsOfOrgs (t : OrgTables) : List (Organization × ProjectOrg) :=
  inner (fun o p => p.orgSlug == some o.orgSlug) t.organizations t.projects

def daysOfOrgs (t : OrgTables) : List ((Organization × ProjectOrg) × ProjectDaily) :=
  inner (fun op pd => pd.projectSlug == op.2.projectSlug) t.projectsOfOrgs t.projectDaily

def joined (t : OrgTables) : List JoinedRow :=
  left (fun row fd => fd.projectSlug == row.1.2.projectSlug && fd.day == row.2.day && fd.chainId == row.2.chainId)
    t.daysOfOrgs t.functionDaily

end OrgTables

/-- `SUM`, which is `NULL` over no rows. -/
def sqlSum {M : Type} [AddMonoid M] : List M → Option M
  | [] => none
  | xs => some xs.sum

/-- `::bigint` of a sum of counts. -/
def castBigint : Option Nat → Except ServiceError (Option Nat)
  | none => .ok none
  | some n => if n < 2 ^ 63 then .ok (some n) else .error (.sqlx "bigint out of range")

/-- The row of one group. -/
def orgLeaderRow (group : (String × String) × List JoinedRow) : Except ServiceError OrgLeaderRow := do
  let txCount ← castBigint (sqlSum (group.2.map fun row => row.1.2.txCount))
  .ok {
    orgSlug := group.1.1
    orgName := group.1.2
    projectCount := (group.2.map fun row => row.1.2.projectSlug).dedup.length
    contractCount := (group.2.filterMap fun row => row.2.map (·.toAddress)).dedup.length
    txCount
    usdSaved := sqlSum (group.2.map fun row => row.1.2.usdSavedTotal)
    weiSavedTotal := sqlSum (group.2.map fun row => row.1.2.weiSavedTotal)
    weiSpentTotal := sqlSum (group.2.map fun row => row.1.2.weiSpentTotal) }

def orgLeaderRows : List ((String × String) × List JoinedRow) → Except ServiceError (List OrgLeaderRow)
  | [] => .ok []
  | group :: rest => do
    let row ← orgLeaderRow group
    let rows ← orgLeaderRows rest
    .ok (row :: rows)

/-- `DESC NULLS LAST` -/
def descNullsLast : Option Int → Option Int → Prop
  | _, none => True
  | none, some _ => False
  | some x, some y => y ≤ x

instance : (x y : Option Int) → Decidable (descNullsLast x y)
  | _, none => isTrue trivial
  | none, some _ => isFalse id
  | some x, some y => inferInstanceAs (Decidable (y ≤ x))

/-- `ORDER BY wei_saved_total DESC NULLS LAST` -/
def OrgLeaderRow.precedes (a b : OrgLeaderRow) : Prop := descNullsLast a.weiSavedTotal b.weiSavedTotal

instance : DecidableRel OrgLeaderRow.precedes := fun a b =>
  inferInstanceAs (Decidable (descNullsLast a.weiSavedTotal b.weiSavedTotal))

instance : Std.Total OrgLeaderRow.precedes where
  total a b := by
    show descNullsLast a.weiSavedTotal b.weiSavedTotal ∨ descNullsLast b.weiSavedTotal a.weiSavedTotal
    cases a.weiSavedTotal with
    | none =>
      right
      trivial
    | some x =>
      cases b.weiSavedTotal with
      | none =>
        left
        trivial
      | some y => exact Int.le_total y x

instance : IsTrans OrgLeaderRow OrgLeaderRow.precedes where
  trans a b c := by
    show descNullsLast a.weiSavedTotal b.weiSavedTotal → descNullsLast b.weiSavedTotal c.weiSavedTotal →
      descNullsLast a.weiSavedTotal c.weiSavedTotal
    cases c.weiSavedTotal with
    | none => exact fun _ _ => trivial
    | some z =>
      cases b.weiSavedTotal with
      | none => exact fun _ second => second.elim
      | some y =>
        cases a.weiSavedTotal with
        | none => exact fun first _ => first.elim
        | some x => exact fun first second => Int.le_trans second first

/-- How the rows are listed; the query leaves the order of equal totals open. -/
structure Ranking (rows : List OrgLeaderRow) where
  listed : List OrgLeaderRow
  every : listed.Perm rows
  descending : listed.Pairwise OrgLeaderRow.precedes

def ranked (rows : List OrgLeaderRow) : Ranking rows where
  listed := rows.insertionSort OrgLeaderRow.precedes
  every := rows.perm_insertionSort OrgLeaderRow.precedes
  descending := rows.pairwise_insertionSort OrgLeaderRow.precedes

/-- `GROUP BY o.org_slug, o.org_name` -/
def OrgTables.groups (t : OrgTables) (q : OrgQuery) : List ((String × String) × List JoinedRow) :=
  groupBy (fun row => (row.1.1.1.orgSlug, row.1.1.1.orgName)) (t.joined.filter fun row => q.selects row.1.2)

def leaderboardOrgs30d (t : OrgTables) (q : OrgQuery) (ranking : ∀ rows, Ranking rows) :
    Except ServiceError (List OrgLeaderRow) := do
  let rows ← orgLeaderRows (t.groups q)
  if q.limit < 0 then .error (.sqlx "LIMIT must not be negative")
  else if q.offset < 0 then .error (.sqlx "OFFSET must not be negative")
  else .ok (((ranking rows).listed.drop q.offset.toInt.toNat).take q.limit.toInt.toNat)

/-! ### The totals of an organization -/

/-- The rows of `project_daily` the organization's projects have on the chain and in the window. -/
def OrgTables.daysOf (t : OrgTables) (q : OrgQuery) (orgSlug : String) : List ProjectDaily :=
  t.projectDaily.filter fun pd =>
    q.selects pd && t.projects.any fun p => p.projectSlug == pd.projectSlug && p.orgSlug == some orgSlug

/-- The row carries the sums of the days, each counted once. -/
structure TotalsOfDays (days : List ProjectDaily) (row : OrgLeaderRow) : Prop where
  txCount : row.txCount = some (days.map (·.txCount)).sum
  usdSaved : row.usdSaved = some (days.map (·.usdSavedTotal)).sum
  weiSavedTotal : row.weiSavedTotal = some (days.map (·.weiSavedTotal)).sum
  weiSpentTotal : row.weiSpentTotal = some (days.map (·.weiSpentTotal)).sum

theorem orgLeaderRows_mem {groups : List ((String × String) × List JoinedRow)} {rows : List OrgLeaderRow}
    (answer : orgLeaderRows groups = .ok rows) {row : OrgLeaderRow} (member : row ∈ rows) :
    ∃ group ∈ groups, orgLeaderRow group = .ok row := by
  induction groups generalizing rows with
  | nil =>
    rw [← Except.ok.inj answer] at member
    cases member
  | cons group rest ih =>
    obtain ⟨first, computed, answer⟩ := Outcome.bind_ok answer
    obtain ⟨others, later, answer⟩ := Outcome.bind_ok answer
    rw [← Except.ok.inj answer] at member
    rcases List.mem_cons.mp member with rfl | behind
    · exact ⟨group, List.mem_cons_self, computed⟩
    · obtain ⟨group', inside, found⟩ := ih later behind
      exact ⟨group', List.mem_cons_of_mem _ inside, found⟩

theorem sqlSum_some {M : Type} [AddMonoid M] {xs : List M} (some : xs ≠ []) : sqlSum xs = .some xs.sum := by
  cases xs with
  | nil => exact absurd rfl some
  | cons x rest => rfl

/-- A group's row sums over the group as the join lists it. -/
theorem orgLeaderRow_ok {group : (String × String) × List JoinedRow} {row : OrgLeaderRow}
    (computed : orgLeaderRow group = .ok row) (some : group.2 ≠ []) :
    (row.orgSlug, row.orgName) = group.1 ∧ TotalsOfDays (group.2.map fun row => row.1.2) row := by
  obtain ⟨txCount, cast, computed⟩ := Outcome.bind_ok computed
  have sums : ∀ {M : Type} [AddMonoid M] (f : JoinedRow → M), sqlSum (group.2.map f) = .some (group.2.map f).sum :=
    fun f => sqlSum_some (by rwa [ne_eq, List.map_eq_nil_iff])
  have same : txCount = .some (group.2.map fun row => row.1.2.txCount).sum := by
    rw [sums, castBigint] at cast
    split at cast
    · exact (Except.ok.inj cast).symm
    · cases cast
  rw [← Except.ok.inj computed]
  refine ⟨rfl, ⟨?_, ?_, ?_, ?_⟩⟩
  · rw [List.map_map]
    exact same
  · rw [List.map_map]
    exact sums _
  · rw [List.map_map]
    exact sums _
  · rw [List.map_map]
    exact sums _

/-! ### One group -/

namespace OrgTables

variable {t : OrgTables} {q : OrgQuery}

theorem mem_daysOfOrgs {row : (Organization × ProjectOrg) × ProjectDaily} :
    row ∈ t.daysOfOrgs ↔ row.1.1 ∈ t.organizations ∧ row.1.2 ∈ t.projects ∧ row.2 ∈ t.projectDaily ∧
      row.1.2.orgSlug = some row.1.1.orgSlug ∧ row.2.projectSlug = row.1.2.projectSlug := by
  obtain ⟨⟨o, p⟩, pd⟩ := row
  unfold daysOfOrgs projectsOfOrgs
  rw [mem_inner, mem_inner]
  simp only [beq_iff_eq]
  constructor
  · intro ⟨⟨org, project, owned⟩, day, named⟩
    exact ⟨org, project, day, owned, named⟩
  · intro ⟨org, project, day, owned, named⟩
    exact ⟨⟨org, project, owned⟩, day, named⟩

theorem nodup_daysOfOrgs (t : OrgTables) : t.daysOfOrgs.Nodup := by
  unfold daysOfOrgs projectsOfOrgs
  refine nodup_inner _ (nodup_inner _ ?_ ?_) ?_
  · exact t.organizations_pkey.of_map
  · exact t.projects_pkey.of_map
  · exact t.project_daily_unique_idx.of_map

/-- A project's day belongs to one organization at most. -/
theorem daysOfOrgs_inj {row row' : (Organization × ProjectOrg) × ProjectDaily} (here : row ∈ t.daysOfOrgs)
    (there : row' ∈ t.daysOfOrgs) (same : row.2 = row'.2) : row = row' := by
  obtain ⟨org, project, -, owned, named⟩ := mem_daysOfOrgs.mp here
  obtain ⟨org', project', -, owned', named'⟩ := mem_daysOfOrgs.mp there
  have sameProject : row.1.2 = row'.1.2 :=
    List.inj_on_of_nodup_map t.projects_pkey project project' (by rw [← named, ← named', same])
  have sameOrg : row.1.1 = row'.1.1 := by
    refine List.inj_on_of_nodup_map t.organizations_pkey org org' ?_
    rw [sameProject, owned'] at owned
    exact (Option.some.inj owned).symm
  exact Prod.ext (Prod.ext sameOrg sameProject) same

/-- Before the functions are joined, a group lists every day of the organization's projects once. -/
theorem group_days {group : (String × String) × List JoinedRow} (member : group ∈ t.groups q) :
    group.2 ≠ [] ∧ (∃ o ∈ t.organizations, (o.orgSlug, o.orgName) = group.1) ∧
      ∃ rows : List ((Organization × ProjectOrg) × ProjectDaily),
        group.2 = left (fun row fd => fd.projectSlug == row.1.2.projectSlug && fd.day == row.2.day &&
          fd.chainId == row.2.chainId) rows t.functionDaily ∧
        (∀ row ∈ rows, row.2.projectSlug = row.1.2.projectSlug) ∧
        (rows.map (·.2)).Perm (t.daysOf q group.1.1) := by
  obtain ⟨⟨slug, name⟩, members⟩ := group
  obtain ⟨⟨first, inside, key⟩, shape⟩ := mem_groupBy.mp member
  have kept := List.mem_of_mem_filter inside
  obtain ⟨org, -, -, owned, -⟩ := mem_daysOfOrgs.mp (mem_left_fst kept)
  have sameSlug : first.1.1.1.orgSlug = slug := (Prod.mk.inj key).1
  refine ⟨?_, ⟨_, org, key⟩, ?_⟩
  · rw [show ((slug, name), members).2 = members from rfl, shape]
    exact List.ne_nil_of_mem (List.mem_filter.mpr ⟨inside, decide_eq_true key⟩)
  · refine ⟨(t.daysOfOrgs.filter fun row => q.selects row.2).filter
      fun row => (row.1.1.orgSlug, row.1.1.orgName) = (slug, name), ?_, ?_, ?_⟩
    · show members = _
      rw [shape, joined, filter_left _ (fun row : (Organization × ProjectOrg) × ProjectDaily => q.selects row.2),
        filter_left _ (fun row : (Organization × ProjectOrg) × ProjectDaily =>
          decide ((row.1.1.orgSlug, row.1.1.orgName) = (slug, name)))]
    · intro row rest
      exact (mem_daysOfOrgs.mp (List.mem_of_mem_filter (List.mem_of_mem_filter rest))).2.2.2.2
    · refine (List.perm_ext_iff_of_nodup ?_ ?_).mpr ?_
      · refine List.Nodup.map_on ?_ ((t.nodup_daysOfOrgs.filter _).filter _)
        intro row here row' there same
        exact daysOfOrgs_inj (List.mem_of_mem_filter (List.mem_of_mem_filter here))
          (List.mem_of_mem_filter (List.mem_of_mem_filter there)) same
      · exact t.project_daily_unique_idx.of_map.filter _
      · intro pd
        unfold daysOf
        simp only [List.mem_map, List.mem_filter, Bool.and_eq_true, decide_eq_true_eq, List.any_eq_true, beq_iff_eq]
        constructor
        · intro ⟨row, ⟨⟨there, selected⟩, sameKey⟩, same⟩
          subst same
          obtain ⟨-, project, day, owned', named⟩ := mem_daysOfOrgs.mp there
          exact ⟨day, selected, row.1.2, project, named.symm, by rw [owned', (Prod.mk.inj sameKey).1]⟩
        · intro ⟨day, selected, p, project, named, owned'⟩
          refine ⟨((first.1.1.1, p), pd), ⟨⟨mem_daysOfOrgs.mpr ⟨org, project, day, ?_, named.symm⟩, selected⟩, key⟩, rfl⟩
          rw [sameSlug]
          exact owned'

/-- A sum over a group counts each day once for every function called on it. -/
theorem group_sum {group : (String × String) × List JoinedRow} (member : group ∈ t.groups q) {M : Type}
    [AddCommMonoid M] (f : ProjectDaily → M) :
    ((group.2.map fun row => row.1.2).map f).sum =
      ((t.daysOf q group.1.1).map fun pd => copies FunctionDaily.ofDay t.functionDaily pd • f pd).sum := by
  obtain ⟨-, -, rows, shape, named, days⟩ := group_days member
  have once : ∀ row ∈ rows, copies (fun row fd => fd.projectSlug == row.1.2.projectSlug && fd.day == row.2.day &&
      fd.chainId == row.2.chainId) t.functionDaily row • f row.2 =
        copies FunctionDaily.ofDay t.functionDaily row.2 • f row.2 := by
    intro row inside
    unfold copies FunctionDaily.ofDay
    rw [named row inside]
  rw [shape, List.map_map]
  show ((left _ rows t.functionDaily).map fun row => f row.1.2).sum = _
  rw [sum_left _ (fun row : (Organization × ProjectOrg) × ProjectDaily => f row.2), List.map_congr_left once,
    ← (days.map _).sum_eq, List.map_map]
  rfl

end OrgTables

/-- A row of the leaderboard carries the totals of its organization's days exactly when no more than one function was
called on any of them. -/
theorem org_totals_iff {t : OrgTables} {q : OrgQuery} {ranking : ∀ rows, Ranking rows} {rows : List OrgLeaderRow}
    (answer : leaderboardOrgs30d t q ranking = .ok rows) {row : OrgLeaderRow} (member : row ∈ rows) :
    (∃ o ∈ t.organizations, o.orgSlug = row.orgSlug ∧ o.orgName = row.orgName) ∧
      (TotalsOfDays (t.daysOf q row.orgSlug) row ↔
        ∀ pd ∈ t.daysOf q row.orgSlug, t.functionDaily.countP (FunctionDaily.ofDay pd) ≤ 1) := by
  obtain ⟨computed, all, answer⟩ := Outcome.bind_ok answer
  have listed : row ∈ (ranking computed).listed := by
    split at answer
    · cases answer
    · split at answer
      · cases answer
      · rw [← Except.ok.inj answer] at member
        exact List.mem_of_mem_drop (List.mem_of_mem_take member)
  obtain ⟨group, inside, one⟩ := orgLeaderRows_mem all ((ranking computed).every.mem_iff.mp listed)
  obtain ⟨some, ⟨o, org, named⟩, -⟩ := OrgTables.group_days inside
  obtain ⟨key, totals⟩ := orgLeaderRow_ok one some
  have slug : row.orgSlug = group.1.1 := congrArg Prod.fst key
  rw [← key] at named
  refine ⟨⟨o, org, (Prod.mk.inj named).1, (Prod.mk.inj named).2⟩, ?_⟩
  rw [slug]
  constructor
  · intro exact
    have same := Option.some.inj (exact.txCount.symm.trans totals.txCount)
    rw [OrgTables.group_sum inside] at same
    exact (sum_copies_iff fun pd _ => pd.counted).mp same.symm
  · intro single
    refine ⟨?_, ?_, ?_, ?_⟩
    · rw [totals.txCount, OrgTables.group_sum inside, sum_copies_eq single]
    · rw [totals.usdSaved, OrgTables.group_sum inside, sum_copies_eq single]
    · rw [totals.weiSavedTotal, OrgTables.group_sum inside, sum_copies_eq single]
    · rw [totals.weiSpentTotal, OrgTables.group_sum inside, sum_copies_eq single]

/-! An organization with one project and one day. -/

def leaderDay : ProjectDaily where
  chainId := 1
  projectSlug := "uniswap-v3"
  day := 20000
  txCount := 5
  usdSavedTotal := 3 / 2
  weiSavedTotal := 700
  weiSpentTotal := 9000

def calledFunction (selector : UInt8) : FunctionDaily where
  chainId := 1
  toAddress := Vector.replicate 20 0x11
  functionSelector := Vector.replicate 4 selector
  projectSlug := "uniswap-v3"
  day := 20000

def leaderQuery : OrgQuery where
  chainId := 1
  now := ⟨20010 * 86400, by decide, by decide⟩
  dataFloor := none
  limit := 50
  offset := 0

def oneFunctionTables : OrgTables where
  organizations := [⟨"uniswap", "Uniswap"⟩]
  projects := [⟨"uniswap-v3", some "uniswap"⟩]
  projectDaily := [leaderDay]
  functionDaily := [calledFunction 0xaa]

def twoFunctionTables : OrgTables where
  organizations := [⟨"uniswap", "Uniswap"⟩]
  projects := [⟨"uniswap-v3", some "uniswap"⟩]
  projectDaily := [leaderDay]
  functionDaily := [calledFunction 0xaa, calledFunction 0xbb]

def leaderRow : OrgLeaderRow where
  orgSlug := "uniswap"
  orgName := "Uniswap"
  projectCount := 1
  contractCount := 1
  txCount := some 5
  usdSaved := some (3 / 2)
  weiSavedTotal := some 700
  weiSpentTotal := some 9000

theorem org_totals_oneFunction :
    leaderboardOrgs30d oneFunctionTables leaderQuery ranked = .ok [leaderRow] ∧
      TotalsOfDays (oneFunctionTables.daysOf leaderQuery "uniswap") leaderRow := by
  have answer : leaderboardOrgs30d oneFunctionTables leaderQuery ranked = .ok [leaderRow] := by decide +kernel
  refine ⟨answer, ?_⟩
  exact (org_totals_iff answer (List.mem_singleton.mpr rfl)).2.mpr (by decide +kernel)

theorem org_totals_twoFunctions :
    leaderboardOrgs30d twoFunctionTables leaderQuery ranked = .ok [{ leaderRow with
      txCount := some 10
      usdSaved := some 3
      weiSavedTotal := some 1400
      weiSpentTotal := some 18000 }] ∧
      ¬TotalsOfDays (twoFunctionTables.daysOf leaderQuery "uniswap") { leaderRow with
        txCount := some 10
        usdSaved := some 3
        weiSavedTotal := some 1400
        weiSpentTotal := some 18000 } := by
  refine ⟨by decide +kernel, ?_⟩
  intro totals
  have counted : some 10 = some ((twoFunctionTables.daysOf leaderQuery "uniswap").map (·.txCount)).sum := totals.txCount
  exact absurd counted (by decide +kernel)

end GasAnalyzer.Indexer
