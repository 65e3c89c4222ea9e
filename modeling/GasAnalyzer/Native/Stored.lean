import GasAnalyzer.Core.Seeds
import GasAnalyzer.Nested.Split
import GasAnalyzer.Net.Execution

/-!
# What a program leaves in its slots

A program is replayed on the storage it is seeded with; the value it last stores to a slot is what it leaves there. The
seed of a slot the transaction left unchanged is that value, so it is the original exactly if the two agree.
-/

namespace GasAnalyzer

def StateUpdate.stored? : StateUpdate → Option (B256 × B256)
  | store s => some (s.slot, s.value)
  | _ => none

/-- The value a program last stores to a slot. -/
def lastStored (updates : List StateUpdate) (slot : B256) : Option B256 :=
  WriteLog.last slot (updates.filterMap StateUpdate.stored?)

@[simp] theorem lastStored_nil (slot : B256) : lastStored [] slot = none := rfl

theorem lastStored_append (us vs : List StateUpdate) (slot : B256) :
    lastStored (us ++ vs) slot = (lastStored vs slot).or (lastStored us slot) := by
  unfold lastStored
  rw [List.filterMap_append, WriteLog.last_append]

theorem lastStored_isSome_iff {us : List StateUpdate} {slot : B256} :
    (lastStored us slot).isSome = true ↔ ∃ v, .store ⟨slot, v⟩ ∈ us := by
  unfold lastStored
  rw [WriteLog.last_isSome_iff]
  constructor
  · rintro ⟨e, member, rfl⟩
    obtain ⟨u, inside, stores⟩ := List.mem_filterMap.mp member
    cases u with
    | store s =>
      obtain rfl := Option.some.inj stores
      exact ⟨s.value, inside⟩
    | _ => cases stores
  · rintro ⟨v, member⟩
    exact ⟨(slot, v), List.mem_filterMap.mpr ⟨_, member, rfl⟩, rfl⟩

theorem get_noteStores (us : List StateUpdate) (last : Slots) (slot : B256) :
    (us.foldl noteStore last).get slot = (lastStored us slot).or (last.get slot) := by
  induction us generalizing last with
  | nil => rfl
  | cons u us ih =>
    rw [List.foldl_cons, ih, show u :: us = [u] ++ us from rfl, lastStored_append, Option.or_assoc]
    congr 1
    cases u with
    | store s =>
      rw [noteStore, OrdMap.get_insert]
      show _ = (WriteLog.last slot [(s.slot, s.value)]).or (last.get slot)
      rw [WriteLog.last_singleton]
      by_cases here : slot = s.slot
      · rw [if_pos here, if_pos here.symm]
        rfl
      · rw [if_neg here, if_neg (Ne.symm here)]
        rfl
    | _ => rfl

/-! ### Seeds -/

theorem get_originalStorage (diff : DiffMode) (a : Address) (us : List StateUpdate) (s : B256) :
    (originalStorage diff a us).get s = (lastStored us s).map fun last =>
      ((storageOf diff.pre a).get s).getD (if ((storageOf diff.post a).get s).isSome then 0 else last) := by
  have pre : ((diff.pre.get a).map AccountState.storage).bind (fun p => p.get s) = (storageOf diff.pre a).get s := by
    unfold storageOf
    cases diff.pre.get a <;> rfl
  have post : ((diff.post.get a).map AccountState.storage).any (fun p => p.contains s) =
      ((storageOf diff.post a).get s).isSome := by
    unfold storageOf
    cases diff.post.get a <;> rfl
  unfold originalStorage
  simp only [OrdMap.get_mapValues, get_noteStores, pre, post, OrdMap.get_empty, Option.or_none]
  congr 1
  funext last
  cases (storageOf diff.pre a).get s <;> rfl

/-- Every slot that `us` stores is seeded with its original. -/
def Seeded (before : Address → B256 → B256) (a : Address) (us : List StateUpdate) (seeds : Slots) : Prop :=
  ∀ s v, .store ⟨s, v⟩ ∈ us → seeds.get s = some (before a s)

namespace Execution.Diffs

variable {x : Execution} {diff : DiffMode}

/-- The seed of a slot is its original, or what the program leaves there if the transaction left it unchanged. -/
theorem seed (diffs : x.Diffs diff) (a : Address) (us : List StateUpdate) (s : B256) :
    (originalStorage diff a us).get s =
      (lastStored us s).map fun last => if x.before a s = x.after a s then last else x.before a s := by
  rw [get_originalStorage]
  congr 1
  funext last
  by_cases same : x.before a s = x.after a s
  · obtain ⟨pre, post⟩ := diffs.unchanged a s same
    rw [if_pos same, pre, post]
    rfl
  · obtain ⟨pre, post⟩ := diffs.changed a s same
    rw [if_neg same]
    cases held : (storageOf diff.pre a).get s with
    | some v =>
      rw [held] at pre
      exact pre
    | none =>
      -- The old value is zero, so the new one is not, and `post` holds it.
      rw [held] at pre
      rw [← pre]
      cases ends : (storageOf diff.post a).get s with
      | some v => rfl
      | none =>
        rw [ends] at post
        exact absurd (pre.symm.trans post) same

/-- A program's seeds are the originals exactly if it leaves its original in every slot that the transaction leaves
unchanged. -/
theorem seeded_iff (diffs : x.Diffs diff) (a : Address) (us : List StateUpdate) :
    Seeded x.before a us (originalStorage diff a us) ↔
      ∀ s v, lastStored us s = some v → x.before a s = x.after a s → v = x.before a s := by
  constructor
  · intro seeded s v last same
    obtain ⟨v', member⟩ := lastStored_isSome_iff.mp (by rw [last]; rfl)
    have seed := seeded s v' member
    rw [diffs.seed, last, Option.map_some, if_pos same] at seed
    exact Option.some.inj seed
  · intro leaves s v member
    obtain ⟨last, found⟩ := Option.isSome_iff_exists.mp (lastStored_isSome_iff.mpr ⟨v, member⟩)
    rw [diffs.seed, found, Option.map_some]
    by_cases same : x.before a s = x.after a s
    · rw [if_pos same, leaves s last found same]
    · rw [if_neg same]

end Execution.Diffs

/-! ### Ops -/

/-- The value that ops last store to a slot. -/
def leftBy (ops : List Op) (slot : B256) : Option B256 := lastStored (ops.map Op.update) slot

@[simp] theorem leftBy_nil (slot : B256) : leftBy [] slot = none := rfl

theorem leftBy_append (xs ys : List Op) (slot : B256) :
    leftBy (xs ++ ys) slot = (leftBy ys slot).or (leftBy xs slot) := by
  unfold leftBy
  rw [List.map_append, lastStored_append]

/-- Ops none of which stores leave nothing. -/
theorem leftBy_storeless {ops : List Op} (storeless : ∀ op ∈ ops, op.update.isStore = false) (slot : B256) :
    leftBy ops slot = none := by
  rw [← Option.not_isSome_iff_eq_none]
  intro stores
  obtain ⟨v, member⟩ := lastStored_isSome_iff.mp stores
  obtain ⟨op, inside, update⟩ := List.mem_map.mp member
  have plain := storeless op inside
  rw [update] at plain
  cases plain

/-- A slice leaves the image in every slot the view did not hold at the image's value. -/
theorem leftBy_stale (step : Nat) (view image : Slots) (slot : B256) :
    leftBy (staleStores step view image) slot = if view.get slot = image.get slot then none else image.get slot := by
  have stores : (staleStores step view image).map Op.update =
      (image.entries.filter (fun e => view.get e.1 ≠ some e.2)).map (fun e => .store ⟨e.1, e.2⟩) := by
    unfold staleStores
    rw [List.map_map]
    rfl
  have pairs : ∀ es : List (B256 × B256),
      (es.map (fun e => StateUpdate.store ⟨e.1, e.2⟩)).filterMap StateUpdate.stored? = es := by
    intro es
    rw [List.filterMap_map]
    exact List.filterMap_some
  unfold leftBy lastStored
  rw [stores, pairs]
  have once : ((image.entries.filter (fun e => view.get e.1 ≠ some e.2)).map Prod.fst).Nodup := by
    refine List.Nodup.sublist (List.filter_sublist.map _) ?_
    rw [List.nodup_iff_pairwise_ne, List.pairwise_map]
    exact image.sorted.imp fun less => ne_of_lt less
  by_cases same : view.get slot = image.get slot
  · rw [if_pos same, WriteLog.last_none_iff]
    rintro e member rfl
    obtain ⟨inside, stale⟩ := List.mem_filter.mp member
    rw [same, OrdMap.mem_entries.mp inside] at stale
    simp at stale
  · rw [if_neg same]
    cases held : image.get slot with
    | none =>
      rw [WriteLog.last_none_iff]
      rintro e member rfl
      rw [OrdMap.mem_entries.mp (List.mem_filter.mp member).1] at held
      cases held
    | some v =>
      rw [held] at same
      exact WriteLog.last_of_mem once (List.mem_filter.mpr ⟨OrdMap.mem_entries.mpr held, by simpa using same⟩)

/-- Turning `NESTED` ops back into `CALL`s changes no store. -/
theorem leftBy_sameOrCall {ops ops' : List Op} (same : List.Forall₂ SameOrCall ops ops') (slot : B256) :
    leftBy ops' slot = leftBy ops slot := by
  have pairs : (ops'.map Op.update).filterMap StateUpdate.stored? = (ops.map Op.update).filterMap StateUpdate.stored? := by
    induction same with
    | nil => rfl
    | @cons o o' _ _ first _ ih =>
      rw [List.map_cons, List.map_cons, List.filterMap_cons, List.filterMap_cons, ih]
      cases first <;> rfl
  unfold leftBy lastStored
  rw [pairs]

end GasAnalyzer
