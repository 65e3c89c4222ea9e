import Mathlib

/-!
# Write logs

A list of writes to keyed cells, oldest first. `last` is the value the list leaves in a cell, `apply` the store after
its writes.
-/

namespace GasAnalyzer

namespace WriteLog

variable {κ ν : Type} [DecidableEq κ]

/-- The value of the last write to `k`. -/
def last (k : κ) : List (κ × ν) → Option ν
  | [] => none
  | w :: ws => (last k ws).or (if w.1 = k then some w.2 else none)

@[simp] theorem last_nil (k : κ) : last k ([] : List (κ × ν)) = none := rfl

theorem last_append (k : κ) (xs ys : List (κ × ν)) : last k (xs ++ ys) = (last k ys).or (last k xs) := by
  induction xs with
  | nil =>
    rw [List.nil_append, last_nil, Option.or_none]
  | cons w ws ih =>
    rw [List.cons_append, last, last, ih, Option.or_assoc]

theorem last_singleton (k : κ) (w : κ × ν) : last k [w] = if w.1 = k then some w.2 else none := by
  rw [last, last_nil, Option.none_or]

theorem last_isSome_iff (k : κ) (ws : List (κ × ν)) : (last k ws).isSome = true ↔ ∃ w ∈ ws, w.1 = k := by
  induction ws with
  | nil => simp
  | cons w ws ih =>
    rw [last, Option.isSome_or, Bool.or_eq_true, ih]
    constructor
    · rintro (⟨w', member, key⟩ | here)
      · exact ⟨w', List.mem_cons_of_mem _ member, key⟩
      · refine ⟨w, List.mem_cons_self, ?_⟩
        by_contra other
        rw [if_neg other] at here
        cases here
    · rintro ⟨w', member, key⟩
      rcases List.mem_cons.mp member with rfl | later
      · right
        rw [if_pos key]
        rfl
      · exact Or.inl ⟨w', later, key⟩

theorem mem_of_last {ws : List (κ × ν)} {k : κ} {v : ν} (found : last k ws = some v) : (k, v) ∈ ws := by
  induction ws with
  | nil => cases found
  | cons w ws ih =>
    rw [last, Option.or_eq_some_iff] at found
    rcases found with later | ⟨-, here⟩
    · exact List.mem_cons_of_mem _ (ih later)
    · split at here
      · rename_i key
        obtain rfl := Option.some.inj here
        rw [← key]
        exact List.mem_cons_self
      · cases here

theorem last_none_iff (k : κ) (ws : List (κ × ν)) : last k ws = none ↔ ∀ w ∈ ws, w.1 ≠ k := by
  rw [← Option.not_isSome_iff_eq_none, last_isSome_iff]
  constructor
  · exact fun never w member key => never ⟨w, member, key⟩
  · rintro other ⟨w, member, key⟩
    exact other w member key

/-- A cell written once holds what it was written. -/
theorem last_of_mem {ws : List (κ × ν)} (once : (ws.map Prod.fst).Nodup) {k : κ} {v : ν} (member : (k, v) ∈ ws) :
    last k ws = some v := by
  induction ws with
  | nil => cases member
  | cons w ws ih =>
    rw [List.map_cons, List.nodup_cons] at once
    rw [last]
    rcases List.mem_cons.mp member with rfl | later
    · have none : last k ws = none := by
        rw [last_none_iff]
        intro w' inside same
        exact once.1 (List.mem_map.mpr ⟨w', inside, same⟩)
      rw [none, Option.none_or, if_pos rfl]
    · rw [ih once.2 later, Option.some_or]

/-- The store after the writes. -/
def apply (store : κ → ν) (ws : List (κ × ν)) (k : κ) : ν := (last k ws).getD (store k)

theorem apply_append (store : κ → ν) (xs ys : List (κ × ν)) :
    apply store (xs ++ ys) = apply (apply store xs) ys := by
  funext k
  unfold apply
  rw [last_append]
  cases last k ys <;> rfl

theorem apply_singleton (store : κ → ν) (w : κ × ν) : apply store [w] = Function.update store w.1 w.2 := by
  funext k
  unfold apply
  rw [last_singleton]
  by_cases here : w.1 = k
  · subst here
    rw [if_pos rfl, Function.update_self]
    rfl
  · rw [if_neg here, Function.update_of_ne (Ne.symm here)]
    rfl

theorem apply_of_last_none {store : κ → ν} {ws : List (κ × ν)} {k : κ} (none : last k ws = none) :
    apply store ws k = store k := by
  unfold apply
  rw [none]
  rfl

end WriteLog

end GasAnalyzer
