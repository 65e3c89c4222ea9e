import Mathlib

/-!
# Joins of tables

Tables are lists of rows. A left join repeats a row once for each of its matches, and lists it once when there is none: a
sum taken after the join counts a row that often.
-/

namespace Joins

variable {α β κ M : Type}

/-- Every pair the condition holds of. -/
def inner (matching : α → β → Bool) (xs : List α) (ys : List β) : List (α × β) :=
  xs.flatMap fun x => (ys.filter (matching x)).map fun y => (x, y)

/-- The matches of every row, or the row alone. -/
def left (matching : α → β → Bool) (xs : List α) (ys : List β) : List (α × Option β) :=
  xs.flatMap fun x =>
    match ys.filter (matching x) with
    | [] => [(x, none)]
    | found => found.map fun y => (x, some y)

/-- The rows of each key. -/
def groupBy [DecidableEq κ] (key : α → κ) (rows : List α) : List (κ × List α) :=
  (rows.map key).dedup.map fun k => (k, rows.filter fun row => key row = k)

/-- How often a left join lists a row. -/
def copies (matching : α → β → Bool) (ys : List β) (x : α) : Nat := max 1 (ys.countP (matching x))

theorem mem_inner {matching : α → β → Bool} {xs : List α} {ys : List β} {x : α} {y : β} :
    (x, y) ∈ inner matching xs ys ↔ x ∈ xs ∧ y ∈ ys ∧ matching x y = true := by
  unfold inner
  simp only [List.mem_flatMap, List.mem_map, List.mem_filter, Prod.mk.injEq]
  constructor
  · intro ⟨x', inside, y', ⟨inside', holds⟩, same, same'⟩
    subst same same'
    exact ⟨inside, inside', holds⟩
  · intro ⟨inside, inside', holds⟩
    exact ⟨x, inside, y, ⟨inside', holds⟩, rfl, rfl⟩

theorem nodup_inner (matching : α → β → Bool) {xs : List α} {ys : List β} (distinct : xs.Nodup)
    (distinct' : ys.Nodup) : (inner matching xs ys).Nodup := by
  unfold inner
  rw [List.nodup_flatMap]
  constructor
  · intro x _
    exact (distinct'.filter _).map fun y y' same => (Prod.mk.inj same).2
  · refine distinct.imp ?_
    intro x x' other
    show List.Disjoint _ _
    rw [List.disjoint_left]
    intro pair here there
    obtain ⟨y, -, rfl⟩ := List.mem_map.mp here
    obtain ⟨y', -, same⟩ := List.mem_map.mp there
    exact other (Prod.mk.inj same).1.symm

theorem left_cons (matching : α → β → Bool) (x : α) (xs : List α) (ys : List β) :
    left matching (x :: xs) ys = left matching [x] ys ++ left matching xs ys := by
  unfold left
  rw [List.flatMap_cons, List.flatMap_singleton]

theorem mem_left_fst {matching : α → β → Bool} {xs : List α} {ys : List β} {row : α × Option β}
    (member : row ∈ left matching xs ys) : row.1 ∈ xs := by
  obtain ⟨x, inside, found⟩ := List.mem_flatMap.mp member
  split at found
  · rw [List.mem_singleton.mp found]
    exact inside
  · obtain ⟨y, -, rfl⟩ := List.mem_map.mp found
    exact inside

/-- A condition on the left table may be checked before the join. -/
theorem filter_left (matching : α → β → Bool) (p : α → Bool) (xs : List α) (ys : List β) :
    (left matching xs ys).filter (fun row => p row.1) = left matching (xs.filter p) ys := by
  induction xs with
  | nil => rfl
  | cons x rest ih =>
    have own : ∀ row ∈ left matching [x] ys, row.1 = x := fun row member =>
      List.mem_singleton.mp (mem_left_fst member)
    rw [left_cons, List.filter_append, ih]
    cases verdict : p x with
    | true =>
      rw [List.filter_cons_of_pos verdict, left_cons _ x (rest.filter p),
        List.filter_eq_self.mpr fun row member => by rw [own row member]; exact verdict]
    | false =>
      rw [List.filter_cons_of_neg (by rw [verdict]; exact Bool.false_ne_true),
        List.filter_eq_nil_iff.mpr fun row member => by rw [own row member, verdict]; exact Bool.false_ne_true]
      rfl

theorem sum_left [AddCommMonoid M] (matching : α → β → Bool) (f : α → M) (xs : List α) (ys : List β) :
    ((left matching xs ys).map fun row => f row.1).sum = (xs.map fun x => copies matching ys x • f x).sum := by
  induction xs with
  | nil => rfl
  | cons x rest ih =>
    have own : ((left matching [x] ys).map fun row => f row.1).sum = copies matching ys x • f x := by
      unfold left copies
      rw [List.flatMap_singleton, List.countP_eq_length_filter]
      cases found : ys.filter (matching x) with
      | nil => simp
      | cons y matched =>
        simp only [List.map_map, Function.comp_def, List.map_const', List.sum_replicate, List.length_cons]
        rw [Nat.max_eq_right (Nat.le_add_left 1 _)]
    rw [left_cons, List.map_append, List.sum_append, List.map_cons, List.sum_cons, own, ih]

theorem mem_groupBy [DecidableEq κ] {key : α → κ} {rows : List α} {k : κ} {members : List α} :
    (k, members) ∈ groupBy key rows ↔ (∃ row ∈ rows, key row = k) ∧ members = rows.filter fun row => key row = k := by
  unfold groupBy
  simp only [List.mem_map, List.mem_dedup, Prod.mk.injEq]
  constructor
  · intro ⟨k', ⟨row, inside, here⟩, same, same'⟩
    subst same same'
    exact ⟨⟨row, inside, here⟩, rfl⟩
  · intro ⟨⟨row, inside, same⟩, shape⟩
    exact ⟨k, ⟨row, inside, same⟩, rfl, shape.symm⟩

/-! ### Sums with multiplicities -/

theorem sum_copies_eq [AddCommMonoid M] {matching : α → β → Bool} {ys : List β} {xs : List α}
    (single : ∀ x ∈ xs, ys.countP (matching x) ≤ 1) (f : α → M) :
    (xs.map fun x => copies matching ys x • f x).sum = (xs.map f).sum := by
  congr 1
  refine List.map_congr_left fun x inside => ?_
  have once : copies matching ys x = 1 := by
    have := single x inside
    unfold copies
    omega
  rw [once, one_nsmul]

/-- A positive sum after the join is the sum over the table exactly when no row has two matches. -/
theorem sum_copies_iff {matching : α → β → Bool} {ys : List β} {xs : List α} {f : α → Nat}
    (positive : ∀ x ∈ xs, 0 < f x) :
    (xs.map fun x => copies matching ys x • f x).sum = (xs.map f).sum ↔
      ∀ x ∈ xs, ys.countP (matching x) ≤ 1 := by
  refine ⟨?_, fun single => sum_copies_eq single f⟩
  have grows : ∀ xs : List α, (xs.map f).sum ≤ (xs.map fun x => copies matching ys x • f x).sum := by
    intro xs
    induction xs with
    | nil => exact Nat.le_refl 0
    | cons x rest ih =>
      have least : f x ≤ copies matching ys x • f x :=
        Nat.le_mul_of_pos_left _ (Nat.lt_of_lt_of_le Nat.one_pos (Nat.le_max_left 1 _))
      rw [List.map_cons, List.map_cons, List.sum_cons, List.sum_cons]
      exact Nat.add_le_add least ih
  induction xs with
  | nil => intro _ x inside; cases inside
  | cons x rest ih =>
    intro same
    rw [List.map_cons, List.map_cons, List.sum_cons, List.sum_cons] at same
    change copies matching ys x * f x + _ = _ at same
    have least : f x ≤ copies matching ys x * f x :=
      Nat.le_mul_of_pos_left _ (Nat.lt_of_lt_of_le Nat.one_pos (Nat.le_max_left 1 _))
    have later := grows rest
    have here : copies matching ys x * f x = 1 * f x := by omega
    have once := Nat.eq_of_mul_eq_mul_right (positive x List.mem_cons_self) here
    intro x' inside
    rcases List.mem_cons.mp inside with rfl | behind
    · unfold copies at once
      omega
    · exact ih (fun x' inside' => positive x' (List.mem_cons_of_mem _ inside')) (by omega) x' behind

end Joins
