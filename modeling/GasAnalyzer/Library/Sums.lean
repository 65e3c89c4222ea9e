import Mathlib

/-!
# Sums over a forest

Nodes are numbered from zero and some have a parent. What each node passes on to its parent may be summed node by node,
or parent by parent.
-/

namespace Sums

open Finset

variable {α M : Type} [AddCommMonoid M]

theorem sum_map_eq_range (f : α → M) (xs : List α) :
    (xs.map f).sum = ∑ i ∈ range xs.length, (xs[i]?.map f).getD 0 := by
  induction xs using List.reverseRecOn with
  | nil => rfl
  | append_singleton xs x ih =>
    rw [List.map_append, List.sum_append, ih, List.length_append, List.length_singleton, sum_range_succ]
    congr 1
    · refine sum_congr rfl fun i inside => ?_
      rw [List.getElem?_append_left (mem_range.mp inside)]
    · simp

theorem sum_range_change {n id : Nat} {f g : Nat → M} {d : M} (inside : id < n) (here : g id = f id + d)
    (others : ∀ i, i ≠ id → g i = f i) : ∑ i ∈ range n, g i = ∑ i ∈ range n, f i + d := by
  have change : ∀ i ∈ range n, g i = f i + if i = id then d else 0 := by
    intro i _
    by_cases same : i = id
    · rw [same, here, if_pos rfl]
    · rw [others i same, if_neg same, add_zero]
  rw [sum_congr rfl change, sum_add_distrib, sum_ite_eq' (range n) id, if_pos (mem_range.mpr inside)]

/-- What live parents receive of their children, summed over the children. -/
theorem sum_by_parent (n : Nat) (parent : Nat → Option Nat) (alive : Nat → Bool) (f : Nat → M) :
    (∑ q ∈ range n, if alive q then ∑ m ∈ range n, (if parent m = some q then f m else 0) else 0) =
      ∑ m ∈ range n, if (parent m).any (fun q => decide (q < n) && alive q) then f m else 0 := by
  have inner : ∀ q ∈ range n, (if alive q then ∑ m ∈ range n, (if parent m = some q then f m else 0) else 0) =
      ∑ m ∈ range n, if alive q ∧ parent m = some q then f m else 0 := by
    intro q _
    cases alive q <;> simp
  rw [sum_congr rfl inner, sum_comm]
  refine sum_congr rfl fun m _ => ?_
  cases parent m with
  | none => simp
  | some p =>
    have one : ∀ q ∈ range n, (if alive q ∧ some p = some q then f m else 0) =
        if p = q then if alive p then f m else 0 else 0 := by
      intro q _
      by_cases same : p = q
      · simp [same]
      · simp [same]
    rw [sum_congr rfl one, sum_ite_eq]
    by_cases inside : p < n <;> simp [inside]

theorem sum_map_eq_Ico {s : List Nat} {n m : Nat} (once : s.Nodup) (inside : ∀ i ∈ s, n ≤ i ∧ i < m) (f : Nat → M) :
    (s.map f).sum = ∑ i ∈ Ico n m, if i ∈ s then f i else 0 := by
  have same : Ico n m ∩ s.toFinset = s.toFinset := by
    refine inter_eq_right.mpr fun i member => ?_
    exact mem_Ico.mpr (inside i (List.mem_toFinset.mp member))
  rw [← List.sum_toFinset f once, ← same, ← sum_ite_mem]
  exact sum_congr rfl fun i _ => by simp only [List.mem_toFinset]

theorem toNat_sum (xs : List UInt64) : xs.sum.toNat = (xs.map UInt64.toNat).sum % 2 ^ 64 := by
  induction xs with
  | nil => rfl
  | cons x xs ih =>
    rw [List.sum_cons, UInt64.toNat_add, ih, List.map_cons, List.sum_cons, Nat.add_mod_mod]

/-- Entries of lists weigh at least as much as the numbers below `n` that are in one of them. -/
theorem sum_le_listed {n : Nat} (weight : Nat → Nat) (children : Nat → List Nat)
    (named : ∀ i, 0 < i → i < n → ∃ q < n, i ∈ children q) :
    ∑ i ∈ Ico 1 n, weight i ≤ ∑ q ∈ range n, ((children q).map weight).sum := by
  have listed : ∀ q, ∑ i ∈ Ico 1 n, (if i ∈ children q then weight i else 0) ≤ ((children q).map weight).sum := by
    intro q
    rw [← sum_filter]
    refine le_trans (sum_le_sum_of_subset (t := (children q).toFinset) fun i member => ?_) ?_
    · exact List.mem_toFinset.mpr (mem_filter.mp member).2
    · rw [sum_list_map_count]
      refine sum_le_sum fun i member => ?_
      exact Nat.le_mul_of_pos_left _ (List.count_pos_iff.mpr (List.mem_toFinset.mp member))
  calc ∑ i ∈ Ico 1 n, weight i
      ≤ ∑ i ∈ Ico 1 n, ∑ q ∈ range n, (if i ∈ children q then weight i else 0) := by
        refine sum_le_sum fun i inside => ?_
        obtain ⟨positive, below⟩ := mem_Ico.mp inside
        obtain ⟨q, inRange, member⟩ := named i positive below
        refine le_trans ?_ (single_le_sum (f := fun q => if i ∈ children q then weight i else 0)
          (fun _ _ => Nat.zero_le _) (mem_range.mpr inRange))
        exact le_of_eq (if_pos member).symm
    _ = ∑ q ∈ range n, ∑ i ∈ Ico 1 n, (if i ∈ children q then weight i else 0) := sum_comm
    _ ≤ ∑ q ∈ range n, ((children q).map weight).sum := sum_le_sum fun q _ => listed q

/-- Where every node weighs its own and its children's weight, and each but the first is some node's child, all that
the others weigh of their own is below the first. -/
theorem sum_own_le {n : Nat} {own weight : Nat → Nat} {children : Nat → List Nat}
    (grows : ∀ i, 0 < i → i < n → own i + ((children i).map weight).sum ≤ weight i)
    (named : ∀ i, 0 < i → i < n → ∃ q < n, i ∈ children q) (some : 0 < n) :
    ∑ i ∈ Ico 1 n, own i ≤ ((children 0).map weight).sum := by
  have listed := sum_le_listed weight children named
  have others : ∑ i ∈ Ico 1 n, own i + ∑ i ∈ Ico 1 n, ((children i).map weight).sum ≤ ∑ i ∈ Ico 1 n, weight i := by
    rw [← sum_add_distrib]
    refine sum_le_sum fun i inside => ?_
    obtain ⟨positive, below⟩ := mem_Ico.mp inside
    exact grows i positive below
  rw [range_eq_Ico, sum_eq_sum_Ico_succ_bot some] at listed
  rw [Nat.zero_add] at listed
  omega

end Sums
