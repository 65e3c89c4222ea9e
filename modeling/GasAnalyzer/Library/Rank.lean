import Mathlib

/-!
# Positions in a filtered list

`rank` is where an element lands when a list is filtered: the number of kept elements before it. Kept
elements keep their order, and every position of the filtered list is the rank of one kept element.
-/

namespace GasAnalyzer

variable {α : Type} {keep : α → Bool} {xs : List α}

def rank (keep : α → Bool) (xs : List α) (i : Nat) : Nat := ((xs.take i).filter keep).length

theorem rank_zero (keep : α → Bool) (xs : List α) : rank keep xs 0 = 0 := by
  simp [rank]

theorem getElem?_rank {i : Nat} {x : α} (found : xs[i]? = some x) (kept : keep x = true) :
    (xs.filter keep)[rank keep xs i]? = some x := by
  obtain ⟨inside, rfl⟩ := List.getElem?_eq_some_iff.mp found
  have split : xs.filter keep = (xs.take i).filter keep ++ (xs.drop i).filter keep := by
    rw [← List.filter_append, List.take_append_drop]
  rw [split, rank, List.getElem?_append_right (Nat.le_refl _), Nat.sub_self, List.drop_eq_getElem_cons inside,
    List.filter_cons_of_pos kept]
  rfl

theorem rank_mono {i j : Nat} (le : i ≤ j) : rank keep xs i ≤ rank keep xs j := by
  unfold rank
  have prefixed : (xs.take i).filter keep <+: (xs.take j).filter keep :=
    (List.take_prefix_take_left le).filter keep
  exact prefixed.length_le

theorem rank_lt {i j : Nat} {x : α} (found : xs[i]? = some x) (kept : keep x = true) (lt : i < j) :
    rank keep xs i < rank keep xs j := by
  obtain ⟨inside, rfl⟩ := List.getElem?_eq_some_iff.mp found
  have next : rank keep xs (i + 1) = rank keep xs i + 1 := by
    unfold rank
    rw [List.take_add_one, List.getElem?_eq_getElem inside, List.filter_append, List.length_append]
    simp [kept]
  have later : rank keep xs (i + 1) ≤ rank keep xs j := rank_mono lt
  omega

theorem rank_inj {i j : Nat} {x y : α} (foundI : xs[i]? = some x) (keptI : keep x = true)
    (foundJ : xs[j]? = some y) (keptJ : keep y = true) (same : rank keep xs i = rank keep xs j) :
    i = j := by
  rcases Nat.lt_trichotomy i j with lt | eq | gt
  · have := rank_lt foundI keptI lt
    omega
  · exact eq
  · have := rank_lt foundJ keptJ gt
    omega

theorem exists_rank {k : Nat} {x : α} (found : (xs.filter keep)[k]? = some x) :
    ∃ i, xs[i]? = some x ∧ keep x = true ∧ rank keep xs i = k := by
  induction xs generalizing k with
  | nil => simp at found
  | cons head rest ih =>
    by_cases kept : keep head = true
    · rw [List.filter_cons_of_pos kept] at found
      cases k with
      | zero =>
        have same : head = x := by simpa using found
        subst same
        exact ⟨0, rfl, kept, rank_zero keep _⟩
      | succ k =>
        obtain ⟨i, foundI, keptX, here⟩ := ih (by simpa using found)
        exact ⟨i + 1, by simpa using foundI, keptX, by simpa [rank, kept] using here⟩
    · rw [List.filter_cons_of_neg kept] at found
      obtain ⟨i, foundI, keptX, here⟩ := ih found
      exact ⟨i + 1, by simpa using foundI, keptX, by simpa [rank, kept] using here⟩

end GasAnalyzer
