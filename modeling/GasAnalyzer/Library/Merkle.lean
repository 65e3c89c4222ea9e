import Mathlib

/-!
# Pair-hash Merkle trees with promoted odd nodes

Levels are built by hashing adjacent nodes with `h`; an odd last node moves up unchanged. Every
level is the list of hashes of a forest of binary trees (`climb_forest`), so a root is the hash of
one tree whose leaves are the given list. Soundness is then an induction over that tree.
-/

namespace GasAnalyzer.Merkle

variable {α : Type} (h : α → α → α)

/-- One level up: adjacent pairs hashed, an odd last node kept. -/
def up : List α → List α
  | [] => []
  | [a] => [a]
  | a :: b :: rest => h a b :: up rest

/-- Levels until at most one node is left; the fuel bounds the number of levels. -/
def climb : Nat → List α → List α
  | 0, level => level
  | n + 1, level => if level.length > 1 then climb n (up h level) else level

/-- Siblings met on the way up from `index`. -/
def siblings : Nat → List α → Nat → List α
  | 0, _, _ => []
  | n + 1, level, index =>
    if level.length > 1 then
      (level[index ^^^ 1]?).toList ++ siblings n (up h level) (index / 2)
    else []

theorem length_up (level : List α) : (up h level).length = (level.length + 1) / 2 := by
  induction level using up.induct with
  | case1 => simp [up]
  | case2 a => simp [up]
  | case3 a b rest ih =>
    simp only [up, List.length_cons, ih]
    omega

theorem up_ne_nil {level : List α} (ne : level ≠ []) : up h level ≠ [] := by
  have := length_up h level
  have : 0 < level.length := List.length_pos_iff.mpr ne
  exact List.length_pos_iff.mp (by omega)

/-- With one unit of fuel for each node, `climb` ends on a single node. -/
theorem climb_length {n : Nat} {level : List α} (ne : level ≠ []) (fuel : level.length ≤ n) :
    (climb h n level).length = 1 := by
  induction n generalizing level with
  | zero => exact absurd (List.length_eq_zero_iff.mp (by omega)) ne
  | succ n ih =>
    have positive : 0 < level.length := List.length_pos_iff.mpr ne
    simp only [climb]
    split
    · apply ih (up_ne_nil h ne)
      rw [length_up]
      omega
    · omega

/-! ### Trees behind the levels -/

inductive Tree (α : Type) where
  | leaf (a : α)
  | node (l r : Tree α)

namespace Tree

def hash : Tree α → α
  | leaf a => a
  | node l r => h l.hash r.hash

def leaves : Tree α → List α
  | leaf a => [a]
  | node l r => l.leaves ++ r.leaves

/-- The pairs hashed to compute the tree's root. -/
def pairs : Tree α → List (α × α)
  | leaf _ => []
  | node l r => (l.hash h, r.hash h) :: (l.pairs ++ r.pairs)

end Tree

def upTrees : List (Tree α) → List (Tree α)
  | [] => []
  | [a] => [a]
  | a :: b :: rest => .node a b :: upTrees rest

theorem map_hash_upTrees (ts : List (Tree α)) :
    (upTrees ts).map (Tree.hash h) = up h (ts.map (Tree.hash h)) := by
  induction ts using upTrees.induct with
  | case1 => rfl
  | case2 a => rfl
  | case3 a b rest ih => simp [upTrees, up, Tree.hash, ih]

theorem leaves_upTrees (ts : List (Tree α)) :
    (upTrees ts).flatMap Tree.leaves = ts.flatMap Tree.leaves := by
  induction ts using upTrees.induct with
  | case1 => rfl
  | case2 a => rfl
  | case3 a b rest ih => simp [upTrees, Tree.leaves, ih]

/-- The pairs hashed between one level and the next. -/
def levelPairs : List α → List (α × α)
  | [] => []
  | [_] => []
  | a :: b :: rest => (a, b) :: levelPairs rest

/-- The pairs hashed by `climb`. -/
def climbPairs : Nat → List α → List (α × α)
  | 0, _ => []
  | n + 1, level =>
    if level.length > 1 then levelPairs level ++ climbPairs n (up h level) else []

theorem pairs_upTrees {ts : List (Tree α)} {p : α × α}
    (member : p ∈ (upTrees ts).flatMap (Tree.pairs h)) :
    p ∈ levelPairs (ts.map (Tree.hash h)) ∨ p ∈ ts.flatMap (Tree.pairs h) := by
  induction ts using upTrees.induct with
  | case1 => exact Or.inr member
  | case2 a => exact Or.inr member
  | case3 a b rest ih =>
    simp only [upTrees, List.flatMap_cons, Tree.pairs, List.mem_append, List.mem_cons,
      List.map_cons, levelPairs] at member ih ⊢
    rcases member with (rfl | left | right) | rest
    · exact Or.inl (Or.inl rfl)
    · exact Or.inr (Or.inl left)
    · exact Or.inr (Or.inr (Or.inl right))
    · rcases ih rest with level | below
      · exact Or.inl (Or.inr level)
      · exact Or.inr (Or.inr (Or.inr below))

/-- Climbing from the hashes of a forest ends on the hashes of a forest with the same leaves, and
hashes no pair beyond those of `climbPairs`. -/
theorem climb_forest (n : Nat) (ts : List (Tree α)) :
    ∃ us : List (Tree α), climb h n (ts.map (Tree.hash h)) = us.map (Tree.hash h) ∧
      us.flatMap Tree.leaves = ts.flatMap Tree.leaves ∧
      ∀ p ∈ us.flatMap (Tree.pairs h),
        p ∈ climbPairs h n (ts.map (Tree.hash h)) ∨ p ∈ ts.flatMap (Tree.pairs h) := by
  induction n generalizing ts with
  | zero => exact ⟨ts, rfl, rfl, fun p member => Or.inr member⟩
  | succ n ih =>
    simp only [climb, climbPairs, List.length_map]
    split
    · obtain ⟨us, climbed, leaves, pairs⟩ := ih (upTrees ts)
      rw [map_hash_upTrees] at climbed
      refine ⟨us, climbed, leaves.trans (leaves_upTrees ts), fun p member => ?_⟩
      rw [map_hash_upTrees] at pairs
      rcases pairs p member with later | here
      · exact Or.inl (List.mem_append_right _ later)
      · rcases pairs_upTrees h here with level | below
        · exact Or.inl (List.mem_append_left _ level)
        · exact Or.inr below
    · exact ⟨ts, rfl, rfl, fun p member => Or.inr member⟩

/-- A nonempty list's root is the hash of a tree with exactly its elements as leaves. -/
theorem exists_tree {leaves : List α} (ne : leaves ≠ []) :
    ∃ t : Tree α, climb h leaves.length leaves = [t.hash h] ∧ t.leaves = leaves ∧
      ∀ p ∈ t.pairs h, p ∈ climbPairs h leaves.length leaves := by
  have asForest : leaves = (leaves.map Tree.leaf).map (Tree.hash h) := by
    simp [Function.comp_def, Tree.hash]
  obtain ⟨us, climbed, same, pairs⟩ := climb_forest h leaves.length (leaves.map Tree.leaf)
  rw [← asForest] at climbed pairs
  have single := climb_length h ne (le_refl _)
  rw [climbed, List.length_map] at single
  obtain ⟨t, rfl⟩ := List.length_eq_one_iff.mp single
  refine ⟨t, climbed, ?_, fun p member => ?_⟩
  · simpa [List.flatMap_map, Tree.leaves] using same
  · rcases pairs p (by simpa using member) with hashed | leaf
    · exact hashed
    · simp [List.flatMap_map, Tree.pairs] at leaf

/-! ### Soundness -/

/-- No two of the listed pairs collide, up to swapping a pair. -/
def CollisionFree (ps : List (α × α)) : Prop :=
  ∀ p ∈ ps, ∀ q ∈ ps, h p.1 p.2 = h q.1 q.2 → p = q ∨ p = q.swap

/-- `x` is not the hash of a listed pair. -/
def Fresh (ps : List (α × α)) (x : α) : Prop := ∀ p ∈ ps, h p.1 p.2 ≠ x

/-- The pairs hashed by folding `h` over a proof, from `x`. -/
def foldPairs : α → List α → List (α × α)
  | _, [] => []
  | x, s :: rest => (x, s) :: foldPairs (h x s) rest

theorem foldPairs_append (x : α) (proof : List α) (s : α) :
    foldPairs h x (proof ++ [s]) = foldPairs h x proof ++ [(proof.foldl h x, s)] := by
  induction proof generalizing x with
  | nil => rfl
  | cons s' rest ih => simp [foldPairs, ih]

/-- A fold that reaches a tree's root starts at one of its leaves: its last step hashes the same
pair as the root, so the fold without that step reaches one of the two subtrees. -/
theorem Tree.mem_leaves_of_fold {t : Tree α} {x : α} {proof : List α} {ps : List (α × α)}
    (free : CollisionFree h ps) (tree : ∀ p ∈ t.pairs h, p ∈ ps)
    (path : ∀ p ∈ foldPairs h x proof, p ∈ ps) (leaf : ∀ a ∈ t.leaves, Fresh h ps a)
    (start : Fresh h ps x) (reach : proof.foldl h x = t.hash h) : x ∈ t.leaves := by
  induction t generalizing proof with
  | leaf a =>
    rcases List.eq_nil_or_concat proof with rfl | ⟨front, s, rfl⟩
    · simpa [Tree.hash, Tree.leaves] using reach
    · rw [List.concat_eq_append] at path reach
      rw [foldPairs_append] at path
      have hashed : h (front.foldl h x) s = a := by simpa [Tree.hash] using reach
      have listed : (front.foldl h x, s) ∈ ps := path _ (by simp)
      exact absurd hashed (leaf a (by simp [Tree.leaves]) _ listed)
  | node l r ihl ihr =>
    simp only [Tree.pairs, Tree.leaves, List.mem_cons, List.mem_append] at tree leaf ⊢
    have root : (l.hash h, r.hash h) ∈ ps := tree _ (Or.inl rfl)
    rcases List.eq_nil_or_concat proof with rfl | ⟨front, s, rfl⟩
    · exact absurd reach.symm (start _ root)
    · rw [List.concat_eq_append] at path reach
      rw [foldPairs_append] at path
      have hashed : h (front.foldl h x) s = h (l.hash h) (r.hash h) := by
        simpa [Tree.hash] using reach
      have shorter : ∀ p ∈ foldPairs h x front, p ∈ ps :=
        fun p member => path p (List.mem_append_left _ member)
      have last : (front.foldl h x, s) ∈ ps := path _ (by simp)
      rcases free _ last _ root hashed with same | swapped
      · refine Or.inl (ihl (fun p member => tree p (Or.inr (Or.inl member))) shorter
          (fun a member => leaf a (Or.inl member)) ?_)
        exact congrArg Prod.fst same
      · refine Or.inr (ihr (fun p member => tree p (Or.inr (Or.inr member))) shorter
          (fun a member => leaf a (Or.inr member)) ?_)
        exact congrArg Prod.fst swapped

/-- Two trees with one root have the same leaves up to order. -/
theorem Tree.perm_of_hash_eq {t u : Tree α} {ps : List (α × α)} (free : CollisionFree h ps)
    (left : ∀ p ∈ t.pairs h, p ∈ ps) (right : ∀ p ∈ u.pairs h, p ∈ ps)
    (leafT : ∀ a ∈ t.leaves, Fresh h ps a) (leafU : ∀ a ∈ u.leaves, Fresh h ps a)
    (same : t.hash h = u.hash h) : t.leaves.Perm u.leaves := by
  induction t generalizing u with
  | leaf a =>
    cases u with
    | leaf b =>
      have equal : a = b := same
      rw [equal]
    | node l r =>
      have root : (l.hash h, r.hash h) ∈ ps := right _ (by simp [Tree.pairs])
      exact absurd same.symm (leafT a (by simp [Tree.leaves]) _ root)
  | node l r ihl ihr =>
    cases u with
    | leaf b =>
      have root : (l.hash h, r.hash h) ∈ ps := left _ (by simp [Tree.pairs])
      exact absurd same (leafU b (by simp [Tree.leaves]) _ root)
    | node l' r' =>
      simp only [Tree.pairs, Tree.leaves, List.mem_cons, List.mem_append] at left right leafT leafU ⊢
      have leftL := fun p member => left p (Or.inr (Or.inl member))
      have leftR := fun p member => left p (Or.inr (Or.inr member))
      have rightL := fun p member => right p (Or.inr (Or.inl member))
      have rightR := fun p member => right p (Or.inr (Or.inr member))
      have freshL := fun a member => leafT a (Or.inl member)
      have freshR := fun a member => leafT a (Or.inr member)
      have freshL' := fun a member => leafU a (Or.inl member)
      have freshR' := fun a member => leafU a (Or.inr member)
      rcases free _ (left _ (Or.inl rfl)) _ (right _ (Or.inl rfl)) same with equal | swapped
      · exact (ihl leftL rightL freshL freshL' (congrArg Prod.fst equal)).append
          (ihr leftR rightR freshR freshR' (congrArg Prod.snd equal))
      · exact ((ihl leftL rightR freshL freshR' (congrArg Prod.fst swapped)).append
          (ihr leftR rightL freshR freshL' (congrArg Prod.snd swapped))).trans
          List.perm_append_comm

/-! ### Completeness of the sibling path -/

theorem getElem?_up (level : List α) (k : Nat) :
    (up h level)[k]? =
      match level[2 * k]?, level[2 * k + 1]? with
      | some a, some b => some (h a b)
      | some a, none => some a
      | none, _ => none := by
  induction level using up.induct generalizing k with
  | case1 => simp [up]
  | case2 a => cases k <;> simp [up, Nat.mul_add]
  | case3 a b rest ih =>
    cases k with
    | zero => simp [up]
    | succ k =>
      rw [show 2 * (k + 1) = 2 * k + 1 + 1 by omega]
      simp only [up, List.getElem?_cons_succ]
      exact ih k

theorem xor_one_even {i : Nat} (even : i % 2 = 0) : i ^^^ 1 = i + 1 := by
  rw [Nat.xor_one_of_even (Nat.even_iff.mpr even)]

theorem xor_one_odd {i : Nat} (odd : i % 2 = 1) : i ^^^ 1 = i - 1 := by
  rw [Nat.xor_one_of_odd (Nat.odd_iff.mpr odd)]

/-- One level of a proof: hashing a node with its sibling, if it has one, gives its parent. -/
theorem getElem?_up_half (comm : ∀ a b, h a b = h b a) {level : List α} {i : Nat} {x : α}
    (node : level[i]? = some x) :
    (up h level)[i / 2]? = some ((level[i ^^^ 1]?).toList.foldl h x) := by
  rw [getElem?_up]
  rcases Nat.mod_two_eq_zero_or_one i with even | odd
  · rw [xor_one_even even, show 2 * (i / 2) = i by omega, node]
    cases level[i + 1]? <;> simp
  · rw [xor_one_odd odd, show 2 * (i / 2) = i - 1 by omega, show i - 1 + 1 = i by omega, node]
    have inRange : i - 1 < level.length := by
      have := (List.getElem?_eq_some_iff.mp node).1
      omega
    rw [List.getElem?_eq_getElem inRange]
    simp [comm]

/-- Folding `h` over the siblings of a leaf reaches the root. -/
theorem foldl_siblings (comm : ∀ a b, h a b = h b a) {n : Nat} {level : List α} {i : Nat} {x : α}
    (fuel : level.length ≤ n) (node : level[i]? = some x) :
    climb h n level = [(siblings h n level i).foldl h x] := by
  induction n generalizing level i x with
  | zero =>
    have := (List.getElem?_eq_some_iff.mp node).1
    omega
  | succ n ih =>
    simp only [climb, siblings]
    split
    · rw [List.foldl_append]
      apply ih
      · rw [length_up]
        omega
      · exact getElem?_up_half h comm node
    · have inRange := (List.getElem?_eq_some_iff.mp node).1
      have single : level.length = 1 := by omega
      obtain ⟨a, rfl⟩ := List.length_eq_one_iff.mp single
      have first : i = 0 := by simpa using inRange
      subst first
      simpa using node

/-- A proof has at most one sibling a level. -/
theorem length_siblings_le (n : Nat) (level : List α) (i : Nat) :
    (siblings h n level i).length ≤ Nat.clog 2 level.length := by
  induction n generalizing level i with
  | zero => exact Nat.zero_le _
  | succ n ih =>
    simp only [siblings]
    split
    · rename_i two
      have sibling : (level[i ^^^ 1]?).toList.length ≤ 1 := by
        cases level[i ^^^ 1]? <;> simp
      have above := ih (up h level) (i / 2)
      rw [length_up] at above
      have halves : Nat.clog 2 level.length = Nat.clog 2 ((level.length + 1) / 2) + 1 :=
        Nat.clog_of_two_le (le_refl 2) two
      rw [List.length_append]
      omega
    · exact Nat.zero_le _

/-- How many siblings there are is settled by the number of nodes. -/
theorem length_siblings {β : Type} (h' : β → β → β) (n : Nat) {level : List α} {level' : List β}
    (same : level.length = level'.length) (i : Nat) :
    (siblings h n level i).length = (siblings h' n level' i).length := by
  induction n generalizing level level' i with
  | zero => rfl
  | succ n ih =>
    have sibling : (level[i ^^^ 1]?).toList.length = (level'[i ^^^ 1]?).toList.length := by
      by_cases inside : i ^^^ 1 < level.length
      · rw [List.getElem?_eq_getElem inside, List.getElem?_eq_getElem (same ▸ inside)]
        rfl
      · rw [List.getElem?_eq_none (Nat.le_of_not_lt inside),
          List.getElem?_eq_none (same ▸ Nat.le_of_not_lt inside)]
        rfl
    simp only [siblings, same]
    split
    · rw [List.length_append, List.length_append, sibling,
        ih (show (up h level).length = (up h' level').length by rw [length_up, length_up, same])]
    · rfl

/-- What hashing pairs keeps holds of every sibling. -/
theorem siblings_all {p : α → Prop} (closed : ∀ a b, p (h a b)) (n : Nat) {level : List α} (all : ∀ a ∈ level, p a)
    (i : Nat) : ∀ a ∈ siblings h n level i, p a := by
  have ups : ∀ level : List α, (∀ a ∈ level, p a) → ∀ a ∈ up h level, p a := by
    intro level all
    induction level using up.induct with
    | case1 =>
      intro a member
      cases member
    | case2 a => exact all
    | case3 a b rest ih =>
      intro c member
      rcases List.mem_cons.mp member with rfl | later
      · exact closed a b
      · exact ih (fun d inside => all d (List.mem_cons_of_mem _ (List.mem_cons_of_mem _ inside))) c later
  induction n generalizing level i with
  | zero =>
    intro a member
    cases member
  | succ n ih =>
    intro a member
    rw [siblings] at member
    split at member
    · rcases List.mem_append.mp member with sibling | above
      · exact all a (List.mem_of_getElem? (Option.mem_toList.mp sibling))
      · exact ih (ups level all) (i / 2) a above
    · cases member

end GasAnalyzer.Merkle
