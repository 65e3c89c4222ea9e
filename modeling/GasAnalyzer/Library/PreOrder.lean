import Mathlib

/-!
# Pre-order numberings

A forest given by a parent for every id is numbered in pre-order when no two subtrees cross: an id
between a node and its parent hangs below that parent. Visiting such a tree depth first lists the
ids in order.
-/

namespace GasAnalyzer.PreOrder

/-- Ids `1 .. n` have smaller parents, and an id between `c` and its parent hangs below that parent. -/
structure NonCrossing (parent : Nat → Nat) (n : Nat) : Prop where
  lt : ∀ c, 0 < c → c < n → parent c < c
  below : ∀ x c, c < n → parent c < x → x ≤ c → parent c ≤ parent x

def children (parent : Nat → Nat) (n q : Nat) : List Nat :=
  (List.range' (q + 1) (n - (q + 1))).filter (fun c => parent c = q)

/-- Depth-first visit; the fuel bounds the depth. -/
def visit (children : Nat → List Nat) : Nat → Nat → List Nat
  | 0, _ => []
  | fuel + 1, id => id :: (children id).flatMap (visit children fuel)

/-- A sum over a visit is the node's own and those of its children's visits. -/
theorem sum_visit {M : Type} [AddMonoid M] (children : Nat → List Nat) (f : Nat → M) (fuel id : Nat) :
    ((visit children (fuel + 1) id).map f).sum =
      f id + ((children id).map fun c => ((visit children fuel c).map f).sum).sum := by
  rw [visit, List.map_cons, List.sum_cons, List.map_flatMap, List.flatMap_def, List.sum_flatten, List.map_map]
  rfl

variable {parent : Nat → Nat} {n : Nat}

theorem range'_split {a b e : Nat} (ab : a ≤ b) (be : b ≤ e) :
    List.range' a (e - a) = List.range' a (b - a) ++ List.range' b (e - b) := by
  have joined := List.range'_append_1 (s := a) (m := b - a) (n := e - b)
  rw [show a + (b - a) = b by omega, show b - a + (e - b) = e - a by omega] at joined
  exact joined.symm

theorem filter_range'_none {q a b : Nat} (none : ∀ x, a ≤ x → x < b → parent x ≠ q) :
    (List.range' a (b - a)).filter (fun c => parent c = q) = [] := by
  apply List.filter_eq_nil_iff.mpr
  intro x member
  rw [List.mem_range'_1] at member
  simpa using none x member.1 (by omega)

/-- All children of `q` lie in the interval its subtree fills. -/
theorem children_interval (crossing : NonCrossing parent n) {q e : Nat} (qe : q < e) (en : e ≤ n)
    (closed : e = n ∨ parent e < q) :
    children parent n q = (List.range' (q + 1) (e - (q + 1))).filter (fun c => parent c = q) := by
  unfold children
  rw [range'_split (show q + 1 ≤ e by omega) en, List.filter_append]
  have outside : (List.range' e (n - e)).filter (fun c => parent c = q) = [] := by
    apply filter_range'_none
    intro x ex xn isChild
    have ordered := crossing.below e x (by omega) (by omega) ex
    omega
  rw [outside, List.append_nil]

/-- The least id from `a + 1` on that is `e` or a child of `q`. -/
theorem exists_next (parent : Nat → Nat) (q : Nat) {a e : Nat} (ae : a < e) :
    ∃ b, a < b ∧ b ≤ e ∧ (b = e ∨ parent b = q) ∧ ∀ x, a < x → x < b → parent x ≠ q := by
  classical
  have some : ∃ b, a < b ∧ (b = e ∨ parent b = q) := ⟨e, ae, Or.inl rfl⟩
  refine ⟨Nat.find some, (Nat.find_spec some).1, ?_, (Nat.find_spec some).2, ?_⟩
  · exact Nat.find_min' some ⟨ae, Or.inl rfl⟩
  · intro x ax xb isChild
    exact Nat.find_min some xb ⟨ax, Or.inr isChild⟩

/-- Visiting the children of `q` in an interval they fill lists the interval. -/
theorem flatMap_visit (crossing : NonCrossing parent n) {fuel q e : Nat} (en : e ≤ n)
    (closed : e = n ∨ parent e < q)
    (tree : ∀ a b, a < b → b ≤ n → (∀ x, a < x → x < b → a ≤ parent x) → (b = n ∨ parent b < a) →
      b - a ≤ fuel → visit (children parent n) fuel a = List.range' a (b - a))
    (k : Nat) : ∀ a, e - a = k → q < a → a ≤ e → e - a ≤ fuel →
      (∀ x, a ≤ x → x < e → parent x = q ∨ a ≤ parent x) →
      ((List.range' a (e - a)).filter (fun c => parent c = q)).flatMap
        (visit (children parent n) fuel) = List.range' a (e - a) := by
  induction k using Nat.strong_induction_on with
  | _ k ih =>
    intro a size qa ae enough inside
    rcases Nat.eq_or_lt_of_le ae with rfl | ae
    · simp
    · obtain ⟨b, ab, be, atEnd, between⟩ := exists_next parent q ae
      have first : parent a = q := by
        rcases inside a (le_refl a) ae with isChild | later
        · exact isChild
        · have smaller := crossing.lt a (by omega) (by omega)
          omega
      have others : (List.range' (a + 1) (b - (a + 1))).filter (fun c => parent c = q) = [] :=
        filter_range'_none (fun x ax xb => between x ax xb)
      have start : List.range' a (b - a) = a :: List.range' (a + 1) (b - (a + 1)) := by
        rw [show b - a = (b - (a + 1)) + 1 by omega, List.range'_succ]
      have head : visit (children parent n) fuel a = List.range' a (b - a) := by
        apply tree a b ab (by omega) _ _ (by omega)
        · intro x ax xb
          rcases inside x (by omega) (by omega) with isChild | later
          · exact absurd isChild (between x ax xb)
          · exact later
        · rcases atEnd with rfl | isChild
          · rcases closed with last | outside
            · exact Or.inl last
            · exact Or.inr (by omega)
          · exact Or.inr (by omega)
      have tail : ((List.range' b (e - b)).filter (fun c => parent c = q)).flatMap
          (visit (children parent n) fuel) = List.range' b (e - b) := by
        apply ih (e - b) (by omega) b rfl (by omega) be (by omega)
        intro x bx xe
        rcases inside x (by omega) xe with isChild | later
        · exact Or.inl isChild
        · right
          by_contra early
          -- An id hanging in `a`'s subtree cannot follow `b`, the next child of `q`.
          have ordered := crossing.below b x (by omega) (by omega) bx
          rcases atEnd with rfl | isChild
          · omega
          · omega
      rw [range'_split (Nat.le_of_lt ab) be, List.filter_append, List.flatMap_append, tail, start,
        List.filter_cons_of_pos (by simpa using first), others]
      simp [head, start]

theorem visit_interval (crossing : NonCrossing parent n) (fuel : Nat) : ∀ a b, a < b → b ≤ n →
    (∀ x, a < x → x < b → a ≤ parent x) → (b = n ∨ parent b < a) → b - a ≤ fuel →
    visit (children parent n) fuel a = List.range' a (b - a) := by
  induction fuel with
  | zero => intro a b ab _ _ _ enough; omega
  | succ fuel ih =>
    intro a b ab bn inside closed enough
    have forest := flatMap_visit crossing bn closed ih (b - (a + 1)) (a + 1) rfl (by omega)
      (by omega) (by omega) (by
        intro x ax xb
        have later := inside x (by omega) xb
        omega)
    rw [visit, children_interval crossing ab bn closed, forest,
      show b - a = (b - (a + 1)) + 1 by omega, List.range'_succ]

/-- Visiting a non-crossing tree depth first from its root lists the ids in order. -/
theorem visit_eq_range (crossing : NonCrossing parent n) (pos : 0 < n) :
    visit (children parent n) n 0 = List.range n := by
  rw [visit_interval crossing n 0 n pos (le_refl n) (fun x _ _ => Nat.zero_le _) (Or.inl rfl)
    (by omega), Nat.sub_zero, List.range_eq_range']

/-- A visit reads the children of the ids below `n` only. -/
theorem visit_congr {f g : Nat → List Nat} (same : ∀ i, i < n → f i = g i)
    (inside : ∀ i, i < n → ∀ c ∈ g i, c < n) (fuel : Nat) :
    ∀ i, i < n → visit f fuel i = visit g fuel i := by
  induction fuel with
  | zero => intro i _; rfl
  | succ fuel ih =>
    intro i hi
    rw [visit, visit, same i hi]
    congr 1
    apply List.flatMap_congr
    intro c member
    exact ih c (inside i hi c member)

/-! ### Post-order -/

/-- Depth-first visit that lists a node after its children; the fuel bounds the depth. -/
def visitLast (children : Nat → List Nat) : Nat → Nat → List Nat
  | 0, _ => []
  | fuel + 1, id => (children id).flatMap (visitLast children fuel) ++ [id]

/-- Both visits list the same nodes. -/
theorem visitLast_perm (children : Nat → List Nat) (fuel : Nat) :
    ∀ id, (visitLast children fuel id).Perm (visit children fuel id) := by
  induction fuel with
  | zero => exact fun _ => .refl _
  | succ fuel ih =>
    intro id
    rw [visitLast, visit]
    refine List.perm_append_singleton _ _ |>.trans (.cons id ?_)
    exact List.Perm.flatMap_left _ (fun c _ => ih c)

/-- Nodes hold intervals: a child's ends before its parent's and starts no earlier, and siblings do not overlap. -/
structure Intervals (children : Nat → List Nat) (n : Nat) (starts ends : Nat → Nat) : Prop where
  inside : ∀ q, q < n → ∀ c ∈ children q, c < n ∧ starts q ≤ starts c ∧ starts c < ends c ∧ ends c < ends q
  apart : ∀ q, q < n → (children q).Pairwise (fun c c' => ends c ≤ starts c')

/-- A visit that lists nodes after their children lists them by the end of their interval. -/
theorem Intervals.visitLast_sorted {children : Nat → List Nat} {starts ends : Nat → Nat}
    (intervals : Intervals children n starts ends) (fuel : Nat) : ∀ id, id < n →
      (visitLast children fuel id).Pairwise (fun a b => ends a < ends b) ∧
      ∀ a ∈ visitLast children fuel id, ends a ≤ ends id ∧ (starts id < ends id → starts id < ends a) := by
  induction fuel with
  | zero => exact fun _ _ => ⟨List.Pairwise.nil, fun a member => absurd member List.not_mem_nil⟩
  | succ fuel ih =>
    intro id inside
    have below : ∀ c ∈ children id, ∀ a ∈ visitLast children fuel c,
        starts id < ends a ∧ starts c < ends a ∧ ends a ≤ ends c ∧ ends a < ends id := by
      intro c child a member
      obtain ⟨cn, later, proper, earlier⟩ := intervals.inside id inside c child
      obtain ⟨most, least⟩ := (ih c cn).2 a member
      have := least proper
      exact ⟨by omega, this, most, by omega⟩
    rw [visitLast]
    constructor
    · rw [List.pairwise_append]
      refine ⟨List.pairwise_flatMap.mpr ⟨?_, ?_⟩, List.pairwise_singleton _ _, ?_⟩
      · exact fun c child => (ih c (intervals.inside id inside c child).1).1
      · -- Everything below an earlier sibling ends before anything below a later one.
        refine (intervals.apart id inside).imp_of_mem ?_
        intro c c' first second apart a memberA b memberB
        have before := (below c first a memberA).2.2.1
        have after := (below c' second b memberB).2.1
        omega
      · intro a memberA b memberB
        obtain ⟨c, child, member⟩ := List.mem_flatMap.mp memberA
        rw [List.mem_singleton.mp memberB]
        exact (below c child a member).2.2.2
    · intro a member
      rcases List.mem_append.mp member with earlier | last
      · obtain ⟨c, child, member⟩ := List.mem_flatMap.mp earlier
        have := below c child a member
        exact ⟨by omega, fun _ => this.1⟩
      · rw [List.mem_singleton.mp last]
        exact ⟨Nat.le_refl _, fun proper => proper⟩

end GasAnalyzer.PreOrder
