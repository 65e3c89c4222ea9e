import Mathlib

/-!
# Finite maps kept in key order

`OrdMap` is an association list whose keys strictly increase, so iterating it visits the keys in
ascending order and a map has one representation. Lookups are characterized by `get_insert`,
`get_erase` and `get_extend`; `mem_entries` links iteration with lookup.
-/

namespace GasAnalyzer

/-- A finite map whose entries are listed by strictly increasing key. -/
structure OrdMap (κ ν : Type) [LinearOrder κ] where
  entries : List (κ × ν)
  sorted : entries.Pairwise (fun a b => a.1 < b.1)

namespace OrdMap

variable {κ ν : Type} [LinearOrder κ]

/-! ### Operations on the entry list -/

def lookup (k : κ) : List (κ × ν) → Option ν
  | [] => none
  | (k', v) :: rest => if k = k' then some v else lookup k rest

def insertEntry (k : κ) (v : ν) : List (κ × ν) → List (κ × ν)
  | [] => [(k, v)]
  | (k', v') :: rest =>
    if k < k' then (k, v) :: (k', v') :: rest
    else if k = k' then (k, v) :: rest
    else (k', v') :: insertEntry k v rest

theorem mem_insertEntry {k : κ} {v : ν} {xs : List (κ × ν)} {e : κ × ν}
    (h : e ∈ insertEntry k v xs) : e = (k, v) ∨ e ∈ xs := by
  induction xs with
  | nil => simpa [insertEntry] using h
  | cons head rest ih =>
    simp only [insertEntry] at h
    split at h
    · simpa using h
    · split at h
      · rcases List.mem_cons.mp h with h | h
        · exact Or.inl h
        · exact Or.inr (List.mem_cons_of_mem _ h)
      · rcases List.mem_cons.mp h with h | h
        · exact Or.inr (by simp [h])
        · exact (ih h).imp_right (List.mem_cons_of_mem _)

theorem insertEntry_sorted (k : κ) (v : ν) {xs : List (κ × ν)}
    (sorted : xs.Pairwise (fun a b => a.1 < b.1)) :
    (insertEntry k v xs).Pairwise (fun a b => a.1 < b.1) := by
  induction xs with
  | nil => simp [insertEntry]
  | cons head rest ih =>
    obtain ⟨k', v'⟩ := head
    obtain ⟨above, tail⟩ := List.pairwise_cons.mp sorted
    simp only [insertEntry]
    split
    · rename_i lt
      refine List.pairwise_cons.mpr ⟨?_, sorted⟩
      intro e member
      rcases List.mem_cons.mp member with rfl | member
      · exact lt
      · exact lt_trans lt (above e member)
    · rename_i notLt
      split
      · rename_i same
        subst same
        exact List.pairwise_cons.mpr ⟨above, tail⟩
      · rename_i different
        refine List.pairwise_cons.mpr ⟨?_, ih tail⟩
        intro e member
        rcases mem_insertEntry member with rfl | member
        · exact lt_of_le_of_ne (not_lt.mp notLt) (Ne.symm different)
        · exact above e member

theorem lookup_insertEntry (k k₀ : κ) (v : ν) (xs : List (κ × ν)) :
    lookup k₀ (insertEntry k v xs) = if k₀ = k then some v else lookup k₀ xs := by
  induction xs with
  | nil => simp [insertEntry, lookup]
  | cons head rest ih =>
    obtain ⟨k', v'⟩ := head
    simp only [insertEntry]
    split
    · simp only [lookup]
    · split
      · rename_i same
        subst same
        simp only [lookup]
        split <;> rfl
      · rename_i different
        simp only [lookup, ih]
        by_cases h : k₀ = k'
        · subst h
          simp [Ne.symm different]
        · simp [h]

theorem lookup_none_of_lt {k : κ} {xs : List (κ × ν)} (above : ∀ e ∈ xs, k < e.1) :
    lookup k xs = none := by
  induction xs with
  | nil => rfl
  | cons head rest ih =>
    obtain ⟨k', v'⟩ := head
    have different : k ≠ k' := ne_of_lt (above (k', v') List.mem_cons_self)
    simp only [lookup, different, if_false]
    exact ih (fun e member => above e (List.mem_cons_of_mem _ member))

theorem lookup_filter_ne (k k₀ : κ) (xs : List (κ × ν)) :
    lookup k₀ (xs.filter (fun e => e.1 ≠ k)) = if k₀ = k then none else lookup k₀ xs := by
  induction xs with
  | nil => simp [lookup]
  | cons head rest ih =>
    obtain ⟨k', v'⟩ := head
    by_cases same : k' = k
    · subst same
      simp only [ne_eq, not_true_eq_false, decide_false, Bool.false_eq_true, not_false_eq_true,
        List.filter_cons_of_neg, lookup]
      rw [ih]
      split <;> simp_all
    · simp only [ne_eq, same, not_false_eq_true, decide_true, List.filter_cons_of_pos, lookup]
      rw [ih]
      by_cases h : k₀ = k'
      · subst h
        simp [same]
      · simp [h]

theorem lookup_eq_some {k : κ} {v : ν} {xs : List (κ × ν)}
    (sorted : xs.Pairwise (fun a b => a.1 < b.1)) : lookup k xs = some v ↔ (k, v) ∈ xs := by
  induction xs with
  | nil => simp [lookup]
  | cons head rest ih =>
    obtain ⟨k', v'⟩ := head
    obtain ⟨above, tail⟩ := List.pairwise_cons.mp sorted
    simp only [lookup, List.mem_cons, Prod.mk.injEq]
    split
    · rename_i same
      subst same
      constructor
      · intro h
        exact Or.inl ⟨rfl, (Option.some.inj h).symm⟩
      · rintro (⟨_, rfl⟩ | member)
        · rfl
        · exact absurd (above _ member) (lt_irrefl _)
    · rename_i different
      rw [ih tail]
      constructor
      · exact Or.inr
      · rintro (⟨same, _⟩ | member)
        · exact absurd same different
        · exact member

/-! ### The map operations -/

def empty : OrdMap κ ν := ⟨[], List.Pairwise.nil⟩

def get (m : OrdMap κ ν) (k : κ) : Option ν := lookup k m.entries

def insert (m : OrdMap κ ν) (k : κ) (v : ν) : OrdMap κ ν :=
  ⟨insertEntry k v m.entries, insertEntry_sorted k v m.sorted⟩

def erase (m : OrdMap κ ν) (k : κ) : OrdMap κ ν :=
  ⟨m.entries.filter (fun e => e.1 ≠ k), m.sorted.filter _⟩

/-- Every entry of `other` inserted into `m`, so `other` wins where both have a key. -/
def extend (m other : OrdMap κ ν) : OrdMap κ ν :=
  other.entries.foldl (fun m e => m.insert e.1 e.2) m

def keys (m : OrdMap κ ν) : List κ := m.entries.map Prod.fst

def contains (m : OrdMap κ ν) (k : κ) : Bool := (m.get k).isSome

/-- Every value replaced by one computed from it and its key. -/
def mapValues {μ : Type} (f : κ → ν → μ) (m : OrdMap κ ν) : OrdMap κ μ :=
  ⟨m.entries.map (fun e => (e.1, f e.1 e.2)), List.pairwise_map.mpr m.sorted⟩

@[simp] theorem get_empty (k : κ) : (empty : OrdMap κ ν).get k = none := rfl

@[simp] theorem entries_empty : (empty : OrdMap κ ν).entries = [] := rfl

theorem get_insert (m : OrdMap κ ν) (k k₀ : κ) (v : ν) :
    (m.insert k v).get k₀ = if k₀ = k then some v else m.get k₀ :=
  lookup_insertEntry k k₀ v m.entries

theorem get_erase (m : OrdMap κ ν) (k k₀ : κ) :
    (m.erase k).get k₀ = if k₀ = k then none else m.get k₀ :=
  lookup_filter_ne k k₀ m.entries

theorem mem_entries {m : OrdMap κ ν} {k : κ} {v : ν} : (k, v) ∈ m.entries ↔ m.get k = some v :=
  (lookup_eq_some m.sorted).symm

theorem mem_keys {m : OrdMap κ ν} {k : κ} : k ∈ m.keys ↔ m.get k ≠ none := by
  simp only [keys, List.mem_map]
  constructor
  · rintro ⟨⟨k', v⟩, member, rfl⟩
    simp [mem_entries.mp member]
  · intro present
    obtain ⟨v, found⟩ := Option.ne_none_iff_exists'.mp present
    exact ⟨(k, v), mem_entries.mpr found, rfl⟩

theorem get_foldl_insert (xs : List (κ × ν)) (sorted : xs.Pairwise (fun a b => a.1 < b.1))
    (m : OrdMap κ ν) (k : κ) :
    (xs.foldl (fun m e => m.insert e.1 e.2) m).get k = (lookup k xs).or (m.get k) := by
  induction xs generalizing m with
  | nil => simp [lookup]
  | cons head rest ih =>
    obtain ⟨k', v'⟩ := head
    obtain ⟨above, tail⟩ := List.pairwise_cons.mp sorted
    rw [List.foldl_cons, ih tail, get_insert]
    simp only [lookup]
    split
    · rename_i same
      subst same
      rw [lookup_none_of_lt above]
      rfl
    · rfl

theorem get_extend (m other : OrdMap κ ν) (k : κ) :
    (m.extend other).get k = (other.get k).or (m.get k) :=
  get_foldl_insert other.entries other.sorted m k

theorem get_mapValues {μ : Type} (f : κ → ν → μ) (m : OrdMap κ ν) (k : κ) :
    (m.mapValues f).get k = (m.get k).map (f k) := by
  have each : ∀ xs : List (κ × ν), lookup k (xs.map (fun e => (e.1, f e.1 e.2))) = (lookup k xs).map (f k) := by
    intro xs
    induction xs with
    | nil => rfl
    | cons entry rest ih =>
      rw [List.map_cons, lookup, lookup, ih]
      by_cases here : k = entry.1
      · rw [if_pos here, if_pos here, ← here]
        rfl
      · rw [if_neg here, if_neg here]
  exact each m.entries

/-- A fold of erasures removes exactly the listed keys. -/
theorem get_foldl_erase (ks : List κ) (m : OrdMap κ ν) (k : κ) :
    (ks.foldl erase m).get k = if k ∈ ks then none else m.get k := by
  induction ks generalizing m with
  | nil => simp
  | cons head rest ih =>
    rw [List.foldl_cons, ih, get_erase]
    by_cases member : k ∈ rest
    · simp [member]
    · by_cases same : k = head <;> simp [member, same]

/-- A map is determined by its lookups. -/
theorem ext_get {m other : OrdMap κ ν} (same : ∀ k, m.get k = other.get k) : m = other := by
  have lists : ∀ xs ys : List (κ × ν), xs.Pairwise (fun a b => a.1 < b.1) →
      ys.Pairwise (fun a b => a.1 < b.1) → (∀ k, lookup k xs = lookup k ys) → xs = ys := by
    intro xs
    induction xs with
    | nil =>
      intro ys _ _ agree
      cases ys with
      | nil => rfl
      | cons y ys => simpa [lookup] using agree y.1
    | cons x xs ih =>
      intro ys sortedX sortedY agree
      cases ys with
      | nil => simpa [lookup] using agree x.1
      | cons y ys =>
        obtain ⟨aboveX, tailX⟩ := List.pairwise_cons.mp sortedX
        obtain ⟨aboveY, tailY⟩ := List.pairwise_cons.mp sortedY
        have memX : x ∈ y :: ys :=
          (lookup_eq_some sortedY).mp ((agree x.1).symm.trans (by simp [lookup]))
        have memY : y ∈ x :: xs :=
          (lookup_eq_some sortedX).mp ((agree y.1).trans (by simp [lookup]))
        have heads : x = y := by
          rcases List.mem_cons.mp memX with same | later
          · exact same
          · rcases List.mem_cons.mp memY with same | later'
            · exact same.symm
            · exact absurd (lt_trans (aboveY x later) (aboveX y later')) (lt_irrefl _)
        subst heads
        congr 1
        refine ih ys tailX tailY (fun k => ?_)
        by_cases head : k = x.1
        · rw [head, lookup_none_of_lt aboveX, lookup_none_of_lt aboveY]
        · simpa [lookup, head] using agree k
  cases m with
  | mk xs sortedX =>
    cases other with
    | mk ys sortedY =>
      simp only [mk.injEq]
      exact lists xs ys sortedX sortedY same

/-! ### Renamed keys -/

variable {μ : Type} [LinearOrder μ]

theorem insertEntry_map {f : κ → μ} (mono : StrictMono f) (k : κ) (v : ν) (xs : List (κ × ν)) :
    insertEntry (f k) v (xs.map (fun e => (f e.1, e.2))) = (insertEntry k v xs).map (fun e => (f e.1, e.2)) := by
  induction xs with
  | nil => rfl
  | cons head rest ih =>
    simp only [List.map_cons, insertEntry, mono.lt_iff_lt, mono.injective.eq_iff, ih]
    split
    · rfl
    · split <;> rfl

theorem lookup_map {f : κ → μ} (mono : StrictMono f) (k : κ) (xs : List (κ × ν)) :
    lookup (f k) (xs.map (fun e => (f e.1, e.2))) = lookup k xs := by
  induction xs with
  | nil => rfl
  | cons head rest ih => simp only [List.map_cons, lookup, mono.injective.eq_iff, ih]

/-- The same entries under other keys, in the same order. -/
def mapKeys (f : κ → μ) (mono : StrictMono f) (m : OrdMap κ ν) : OrdMap μ ν :=
  ⟨m.entries.map (fun e => (f e.1, e.2)), List.pairwise_map.mpr (m.sorted.imp fun lt => mono lt)⟩

theorem get_mapKeys {f : κ → μ} (mono : StrictMono f) (m : OrdMap κ ν) (k : κ) :
    (m.mapKeys f mono).get (f k) = m.get k :=
  lookup_map mono k m.entries

theorem insert_mapKeys {f : κ → μ} (mono : StrictMono f) (m : OrdMap κ ν) (k : κ) (v : ν) :
    (m.mapKeys f mono).insert (f k) v = (m.insert k v).mapKeys f mono := by
  unfold insert mapKeys
  simp only [insertEntry_map mono]

theorem erase_mapKeys {f : κ → μ} (mono : StrictMono f) (m : OrdMap κ ν) (k : κ) :
    (m.mapKeys f mono).erase (f k) = (m.erase k).mapKeys f mono := by
  unfold erase mapKeys
  simp only [List.filter_map, Function.comp_def, ne_eq, mono.injective.eq_iff]

end OrdMap

end GasAnalyzer
