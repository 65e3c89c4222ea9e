import Mathlib
import GasAnalyzer.Library.Sums
import GasAnalyzer.Nested.Split

/-!
# What the pass charges a frame

A frame's witness embeds its children's witnesses, so the pass prices a nested frame's bytes again with every frame above
it. The net savings it assigns are those of a tree whose bytes each pay once exactly where no kept frame below the root
has a nested child.
-/

namespace GasAnalyzer

open Outcome

/-! ### One frame -/

/-- A frame's own witness bytes: head, program and proof, without its children's witnesses. -/
def ProgramState.ownBytes (p : ProgramState) : Nat :=
  witnessHeadBytes + (encodeStateUpdatesToAbi ((p.updates.getD []).map Op.update)).length + estimatedProofWords * 32

def ProgramState.computation (p : ProgramState) : UInt64 :=
  satSub (satSub p.nativeGas p.effectGas) p.childCallGas

/-- The frames above a program; the fuel bounds their number. -/
def depthIn (ps : List ProgramState) : Nat → Nat → Nat
  | 0, _ => 0
  | fuel + 1, id =>
    match ps[id]?.bind ProgramState.parent with
    | some parent => depthIn ps fuel parent + 1
    | none => 0

/-- What one byte costs at a depth: as calldata, and again for every level. -/
def bytePrice (cost : NestingCostModel) (depth : Nat) : Nat :=
  cost.witnessByteGas.toNat + depth * cost.witnessByteGasPerLevel.toNat

theorem ownBytes_pos (p : ProgramState) : 0 < p.ownBytes := by
  unfold ProgramState.ownBytes witnessHeadBytes
  omega

theorem depthIn_le (ps : List ProgramState) (fuel id : Nat) : depthIn ps fuel id ≤ fuel := by
  induction fuel generalizing id with
  | zero => exact Nat.le_refl 0
  | succ fuel ih =>
    unfold depthIn
    split
    · exact Nat.succ_le_succ (ih _)
    · exact Nat.zero_le _

theorem depthOf_toNat (ps : List ProgramState) (fuel id : Nat) :
    (depthOf ps fuel id).toNat = depthIn ps fuel id % 2 ^ 64 := by
  induction fuel generalizing id with
  | zero => rfl
  | succ fuel ih =>
    unfold depthOf depthIn
    cases ps[id]?.bind ProgramState.parent with
    | none => rfl
    | some parent =>
      show (depthOf ps fuel parent + 1).toNat = (depthIn ps fuel parent + 1) % 2 ^ 64
      rw [UInt64.toNat_add, ih]
      exact Nat.mod_add_mod _ _ _

theorem depthIn_congr {ps ps' : List ProgramState} (same : ps'.map ProgramState.core = ps.map ProgramState.core)
    (fuel id : Nat) : depthIn ps' fuel id = depthIn ps fuel id := by
  have parents : ∀ id : Nat, ps'[id]?.bind ProgramState.parent = ps[id]?.bind ProgramState.parent := by
    intro id
    have here : (ps'.map ProgramState.core)[id]? = (ps.map ProgramState.core)[id]? := by rw [same]
    rw [List.getElem?_map, List.getElem?_map] at here
    have core : ∀ p : ProgramState, p.parent = p.core.parent := fun _ => rfl
    cases found : ps[id]? with
    | none =>
      rw [found, Option.map_none, Option.map_eq_none_iff] at here
      rw [here]
    | some p =>
      rw [found] at here
      obtain ⟨p', found', same⟩ := Option.map_eq_some_iff.mp here
      rw [found']
      show p'.parent = p.parent
      rw [core, same, ← core]
  induction fuel generalizing id with
  | zero => rfl
  | succ fuel ih =>
    unfold depthIn
    rw [parents id]
    split
    · rw [ih]
    · rfl

/-! ### One step -/

/-- A live program's children are live programs after it. -/
theorem Settled.child {ps : List ProgramState} (settled : Settled ps) {q c : Nat} {p : ProgramState}
    (found : ps[q]? = some p) (alive : p.dropped = false) (member : c ∈ p.children) :
    q < c ∧ ∃ child, ps[c]? = some child ∧ child.parent = some q ∧ child.dropped = false := by
  rw [settled.children q p found alive, List.mem_filter] at member
  obtain ⟨child, foundC, parent, aliveC⟩ := isChild_nodes.mp member.2
  exact ⟨older_of_forest settled.forest c child q foundC parent, child, foundC, parent, aliveC⟩

/-- Pruning a program leaves the live programs after it as they are. -/
theorem pruneProgram_above {ps ps' : List ProgramState} (settled : Settled ps) {id : Nat} {program : ProgramState}
    (found : ps[id]? = some program) (alive : program.dropped = false) (pos : 0 < id)
    (pruned : pruneProgram id program ps = .ok ps') :
    Settled ps' ∧ ps'.map ProgramState.core = ps.map ProgramState.core ∧
      ∀ (c : Nat) (p : ProgramState), id ≤ c → ps'[c]? = some p → p.dropped = false → c ≠ id ∧ ps[c]? = some p := by
  obtain ⟨ps₁, ok₁, settled', -⟩ := pruneProgram_spec settled found alive pos
  obtain rfl := Except.ok.inj (pruned.symm.trans ok₁)
  obtain ⟨q, parent, position, call, before, after, hasParent, older, foundQ, aliveQ, atPosition, fallback, updates,
    length, ok⟩ := pruneProgram_ok settled found alive pos
  have inside : id < ps.length := (List.getElem?_eq_some_iff.mp found).1
  have cut := dropDescendants_cut settled inside
    (edited_modify older ps position (before ++ ⟨.call call, program.step⟩ :: after))
  rw [← Except.ok.inj (pruned.symm.trans ok)] at cut
  refine ⟨settled', cut.core, ?_⟩
  intro c p' from_id found' alive'
  obtain ⟨p, d, found₀, same⟩ := cut.look found'
  obtain ⟨alive₀, other⟩ := cut.before found₀ found' alive'
  have unedited : pruneEdit id q position (before ++ ⟨.call call, program.step⟩ :: after) c p = p := by
    rw [pruneEdit, if_neg (Ne.symm other), if_neg (by omega)]
  rw [unedited] at same
  have flag : d = p.dropped := by
    have marked : p'.dropped = d := by rw [same]; rfl
    rw [← marked, alive', alive₀]
  refine ⟨other, ?_⟩
  rw [found₀, same, flag]
  rfl

namespace Pruning

def start (ps : List ProgramState) : Pruning :=
  ⟨ps, List.replicate ps.length 0, List.replicate ps.length 0⟩

/-- The state in which the pass reaches program `id`. -/
def Before (cost : NestingCostModel) (ps : List ProgramState) (id : Nat) (s : Pruning) : Prop :=
  pruneLoop cost (List.range' (id + 1) (ps.length - (id + 1))).reverse (start ps) = .ok s

/-- The witness bytes of a program's children. -/
def childBytes (s : Pruning) (p : ProgramState) : Nat := (p.children.map fun c => s.witnessBytes.getD c 0).sum

/-- The net savings of a program's children. -/
def childSavings (s : Pruning) (p : ProgramState) : Nat :=
  (p.children.map fun c => (s.netSavings.getD c 0).toNat).sum

/-- No operation saturates or wraps where the pass prices program `id`. -/
structure Unsaturated (cost : NestingCostModel) (s : Pruning) (id : Nat) (p : ProgramState) : Prop where
  witness : p.ownBytes + s.childBytes p < 2 ^ 64
  price : bytePrice cost (depthIn s.programs s.programs.length id) < 2 ^ 64
  overhead : cost.frameOverheadGas.toNat +
    (p.ownBytes + s.childBytes p) * bytePrice cost (depthIn s.programs s.programs.length id) < 2 ^ 64
  benefit : p.computation.toNat + s.childSavings p < 2 ^ 64

/-- A kept program's net savings, as the pass computes them. -/
def Nets (cost : NestingCostModel) (s : Pruning) (id : Nat) (p : ProgramState) (net : UInt64) : Prop :=
  net.toNat + cost.frameOverheadGas.toNat +
      (p.ownBytes + s.childBytes p) * bytePrice cost (depthIn s.programs s.programs.length id) =
    p.computation.toNat + s.childSavings p

/-- Nothing saturates at any program the pass prices. -/
def Exact (cost : NestingCostModel) (ps : List ProgramState) : Prop :=
  ∀ (id : Nat) (s : Pruning) (p : ProgramState), 0 < id → Before cost ps id s → s.programs[id]? = some p →
    p.dropped = false → s.Unsaturated cost id p

instance (cost : NestingCostModel) (s : Pruning) (id : Nat) (p : ProgramState) : Decidable (s.Unsaturated cost id p) :=
  decidable_of_iff _ ⟨fun h => ⟨h.1, h.2.1, h.2.2.1, h.2.2.2⟩, fun h => And.intro h.witness
    (And.intro h.price (And.intro h.overhead h.benefit))⟩

end Pruning

/-- What a program is charged for its witness and what it brings, where nothing saturates. -/
theorem Pruning.Unsaturated.exact {cost : NestingCostModel} {s : Pruning} {id : Nat} {p : ProgramState}
    (exact : s.Unsaturated cost id p) (small : s.programs.length < 2 ^ 63) :
    (satAdd cost.frameOverheadGas (satMul (UInt64.ofNat (p.ownBytes + s.childBytes p))
        (cost.witnessByteGas + depthOf s.programs s.programs.length id * cost.witnessByteGasPerLevel))).toNat =
        cost.frameOverheadGas.toNat +
          (p.ownBytes + s.childBytes p) * bytePrice cost (depthIn s.programs s.programs.length id) ∧
      (satAdd p.computation (p.children.map fun c => s.netSavings.getD c 0).sum).toNat =
        p.computation.toNat + s.childSavings p := by
  obtain ⟨witness, price, overhead, benefit⟩ := exact
  have depth : (depthOf s.programs s.programs.length id).toNat = depthIn s.programs s.programs.length id := by
    have bound := depthIn_le s.programs s.programs.length id
    rw [depthOf_toNat, Nat.mod_eq_of_lt (by omega)]
  have perByte : (cost.witnessByteGas + depthOf s.programs s.programs.length id * cost.witnessByteGasPerLevel).toNat =
      bytePrice cost (depthIn s.programs s.programs.length id) := by
    unfold bytePrice at price ⊢
    rw [UInt64.toNat_add, UInt64.toNat_mul, depth, Nat.add_mod_mod, Nat.mod_eq_of_lt price]
  have savings : (p.children.map fun c => s.netSavings.getD c 0).sum.toNat = s.childSavings p := by
    rw [Sums.toNat_sum, List.map_map]
    exact Nat.mod_eq_of_lt (show s.childSavings p < 2 ^ 64 by omega)
  rw [toNat_satAdd, toNat_satAdd, toNat_satMul, perByte, savings, UInt64.toNat_ofNat', Nat.mod_eq_of_lt witness]
  omega

theorem pruneStep_cases {cost : NestingCostModel} {s s' : Pruning} {id : Nat} (small : s.programs.length < 2 ^ 63)
    (stepped : pruneStep cost id s = .ok s') :
    ∃ p, s.programs[id]? = some p ∧ (p.dropped = true ∧ s' = s ∨
      p.dropped = false ∧ s'.witnessBytes = s.witnessBytes.set id (p.ownBytes + s.childBytes p) ∧
        ((s'.programs = s.programs ∧ ∃ net, s'.netSavings = s.netSavings.set id net ∧
            (s.Unsaturated cost id p → s.Nets cost id p net)) ∨
          (pruneProgram id p s.programs = .ok s'.programs ∧ s'.netSavings = s.netSavings))) := by
  unfold pruneStep at stepped
  obtain ⟨p, found, stepped⟩ := bind_ok stepped
  refine ⟨p, okOr_ok.mp found, ?_⟩
  split at stepped
  · rename_i dropped
    exact Or.inl ⟨dropped, (Except.ok.inj stepped).symm⟩
  · rename_i alive
    refine Or.inr ⟨by simpa using alive, ?_⟩
    dsimp only at stepped
    split at stepped
    · rename_i pays
      obtain rfl := Except.ok.inj stepped
      refine ⟨rfl, Or.inl ⟨rfl, _, rfl, ?_⟩⟩
      intro exact
      obtain ⟨overhead, benefit⟩ := exact.exact small
      have pays' := UInt64.lt_iff_toNat_lt.mp pays
      unfold Pruning.Nets
      rw [UInt64.toNat_sub_of_le _ _ (UInt64.le_of_lt pays)]
      have paid : (satAdd cost.frameOverheadGas (satMul (UInt64.ofNat (p.ownBytes + s.childBytes p))
          (cost.witnessByteGas + depthOf s.programs s.programs.length id * cost.witnessByteGasPerLevel))).toNat <
          (satAdd p.computation (p.children.map fun c => s.netSavings.getD c 0).sum).toNat := UInt64.lt_iff_toNat_lt.mp pays
      show (satAdd p.computation (p.children.map fun c => s.netSavings.getD c 0).sum).toNat -
          (satAdd cost.frameOverheadGas (satMul (UInt64.ofNat (p.ownBytes + s.childBytes p))
            (cost.witnessByteGas + depthOf s.programs s.programs.length id * cost.witnessByteGasPerLevel))).toNat +
          cost.frameOverheadGas.toNat + _ = _
      omega
    · obtain ⟨ps', pruned, stepped⟩ := bind_ok stepped
      obtain rfl := Except.ok.inj stepped
      exact ⟨rfl, Or.inr ⟨pruned, rfl⟩⟩

/-! ### The whole pass -/

namespace Pruning

variable {cost : NestingCostModel} {ps : List ProgramState}

/-- Every live program from `k` on carries its witness bytes and its net savings, and is as the pass found it. -/
structure Priced (cost : NestingCostModel) (ps : List ProgramState) (k : Nat) (s : Pruning) : Prop where
  settled : Settled s.programs
  size : s.programs.length = ps.length
  witnesses : s.witnessBytes.length = ps.length
  savings : s.netSavings.length = ps.length
  paid : ∀ (c : Nat) (p : ProgramState), k ≤ c → s.programs[c]? = some p → p.dropped = false →
    s.witnessBytes.getD c 0 = p.ownBytes + s.childBytes p ∧ s.Nets cost c p (s.netSavings.getD c 0) ∧
      ∃ s₀, Before cost ps c s₀ ∧ s₀.programs[c]? = some p

theorem Before.succ {id : Nat} (inside : id < ps.length) {s' : Pruning} :
    pruneLoop cost (List.range' id (ps.length - id)).reverse (start ps) = .ok s' ↔
      ∃ s, Before cost ps id s ∧ pruneStep cost id s = .ok s' := by
  have snoc : ∀ (ids : List Nat) (s : Pruning),
      pruneLoop cost (ids ++ [id]) s = pruneLoop cost ids s >>= pruneStep cost id := by
    intro ids
    induction ids with
    | nil =>
      intro s
      show (pruneStep cost id s >>= fun s => .ok s) = pruneStep cost id s
      cases pruneStep cost id s <;> rfl
    | cons id' ids ih =>
      intro s
      show (pruneStep cost id' s >>= fun s => pruneLoop cost (ids ++ [id]) s) =
        (pruneStep cost id' s >>= fun s => pruneLoop cost ids s) >>= pruneStep cost id
      cases pruneStep cost id' s with
      | error failure => rfl
      | ok s₁ => exact ih s₁
  have head : List.range' id (ps.length - id) = id :: List.range' (id + 1) (ps.length - (id + 1)) := by
    rw [show ps.length - id = ps.length - (id + 1) + 1 by omega, List.range'_succ]
  rw [head, List.reverse_cons, snoc]
  constructor
  · intro looped
    exact bind_ok looped
  · intro ⟨s, before, stepped⟩
    rw [show pruneLoop cost _ (start ps) = .ok s from before]
    exact stepped

theorem childBytes_set {s : Pruning} {p : ProgramState} {id bytes : Nat} (apart : ∀ c ∈ p.children, c ≠ id)
    {s' : Pruning} (set : s'.witnessBytes = s.witnessBytes.set id bytes) : s'.childBytes p = s.childBytes p := by
  unfold childBytes
  congr 1
  apply List.map_congr_left
  intro c member
  rw [set, List.getD_eq_getElem?_getD, List.getElem?_set_ne (Ne.symm (apart c member)), List.getD_eq_getElem?_getD]

theorem childSavings_set {s : Pruning} {p : ProgramState} {id : Nat} {net : UInt64} (apart : ∀ c ∈ p.children, c ≠ id)
    {s' : Pruning} (set : s'.netSavings = s.netSavings.set id net) : s'.childSavings p = s.childSavings p := by
  unfold childSavings
  congr 1
  apply List.map_congr_left
  intro c member
  rw [set, List.getD_eq_getElem?_getD, List.getElem?_set_ne (Ne.symm (apart c member)), List.getD_eq_getElem?_getD]

theorem Nets.congr {s s' : Pruning} {c : Nat} {p : ProgramState} {net : UInt64} (nets : s.Nets cost c p net)
    (core : s'.programs.map ProgramState.core = s.programs.map ProgramState.core)
    (bytes : s'.childBytes p = s.childBytes p) (savings : s'.childSavings p = s.childSavings p) :
    s'.Nets cost c p net := by
  have size : s'.programs.length = s.programs.length := by simpa using congrArg List.length core
  unfold Nets at nets ⊢
  rw [bytes, savings, size, depthIn_congr core]
  exact nets

/-- A program after `id` is priced as before the step at `id`. -/
theorem Priced.later {s s' : Pruning} {id c : Nat} {p : ProgramState} (priced : Priced cost ps (id + 1) s)
    (after : id < c) (found : s.programs[c]? = some p) (alive : p.dropped = false)
    (core : s'.programs.map ProgramState.core = s.programs.map ProgramState.core) {bytes : Nat}
    (witnesses : s'.witnessBytes = s.witnessBytes.set id bytes)
    (savings : s'.netSavings = s.netSavings ∨ ∃ net, s'.netSavings = s.netSavings.set id net) :
    s'.witnessBytes.getD c 0 = p.ownBytes + s'.childBytes p ∧ s'.Nets cost c p (s'.netSavings.getD c 0) ∧
      ∃ s₀, Before cost ps c s₀ ∧ s₀.programs[c]? = some p := by
  obtain ⟨witness, nets, reached⟩ := priced.paid c p after found alive
  have apart : ∀ c' ∈ p.children, c' ≠ id := by
    intro c' member
    have := (priced.settled.child found alive member).1
    omega
  have bytesSame := childBytes_set apart witnesses
  obtain ⟨savingsSame, netSame⟩ :
      s'.childSavings p = s.childSavings p ∧ s'.netSavings.getD c 0 = s.netSavings.getD c 0 := by
    rcases savings with same | ⟨net, set⟩
    · unfold childSavings
      rw [same]
      exact ⟨rfl, rfl⟩
    · refine ⟨childSavings_set apart set, ?_⟩
      rw [set, List.getD_eq_getElem?_getD, List.getElem?_set_ne (by omega), List.getD_eq_getElem?_getD]
  refine ⟨?_, ?_, reached⟩
  · rw [bytesSame, ← witness, witnesses, List.getD_eq_getElem?_getD, List.getElem?_set_ne (by omega),
      List.getD_eq_getElem?_getD]
  · rw [netSame]
    exact nets.congr core bytesSame savingsSame

theorem Priced.step {s s' : Pruning} {id : Nat} (priced : Priced cost ps (id + 1) s) (pos : 0 < id)
    (inside : id < ps.length) (small : ps.length < 2 ^ 63) (exact : Exact cost ps) (before : Before cost ps id s)
    (stepped : pruneStep cost id s = .ok s') : Priced cost ps id s' := by
  obtain ⟨p, found, step⟩ := pruneStep_cases (by rw [priced.size]; exact small) stepped
  rcases step with ⟨dropped, rfl⟩ | ⟨alive, witnesses, kept | pruned⟩
  · refine { priced with paid := ?_ }
    intro c p' from_id found' alive'
    rcases Nat.eq_or_lt_of_le from_id with rfl | after
    · rw [Option.some.inj (found'.symm.trans found), dropped] at alive'
      cases alive'
    · exact priced.paid c p' after found' alive'
  · obtain ⟨programs, net, savings, nets⟩ := kept
    have core : s'.programs.map ProgramState.core = s.programs.map ProgramState.core := by rw [programs]
    refine ⟨programs ▸ priced.settled, programs ▸ priced.size, ?_, ?_, ?_⟩
    · rw [witnesses, List.length_set]
      exact priced.witnesses
    · rw [savings, List.length_set]
      exact priced.savings
    · intro c p' from_id found' alive'
      rw [programs] at found'
      rcases Nat.eq_or_lt_of_le from_id with rfl | after
      · obtain rfl := Option.some.inj (found'.symm.trans found)
        have apart : ∀ c ∈ p'.children, c ≠ id := by
          intro c member
          have := (priced.settled.child found alive member).1
          omega
        refine ⟨?_, ?_, s, before, found⟩
        · rw [childBytes_set apart witnesses, witnesses, List.getD_eq_getElem?_getD,
            List.getElem?_set_self (by rw [priced.witnesses]; exact inside), Option.getD_some]
        · rw [savings, List.getD_eq_getElem?_getD, List.getElem?_set_self (by rw [priced.savings]; exact inside),
            Option.getD_some]
          exact (nets (exact id s p' pos before found alive)).congr core (childBytes_set apart witnesses)
            (childSavings_set apart savings)
      · exact priced.later after found' alive' core witnesses (Or.inr ⟨net, savings⟩)
  · obtain ⟨pruned, savings⟩ := pruned
    obtain ⟨settled, core, above⟩ := pruneProgram_above priced.settled found alive pos pruned
    refine ⟨settled, ?_, ?_, ?_, ?_⟩
    · rw [← priced.size]
      simpa using congrArg List.length core
    · rw [witnesses, List.length_set]
      exact priced.witnesses
    · rw [savings]
      exact priced.savings
    · intro c p' from_id found' alive'
      obtain ⟨other, found₀⟩ := above c p' from_id found' alive'
      exact priced.later (by omega) found₀ alive' core witnesses (Or.inl savings)

theorem Priced.run (settled : Settled ps) (small : ps.length < 2 ^ 63) (exact : Exact cost ps) {id count : Nat}
    (pos : 0 < id) (total : id + count = ps.length) {s : Pruning}
    (looped : pruneLoop cost (List.range' id (ps.length - id)).reverse (start ps) = .ok s) : Priced cost ps id s := by
  induction count generalizing id s with
  | zero =>
    rw [show ps.length - id = 0 by omega] at looped
    obtain rfl := Except.ok.inj looped
    refine ⟨settled, rfl, List.length_replicate, List.length_replicate, ?_⟩
    intro c p from_id found
    have := (List.getElem?_eq_some_iff.mp found).1
    exact absurd this (by simp only [start]; omega)
  | succ count ih =>
    have inside : id < ps.length := by omega
    obtain ⟨s₀, before, stepped⟩ := (Before.succ inside).mp looped
    exact (ih (Nat.succ_pos id) (by omega) before).step pos inside small exact before stepped

end Pruning

/-! ### Every byte paid once -/

def childrenIn (ps : List ProgramState) (q : Nat) : List Nat := (ps[q]?.map ProgramState.children).getD []

/-- What frame `g` saves when its own bytes are priced at its own depth. -/
def savedAt (cost : NestingCostModel) (ps : List ProgramState) (g : Nat) : Int :=
  match ps[g]? with
  | some p => p.computation.toNat - cost.frameOverheadGas.toNat - p.ownBytes * bytePrice cost (depthIn ps ps.length g)
  | none => 0

/-- The frames kept in `f`'s subtree, each byte paying as calldata once and again for every ancestor. -/
def paidOnce (cost : NestingCostModel) (ps : List ProgramState) (f : Nat) : Int :=
  ((PreOrder.visit (childrenIn ps) ps.length f).map (savedAt cost ps)).sum

namespace Pruning

variable {cost : NestingCostModel} {ps : List ProgramState}

/-- What the pass charges frame `g` for the bytes of its children's witnesses. -/
def repeated (cost : NestingCostModel) (s : Pruning) (g : Nat) : Nat :=
  match s.programs[g]? with
  | some p => s.childBytes p * bytePrice cost (depthIn s.programs s.programs.length g)
  | none => 0

/-- A kept frame's net savings fall short of the bytes paid once by those its subtree pays again. -/
theorem Priced.net {s : Pruning} {k : Nat} (priced : Priced cost ps k s) (fuel : Nat) :
    ∀ (f : Nat) (p : ProgramState), k ≤ f → s.programs.length ≤ f + fuel → s.programs[f]? = some p →
      p.dropped = false → ((s.netSavings.getD f 0).toNat : Int) +
        ((PreOrder.visit (childrenIn s.programs) fuel f).map fun g => (s.repeated cost g : Int)).sum =
        ((PreOrder.visit (childrenIn s.programs) fuel f).map (savedAt cost s.programs)).sum := by
  induction fuel with
  | zero =>
    intro f p _ reach found _
    have := (List.getElem?_eq_some_iff.mp found).1
    omega
  | succ fuel ih =>
    intro f p from_k reach found alive
    obtain ⟨-, nets, -⟩ := priced.paid f p from_k found alive
    have below : ((childrenIn s.programs f).map fun c => ((s.netSavings.getD c 0).toNat : Int)).sum +
        ((childrenIn s.programs f).map fun c =>
          ((PreOrder.visit (childrenIn s.programs) fuel c).map fun g => (s.repeated cost g : Int)).sum).sum =
        ((childrenIn s.programs f).map fun c =>
          ((PreOrder.visit (childrenIn s.programs) fuel c).map (savedAt cost s.programs)).sum).sum := by
      rw [← List.sum_map_add]
      congr 1
      apply List.map_congr_left
      intro c member
      have member : c ∈ p.children := by simpa [childrenIn, found] using member
      obtain ⟨after, child, foundC, -, aliveC⟩ := priced.settled.child found alive member
      exact ih c child (by omega) (by omega) foundC aliveC
    have savings : ((childrenIn s.programs f).map fun c => ((s.netSavings.getD c 0).toNat : Int)).sum =
        (s.childSavings p : Int) := by
      unfold childrenIn childSavings
      rw [found, Nat.cast_list_sum, List.map_map]
      rfl
    rw [PreOrder.sum_visit, PreOrder.sum_visit, ← below, savings]
    unfold Nets at nets
    rw [Nat.add_mul] at nets
    have once : savedAt cost s.programs f = p.computation.toNat - cost.frameOverheadGas.toNat -
        p.ownBytes * bytePrice cost (depthIn s.programs s.programs.length f) := by rw [savedAt, found]
    have again : s.repeated cost f = s.childBytes p * bytePrice cost (depthIn s.programs s.programs.length f) := by
      rw [repeated, found]
    rw [once, again]
    push_cast
    omega

/-- A kept frame below the root pays the bytes of its children's witnesses again, unless it has none. -/
theorem Priced.repeated_zero {s : Pruning} (priced : Priced cost ps 1 s) {f : Nat} {p : ProgramState} (nested : 0 < f)
    (found : s.programs[f]? = some p) (alive : p.dropped = false) :
    s.repeated cost f = 0 ↔ cost.witnessByteGas = 0 ∧ cost.witnessByteGasPerLevel = 0 ∨ p.children = [] := by
  have node : (nodes s.programs)[f]? = some p.node := by rw [getElem?_nodes, found]; rfl
  obtain ⟨-, q, -, parent, -⟩ := priced.settled.forest.child f p.node node nested
  have parent : p.parent = some q := parent
  have inside := (List.getElem?_eq_some_iff.mp found).1
  have deep : 0 < depthIn s.programs s.programs.length f := by
    obtain ⟨fuel, size⟩ := Nat.exists_eq_succ_of_ne_zero (show s.programs.length ≠ 0 by omega)
    rw [size, depthIn, found, Option.bind_some, parent]
    exact Nat.succ_pos _
  have free : bytePrice cost (depthIn s.programs s.programs.length f) = 0 ↔
      cost.witnessByteGas = 0 ∧ cost.witnessByteGasPerLevel = 0 := by
    rw [bytePrice, Nat.add_eq_zero_iff, Nat.mul_eq_zero, or_iff_right (Nat.ne_of_gt deep), ← UInt64.toNat_inj,
      ← UInt64.toNat_inj]
    rfl
  have childless : s.childBytes p = 0 ↔ p.children = [] := by
    constructor
    · intro none
      apply List.eq_nil_iff_forall_not_mem.mpr
      intro c member
      obtain ⟨after, child, foundC, -, aliveC⟩ := priced.settled.child found alive member
      have witness := (priced.paid c child (by omega) foundC aliveC).1
      have zero := List.sum_eq_zero_iff_forall_eq_nat.mp none (s.witnessBytes.getD c 0) (List.mem_map_of_mem member)
      have := ownBytes_pos child
      omega
    · intro none
      rw [childBytes, none]
      rfl
  rw [repeated, found]
  show s.childBytes p * _ = 0 ↔ _
  rw [Nat.mul_eq_zero, childless, free]
  exact or_comm

end Pruning

/-- Where nothing saturates, the pass pays every byte of a kept frame's subtree once if bytes are free, or if the frame
has no nested child left when the pass reaches it, and only then. -/
theorem net_savings_paid_once_iff (cost : NestingCostModel) (ps : List ProgramState) (settled : Settled ps)
    (small : ps.length < 2 ^ 63) (exact : Pruning.Exact cost ps) (s : Pruning)
    (pruned : pruneLoop cost (List.range' 1 (ps.length - 1)).reverse (Pruning.start ps) = .ok s) (f : Nat)
    (p : ProgramState) (nested : 0 < f) (found : s.programs[f]? = some p) (kept : p.dropped = false) :
    ∃ s₀, Pruning.Before cost ps f s₀ ∧ (((s.netSavings.getD f 0).toNat : Int) = paidOnce cost s.programs f ↔
      cost.witnessByteGas = 0 ∧ cost.witnessByteGasPerLevel = 0 ∨ childrenIn s₀.programs f = []) := by
  have total : 1 + (ps.length - 1) = ps.length := by
    have pos := settled.forest.pos
    rw [length_nodes] at pos
    omega
  have priced := Pruning.Priced.run settled small exact Nat.one_pos total pruned
  obtain ⟨-, -, s₀, before, reached⟩ := priced.paid f p nested found kept
  refine ⟨s₀, before, ?_⟩
  have same : childrenIn s₀.programs f = p.children := by
    rw [childrenIn, reached]
    rfl
  have net := priced.net s.programs.length f p nested (by omega) found kept
  have counted : ((PreOrder.visit (childrenIn s.programs) s.programs.length f).map
      fun g => (s.repeated cost g : Int)).sum =
      (((PreOrder.visit (childrenIn s.programs) s.programs.length f).map (s.repeated cost)).sum : Nat) := by
    rw [Nat.cast_list_sum, List.map_map]
    rfl
  obtain ⟨fuel, size⟩ := Nat.exists_eq_succ_of_ne_zero (show s.programs.length ≠ 0 by
    have := (List.getElem?_eq_some_iff.mp found).1
    omega)
  rw [same, paidOnce, ← net, left_eq_add, counted, Int.natCast_eq_zero, ← priced.repeated_zero nested found kept, size,
    PreOrder.sum_visit, Nat.add_eq_zero_iff, and_iff_left_iff_imp]
  -- Without a child, or at no price, nothing below pays again either.
  intro none
  rcases (priced.repeated_zero nested found kept).mp none with ⟨free, freeLevel⟩ | childless
  · have zero : ∀ g, s.repeated cost g = 0 := by
      intro g
      unfold Pruning.repeated bytePrice
      rw [free, freeLevel]
      split <;> simp
    apply List.sum_eq_zero_iff_forall_eq_nat.mpr
    intro total member
    obtain ⟨c, -, rfl⟩ := List.mem_map.mp member
    apply List.sum_eq_zero_iff_forall_eq_nat.mpr
    intro paid member
    obtain ⟨g, -, rfl⟩ := List.mem_map.mp member
    exact zero g
  · have empty : childrenIn s.programs f = [] := by
      rw [childrenIn, found]
      exact childless
    rw [empty]
    rfl

/-! ### On a trace -/

/-- The candidates of a trace that survive the walk, as the pass receives them. -/
def survivors (H : Hashes) (trace : DefaultFrame) (root : Address) (elig : Eligibility) :
    Result (List ProgramState) := do
  let (candidates, rootIndex) ← scanCandidates trace.structLogs
  let w ← walk H elig candidates trace.structLogs 0 (initialWalk root rootIndex)
  let w ← closeRoot trace.structLogs.length w
  .ok (retainChildren (dropDescendantsOfDropped w.programs))

theorem survivors_settled {H : Hashes} {trace : DefaultFrame} {root : Address} {elig : Eligibility}
    {ps : List ProgramState} (survive : survivors H trace root elig = .ok ps) : Settled ps := by
  obtain ⟨⟨candidates, rootIndex⟩, scanned, survive⟩ := bind_ok survive
  obtain ⟨last, walked, survive⟩ := bind_ok survive
  obtain ⟨closed, closes, survive⟩ := bind_ok survive
  obtain rfl := Except.ok.inj survive
  have enters := (scanCandidates_upheld trace.structLogs).of_ok scanned
  have sound := (walk_upheld H elig candidates trace.structLogs enters trace.structLogs 0 _ rfl
    (initialWalk_sound root rootIndex) (fun _ _ waits => by cases waits)).of_ok walked
  exact ((closeRoot_upheld sound _).of_ok closes).settle

/-- Nothing saturates where the pass reaches program `id`. -/
def unsaturatedAt (cost : NestingCostModel) (ps : List ProgramState) (id : Nat) : Bool :=
  (pruneLoop cost (List.range' (id + 1) (ps.length - (id + 1))).reverse (Pruning.start ps)).toOption.all fun s =>
    s.programs[id]?.all fun p => p.dropped || decide (s.Unsaturated cost id p)

theorem exact_of_unsaturatedAt {cost : NestingCostModel} {ps : List ProgramState}
    (each : (List.range ps.length).all (unsaturatedAt cost ps) = true) : Pruning.Exact cost ps := by
  intro id s p _ before found alive
  by_cases inside : id < ps.length
  · have here := List.all_eq_true.mp each id (List.mem_range.mpr inside)
    unfold unsaturatedAt at here
    rw [show pruneLoop cost _ (Pruning.start ps) = .ok s from before] at here
    simpa [Except.toOption, found, alive] using here
  · unfold Pruning.Before at before
    rw [show ps.length - (id + 1) = 0 by omega] at before
    obtain rfl := Except.ok.inj before
    exact absurd (List.getElem?_eq_some_iff.mp found).1 inside

/-- A root that calls `7`, which calls `8`: both are consumers that count, and `8` computes for `gas`. -/
def nestedChainTrace (gas : UInt64) : DefaultFrame where
  structLogs := [
    { op := .call, gas := 2000000, stack := some [0, 0, 0, 0, 0, 7, 0] },
    { op := .sstore, gas := 1900000, depth := 2, stack := some [1, stateTrackerSlot] },
    { op := .call, gas := 1800000, depth := 2, stack := some [0, 0, 0, 0, 0, 8, 0] },
    { op := .sstore, gas := 1700000, depth := 3, stack := some [1, stateTrackerSlot] },
    { op := .other "STOP", gas := 1600000, depth := 3, stack := some [] },
    { op := .other "STOP", gas := 1800000 - gas, depth := 2, stack := some [1] },
    { op := .other "STOP", gas := 100000, stack := some [1] }]
  bounded := by simp

/-- The survivors of `nestedChainTrace`, and what of the pass over them is asked at `7`'s frame. -/
def chainShape (gas : UInt64) (reached : Pruning → Bool) (paid : Pruning → Bool) : Bool :=
  (survivors ⟨fun _ => 0, fun _ => 0⟩ (nestedChainTrace gas) 9 (.consumers fun _ => true)).toOption.any fun ps =>
    decide (ps.length < 2 ^ 63) && (List.range ps.length).all (unsaturatedAt nestingCostModelV1 ps) &&
      (pruneLoop nestingCostModelV1 (List.range' 2 (ps.length - 2)).reverse (Pruning.start ps)).toOption.all reached &&
      (pruneLoop nestingCostModelV1 (List.range' 1 (ps.length - 1)).reverse (Pruning.start ps)).toOption.any fun s =>
        s.programs[1]?.any (fun p => !p.dropped) && paid s

theorem chainShape_run {gas : UInt64} {reached paid : Pruning → Bool} (shape : chainShape gas reached paid = true) :
    ∃ ps s p, survivors ⟨fun _ => 0, fun _ => 0⟩ (nestedChainTrace gas) 9 (.consumers fun _ => true) = .ok ps ∧
      Settled ps ∧ ps.length < 2 ^ 63 ∧ Pruning.Exact nestingCostModelV1 ps ∧
      pruneLoop nestingCostModelV1 (List.range' 1 (ps.length - 1)).reverse (Pruning.start ps) = .ok s ∧
      s.programs[1]? = some p ∧ p.dropped = false ∧ paid s = true ∧
      ∀ s₀, Pruning.Before nestingCostModelV1 ps 1 s₀ → reached s₀ = true := by
  obtain ⟨ps, survive, shape⟩ := Outcome.any_ok shape
  simp only [Bool.and_eq_true, decide_eq_true_eq] at shape
  obtain ⟨⟨⟨small, each⟩, before⟩, shape⟩ := shape
  obtain ⟨s, looped, shape⟩ := Outcome.any_ok shape
  obtain ⟨found, holds⟩ := Bool.and_eq_true_iff.mp shape
  obtain ⟨p, found, alive⟩ := Option.any_eq_true _ _ |>.mp found
  refine ⟨ps, s, p, survive, survivors_settled survive, small, exact_of_unsaturatedAt each, looped, found, ?_, holds, ?_⟩
  · simpa using alive
  · intro s₀ here
    rw [show pruneLoop nestingCostModelV1 (List.range' 2 (ps.length - 2)).reverse (Pruning.start ps) = .ok s₀ from
      here] at before
    exact before

/-- `8` computes little and is pruned, so `7` has no nested child left. -/
theorem net_savings_prunedChain : ∃ ps s, survivors ⟨fun _ => 0, fun _ => 0⟩ (nestedChainTrace 5000) 9
      (.consumers fun _ => true) = .ok ps ∧
    pruneLoop nestingCostModelV1 (List.range' 1 (ps.length - 1)).reverse (Pruning.start ps) = .ok s ∧
    ((s.netSavings.getD 1 0).toNat : Int) = paidOnce nestingCostModelV1 s.programs 1 := by
  have shape : chainShape 5000 (fun s₀ => childrenIn s₀.programs 1 == []) (fun _ => true) = true := by decide +kernel
  obtain ⟨ps, s, p, survive, settled, small, exact', looped, found, kept, -, reached⟩ := chainShape_run shape
  obtain ⟨s₀, before, same⟩ := net_savings_paid_once_iff nestingCostModelV1 ps settled small exact' s looped 1 p
    Nat.one_pos found kept
  exact ⟨ps, s, survive, looped, same.mpr (Or.inr (beq_iff_eq.mp (reached s₀ before)))⟩

/-- `8` stays nested, and `7` pays its witness bytes again. -/
theorem net_savings_keptChain : ∃ ps s p, survivors ⟨fun _ => 0, fun _ => 0⟩ (nestedChainTrace 500000) 9
      (.consumers fun _ => true) = .ok ps ∧
    Settled ps ∧ Pruning.Exact nestingCostModelV1 ps ∧
    pruneLoop nestingCostModelV1 (List.range' 1 (ps.length - 1)).reverse (Pruning.start ps) = .ok s ∧
    s.programs[1]? = some p ∧ p.dropped = false ∧ s.netSavings.getD 1 0 = 1815136 ∧
    paidOnce nestingCostModelV1 s.programs 1 = 1828736 := by
  have shape : chainShape 500000 (fun _ => true) (fun s => s.netSavings.getD 1 0 == 1815136 &&
      paidOnce nestingCostModelV1 s.programs 1 == 1828736) = true := by
    decide +kernel
  obtain ⟨ps, s, p, survive, settled, -, exact', looped, found, kept, paid, -⟩ := chainShape_run shape
  obtain ⟨net, once⟩ := Bool.and_eq_true_iff.mp paid
  exact ⟨ps, s, p, survive, settled, exact', looped, found, kept, beq_iff_eq.mp net, beq_iff_eq.mp once⟩

end GasAnalyzer
