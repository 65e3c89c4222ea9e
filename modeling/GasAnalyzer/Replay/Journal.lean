import GasAnalyzer.Native.Views
import GasAnalyzer.Replay.Chain

/-!
# What the journal knows of the chain

The walk journals no write of a constructor, whose contract it cannot tell. No other write to that contract stands while
the constructor runs, so wherever the journal holds a slot, the chain holds its value.
-/

namespace GasAnalyzer

namespace CallTree

variable {ctx ctx' : Option Address} {n : Nat} {log call : StructLog} {t body rest : CallTree} {ws : List Write}

/-! ### Parts of a tree -/

theorem Newborn.later (newborn : (step log rest).Newborn ctx n ws) :
    rest.Newborn ctx (n + 1) (ws ++ log.writes ctx n) := by
  intro j call body after c opens create success isNew i low high
  have := opens.bounds
  have stands := newborn j call body after c (.later opens) create success isNew i low high
  rwa [standing, if_neg (by omega)] at stands

theorem Newborn.inside (newborn : (enter call body rest).Newborn ctx n ws) :
    body.Newborn (context unborn ctx call rest) (n + 1) ws := by
  intro j inner deep after c opens create success isNew i low high
  have := opens.bounds
  have := opens.body_bounds
  have stands := newborn j inner deep after c (.inside opens) create success isNew i low high
  rwa [standing, if_neg (by omega), if_pos (by omega)] at stands

theorem Newborn.after (newborn : (enter call body rest).Newborn ctx n ws) :
    rest.Newborn ctx (n + 1 + body.size)
      (ws ++ if rest.succeeds then body.writes unborn (context unborn ctx call rest) (n + 1) else []) := by
  intro j inner deep after c opens create success isNew i low high
  have := opens.bounds
  have stands := newborn j inner deep after c (.after opens) create success isNew i low high
  rwa [standing, if_neg (by omega), if_neg (by omega)] at stands

/-- A frame that runs on `ctx'`: the walk knows it does, or takes it for a constructor, whose contract nothing that stands
is written to. -/
def Hosts (ctx ctx' : Option Address) (n : Nat) (t : CallTree) (ws : List Write) : Prop :=
  ctx = ctx' ∨ ctx = none ∧ ∀ c, ctx' = some c → ∀ i, n ≤ i → i < n + t.size →
    ∀ w ∈ t.standing unborn ctx n ws i, w.account ≠ c

theorem Hosts.later (hosts : (step log rest).Hosts ctx ctx' n ws) :
    rest.Hosts ctx ctx' (n + 1) (ws ++ log.writes ctx n) := by
  refine hosts.imp id (And.imp id ?_)
  intro apart c isHost i low high
  have stands := apart c isHost i (by omega) (by rw [size]; omega)
  rwa [standing, if_neg (by omega)] at stands

theorem Hosts.after (hosts : (enter call body rest).Hosts ctx ctx' n ws) :
    rest.Hosts ctx ctx' (n + 1 + body.size)
      (ws ++ if rest.succeeds then body.writes unborn (context unborn ctx call rest) (n + 1) else []) := by
  refine hosts.imp id (And.imp id ?_)
  intro apart c isHost i low high
  have stands := apart c isHost i (by omega) (by rw [size]; omega)
  rwa [standing, if_neg (by omega), if_neg (by omega)] at stands

theorem Hosts.inside (hosts : (enter call body rest).Hosts ctx ctx' n ws)
    (newborn : (enter call body rest).Newborn ctx n ws) (success : call.op.isCreate = true → rest.succeeds = true) :
    body.Hosts (context unborn ctx call rest) (context deployed ctx' call rest) (n + 1) ws := by
  by_cases delegates : call.op.isDelegate = true
  · have same : ∀ born ctx, context born ctx call rest = ctx := by
      intro born ctx
      rw [context, if_pos delegates]
    rw [same, same]
    refine hosts.imp id (And.imp id ?_)
    intro apart c isHost i low high
    have stands := apart c isHost i (by omega) (by rw [size]; omega)
    rwa [standing, if_neg (by omega), if_pos (by omega), same] at stands
  · have plain : ∀ born ctx, context born ctx call rest = if call.op.isCreate then born rest else call.callee := by
      intro born ctx
      rw [context, if_neg delegates]
    by_cases create : call.op.isCreate = true
    · right
      refine ⟨by rw [plain, if_pos create]; rfl, ?_⟩
      intro c isHost i low high
      rw [plain, if_pos create] at isHost
      have stands := newborn n call body rest c .here create (success create) isHost i (by omega) (by omega)
      rwa [standing, if_neg (by omega), if_pos (by omega)] at stands
    · left
      rw [plain, plain, if_neg create, if_neg create]

/-! ### The chain where the journal holds a slot -/

theorem Hosts.silent (hosts : t.Hosts ctx ctx' n ws) (size : 0 < t.size) (log : StructLog) {a : Address} {s : B256}
    (held : (wrote ws a s).isSome = true) : wrote (log.writes ctx' n) a s = wrote (log.writes ctx n) a s := by
  rcases hosts with rfl | ⟨rfl, apart⟩
  · rfl
  · show _ = none
    rw [← Option.not_isSome_iff_eq_none, wrote_isSome_iff]
    rintro ⟨w, member, rfl, -⟩
    obtain ⟨w', stands, same, -⟩ := (wrote_isSome_iff _ _ _).mp held
    have host := (StructLog.mem_writes.mp member).2.1
    refine apart w.account host n (Nat.le_refl n) (by omega) w' ?_ same
    rwa [standing_first]

/-- Where the journal holds a slot after a step, the chain holds what the step journaled for it, or else what it held
before. -/
theorem Hosts.acts_settled (hosts : (step log rest).Hosts ctx ctx' n ws) (c : Chain) {a : Address} {s : B256}
    (held : (wrote (ws ++ log.writes ctx n) a s).isSome = true) :
    (log.acts ctx' c).storage a s = (wrote (log.writes ctx n) a s).getD (c.storage a s) := by
  rw [log.acts_storage ctx' n]
  rw [wrote_append] at held
  cases here : wrote (log.writes ctx n) a s with
  | some v =>
    rcases hosts with rfl | ⟨rfl, -⟩
    · rw [here]
    · cases here
  | none =>
    rw [here, Option.none_or] at held
    rw [hosts.silent (by simp [size]) log held, here]

/-- Where the journal holds a slot once `t` has run, the chain holds what `t` journaled for it, or else what it held
before. -/
theorem run_settled (t : CallTree) {ctx ctx' : Option Address} {n : Nat} {ws : List Write} (c : Chain)
    (newborn : t.Newborn ctx n ws) (hosts : t.Hosts ctx ctx' n ws) {a : Address} {s : B256}
    (held : (wrote (ws ++ t.writes unborn ctx n) a s).isSome = true) :
    (t.run ctx' c).storage a s = (wrote (t.writes unborn ctx n) a s).getD (c.storage a s) := by
  induction t generalizing ctx ctx' n ws c with
  | done => rfl
  | step log rest ih =>
    rw [writes, ← List.append_assoc] at held
    rw [run, ih _ newborn.later hosts.later held, writes, wrote_append]
    cases last : wrote (rest.writes unborn ctx (n + 1)) a s with
    | some v => rfl
    | none =>
      rw [wrote_append, last, Option.none_or] at held
      rw [Option.getD_none, Option.none_or]
      exact hosts.acts_settled c held
  | enter call body rest ihBody ihRest =>
    rw [writes, ← List.append_assoc] at held
    rw [run, ihRest _ newborn.after hosts.after held, writes, wrote_append]
    cases last : wrote (rest.writes unborn ctx (n + 1 + body.size)) a s with
    | some v => rfl
    | none =>
      rw [wrote_append, last, Option.none_or] at held
      rw [Option.getD_none, Option.none_or]
      by_cases success : rest.succeeds = true
      · rw [if_pos success] at held ⊢
        rw [if_pos success]
        exact ihBody c newborn.inside (hosts.inside newborn (fun _ => success)) held
      · rw [if_neg success, if_neg success]
        rfl

/-- The chain holds the value of every write that stands. -/
def Reflected (ws : List Write) (c : Chain) : Prop := ∀ a s v, wrote ws a s = some v → c.storage a s = v

theorem Reflected.run {c : Chain} (reflected : Reflected ws c) (newborn : t.Newborn ctx n ws) (hosts : t.Hosts ctx ctx' n ws) :
    Reflected (ws ++ t.writes unborn ctx n) (t.run ctx' c) := by
  intro a s v held
  rw [t.run_settled c newborn hosts (by rw [held]; rfl)]
  rw [wrote_append] at held
  cases own : wrote (t.writes unborn ctx n) a s with
  | some u =>
    rw [own] at held
    exact Option.some.inj held
  | none =>
    rw [own, Option.none_or] at held
    exact reflected a s v held

end CallTree

end GasAnalyzer
