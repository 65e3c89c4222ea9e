import GasAnalyzer.Native.Indices
import GasAnalyzer.Net.Execution

/-!
# What an execution does to the chain

The meaning of a call tree: every un-errored `SSTORE` and `LOG` of it acts on the chain, and a frame that fails leaves
the chain as it found it. `atStep` is the chain a step finds, `perform` what the call of a step does to any chain it is
made on.
-/

namespace GasAnalyzer

/-- The storage of every contract, and the events emitted so far. -/
structure Chain where
  storage : Address → B256 → B256
  events : List (Address × Event) := []

namespace Chain

def store (a : Address) (slot value : B256) (c : Chain) : Chain :=
  { c with storage := fun a' slot' => if a' = a ∧ slot' = slot then value else c.storage a' slot' }

def emit (a : Address) (e : Event) (c : Chain) : Chain := { c with events := c.events ++ [(a, e)] }

theorem store_storage (a : Address) (slot value : B256) (c : Chain) (a' : Address) (slot' : B256) :
    (c.store a slot value).storage a' slot' = if a' = a ∧ slot' = slot then value else c.storage a' slot' := rfl

theorem ext_at {c c' : Chain} (storage : ∀ a s, c.storage a s = c'.storage a s) (events : c.events = c'.events) :
    c = c' := by
  obtain ⟨held, emitted⟩ := c
  obtain ⟨held', emitted'⟩ := c'
  obtain rfl : held = held' := funext fun a => funext fun s => storage a s
  obtain rfl : emitted = emitted' := events
  rfl

end Chain

/-- What a step of a frame that runs on the storage of `ctx` does. -/
def StructLog.acts (ctx : Option Address) (log : StructLog) (c : Chain) : Chain :=
  match ctx with
  | none => c
  | some a =>
    match log.stored? with
    | some (slot, value) => c.store a slot value
    | none => if log.emits then c.emit a log.event else c

namespace CallTree

/-- The chain after the steps of a frame. -/
def run : Option Address → CallTree → Chain → Chain
  | _, done, c => c
  | ctx, step log rest, c => rest.run ctx (log.acts ctx c)
  | ctx, enter call body rest, c =>
    rest.run ctx (if rest.succeeds then body.run (context deployed ctx call rest) c else c)

/-- What the call of step `j` does to a chain: what its frame does if it succeeds, and nothing otherwise. -/
def perform : Option Address → Nat → CallTree → Nat → Chain → Chain
  | _, _, done, _, c => c
  | ctx, n, step _ rest, j, c => if j ≤ n then c else rest.perform ctx (n + 1) j c
  | ctx, n, enter call body rest, j, c =>
    if j ≤ n then if rest.succeeds then body.run (context deployed ctx call rest) c else c
    else if j < n + 1 + body.size then body.perform (context deployed ctx call rest) (n + 1) j c
    else rest.perform ctx (n + 1 + body.size) j c

/-- The chain that step `j` finds. -/
def atStep : Option Address → Nat → CallTree → Chain → Nat → Chain
  | _, _, done, c, _ => c
  | ctx, n, step log rest, c, j => if j ≤ n then c else rest.atStep ctx (n + 1) (log.acts ctx c) j
  | ctx, n, enter call body rest, c, j =>
    if j ≤ n then c
    else if j < n + 1 + body.size then body.atStep (context deployed ctx call rest) (n + 1) c j
    else rest.atStep ctx (n + 1 + body.size)
      (if rest.succeeds then body.run (context deployed ctx call rest) c else c) j

/-- While a constructor that succeeds runs, no write that stands is to the contract it deploys, its own apart. -/
def Newborn (ctx : Option Address) (n : Nat) (t : CallTree) (ws : List Write) : Prop :=
  ∀ j call body rest c, Opens n t j call body rest → call.op.isCreate = true → rest.succeeds = true →
    deployed rest = some c → ∀ i, j < i → i < j + 1 + body.size → ∀ w ∈ t.standing unborn ctx n ws i, w.account ≠ c

/-- Below a `STATICCALL` nothing is logged. -/
def Hushed : CallTree → Prop
  | done => True
  | step _ rest => rest.Hushed
  | enter call body rest =>
    (call.op = .staticcall → ∀ log ∈ body.flatten, log.emits = false) ∧ body.Hushed ∧ rest.Hushed

end CallTree

namespace Execution

variable (x : Execution)

def start : Chain := ⟨x.before, []⟩

/-- The chain after the call. -/
def finish : Chain := if x.failed then x.start else x.tree.run (some x.consumer) x.start

/-- The chain that step `j` of the call finds. -/
def atStep (j : Nat) : Chain := x.tree.atStep (some x.consumer) 0 x.start j

/-- What the call of step `j` does to a chain. -/
def perform (j : Nat) (c : Chain) : Chain := x.tree.perform (some x.consumer) 0 j c

/-- What the EVM guarantees of the contracts the call deploys. -/
def Newborn : Prop := x.tree.Newborn (some x.consumer) 0 []

end Execution

/-! ### Storage -/

theorem StructLog.writes_of_unstored {log : StructLog} (stores : log.stored? = none) (ctx : Option Address) (n : Nat) :
    log.writes ctx n = [] := by
  unfold writes
  rw [stores]
  cases ctx <;> rfl

theorem StructLog.acts_of_silent {log : StructLog} (ctx : Option Address) (c : Chain) (stores : log.stored? = none)
    (emits : log.emits = false) : log.acts ctx c = c := by
  unfold acts
  rw [stores, emits]
  cases ctx <;> rfl

theorem StructLog.acts_storage (log : StructLog) (ctx : Option Address) (n : Nat) (c : Chain) (a : Address) (s : B256) :
    (log.acts ctx c).storage a s = (wrote (log.writes ctx n) a s).getD (c.storage a s) := by
  unfold acts writes
  cases ctx with
  | none => rfl
  | some account =>
    cases log.stored? with
    | none =>
      dsimp only
      split <;> rfl
    | some e =>
      obtain ⟨slot, value⟩ := e
      dsimp only
      rw [Chain.store_storage, wrote, List.map_singleton, WriteLog.last_singleton]
      by_cases here : a = account ∧ s = slot
      · obtain ⟨rfl, rfl⟩ := here
        rw [if_pos ⟨rfl, rfl⟩]
        show value = ((if (a, s) = (a, s) then some value else none) : Option B256).getD _
        rw [if_pos rfl]
        rfl
      · rw [if_neg here, if_neg]
        · rfl
        · intro same
          obtain ⟨rfl, rfl⟩ := Prod.mk.inj same
          exact here ⟨rfl, rfl⟩

namespace CallTree

/-- A frame leaves in storage the writes it commits. -/
theorem run_storage (t : CallTree) (ctx : Option Address) (n : Nat) (c : Chain) (a : Address) (s : B256) :
    (t.run ctx c).storage a s = (wrote (t.writes deployed ctx n) a s).getD (c.storage a s) := by
  induction t generalizing ctx n c with
  | done => rfl
  | step log rest ih =>
    rw [run, ih ctx (n + 1), log.acts_storage ctx n, writes, wrote_append]
    cases wrote (rest.writes deployed ctx (n + 1)) a s <;> rfl
  | enter call body rest ihBody ihRest =>
    rw [run, ihRest ctx (n + 1 + body.size), writes, wrote_append]
    cases wrote (rest.writes deployed ctx (n + 1 + body.size)) a s with
    | some v => rfl
    | none =>
      rw [Option.getD_none, Option.none_or]
      split
      · exact ihBody _ (n + 1) c
      · rfl

/-- Steps that neither store nor log leave the chain alone. -/
theorem run_silent {t : CallTree} (ctx : Option Address) (c : Chain)
    (stores : ∀ log ∈ t.flatten, log.errored = false → log.op ≠ .sstore)
    (emits : ∀ log ∈ t.flatten, log.emits = false) : t.run ctx c = c := by
  induction t generalizing ctx c with
  | done => rfl
  | step log rest ih =>
    have quiet : log.stored? = none := by
      unfold StructLog.stored?
      rw [if_neg]
      rintro ⟨kind, fine⟩
      exact stores log List.mem_cons_self fine kind
    rw [run, StructLog.acts_of_silent ctx c quiet (emits log List.mem_cons_self)]
    exact ih ctx c (fun l member => stores l (List.mem_cons_of_mem _ member))
      (fun l member => emits l (List.mem_cons_of_mem _ member))
  | enter call body rest ihBody ihRest =>
    have inside : ∀ {l}, l ∈ body.flatten → l ∈ (enter call body rest).flatten := fun member =>
      List.mem_cons_of_mem _ (List.mem_append_left _ member)
    have after : ∀ {l}, l ∈ rest.flatten → l ∈ (enter call body rest).flatten := fun member =>
      List.mem_cons_of_mem _ (List.mem_append_right _ member)
    rw [run, ihBody _ c (fun l member => stores l (inside member)) (fun l member => emits l (inside member)), ite_self]
    exact ihRest ctx c (fun l member => stores l (after member)) (fun l member => emits l (after member))

/-- A call acts on nothing itself. -/
theorem acts_of_opens {log : StructLog} (ctx : Option Address) (c : Chain) (opens : log.op.opensFrame = true) :
    log.acts ctx c = c := by
  apply StructLog.acts_of_silent
  · unfold StructLog.stored?
    rw [if_neg]
    rintro ⟨kind, -⟩
    rw [kind] at opens
    cases opens
  · unfold StructLog.emits
    cases op : log.op <;> simp_all [Opcode.opensFrame, Opcode.isLog]

end CallTree

/-- The storage after a call is what its execution leaves. -/
theorem Execution.finish_storage (x : Execution) : x.finish.storage = x.after := by
  funext a s
  unfold Execution.finish Execution.after Execution.writes
  split
  · rfl
  · exact x.tree.run_storage (some x.consumer) 0 x.start a s

end GasAnalyzer
