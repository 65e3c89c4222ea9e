import GasAnalyzer.Library.WriteLog
import GasAnalyzer.Native.Walked
import GasAnalyzer.Native.Closure

/-!
# The writes a call commits

Every un-errored `SSTORE` of a call tree writes the storage its frame runs on, and the writes of a frame that fails
are undone. The walk's journal holds, for every slot, the last write the frame committed.
-/

namespace GasAnalyzer

structure Write where
  step : Nat
  account : Address
  slot : B256
  value : B256
  deriving DecidableEq

/-- A write as an entry of a log over slots of accounts. -/
def Write.entry (w : Write) : (Address × B256) × B256 := ((w.account, w.slot), w.value)

/-- The slot and value of an un-errored `SSTORE`. -/
def StructLog.stored? (log : StructLog) : Option (B256 × B256) :=
  if log.op = .sstore ∧ log.errored = false then
    (log.top 0).bind fun slot => (log.top 1).map fun value => (slot, value)
  else none

/-- What a step in the storage context `ctx` writes. -/
def StructLog.writes (ctx : Option Address) (n : Nat) (log : StructLog) : List Write :=
  match ctx, log.stored? with
  | some account, some (slot, value) => [⟨n, account, slot, value⟩]
  | _, _ => []

namespace CallTree

section

variable (born : CallTree → Option Address)

/-- The storage context of the frame that `call` opens; `born rest` is the contract a constructor runs for, told from
what its creator resumes with. -/
def context (ctx : Option Address) (call : StructLog) (rest : CallTree) : Option Address :=
  if call.op.isDelegate then ctx else if call.op.isCreate then born rest else call.callee

/-- The writes of `t`, run in the context `ctx`, that no failing frame undoes. -/
def writes : Option Address → Nat → CallTree → List Write
  | _, _, done => []
  | ctx, n, step log rest => log.writes ctx n ++ rest.writes ctx (n + 1)
  | ctx, n, enter call body rest =>
    (if rest.succeeds then body.writes (context born ctx call rest) (n + 1) else []) ++
      rest.writes ctx (n + 1 + body.size)

end

/-- The analyzer tells no constructor's contract. -/
def unborn (_ : CallTree) : Option Address := none

/-- A creator finds the contract it deployed on top of its stack. -/
def deployed (rest : CallTree) : Option Address := rest.outcome.map Address.fromWord

end CallTree

/-- The value `ws` leaves in a slot. -/
def wrote (ws : List Write) (account : Address) (slot : B256) : Option B256 :=
  WriteLog.last (account, slot) (ws.map Write.entry)

@[simp] theorem wrote_nil (account : Address) (slot : B256) : wrote [] account slot = none := rfl

theorem wrote_append (xs ys : List Write) (account : Address) (slot : B256) :
    wrote (xs ++ ys) account slot = (wrote ys account slot).or (wrote xs account slot) := by
  unfold wrote
  rw [List.map_append, WriteLog.last_append]

theorem wrote_isSome_iff (ws : List Write) (account : Address) (slot : B256) :
    (wrote ws account slot).isSome = true ↔ ∃ w ∈ ws, w.account = account ∧ w.slot = slot := by
  unfold wrote
  rw [WriteLog.last_isSome_iff]
  constructor
  · rintro ⟨e, member, key⟩
    obtain ⟨w, inside, rfl⟩ := List.mem_map.mp member
    exact ⟨w, inside, Prod.mk.inj key⟩
  · rintro ⟨w, member, rfl, rfl⟩
    exact ⟨w.entry, List.mem_map.mpr ⟨w, member, rfl⟩, rfl⟩

/-! ### The journal -/

variable {H : Hashes} {elig : Eligibility} {candidates : OrdMap Nat Candidate} {n : Nat} {log : StructLog}
variable {w w' : Walk}

/-- Executing a step journals what it writes. -/
theorem Executed.journal (executed : Executed H elig candidates n log w w') (a : Address) (s : B256) :
    w'.top.journal.value a s = (wrote (log.writes w.top.storageCtx n) a s).or (w.top.journal.value a s) := by
  have unwritten : log.stored? = none → wrote (log.writes w.top.storageCtx n) a s = none := by
    intro none
    unfold StructLog.writes
    rw [none]
    cases w.top.storageCtx <;> rfl
  have other : log.op ≠ .sstore ∨ log.errored = true → log.stored? = none := by
    intro why
    unfold StructLog.stored?
    rw [if_neg]
    rintro ⟨kind, fine⟩
    rcases why with notStore | errored
    · exact notStore kind
    · rw [fine] at errored
      cases errored
  cases executed with
  | quiet silent =>
    rw [unwritten (other ?_), Option.none_or]
    unfold StructLog.silent at silent
    rcases Bool.or_eq_true_iff.mp silent with errored | rest
    · exact Or.inr errored
    · left
      intro kind
      rw [kind] at rest
      cases rest
  | unowned _ _ context =>
    unfold StructLog.writes
    rw [context]
    rfl
  | @stored ctx slot value kind fine context first second =>
    have writes : log.writes w.top.storageCtx n = [⟨n, ctx, slot, value⟩] := by
      unfold StructLog.writes StructLog.stored?
      rw [context, if_pos ⟨kind, fine⟩, first, second]
      rfl
    rw [Walk.stored_top, writes]
    show (w.top.journal.write ctx slot value).value a s = _
    rw [Journal.value_write]
    unfold wrote
    rw [List.map_singleton, WriteLog.last_singleton]
    by_cases here : a = ctx ∧ s = slot
    · obtain ⟨rfl, rfl⟩ := here
      rw [if_pos ⟨rfl, rfl⟩]
      unfold Write.entry
      rw [if_pos rfl, Option.some_or]
    · rw [if_neg here, if_neg, Option.none_or]
      intro same
      obtain ⟨rfl, rfl⟩ := Prod.mk.inj same
      exact here ⟨rfl, rfl⟩
  | logged kind =>
    rw [unwritten (other (Or.inl (by rintro isStore; rw [isStore] at kind; cases kind))), Option.none_or]
    rfl
  | delegated kind | creates kind =>
    rw [unwritten (other (Or.inl (by rintro isStore; rw [isStore] at kind; cases kind))), Option.none_or]
  | deployed kind =>
    rw [unwritten (other (Or.inl (by rintro isStore; rw [isStore] at kind; cases kind))), Option.none_or]
    rfl
  | observed kind | called kind =>
    rw [unwritten (other (Or.inl (by rw [kind]; nofun))), Option.none_or]
  | emitted kind | opened kind =>
    rw [unwritten (other (Or.inl (by rw [kind]; nofun))), Option.none_or]
    rfl

/-- The frame a step opens runs in the context the tree gives it. -/
theorem Executed.context (executed : Executed H elig candidates n log w w') (free : w.pending = none)
    {p : PendingFrame} (waits : w'.pending = some p) (rest : CallTree) :
    p.storageCtx = CallTree.context CallTree.unborn w.top.storageCtx log rest := by
  cases executed with
  | quiet | unowned =>
    rw [free] at waits
    cases waits
  | stored =>
    rw [Walk.stored_pending, free] at waits
    cases waits
  | logged =>
    change w.pending = some p at waits
    rw [free] at waits
    cases waits
  | delegated kind =>
    cases waits
    unfold CallTree.context
    rw [if_pos kind]
  | observed kind | called kind | emitted kind | opened kind =>
    cases waits
    unfold CallTree.context
    rw [kind]
    rfl
  | creates kind | deployed kind =>
    cases waits
    have plain : log.op.isDelegate = false := by
      cases op : log.op <;> simp_all [Opcode.isCreate, Opcode.isDelegate]
    unfold CallTree.context
    rw [plain, if_neg Bool.false_ne_true, if_pos kind]
    rfl

/-- What a returning frame leaves in its caller's journal. -/
theorem Returned.journal {flag : U256} {f g g' : WalkFrame} (returned : Returned flag f g g') (a : Address) (s : B256) :
    g'.journal.value a s =
      (if flag ≠ 0 then f.journal.value a s else none).or (g.journal.value a s) := by
  cases returned with
  | absorbed kept success _ | merged kept success _ =>
    rw [if_pos success, ← kept.journal]
    exact Journal.value_merge _ _ a s
  | discarded kept failure _ =>
    rw [if_neg (not_not_intro failure), Option.none_or, kept.journal]
  | retracted kept failure _ _ =>
    rw [if_neg (not_not_intro failure), Option.none_or]
    show (_ : WalkFrame).journal.value a s = _
    rw [kept.journal]

/-- Running a tree journals the writes it commits. -/
theorem Walked.journal {t : CallTree} (walked : Walked H elig candidates n t w w') (free : w.pending = none)
    (a : Address) (s : B256) :
    w'.top.journal.value a s =
      (wrote (t.writes CallTree.unborn w.top.storageCtx n) a s).or (w.top.journal.value a s) := by
  induction walked with
  | done => rfl
  | last executed _ =>
    rw [CallTree.writes, CallTree.writes, List.append_nil]
    exact (exec_executed executed).journal a s
  | step executed head level entered tail ih =>
    have inline := frames_inline free executed level entered
    have step := (exec_executed executed).journal a s
    rw [ih inline.free, inline.top.storageCtx, CallTree.writes, wrote_append, Option.or_assoc, ← step]
    congr 1
    rw [(entered_kept free (exec_executed executed) level entered).1.journal]
  | @enter n call first next body rest p w w₁ w₂ w₃ w' executed waits head inner resumes popped tail ihInner ihTail =>
    have step := exec_executed executed
    obtain ⟨below, place⟩ := step.place
    have ran := inner.frames rfl
    obtain ⟨g, others, flag, flagged, caller, -, pop⟩ := popped_of_frames ran popped
    have free₃ : w₃.pending = none := pop.pending.trans ran.free
    have context₃ : w₃.top.storageCtx = w.top.storageCtx := by
      rw [pop.returned.samePlace.storageCtx, caller.storageCtx, place.storageCtx]
    have success : rest.succeeds = decide (flag ≠ 0) := CallTree.succeeds_of_flag resumes flagged
    have body' := ihInner rfl
    have quiet : call.stored? = none := by
      unfold StructLog.stored?
      rw [if_neg]
      rintro ⟨kind, -⟩
      have opens := (step.pending free).mp (by rw [waits]; rfl)
      rw [kind] at opens
      cases opens.2
    have own : w₁.top.journal.value a s = w.top.journal.value a s := by
      rw [step.journal a s]
      unfold StructLog.writes
      rw [quiet]
      cases w.top.storageCtx <;> rfl
    rw [ihTail free₃, context₃, CallTree.writes, wrote_append, Option.or_assoc, pop.returned.journal, caller.journal, own]
    congr 2
    rw [success]
    by_cases fine : flag ≠ 0
    · rw [if_pos fine, if_pos (decide_eq_true fine), body']
      show (wrote (body.writes _ p.storageCtx _) a s).or none = _
      rw [Option.or_none, step.context free waits rest]
    · rw [if_neg fine, if_neg (by simpa using fine)]
      rfl

end GasAnalyzer
