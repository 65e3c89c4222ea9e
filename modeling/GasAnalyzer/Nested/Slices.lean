import GasAnalyzer.Core.Walk

/-!
# State slices in closed form

`flushSlice` compares each slot of the canonical image with a view that it updates as it goes. The
slots are distinct, so it stores exactly the slots the view held at another value before, and the
view ends up holding the whole image.
-/

namespace GasAnalyzer

def storeOp (step : Nat) (entry : B256 × B256) : Op := ⟨.store ⟨entry.1, entry.2⟩, step⟩

/-- The stores a slice emits: every slot of the image the view does not hold at its value. -/
def staleStores (step : Nat) (view image : Slots) : List Op :=
  (image.entries.filter (fun e => view.get e.1 ≠ some e.2)).map (storeOp step)

def WalkFrame.flushed (step : Nat) (image : Slots) (f : WalkFrame) : WalkFrame :=
  { f with
    out := f.out ++ staleStores step f.emittedView image
    emittedView := f.emittedView.extend image }

theorem insert_same {m : Slots} {k v : B256} (held : m.get k = some v) : m.insert k v = m := by
  apply OrdMap.ext_get
  intro key
  rw [OrdMap.get_insert]
  split
  · rename_i same
    rw [same, held]
  · rfl

theorem foldl_flushSlot (step : Nat) {entries : List (B256 × B256)}
    (sorted : entries.Pairwise (fun a b => a.1 < b.1)) (f : WalkFrame) :
    entries.foldl (flushSlot step) f =
      { f with
        out := f.out ++
          (entries.filter (fun e => f.emittedView.get e.1 ≠ some e.2)).map (storeOp step)
        emittedView := entries.foldl (fun m e => m.insert e.1 e.2) f.emittedView } := by
  induction entries generalizing f with
  | nil => simp
  | cons entry rest ih =>
    obtain ⟨above, tail⟩ := List.pairwise_cons.mp sorted
    rw [List.foldl_cons, ih tail, List.foldl_cons]
    by_cases held : f.emittedView.get entry.1 = some entry.2
    · rw [insert_same held]
      simp [flushSlot, held]
    · -- The new entry is not one of the later slots, so they compare with the old view.
      have later : rest.filter (fun e => (f.emittedView.insert entry.1 entry.2).get e.1 ≠ some e.2) =
          rest.filter (fun e => f.emittedView.get e.1 ≠ some e.2) := by
        apply List.filter_congr
        intro e member
        rw [OrdMap.get_insert, if_neg (ne_of_gt (above e member))]
      have stores : flushSlot step f entry =
          { f with
            out := f.out ++ [storeOp step entry]
            emittedView := f.emittedView.insert entry.1 entry.2 } := by
        simp [flushSlot, held, storeOp]
      rw [stores, later, List.filter_cons_of_pos (by simpa using held)]
      simp

theorem flushSlice_eq {step id : Nat} {w : Walk} {p : ProgramState}
    (emits : w.top.program = some id) (found : w.programs[id]? = some p) :
    flushSlice step w =
      .ok { w with top := w.top.flushed step (visibleImage (w.top :: w.below) p.target) } := by
  unfold flushSlice
  simp only [emits, okOr, index, found, Outcome.ok_bind]
  rw [foldl_flushSlot step (OrdMap.sorted _)]
  rfl

/-- Flushing the top frame needs its program. -/
theorem flushSlice_ok {step : Nat} {w w' : Walk} (flushed : flushSlice step w = .ok w') :
    ∃ id p, w.top.program = some id ∧ w.programs[id]? = some p ∧
      w' = { w with top := w.top.flushed step (visibleImage (w.top :: w.below) p.target) } := by
  have answer := flushed
  unfold flushSlice at flushed
  obtain ⟨id, emits, flushed⟩ := Outcome.bind_ok flushed
  obtain ⟨p, found, -⟩ := Outcome.bind_ok flushed
  rw [Outcome.okOr_ok] at emits
  unfold index at found
  rw [Outcome.okOr_ok] at found
  rw [flushSlice_eq emits found] at answer
  exact ⟨id, p, emits, found, (Except.ok.inj answer).symm⟩

/-! ### Journals -/

namespace Journal

/-- The value a journal holds for a slot of an account. -/
def value (j : Journal) (a : Address) (s : B256) : Option B256 := (j.slots a).get s

@[simp] theorem value_empty (a : Address) (s : B256) : value OrdMap.empty a s = none := rfl

theorem slots_insert (j : Journal) (a b : Address) (m : Slots) :
    slots (j.insert a m) b = if b = a then m else slots j b := by
  unfold slots
  rw [OrdMap.get_insert]
  split <;> rfl

theorem value_write (j : Journal) (a b : Address) (s t v : B256) :
    (j.write a s v).value b t = if b = a ∧ t = s then some v else j.value b t := by
  unfold value write
  rw [slots_insert]
  by_cases account : b = a
  · subst account
    by_cases slot : t = s <;> simp [OrdMap.get_insert, slot]
  · simp [account]

theorem value_foldl_extend {xs : List (Address × Slots)} (sorted : xs.Pairwise (fun a b => a.1 < b.1))
    (j : Journal) (a : Address) (s : B256) :
    (xs.foldl (fun j e => j.insert e.1 ((Journal.slots j e.1).extend e.2)) j).value a s =
      ((OrdMap.lookup a xs).bind (fun m => m.get s)).or (j.value a s) := by
  induction xs generalizing j with
  | nil => rfl
  | cons entry rest ih =>
    obtain ⟨above, tail⟩ := List.pairwise_cons.mp sorted
    rw [List.foldl_cons, ih tail]
    by_cases here : a = entry.1
    · subst here
      rw [OrdMap.lookup_none_of_lt above]
      simp [value, slots_insert, OrdMap.get_extend, OrdMap.lookup]
    · simp [value, slots_insert, here, OrdMap.lookup]

theorem value_merge (j other : Journal) (a : Address) (s : B256) :
    (j.merge other).value a s = (other.value a s).or (j.value a s) := by
  unfold merge
  rw [value_foldl_extend other.sorted]
  congr 1
  unfold value slots OrdMap.get
  cases OrdMap.lookup a other.entries <;> rfl

end Journal

/-! ### Images -/

theorem visibleImage_cons (f : WalkFrame) (rest : List WalkFrame) (target : Address) :
    visibleImage (f :: rest) target = (visibleImage rest target).extend (f.journal.slots target) := rfl

theorem get_visibleImage_cons (f : WalkFrame) (rest : List WalkFrame) (target : Address)
    (slot : B256) :
    (visibleImage (f :: rest) target).get slot =
      ((f.journal.slots target).get slot).or ((visibleImage rest target).get slot) := by
  rw [visibleImage_cons, OrdMap.get_extend]

/-! ### Forgetting -/

/-- Everything of a frame but its view. -/
theorem forgetSlots_eq (programs : List ProgramState) (journal : Journal) (f : WalkFrame) :
    forgetSlots programs journal f =
      { f with emittedView := (forgetSlots programs journal f).emittedView } := by
  unfold forgetSlots
  split
  · rfl
  · split <;> rfl

/-- Forgetting removes the slots of the frame's target that the journal holds, and nothing else. -/
theorem get_forgetSlots {programs : List ProgramState} {journal : Journal} {f : WalkFrame} {id : Nat}
    {p : ProgramState} (emits : f.program = some id) (found : programs[id]? = some p) (slot : B256) :
    (forgetSlots programs journal f).emittedView.get slot =
      if ((journal.slots p.target).get slot).isSome then none else f.emittedView.get slot := by
  have target : f.program.bind (fun i => programs[i]?) = some p := by simp [emits, found]
  unfold forgetSlots
  rw [target]
  simp only [Journal.slots]
  split
  · rename_i held
    simp [held]
  · rename_i slots held
    rw [OrdMap.get_foldl_erase]
    simp [held, OrdMap.mem_keys, Option.isSome_iff_ne_none]

end GasAnalyzer
