import GasAnalyzer.Core.FrameTree
import GasAnalyzer.Core.Prestate

/-!
# Seeded storage

A program is priced against an empty state. The slots it stores to are seeded with the values they had before the
transaction, told from its prestate diff.
-/

namespace GasAnalyzer

def noteStore (last : Slots) : StateUpdate → Slots
  | .store s => last.insert s.slot s.value
  | _ => last

/-- The value before the transaction of each slot `updates` stores to in `account`. A slot in neither half of the diff
is taken to have ended where it started, at the value last stored to it. -/
def originalStorage (diff : DiffMode) (account : Address) (updates : List StateUpdate) : Slots :=
  let pre := (diff.pre.get account).map AccountState.storage
  let post := (diff.post.get account).map AccountState.storage
  let last := updates.foldl noteStore OrdMap.empty
  last.mapValues fun slot last =>
    match pre.bind (fun p => p.get slot) with
    | some value => value
    | none => if post.any (fun p => p.contains slot) then 0 else last

/-- `visit` of `return_order`: it indexes past the frames, or never ends, on a list that is no tree. -/
def returnVisit (frames : List FrameProgram) : Nat → Nat → List Nat → Option (List Nat)
  | 0, _, _ => none
  | fuel + 1, id, order => do
    let frame ← frames[id]?
    let order ← frame.children.foldlM (fun order child => returnVisit frames fuel child order) order
    some (order ++ [id])

/-- Frame ids in the order the frames return: each one after its children, siblings in call order. -/
def returnOrder (frames : List FrameProgram) : Option (List Nat) :=
  if frames.isEmpty then some [] else returnVisit frames frames.length 0 []

def extendTarget (frames : List FrameProgram) (byTarget : OrdMap Address (List StateUpdate)) (id : Nat) :
    Option (OrdMap Address (List StateUpdate)) := do
  let frame ← frames[id]?
  some (byTarget.insert frame.target ((byTarget.get frame.target).getD [] ++ frame.updates))

def frameTreeSeeds (diff : Option DiffMode) (frames : List FrameProgram) : Option (OrdMap Address Slots) :=
  match diff with
  | none => some OrdMap.empty
  | some diff => do
    let order ← returnOrder frames
    let byTarget ← order.foldlM (extendTarget frames) OrdMap.empty
    some (byTarget.mapValues (originalStorage diff))

end GasAnalyzer
