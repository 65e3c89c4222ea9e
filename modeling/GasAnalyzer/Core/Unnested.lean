import Mathlib
import GasAnalyzer.Core.FrameTree

/-!
# Why an owned contract got no frame

A hypothetical split is told which contracts belong together; its report says of each that got no frame of its own
whether a frame calls it.
-/

namespace GasAnalyzer

inductive NotNestedReason where
  /-- A frame calls it, but the split kept that call a `CALL`. -/
  | keptAsCall
  /-- No frame calls it: it ran inside a native `CALL`, or not at all. -/
  | notReached
  deriving DecidableEq

def NotNestedReason.describe : NotNestedReason → String
  | keptAsCall => "called directly, but cheaper as a plain CALL (or it reverted, or uses transient " ++
      "storage or selfdestruct)"
  | notReached => "not called from a nested frame: its caller is outside the owned set or was " ++
      "itself kept as a CALL, so it ran inside that call"

def StateUpdate.callTarget : StateUpdate → Option Address
  | call c => some c.target
  | _ => none

def unnestedOwned (owned : Finset Address) (frames : List FrameProgram) : List (Address × NotNestedReason) :=
  let framed := frames.map FrameProgram.target
  let called := (frames.flatMap FrameProgram.updates).filterMap StateUpdate.callTarget
  ((owned.sort (· ≤ ·)).filter (fun a => a ∉ framed)).map fun a =>
    (a, if a ∈ called then .keptAsCall else .notReached)

end GasAnalyzer
