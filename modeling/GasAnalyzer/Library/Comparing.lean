import GasAnalyzer.Library.Outcome

/-!
# Comparing computations

Two runs of one program on different data. They are `Alike` when both answer, and related things, or both fail, with the
same failure. When a run asks others it can be left without an answer, and what it fails with then says nothing about what
it was asked: `kind` sorts the failures, `none` for a missing answer, else what the failure means, and a run is `Below`
another when every upshot it reaches is the other's too. Both are kept by every way of putting computations together;
two parties below one therefore never reach different ones.
-/

namespace GasAnalyzer.Outcome

variable {ε κ α β γ δ : Type}

/-! ### Alike -/

/-- Both answer, and related things, or both fail in the same way. -/
def Alike (R : α → β → Prop) : Except ε α → Except ε β → Prop
  | .ok a, .ok b => R a b
  | .error failure, .error failure' => failure = failure'
  | .ok _, .error _ => False
  | .error _, .ok _ => False

namespace Alike

variable {R : α → β → Prop} {S : γ → δ → Prop} {x : Except ε α} {y : Except ε β}

theorem bind_of {f : α → Except ε γ} {g : β → Except ε δ} (first : Alike R x y)
    (rest : ∀ a b, x = .ok a → R a b → Alike S (f a) (g b)) : Alike S (x >>= f) (y >>= g) := by
  cases x with
  | error failure =>
    cases y with
    | error failure' => exact first
    | ok b => exact first.elim
  | ok a =>
    cases y with
    | error failure => exact first.elim
    | ok b => exact rest a b rfl first

theorem bind {f : α → Except ε γ} {g : β → Except ε δ} (first : Alike R x y) (rest : ∀ a b, R a b → Alike S (f a) (g b)) :
    Alike S (x >>= f) (y >>= g) :=
  first.bind_of fun a b _ related => rest a b related

theorem mapError {ε' : Type} (f : ε → ε') (alike : Alike R x y) : Alike R (x.mapError f) (y.mapError f) := by
  cases x with
  | error failure =>
    cases y with
    | error failure' => exact congrArg f alike
    | ok b => exact alike.elim
  | ok a =>
    cases y with
    | error failure => exact alike.elim
    | ok b => exact alike

theorem eq {x y : Except ε α} (alike : Alike Eq x y) : x = y := by
  cases x with
  | error failure =>
    cases y with
    | error failure' => exact congrArg _ alike
    | ok b => exact alike.elim
  | ok a =>
    cases y with
    | error failure => exact alike.elim
    | ok b => exact congrArg _ alike

end Alike

/-! ### Upshots -/

section

variable {kind : ε → Option κ} {x y z : Except ε α}

/-- What a computation settles, if it got the answers it needed. -/
def upshot (kind : ε → Option κ) : Except ε α → Option (Except κ α)
  | .ok a => some (.ok a)
  | .error failure => (kind failure).map .error

def Below (kind : ε → Option κ) (x y : Except ε α) : Prop := ∀ v, upshot kind x = some v → upshot kind y = some v

/-- Failures that only say that an answer is missing. -/
def Lost (kind : ε → Option κ) (x : Except ε α) : Prop := ∀ failure, x = .error failure → kind failure = none

namespace Below

theorem refl (x : Except ε α) : Below kind x x := fun _ reached => reached

theorem of_eq (same : x = y) : Below kind x y := same ▸ refl x

theorem lost {failure : ε} (missing : kind failure = none) : Below kind (.error failure) y := by
  intro v reached
  simp [upshot, missing] at reached

theorem error {failure failure' : ε} (same : kind failure = kind failure') :
    Below kind (.error failure : Except ε α) (.error failure') := by
  intro v reached
  rwa [upshot, ← same]

theorem bind {f g : α → Except ε β} (first : Below kind x y) (rest : ∀ a, x = .ok a → y = .ok a → Below kind (f a) (g a)) :
    Below kind (x >>= f) (y >>= g) := by
  intro v reached
  cases x with
  | error failure =>
    cases missing : kind failure with
    | none => simp [upshot, missing] at reached
    | some k =>
      -- `x` settled on this failure, so `y` did.
      have settled := first (.error k) (by simp [upshot, missing])
      simp only [error_bind, upshot, missing] at reached
      cases y with
      | error failure' =>
        have same : kind failure' = some k := by simpa [upshot] using settled
        simpa [upshot, same] using reached
      | ok a => simp [upshot] at settled
  | ok a =>
    have settled := first (.ok a) rfl
    cases y with
    | error failure =>
      cases missing : kind failure <;> simp [upshot, missing] at settled
    | ok a' =>
      obtain rfl : a' = a := by simpa [upshot] using settled
      exact rest a' rfl rfl v reached

/-- A step that settles nothing itself. -/
theorem skip {f : α → Except ε β} {y : Except ε β} (missing : Lost kind x) (rest : ∀ a, x = .ok a → Below kind (f a) y) :
    Below kind (x >>= f) y := by
  cases x with
  | error failure => exact lost (missing failure rfl)
  | ok a => exact rest a rfl

theorem mapM {f g : α → Except ε β} (pointwise : ∀ a, Below kind (f a) (g a)) (as : List α) :
    Below kind (as.mapM f) (as.mapM g) := by
  induction as with
  | nil => exact refl _
  | cons a as ih =>
    rw [List.mapM_cons, List.mapM_cons]
    exact (pointwise a).bind fun b _ _ => ih.bind fun bs _ _ => refl _

/-- Two computations below one reach no two upshots. -/
theorem agree {v w : Except κ α} (first : Below kind x z) (second : Below kind y z) (reached : upshot kind x = some v)
    (reached' : upshot kind y = some w) : v = w :=
  Option.some.inj ((first v reached).symm.trans (second w reached'))

end Below

end

theorem mapError_ok {ε' : Type} {f : ε → ε'} {x : Except ε α} {a : α} (answered : x.mapError f = .ok a) : x = .ok a := by
  cases x with
  | error failure => cases answered
  | ok a' => exact congrArg _ (Except.ok.inj answered)

end GasAnalyzer.Outcome
