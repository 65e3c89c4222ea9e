import Mathlib

/-!
# Fallible computations

Two ways to reason about an `Except` computation. `bind_ok` takes one that answered apart into its
steps, `bind_error` one that failed. `Sat` bounds both outcomes at once: an answer meets the postcondition and a failure is one of
the allowed ones; its rules follow the shape of the program.
-/

namespace GasAnalyzer

variable {ε α β : Type}

/-- `Option::ok_or_else` -/
def okOr (failure : ε) : Option α → Except ε α
  | some a => .ok a
  | none => .error failure

namespace Outcome

theorem bind_ok {x : Except ε α} {f : α → Except ε β} {b : β} (h : x >>= f = .ok b) :
    ∃ a, x = .ok a ∧ f a = .ok b := by
  cases x with
  | error failure => cases h
  | ok a => exact ⟨a, rfl, h⟩

theorem bind_error {x : Except ε α} {f : α → Except ε β} {failure : ε} (h : x >>= f = .error failure) :
    x = .error failure ∨ ∃ a, x = .ok a ∧ f a = .error failure := by
  cases x with
  | error failure' => exact Or.inl (congrArg _ (Except.error.inj h))
  | ok a => exact Or.inr ⟨a, rfl, h⟩

theorem isSome_ok {x : Except ε α} (h : x.toOption.isSome = true) : ∃ a, x = .ok a := by
  cases x with
  | error failure => cases h
  | ok a => exact ⟨a, rfl⟩

theorem any_ok {x : Except ε α} {p : α → Bool} (h : x.toOption.any p = true) : ∃ a, x = .ok a ∧ p a = true := by
  cases x with
  | error failure => cases h
  | ok a => exact ⟨a, rfl, h⟩

@[simp] theorem ok_bind (a : α) (f : α → Except ε β) : (Except.ok a : Except ε α) >>= f = f a := rfl

@[simp] theorem error_bind (failure : ε) (f : α → Except ε β) :
    (Except.error failure : Except ε α) >>= f = .error failure := rfl

@[simp] theorem pure_eq_ok (a : α) : (pure a : Except ε α) = .ok a := rfl

@[simp] theorem okOr_ok {failure : ε} {o : Option α} {a : α} :
    okOr failure o = .ok a ↔ o = some a := by
  cases o <;> simp [okOr]

theorem bind_assoc {γ : Type} (x : Except ε α) (f : α → Except ε β) (g : β → Except ε γ) :
    (x >>= f) >>= g = x >>= fun a => f a >>= g := by
  cases x <;> rfl

/-- Every answer meets `post` and every failure is `allowed`. -/
def Sat (allowed : ε → Prop) (post : α → Prop) : Except ε α → Prop
  | .ok a => post a
  | .error failure => allowed failure

variable {allowed : ε → Prop} {post : α → Prop}

@[simp] theorem sat_ok {a : α} : Sat allowed post (.ok a) ↔ post a := Iff.rfl

@[simp] theorem sat_error {failure : ε} : Sat allowed post (.error failure) ↔ allowed failure := Iff.rfl

theorem Sat.of_ok {x : Except ε α} {a : α} (sat : Sat allowed post x) (answer : x = .ok a) :
    post a := by
  subst answer
  exact sat

theorem Sat.of_error {x : Except ε α} {failure : ε} (sat : Sat allowed post x)
    (failed : x = .error failure) : allowed failure := by
  subst failed
  exact sat

theorem Sat.bind {next : β → Prop} {x : Except ε α} {f : α → Except ε β} (first : Sat allowed post x)
    (second : ∀ a, post a → Sat allowed next (f a)) : Sat allowed next (x >>= f) := by
  cases x with
  | error failure => exact first
  | ok a => exact second a first

theorem Sat.imp {weaker : α → Prop} {x : Except ε α} (sat : Sat allowed post x)
    (implies : ∀ a, post a → weaker a) : Sat allowed weaker x := by
  cases x with
  | error failure => exact sat
  | ok a => exact implies a sat

/-- A computation that only has allowed failures answers what it answers. -/
theorem Sat.self {x : Except ε α} (sat : Sat allowed post x) :
    Sat allowed (fun a => x = .ok a ∧ post a) x := by
  cases x with
  | error failure => exact sat
  | ok a => exact ⟨rfl, sat⟩

theorem sat_okOr {failure : ε} {o : Option α} (fine : o = none → allowed failure) :
    Sat allowed (fun a => o = some a) (okOr failure o) := by
  cases o with
  | none => exact fine rfl
  | some a => exact rfl

/-- The computation answers exactly when `fine`, and then as `post` says. -/
def Decides (fine : Prop) (post : α → Prop) (x : Except ε α) : Prop :=
  (fine → ∃ a, x = .ok a ∧ post a) ∧ (¬fine → ∃ failure, x = .error failure)

variable {fine : Prop}

theorem decides_ok {a : α} (holds : fine) (meets : post a) : Decides fine post (.ok a : Except ε α) :=
  ⟨fun _ => ⟨a, rfl, meets⟩, fun broken => absurd holds broken⟩

theorem Decides.iff {x : Except ε α} (decides : Decides fine post x) : (∃ a, x = .ok a) ↔ fine := by
  constructor
  · rintro ⟨a, answer⟩
    apply Classical.byContradiction
    intro broken
    obtain ⟨failure, failed⟩ := decides.2 broken
    rw [answer] at failed
    cases failed
  · intro holds
    obtain ⟨a, answer, -⟩ := decides.1 holds
    exact ⟨a, answer⟩

theorem Decides.bind {also : Prop} {next : β → Prop} {x : Except ε α} {f : α → Except ε β}
    (first : Decides fine post x) (second : ∀ a, post a → Decides also next (f a)) :
    Decides (fine ∧ also) next (x >>= f) := by
  by_cases holds : fine
  · obtain ⟨a, answer, meets⟩ := first.1 holds
    obtain ⟨answers, fails⟩ := second a meets
    rw [answer, ok_bind]
    exact ⟨fun both => answers both.2, fun broken => fails (fun holds' => broken ⟨holds, holds'⟩)⟩
  · obtain ⟨failure, failed⟩ := first.2 holds
    rw [failed]
    exact ⟨fun both => absurd both.1 holds, fun _ => ⟨failure, rfl⟩⟩

theorem Decides.imp {weaker : α → Prop} {x : Except ε α} (decides : Decides fine post x)
    (implies : ∀ a, post a → weaker a) : Decides fine weaker x := by
  refine ⟨?_, decides.2⟩
  intro holds
  obtain ⟨a, answer, meets⟩ := decides.1 holds
  exact ⟨a, answer, implies a meets⟩

theorem Decides.of_iff {fine' : Prop} {x : Except ε α} (decides : Decides fine' post x) (same : fine ↔ fine') :
    Decides fine post x := by
  rw [same]
  exact decides

theorem decides_okOr (failure : ε) (o : Option α) :
    Decides (o.isSome = true) (fun _ => True) (okOr failure o) := by
  cases o with
  | none => exact ⟨fun none => absurd none (by simp), fun _ => ⟨failure, rfl⟩⟩
  | some a => exact decides_ok rfl trivial

end Outcome

end GasAnalyzer
