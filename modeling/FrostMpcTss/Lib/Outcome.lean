import Mathlib

/-!
# `FrostMpcTss.Lib.Outcome`: what a fallible call leaves behind

A call ends in one of three ways: with a value, with an error it
hands to its caller, or with a panic that unwinds past the caller.
The type keeps the last two apart, because a caller that handles
every error still goes down with a panic.

`bind_eq_ok` is the one rule the proofs peel computations with: a
sequence succeeds exactly when its first part does and the rest
succeeds on its value.
-/

set_option autoImplicit false

namespace FrostMpcTss.Lib

/-- The end of a call that may fail with an error `ε` or panic with
a reason `π`. -/
inductive Outcome (π ε α : Type) where
  | ok (value : α)
  | err (error : ε)
  | panic (why : π)
deriving Repr, DecidableEq

namespace Outcome

variable {π ε α β : Type} {x : Outcome π ε α}

/-- Continue with the value. Errors and panics pass through. -/
protected def bind (x : Outcome π ε α) (f : α → Outcome π ε β) : Outcome π ε β :=
  match x with
  | ok a => f a
  | err e => err e
  | panic w => panic w

instance : Monad (Outcome π ε) where
  pure := ok
  bind := Outcome.bind

@[simp] theorem pure_eq_ok (a : α) : (pure a : Outcome π ε α) = ok a := rfl

@[simp] theorem ok_bind (a : α) (f : α → Outcome π ε β) : (ok a >>= f) = f a := rfl

@[simp] theorem err_bind (e : ε) (f : α → Outcome π ε β) :
    ((err e : Outcome π ε α) >>= f) = err e := rfl

@[simp] theorem panic_bind (w : π) (f : α → Outcome π ε β) :
    ((panic w : Outcome π ε α) >>= f) = panic w := rfl

/-- A sequence ends in a value exactly when both parts do. -/
theorem bind_eq_ok {f : α → Outcome π ε β} {b : β} :
    (x >>= f) = ok b ↔ ∃ a, x = ok a ∧ f a = ok b := by
  cases x with
  | ok a => simp
  | err e => simp
  | panic w => simp

/-- The call unwound. -/
def Panics (x : Outcome π ε α) : Prop := ∃ w, x = panic w

@[simp] theorem not_panics_ok (a : α) : ¬ (ok a : Outcome π ε α).Panics := by
  rintro ⟨w, hw⟩
  cases hw

@[simp] theorem panics_panic (w : π) : (panic w : Outcome π ε α).Panics := ⟨w, rfl⟩

/-- A sequence unwinds in its first part, or in the rest. -/
theorem panics_bind {f : α → Outcome π ε β} :
    (x >>= f).Panics ↔ x.Panics ∨ ∃ a, x = ok a ∧ (f a).Panics := by
  cases x with
  | ok a => simp [Panics]
  | err e => simp [Panics]
  | panic w => simp [Panics]

/-- The call returns a value with the property. -/
def Returns (x : Outcome π ε α) (q : α → Prop) : Prop := ∃ a, x = ok a ∧ q a

theorem not_returns {q : α → Prop} : ¬ x.Returns q ↔ ∀ a, x = ok a → ¬ q a := by
  simp [Returns]

instance {x : Outcome π ε α} {q : α → Prop} [DecidablePred q] : Decidable (x.Returns q) :=
  match x with
  | ok a => decidable_of_iff (q a) ⟨fun h => ⟨a, rfl, h⟩, fun ⟨_, heq, h⟩ => ok.inj heq ▸ h⟩
  | err _ => isFalse (not_returns.mpr fun _ heq => by cases heq)
  | panic _ => isFalse (not_returns.mpr fun _ heq => by cases heq)

/-- An option read as a fallible result. -/
def ofOption (e : ε) : Option α → Outcome π ε α
  | some a => ok a
  | none => err e

@[simp] theorem ofOption_eq_ok {e : ε} {x : Option α} {a : α} :
    (ofOption e x : Outcome π ε α) = ok a ↔ x = some a := by
  cases x <;> simp [ofOption]

theorem not_panics_ofOption (e : ε) (x : Option α) :
    ¬ (ofOption e x : Outcome π ε α).Panics := by
  rintro ⟨w, hw⟩
  cases x <;> cases hw

end Outcome

end FrostMpcTss.Lib
